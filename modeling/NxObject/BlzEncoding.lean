import NxObject.BlzEncoder

/-!
# What the encoding loop keeps

After any number of turns the encoder has emitted some codes: they stand for the input read so far,
their packed form fills the written part of the output up to the open flag byte, and the recorded
split is the cheapest code boundary so far.
-/
namespace NxObject.Blz
open Outcome Lz
variable {ε : Type}

lemma pack_append (done cur : List (Code UInt8)) (h : done.length % 8 = 0) :
    pack (done ++ cur) = pack done ++ pack cur := by
  induction done using pack.induct with
  | case1 => simp [pack]
  | case2 c cs ih =>
    have hlen : 7 ≤ cs.length := by simp only [List.length_cons] at h; omega
    have htake : (c :: (cs ++ cur)).take 8 = (c :: cs).take 8 := by
      simp only [List.take_succ_cons, List.take_append_of_le_length hlen]
    have hdrop : (cs ++ cur).drop 7 = cs.drop 7 ++ cur := List.drop_append_of_le_length hlen
    rw [List.cons_append, pack, pack, htake, hdrop, ih (by simp at h ⊢; omega)]
    simp

lemma pack_group {cur : List (Code UInt8)} (hne : cur ≠ []) (h : cur.length ≤ 8) :
    pack cur = flagByte cur :: cur.flatMap codeBytes := by
  obtain ⟨c, cs, rfl⟩ := List.exists_cons_of_ne_nil hne
  have hcs : cs.length ≤ 7 := by simp only [List.length_cons] at h; omega
  rw [pack, List.take_of_length_le h, List.drop_of_length_le hcs]
  simp [pack]

/-- Packing never costs more than one byte a code read, and a flag byte every eight codes. -/
lemma packedSize_le {codes : List (Code UInt8)} (henc : ∀ c ∈ codes, Encodable c) :
    (codes.flatMap codeBytes).length ≤ produced codes ∧ codes.length ≤ produced codes := by
  induction codes with
  | nil => simp
  | cons c cs ih =>
    obtain ⟨h₁, h₂⟩ := ih fun c hc => henc c (List.mem_cons_of_mem _ hc)
    have hc : (codeBytes c).length ≤ c.produced ∧ 1 ≤ c.produced := by
      cases c with
      | literal b => simp [codeBytes, Code.produced]
      | backRef length distance =>
        have hm := (henc _ List.mem_cons_self).1
        simp only [minMatch, matchThreshold] at hm
        simp only [codeBytes, Code.produced, List.length_cons, List.length_nil]
        omega
    simp only [List.flatMap_cons, List.length_append, produced_cons, List.length_cons]
    omega

/-- Bytes a stream needs when it keeps the first `i` codes packed and the rest of the input raw. -/
def splitCost (len : ℕ) (codes : List (Code UInt8)) (i : ℕ) : ℕ :=
  packedSize (codes.take i) + (len - produced (codes.take i))

/-- The output while a group is open: whole groups, then a flag byte holding the bits so far, then
the codes of the open group. -/
structure Writing (s : Encoder) (done cur : List (Code UInt8)) : Prop where
  full : done.length % 8 = 0
  flagPos : s.flagPos = (pack done).length
  writePos : s.writePos = (pack done).length + 1 + (cur.flatMap codeBytes).length
  output : ∃ rest, s.output = pack done ++
    UInt8.ofNat (flagValue (cur.map flag)) :: (cur.flatMap codeBytes ++ rest)

/-- Between two turns of the loop: nothing written yet, or a group of one to eight codes open. -/
def Grouped (s : Encoder) (codes : List (Code UInt8)) : Prop :=
  (codes = [] ∧ s.mask = 0 ∧ s.writePos = 0) ∨
    ∃ done cur, codes = done ++ cur ∧ cur ≠ [] ∧ cur.length ≤ 8 ∧ Writing s done cur ∧
      s.mask.toNat * 2 ^ cur.length = 256

lemma length_flatMap_le_pack {cur : List (Code UInt8)} (h : cur.length ≤ 8) :
    (cur.flatMap codeBytes).length ≤ (pack cur).length := by
  cases cur with
  | nil => simp
  | cons c cs =>
    rw [pack_group (by simp) h]
    exact Nat.le_succ _

/-- The group in progress does not depend on the best split so far. -/
lemma Grouped.track {s : Encoder} {codes : List (Code UInt8)} (h : Grouped s codes) (p r : ℕ) :
    Grouped { s with bestPacked := p, bestRemaining := r } codes := by
  rcases h with ⟨hnil, hmask, hpos⟩ | ⟨done, cur, hcodes, hne, hlen, hw, hmask⟩
  · exact Or.inl ⟨hnil, hmask, hpos⟩
  · exact Or.inr ⟨done, cur, hcodes, hne, hlen, ⟨hw.full, hw.flagPos, hw.writePos, hw.output⟩, hmask⟩

lemma Grouped.writePos_eq {s : Encoder} {codes : List (Code UInt8)} (h : Grouped s codes) :
    s.writePos = packedSize codes := by
  rcases h with ⟨rfl, _, hw⟩ | ⟨done, cur, rfl, hne, hlen, hw, _⟩
  · simp [hw, packedSize]
  · rw [← pack_length, pack_append done cur hw.full, pack_group hne hlen, hw.writePos]
    simp only [List.length_append, List.length_cons]
    omega

/-- The recorded split is a code boundary and no boundary is cheaper. -/
def BestSplit (len : ℕ) (s : Encoder) (codes : List (Code UInt8)) : Prop :=
  ∃ split ≤ codes.length, s.bestPacked = packedSize (codes.take split) ∧
    s.bestRemaining + produced (codes.take split) = len ∧
    ∀ i ≤ codes.length, s.bestPacked + s.bestRemaining ≤ splitCost len codes i

lemma BestSplit.congr {len : ℕ} {s s' : Encoder} {codes : List (Code UInt8)} (h : BestSplit len s codes)
    (hpacked : s'.bestPacked = s.bestPacked) (hremaining : s'.bestRemaining = s.bestRemaining) :
    BestSplit len s' codes := by
  rwa [BestSplit, hpacked, hremaining]

/-- The loop invariant. -/
structure Encoding (input : Bytes) (s : Encoder) (codes : List (Code UInt8)) : Prop where
  encodable : ∀ c ∈ codes, Encodable c
  expands : expand [] codes = some (input.take s.readPos)
  readPos_le : s.readPos ≤ input.length
  grouped : Grouped s codes
  buffer : s.output.length = worstCaseLen input.length
  best : BestSplit input.length s codes

lemma Encoding.produced_eq {input : Bytes} {s : Encoder} {codes : List (Code UInt8)}
    (h : Encoding input s codes) : produced codes = s.readPos := by
  have hl := expand_length h.expands
  have hr := h.readPos_le
  simp only [List.length_take, List.length_nil, Nat.zero_add] at hl
  omega

lemma Encoding.room {input : Bytes} {s : Encoder} {codes : List (Code UInt8)}
    (h : Encoding input s codes) : s.writePos + 15 ≤ s.output.length := by
  have hp := h.produced_eq
  have hr := h.readPos_le
  obtain ⟨h₁, h₂⟩ := packedSize_le h.encodable
  rw [h.grouped.writePos_eq, h.buffer, packedSize, worstCaseLen]
  omega

lemma shift_mask (mask : UInt8) : (mask >>> flagShift).toNat = mask.toNat / 2 := by
  rw [UInt8.toNat_shiftRight, show flagShift.toNat % 8 = 1 from rfl, Nat.shiftRight_eq_div_pow]

/-- The mask is the one bit that as many bits as there are codes in the group stand above. -/
lemma mask_eq {mask : UInt8} {k : ℕ} (hm : mask.toNat * 2 ^ k = 256) (hk : k ≤ 8) :
    mask.toNat = 2 ^ (8 - k) := by
  apply Nat.eq_of_mul_eq_mul_right (Nat.two_pow_pos k)
  rw [hm, ← pow_add, Nat.sub_add_cancel hk]
  rfl

lemma openFlag_new {s : Encoder} {codes : List (Code UInt8)} (hfull : codes.length % 8 = 0)
    (hmask : s.mask.toNat < 2) (hout : ∃ rest, s.output = pack codes ++ rest)
    (hpos : s.writePos = (pack codes).length) (hroom : s.writePos < s.output.length) :
    ∃ output, (openFlag s : Outcome ε Encoder) = ok { s with
        output, mask := flagMaskInit, flagPos := s.writePos, writePos := s.writePos + 1 } ∧
      Writing { s with output, mask := flagMaskInit, flagPos := s.writePos, writePos := s.writePos + 1 }
        codes [] ∧ output.length = s.output.length := by
  obtain ⟨rest, hout⟩ := hout
  have hne : rest ≠ [] := by
    rintro rfl
    rw [hout, List.append_nil] at hroom
    omega
  obtain ⟨r, rest, rfl⟩ := List.exists_cons_of_ne_nil hne
  have hz : s.mask >>> flagShift = 0 := by
    apply UInt8.toNat_inj.mp
    rw [shift_mask, Nat.div_eq_of_lt hmask]
    rfl
  refine ⟨pack codes ++ 0 :: rest, ?_, ⟨hfull, hpos, by simp [hpos], rest, ?_⟩, by simp [hout]⟩
  · simp only [openFlag, if_pos hz, hout, write_append _ _ hpos, ok_bind, pure_eq]
  · simp [flagValue]

lemma openFlag_shift {s : Encoder} {k : ℕ} (hk : k < 8) (hm : s.mask.toNat * 2 ^ k = 256) :
    (openFlag s : Outcome ε Encoder) = ok { s with mask := s.mask >>> flagShift } ∧
      (s.mask >>> flagShift).toNat * 2 ^ (k + 1) = 256 := by
  have hshift : (s.mask >>> flagShift).toNat = 2 ^ (7 - k) := by
    rw [shift_mask, mask_eq hm hk.le, show 8 - k = 7 - k + 1 by omega, pow_succ,
      Nat.mul_div_cancel _ two_pos]
  have hne : s.mask >>> flagShift ≠ 0 := by
    intro hz
    rw [hz] at hshift
    exact (Nat.two_pow_pos (7 - k)).ne hshift
  constructor
  · simp only [openFlag, if_neg hne, pure_eq]
  · rw [hshift, ← pow_add, show 7 - k + (k + 1) = 8 by omega]
    rfl

lemma openFlag_spec {s : Encoder} {codes : List (Code UInt8)} (h : Grouped s codes)
    (hroom : s.writePos < s.output.length) :
    ∃ s' done cur, (openFlag s : Outcome ε Encoder) = ok s' ∧ codes = done ++ cur ∧
      cur.length < 8 ∧ Writing s' done cur ∧ s'.mask.toNat * 2 ^ (cur.length + 1) = 256 ∧
      s'.readPos = s.readPos ∧ s'.bestPacked = s.bestPacked ∧
      s'.bestRemaining = s.bestRemaining ∧ s'.output.length = s.output.length := by
  have hpos := h.writePos_eq
  rw [← pack_length] at hpos
  rcases h with ⟨rfl, hm, hw⟩ | ⟨done, cur, rfl, hne, hlen, hw, hm⟩
  · -- the first turn opens the first group
    have hmask : s.mask.toNat < 2 := by
      rw [hm]
      decide
    obtain ⟨output, hopen, hw', hl⟩ := openFlag_new (ε := ε) rfl hmask ⟨s.output, by simp [pack]⟩ hpos hroom
    exact ⟨_, [], [], hopen, rfl, by simp, hw', rfl, rfl, rfl, rfl, hl⟩
  · by_cases h8 : cur.length = 8
    · -- the open group is full: it is complete as it stands, and a new one opens behind it
      have hmask : s.mask.toNat < 2 := by
        rw [mask_eq hm hlen, h8]
        decide
      have hfull : (done ++ cur).length % 8 = 0 := by
        rw [List.length_append, h8, Nat.add_mod_right]
        exact hw.full
      have hout : ∃ rest, s.output = pack (done ++ cur) ++ rest := by
        obtain ⟨rest, hout⟩ := hw.output
        refine ⟨rest, ?_⟩
        rw [hout, pack_append done cur hw.full, pack_group hne hlen, flagByte, h8]
        simp
      obtain ⟨output, hopen, hw', hl⟩ := openFlag_new (ε := ε) hfull hmask hout hpos hroom
      exact ⟨_, done ++ cur, [], hopen, (List.append_nil _).symm, by simp, hw', rfl, rfl, rfl, rfl, hl⟩
    · have hlt : cur.length < 8 := by omega
      obtain ⟨hopen, hmask⟩ := openFlag_shift (ε := ε) hlt hm
      exact ⟨_, done, cur, hopen, rfl, hlt, ⟨hw.full, hw.flagPos, hw.writePos, hw.output⟩, hmask, rfl, rfl,
        rfl, rfl⟩

/-- Writing the first bit and then shifting in more reads as the same binary number. -/
lemma ofNat_flagValue_append (bits : List Bool) (b : Bool) :
    UInt8.ofNat (flagValue (bits ++ [b])) =
      UInt8.ofNat (flagValue bits) <<< 1 ||| UInt8.ofNat b.toNat := by
  apply UInt8.toNat_inj.mp
  rw [flagValue_append, UInt8.toNat_or, UInt8.toNat_shiftLeft, show (1 : UInt8).toNat % 8 = 1 from rfl]
  simp only [UInt8.toNat_ofNat']
  have hb : b.toNat < 2 ^ 1 := by cases b <;> simp
  have heven : (flagValue bits % 2 ^ 8) <<< 1 % 2 ^ 8 = (flagValue bits % 2 ^ 7) <<< 1 := by
    simp only [Nat.shiftLeft_eq]
    omega
  rw [heven, Nat.mod_eq_of_lt (show b.toNat < 2 ^ 8 by omega), ← Nat.shiftLeft_add_eq_or_of_lt hb,
    Nat.shiftLeft_eq]
  omega

lemma emitCode_literal (input : Bytes) {s : Encoder} {done cur : List (Code UInt8)}
    (hw : Writing s done cur) (hroom : s.writePos < s.output.length) {b : UInt8}
    (hb : input[s.readPos]? = some b) {matchLen : ℕ} (hlen : ¬ matchThreshold < matchLen)
    (matchOffset : ℕ) :
    ∃ output, (emitCode input s matchLen matchOffset : Outcome ε Encoder) =
        ok { s with output, readPos := s.readPos + 1, writePos := s.writePos + 1 } ∧
      Writing { s with output, readPos := s.readPos + 1, writePos := s.writePos + 1 } done
        (cur ++ [.literal b]) ∧ output.length = s.output.length := by
  obtain ⟨rest, hout⟩ := hw.output
  have hpos := hw.writePos
  have hne : rest ≠ [] := by
    rintro rfl
    rw [hout] at hroom
    simp only [List.length_append, List.length_cons, List.append_nil] at hroom
    omega
  obtain ⟨r, rest, rfl⟩ := List.exists_cons_of_ne_nil hne
  set flags := UInt8.ofNat (flagValue (cur.map flag)) with hflags
  have hbits : UInt8.ofNat (flagValue ((cur ++ [Code.literal b]).map flag)) = flags <<< 1 := by
    rw [List.map_append, List.map_singleton, ofNat_flagValue_append, ← hflags]
    simp [flag]
  refine ⟨pack done ++ (flags <<< 1) :: (cur.flatMap codeBytes ++ b :: rest), ?_,
    ⟨hw.full, hw.flagPos, ?_, rest, ?_⟩, by simp [hout]⟩
  · have hw₂ : (write (pack done ++ (flags <<< 1) :: (cur.flatMap codeBytes ++ r :: rest)) s.writePos b
        : Outcome ε Bytes) = ok (pack done ++ (flags <<< 1) :: (cur.flatMap codeBytes ++ b :: rest)) := by
      have h := write_append (ε := ε) (pack done ++ (flags <<< 1) :: cur.flatMap codeBytes) rest
        (show s.writePos = _ by simp [hpos]; omega) r b
      simpa using h
    simp only [emitCode, hout, index_append hw.flagPos, write_append _ _ hw.flagPos, ok_bind,
      if_neg hlen, index_of_getElem? hb, hw₂, pure_eq]
  · simp [hpos, codeBytes]
    omega
  · rw [hbits]
    simp [codeBytes]

lemma emitCode_backRef (input : Bytes) {s : Encoder} {done cur : List (Code UInt8)}
    (hw : Writing s done cur) (hroom : s.writePos + 1 < s.output.length) {matchLen matchOffset : ℕ}
    (henc : Encodable (.backRef matchLen matchOffset)) :
    ∃ output, (emitCode input s matchLen matchOffset : Outcome ε Encoder) =
        ok { s with output, readPos := s.readPos + matchLen, writePos := s.writePos + 2 } ∧
      Writing { s with output, readPos := s.readPos + matchLen, writePos := s.writePos + 2 } done
        (cur ++ [.backRef matchLen matchOffset]) ∧ output.length = s.output.length := by
  obtain ⟨rest, hout⟩ := hw.output
  have hpos := hw.writePos
  have htwo : 2 ≤ rest.length := by
    rw [hout] at hroom
    simp only [List.length_append, List.length_cons] at hroom
    omega
  obtain ⟨r, r', rest, rfl⟩ : ∃ r r' rest', rest = r :: r' :: rest' := by
    match rest, htwo with
    | r :: r' :: rest', _ => exact ⟨r, r', rest', rfl⟩
  obtain ⟨h₁, _, h₃, _⟩ := henc
  have hthr : matchThreshold < matchLen := h₁
  set flags := UInt8.ofNat (flagValue (cur.map flag)) with hflags
  set bytes := refBytes (matchLen - minMatch) (matchOffset - minMatch) with hbytes
  have hbits : UInt8.ofNat (flagValue ((cur ++ [Code.backRef matchLen matchOffset]).map flag)) =
      (flags <<< 1) ||| 1 := by
    rw [List.map_append, List.map_singleton, ofNat_flagValue_append, ← hflags]
    rfl
  refine ⟨pack done ++ ((flags <<< 1) ||| 1) :: (cur.flatMap codeBytes ++ bytes.1 :: bytes.2 :: rest),
    ?_, ⟨hw.full, hw.flagPos, ?_, rest, ?_⟩, by simp [hout]⟩
  · have hw₂ : (write (pack done ++ ((flags <<< 1) ||| 1) :: (cur.flatMap codeBytes ++ r :: r' :: rest))
        s.writePos bytes.1 : Outcome ε Bytes) =
        ok (pack done ++ ((flags <<< 1) ||| 1) :: (cur.flatMap codeBytes ++ bytes.1 :: r' :: rest)) := by
      have h := write_append (ε := ε)
        (pack done ++ ((flags <<< 1) ||| 1) :: cur.flatMap codeBytes)
        (r' :: rest) (show s.writePos = _ by simp [hpos]; omega) r bytes.1
      simpa using h
    have hw₃ : (write (pack done ++ ((flags <<< 1) ||| 1) ::
        (cur.flatMap codeBytes ++ bytes.1 :: r' :: rest)) (s.writePos + 1) bytes.2 : Outcome ε Bytes) =
        ok (pack done ++ ((flags <<< 1) ||| 1) ::
          (cur.flatMap codeBytes ++ bytes.1 :: bytes.2 :: rest)) := by
      have h := write_append (ε := ε)
        (pack done ++ ((flags <<< 1) ||| 1) :: (cur.flatMap codeBytes ++ [bytes.1]))
        rest (show s.writePos + 1 = _ by simp [hpos]; omega) r' bytes.2
      simpa using h
    simp only [emitCode, hout, index_append hw.flagPos, write_append _ _ hw.flagPos, ok_bind,
      if_pos hthr, sub_of_le (show matchThreshold + 1 ≤ matchLen from h₁),
      sub_of_le (show 3 ≤ matchOffset from h₃)]
    rw [show matchLen - (matchThreshold + 1) = matchLen - minMatch from rfl,
      show matchOffset - 3 = matchOffset - minMatch from rfl, ← hbytes, hw₂, ok_bind, hw₃]
    rfl
  · simp [hpos, codeBytes]
    omega
  · rw [hbits]
    simp [codeBytes, ← hbytes]

lemma lazyLength_spec {finder : MatchFinder} (hf : finder.WellLinked) (len readPos matchLen : ℕ) :
    ∃ n, (lazyLength finder len readPos matchLen : Outcome ε ℕ) = ok n ∧ (n = matchLen ∨ n = 1) := by
  by_cases hc : matchThreshold < matchLen ∧ readPos + matchLen < len
  · obtain ⟨nextLen, _, hnext, _⟩ := longestMatch_spec (ε := ε) hf (readPos + matchLen)
    obtain ⟨postLen, _, hpost, _⟩ :=
      longestMatch_spec (ε := ε) hf (readPos + matchLen - (matchLen - 1))
    simp only [lazyLength, if_pos hc, hnext, ok_bind, hpost, pure_eq,
      sub_of_le (show matchLen - 1 ≤ readPos + matchLen by omega)]
    refine ⟨_, rfl, ?_⟩
    split_ifs <;> simp
  · exact ⟨matchLen, by simp [lazyLength, if_neg hc], Or.inl rfl⟩

lemma trackBest_spec {len : ℕ} {s : Encoder} {codes : List (Code UInt8)} {c : Code UInt8}
    (hbest : BestSplit len s codes) (hw : s.writePos = packedSize (codes ++ [c]))
    (hr : s.readPos = produced (codes ++ [c])) (hle : s.readPos ≤ len) :
    ∃ p r, (trackBest len s : Outcome ε Encoder) = ok { s with bestPacked := p, bestRemaining := r } ∧
      BestSplit len { s with bestPacked := p, bestRemaining := r } (codes ++ [c]) := by
  obtain ⟨split, hsplit, hp, hrem, hmin⟩ := hbest
  have hlast : splitCost len (codes ++ [c]) (codes.length + 1) = s.writePos + (len - s.readPos) := by
    rw [splitCost, List.take_of_length_le (by simp), hw, hr]
  have hearlier : ∀ i ≤ codes.length, splitCost len (codes ++ [c]) i = splitCost len codes i :=
    fun i hi => by rw [splitCost, splitCost, List.take_append_of_le_length hi]
  have hcases : ∀ i ≤ (codes ++ [c]).length, i ≤ codes.length ∨ i = codes.length + 1 := by
    intro i hi
    simp only [List.length_append, List.length_singleton] at hi
    omega
  by_cases hlt : s.writePos + len - s.readPos < s.bestPacked + s.bestRemaining
  · refine ⟨s.writePos, len - s.readPos, ?_, codes.length + 1, by simp, ?_, ?_, ?_⟩
    · simp only [trackBest, sub_of_le (show s.readPos ≤ s.writePos + len by omega), ok_bind,
        if_pos hlt, sub_of_le hle, pure_eq]
    · rw [List.take_of_length_le (by simp)]
      exact hw
    · rw [List.take_of_length_le (by simp), ← hr]
      exact Nat.sub_add_cancel hle
    · intro i hi
      rcases hcases i hi with hi | rfl
      · rw [hearlier i hi]
        have := hmin i hi
        change s.writePos + (len - s.readPos) ≤ _
        omega
      · rw [hlast]
  · refine ⟨s.bestPacked, s.bestRemaining, ?_, split, by simp; omega, ?_, ?_, ?_⟩
    · simp only [trackBest, sub_of_le (show s.readPos ≤ s.writePos + len by omega), ok_bind,
        if_neg hlt, pure_eq]
    · rw [List.take_append_of_le_length hsplit]
      exact hp
    · rw [List.take_append_of_le_length hsplit]
      exact hrem
    · intro i hi
      rcases hcases i hi with hi | rfl
      · rw [hearlier i hi]
        exact hmin i hi
      · rw [hlast]
        change s.bestPacked + s.bestRemaining ≤ _
        omega

lemma emitCode_spec {input : Bytes} {s : Encoder} {codes done cur : List (Code UInt8)}
    (hw : Writing s done cur)
    (hroom : s.writePos + 1 < s.output.length) (hread : s.readPos < input.length)
    (hexp : expand [] codes = some (input.take s.readPos)) {n m offset : ℕ}
    (hfound : Found input s.readPos n offset) (hm : m = n ∨ m = 1) :
    ∃ s' c, (emitCode input s m offset : Outcome ε Encoder) = ok s' ∧ Encodable c ∧
      Writing s' done (cur ++ [c]) ∧ s'.mask = s.mask ∧ s.readPos < s'.readPos ∧
      s'.readPos ≤ input.length ∧ expand [] (codes ++ [c]) = some (input.take s'.readPos) ∧
      s'.output.length = s.output.length ∧ s'.bestPacked = s.bestPacked ∧
      s'.bestRemaining = s.bestRemaining := by
  by_cases hlen : matchThreshold < m
  · obtain rfl : m = n := hm.resolve_right (by rintro rfl; simp [matchThreshold] at hlen)
    have hmatch : IsMatch input s.readPos m offset :=
      hfound.resolve_left fun h => by rw [h.1] at hlen; exact lt_irrefl _ hlen
    have henc : Encodable (.backRef m offset) :=
      ⟨hmatch.min_le_len, hmatch.len_le_max, hmatch.min_le_offset, hmatch.offset_le_max⟩
    obtain ⟨output, hemit, hw', hl⟩ := emitCode_backRef (ε := ε) input hw hroom henc
    have hone : 1 ≤ offset := le_trans (by simp [minMatch, matchThreshold]) hmatch.min_le_offset
    refine ⟨_, _, hemit, henc, hw', rfl, ?_, hmatch.in_range, ?_, hl, rfl, rfl⟩
    · change s.readPos < s.readPos + m
      omega
    · exact expand_backRef hexp hone hmatch.offset_le_pos hmatch.in_range hmatch.agree
  · have hb := List.getElem?_eq_getElem hread
    obtain ⟨output, hemit, hw', hl⟩ := emitCode_literal (ε := ε) input hw
      (by omega) hb hlen offset
    exact ⟨_, .literal input[s.readPos], hemit, trivial, hw', rfl, Nat.lt_succ_self _, hread,
      expand_literal hexp hb, hl, rfl, rfl⟩

/-- One turn of the loop emits one code and reads at least one byte. -/
theorem encodeStep_spec {finder : MatchFinder} (hf : finder.WellLinked) {s : Encoder}
    {codes : List (Code UInt8)} (h : Encoding finder.data s codes)
    (hread : s.readPos < finder.data.length) :
    ∃ s' c, (encodeStep finder finder.data s : Outcome ε Encoder) = ok s' ∧
      Encoding finder.data s' (codes ++ [c]) ∧ s.readPos < s'.readPos := by
  have hroom := h.room
  obtain ⟨s₁, done, cur, hopen, hcodes, hcur, hw, hmask, hr₁, hp₁, hb₁, hl₁⟩ :=
    openFlag_spec (ε := ε) h.grouped (by omega)
  have hroom₁ : s₁.writePos + 1 < s₁.output.length := by
    have hsize := h.grouped.writePos_eq
    rw [hcodes, ← pack_length, pack_append done cur hw.full] at hsize
    have hgroup := length_flatMap_le_pack hcur.le
    rw [hw.writePos, hl₁]
    simp only [List.length_append] at hsize
    omega
  obtain ⟨n, offset, hlm, hfound⟩ := longestMatch_spec (ε := ε) hf s₁.readPos
  obtain ⟨m, hlazy, hm⟩ := lazyLength_spec (ε := ε) hf finder.data.length s₁.readPos n
  obtain ⟨s₂, c, hemit, henc, hw₂, hm₂, hlt₂, hle₂, hexp₂, hl₂, hp₂, hb₂⟩ :=
    emitCode_spec (ε := ε) hw hroom₁ (by omega) (by rw [hr₁]; exact h.expands) hfound hm
  have hgrouped : Grouped s₂ (codes ++ [c]) :=
    Or.inr ⟨done, cur ++ [c], by simp [hcodes], by simp, by simp; omega, hw₂, by
      rw [hm₂, List.length_append]
      exact hmask⟩
  have hproduced : s₂.readPos = produced (codes ++ [c]) := by
    have := expand_length hexp₂
    simp only [List.length_take, List.length_nil, Nat.zero_add] at this
    omega
  have hbest : BestSplit finder.data.length s₂ codes := h.best.congr (hp₂.trans hp₁) (hb₂.trans hb₁)
  obtain ⟨p, r, htrack, hbest'⟩ :=
    trackBest_spec (ε := ε) hbest hgrouped.writePos_eq hproduced hle₂
  refine ⟨{ s₂ with bestPacked := p, bestRemaining := r }, c, ?_,
    ⟨?_, hexp₂, hle₂, hgrouped.track p r, ?_, hbest'⟩, ?_⟩
  · simp only [encodeStep, hopen, ok_bind, hlm, hlazy, hemit, htrack]
  · intro c' hc'
    rcases List.mem_append.mp hc' with hc' | hc'
    · exact h.encodable c' hc'
    · rw [List.mem_singleton.mp hc']
      exact henc
  · change s₂.output.length = _
    rw [hl₂, hl₁]
    exact h.buffer
  · change s.readPos < s₂.readPos
    omega

/-- The whole loop: it never panics and never runs out of turns, and it reads all of its input. -/
theorem encodeLoop_spec {finder : MatchFinder} (hf : finder.WellLinked) (fuel : ℕ) {s : Encoder}
    {codes : List (Code UInt8)} (h : Encoding finder.data s codes)
    (hfuel : finder.data.length ≤ s.readPos + fuel) :
    ∃ s' codes', (encodeLoop finder finder.data fuel s : Outcome ε Encoder) = ok s' ∧
      Encoding finder.data s' codes' ∧ s'.readPos = finder.data.length := by
  induction fuel generalizing s codes with
  | zero =>
    have := h.readPos_le
    exact ⟨s, codes, by simp [encodeLoop]; omega, h, by omega⟩
  | succ fuel ih =>
    by_cases hread : s.readPos < finder.data.length
    · obtain ⟨s₁, c, hstep, h₁, hlt⟩ := encodeStep_spec (ε := ε) hf h hread
      obtain ⟨s', codes', hloop, h', hend⟩ := ih h₁ (by omega)
      exact ⟨s', codes', by simp only [encodeLoop, if_pos hread, hstep, ok_bind, hloop], h', hend⟩
    · have := h.readPos_le
      exact ⟨s, codes, by simp [encodeLoop, hread], h, by omega⟩

end NxObject.Blz
