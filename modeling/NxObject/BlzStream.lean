import NxObject.BlzFinder
import NxObject.Lz

/-!
# The packed region of a BLZ stream

Codes stand in groups of up to eight behind a flag byte whose bits are consumed most significant
first. `pack` writes a sequence of codes, `parse` reads one back; both work in decode order, which is
the reverse of the order the bytes have on disk. A stream keeps only some prefix of what was packed,
possibly ending inside a group, and reading that prefix gives back the codes it holds.
-/
namespace NxObject.Blz
open Lz

def flagShift : UInt8 := 1
def flagMaskInit : UInt8 := 0x80

/-- A code whose fields fit the two bytes of a back-reference. -/
def Encodable : Code UInt8 → Prop
  | .literal _ => True
  | .backRef length distance =>
      minMatch ≤ length ∧ length ≤ maxMatch ∧ minMatch ≤ distance ∧ distance ≤ maxOffset

def flag : Code UInt8 → Bool
  | .literal _ => false
  | .backRef _ _ => true

/-- High nibble of the first byte: the biased length; the remaining 12 bits: the biased distance. -/
def refBytes (biasedLength biasedDistance : ℕ) : UInt8 × UInt8 :=
  (UInt8.ofNat ((biasedLength <<< 4) ||| (biasedDistance >>> 8)),
    UInt8.ofNat (biasedDistance &&& 0xFF))

def refLength (first : UInt8) : ℕ := (first >>> 4).toNat + minMatch

def refDistance (first second : UInt8) : ℕ :=
  (((first &&& 0x0F).toNat <<< 8) ||| second.toNat) + minMatch

def codeBytes : Code UInt8 → Bytes
  | .literal b => [b]
  | .backRef length distance =>
      [(refBytes (length - minMatch) (distance - minMatch)).1,
        (refBytes (length - minMatch) (distance - minMatch)).2]

theorem refBytes_spec {length distance : ℕ} (h : Encodable (.backRef length distance)) :
    refLength (refBytes (length - minMatch) (distance - minMatch)).1 = length ∧
      refDistance (refBytes (length - minMatch) (distance - minMatch)).1
        (refBytes (length - minMatch) (distance - minMatch)).2 = distance := by
  obtain ⟨h₁, h₂, h₃, h₄⟩ := h
  have hm : minMatch = 3 := rfl
  simp only [maxMatch, maxOffset, matchThreshold] at h₂ h₄
  rw [hm] at h₁ h₃ ⊢
  have hd : (distance - 3) / 256 < 2 ^ 4 := by omega
  have hfirst : (refBytes (length - 3) (distance - 3)).1.toNat =
      (length - 3) * 16 + (distance - 3) / 256 := by
    simp only [refBytes, Nat.shiftRight_eq_div_pow]
    rw [← Nat.shiftLeft_add_eq_or_of_lt (by simpa using hd), Nat.shiftLeft_eq]
    simp only [UInt8.toNat_ofNat']
    omega
  have hsecond : (refBytes (length - 3) (distance - 3)).2.toNat = (distance - 3) % 256 := by
    simp only [refBytes, UInt8.toNat_ofNat']
    rw [show (0xFF : ℕ) = 2 ^ 8 - 1 from rfl, Nat.and_two_pow_sub_one_eq_mod]
    omega
  have hlow : ((refBytes (length - 3) (distance - 3)).1 &&& 0x0F).toNat =
      (distance - 3) / 256 := by
    rw [UInt8.toNat_and, hfirst, show (0x0F : UInt8).toNat = 2 ^ 4 - 1 from rfl,
      Nat.and_two_pow_sub_one_eq_mod]
    omega
  constructor
  · rw [refLength, UInt8.toNat_shiftRight, hfirst, Nat.shiftRight_eq_div_pow]
    simp only [minMatch, matchThreshold, show (4 : UInt8).toNat % 8 = 4 from rfl]
    omega
  · rw [refDistance, hlow, hsecond, ← Nat.shiftLeft_add_eq_or_of_lt (by omega), Nat.shiftLeft_eq]
    simp only [minMatch, matchThreshold]
    omega

/-- The bits of a group read as a binary number, first code first. -/
def flagValue (bits : List Bool) : ℕ := bits.foldl (fun v b => 2 * v + b.toNat) 0

/-- The flag byte of a group, its unused low bits clear. -/
def flagByte (group : List (Code UInt8)) : UInt8 :=
  UInt8.ofNat (flagValue (group.map flag) * 2 ^ (8 - group.length))

def pack : List (Code UInt8) → Bytes
  | [] => []
  | c :: cs =>
      flagByte ((c :: cs).take 8) :: ((c :: cs).take 8).flatMap codeBytes ++ pack (cs.drop 7)
  termination_by cs => cs.length
  decreasing_by simp only [List.length_drop, List.length_cons]; omega

def packedSize (codes : List (Code UInt8)) : ℕ :=
  (codes.flatMap codeBytes).length + (codes.length + 7) / 8

/-- Read codes out of a packed region, up to its end or to a back-reference the end cuts short. The
second component is false in the latter case. `flags` and `left` describe the group being read. -/
def parse : UInt8 → ℕ → Bytes → List (Code UInt8) × Bool
  | _, _, [] => ([], true)
  | _, 0, f :: bs => parse f 8 bs
  | flags, left + 1, b :: bs =>
      if flags &&& flagMaskInit = 0 then
        let rest := parse (flags <<< flagShift) left bs
        (.literal b :: rest.1, rest.2)
      else
        match bs with
        | [] => ([], false)
        | b' :: bs =>
            let rest := parse (flags <<< flagShift) left bs
            (.backRef (refLength b) (refDistance b b') :: rest.1, rest.2)

lemma flagValue_cons (b : Bool) (bits : List Bool) :
    flagValue (b :: bits) = b.toNat * 2 ^ bits.length + flagValue bits := by
  suffices h : ∀ v, bits.foldl (fun v b => 2 * v + b.toNat) v = v * 2 ^ bits.length + flagValue bits by
    simpa [flagValue] using h b.toNat
  induction bits with
  | nil => simp [flagValue]
  | cons c bits ih =>
    intro v
    have h₀ := ih (2 * v + c.toNat)
    have h₁ := ih c.toNat
    simp only [flagValue, List.foldl_cons, List.length_cons, pow_succ] at h₀ h₁ ⊢
    rw [h₀, Nat.mul_zero, Nat.zero_add, h₁]
    ring

lemma flagValue_append (bits : List Bool) (b : Bool) :
    flagValue (bits ++ [b]) = 2 * flagValue bits + b.toNat := by
  simp [flagValue]

lemma flagValue_lt (bits : List Bool) : flagValue bits < 2 ^ bits.length := by
  induction bits with
  | nil => simp [flagValue]
  | cons b bits ih =>
    have hb : b.toNat ≤ 1 := Bool.toNat_le b
    rw [flagValue_cons, List.length_cons, pow_succ]
    nlinarith

structure Pending (flags : UInt8) (bits : List Bool) : Prop where
  length_le : bits.length ≤ 8
  value : flags.toNat = flagValue bits * 2 ^ (8 - bits.length)

lemma pending_flagByte (group : List (Code UInt8)) (h : group.length ≤ 8) :
    Pending (flagByte group) (group.map flag) := by
  refine ⟨by simpa using h, ?_⟩
  have hlt := flagValue_lt (group.map flag)
  rw [List.length_map] at hlt
  have hpos : 0 < 2 ^ (8 - group.length) := by positivity
  have hprod : flagValue (group.map flag) * 2 ^ (8 - group.length) < 2 ^ 8 := by
    calc flagValue (group.map flag) * 2 ^ (8 - group.length)
        < 2 ^ group.length * 2 ^ (8 - group.length) := Nat.mul_lt_mul_of_pos_right hlt hpos
      _ = 2 ^ 8 := by rw [← pow_add]; congr 1; omega
  simp only [flagByte, UInt8.toNat_ofNat', List.length_map]
  exact Nat.mod_eq_of_lt hprod

lemma topBit_clear_iff (flags : UInt8) : flags &&& flagMaskInit = 0 ↔ flags.toNat < 128 := by
  revert flags
  decide +kernel

lemma Pending.step {flags : UInt8} {b : Bool} {bits : List Bool} (h : Pending flags (b :: bits)) :
    (flags &&& flagMaskInit = 0 ↔ b = false) ∧ Pending (flags <<< flagShift) bits := by
  obtain ⟨hlen, hval⟩ := h
  rw [List.length_cons] at hlen
  have hpow : 2 ^ bits.length * 2 ^ (8 - (bits.length + 1)) = 128 := by
    rw [← pow_add, show bits.length + (8 - (bits.length + 1)) = 7 by omega]
    norm_num
  have hlow : flagValue bits * 2 ^ (8 - (bits.length + 1)) < 128 := by
    rw [← hpow]
    exact Nat.mul_lt_mul_of_pos_right (flagValue_lt bits) (by positivity)
  have hval' : flags.toNat = b.toNat * 128 + flagValue bits * 2 ^ (8 - (bits.length + 1)) := by
    rw [hval, flagValue_cons, List.length_cons, add_mul, mul_assoc, hpow]
  refine ⟨?_, by omega, ?_⟩
  · rw [topBit_clear_iff, hval']
    generalize flagValue bits * 2 ^ (8 - (bits.length + 1)) = low at hlow
    cases b <;> simp
    omega
  · have hshift : (flags <<< flagShift).toNat = 2 * flags.toNat % 256 := by
      rw [UInt8.toNat_shiftLeft, show flagShift.toNat % 8 = 1 from rfl, Nat.shiftLeft_eq]
      omega
    have htwo : 2 ^ (8 - bits.length) = 2 * 2 ^ (8 - (bits.length + 1)) := by
      rw [← pow_succ']
      congr 1
      omega
    rw [hshift, hval', htwo]
    have hcomm : flagValue bits * (2 * 2 ^ (8 - (bits.length + 1))) =
        2 * (flagValue bits * 2 ^ (8 - (bits.length + 1))) := by ring
    rw [hcomm]
    generalize flagValue bits * 2 ^ (8 - (bits.length + 1)) = low at hlow
    cases b <;> simp <;> omega

lemma parse_literal {flags : UInt8} (h : flags &&& flagMaskInit = 0) (left : ℕ) (b : UInt8)
    (bs : Bytes) : parse flags (left + 1) (b :: bs) =
      (.literal b :: (parse (flags <<< flagShift) left bs).1,
        (parse (flags <<< flagShift) left bs).2) := by
  cases bs <;> simp [parse, h]

lemma parse_backRef {flags : UInt8} (h : flags &&& flagMaskInit ≠ 0) (left : ℕ) (b b' : UInt8)
    (bs : Bytes) : parse flags (left + 1) (b :: b' :: bs) =
      (.backRef (refLength b) (refDistance b b') :: (parse (flags <<< flagShift) left bs).1,
        (parse (flags <<< flagShift) left bs).2) := by
  simp [parse, h]

lemma parse_codes (group : List (Code UInt8)) (henc : ∀ c ∈ group, Encodable c) {flags : UInt8}
    {bits : List Bool} (hp : Pending flags (group.map flag ++ bits)) {left : ℕ}
    (hleft : group.length ≤ left) (rest : Bytes) :
    ∃ flags', Pending flags' bits ∧ parse flags left (group.flatMap codeBytes ++ rest) =
      (group ++ (parse flags' (left - group.length) rest).1,
        (parse flags' (left - group.length) rest).2) := by
  induction group generalizing flags left with
  | nil => exact ⟨flags, by simpa using hp, by simp⟩
  | cons c group ih =>
    obtain ⟨left, rfl⟩ : ∃ n, left = n + 1 := ⟨left - 1, by simp at hleft; omega⟩
    obtain ⟨hbit, hp'⟩ := hp.step
    obtain ⟨flags', hpend, hparse⟩ :=
      ih (fun c hc => henc c (List.mem_cons_of_mem _ hc)) hp' (by simpa using hleft)
    refine ⟨flags', hpend, ?_⟩
    have hsub : left + 1 - (c :: group).length = left - group.length := by simp
    rw [hsub]
    cases c with
    | literal b =>
      simp only [List.flatMap_cons, codeBytes, List.cons_append, List.nil_append]
      rw [parse_literal (hbit.mpr rfl), hparse]
    | backRef length distance =>
      obtain ⟨hl, hd⟩ := refBytes_spec (henc _ List.mem_cons_self)
      have hset : flags &&& flagMaskInit ≠ 0 := fun h => by simpa [flag] using hbit.mp h
      simp only [List.flatMap_cons, codeBytes, List.cons_append, List.nil_append]
      rw [parse_backRef hset, hparse, hl, hd]

lemma pack_length (codes : List (Code UInt8)) : (pack codes).length = packedSize codes := by
  induction codes using pack.induct with
  | case1 => simp [pack, packedSize]
  | case2 c cs ih =>
    have hsplit : (c :: cs).flatMap codeBytes =
        ((c :: cs).take 8).flatMap codeBytes ++ (cs.drop 7).flatMap codeBytes := by
      rw [← List.flatMap_append, show cs.drop 7 = (c :: cs).drop 8 from rfl, List.take_append_drop]
    rw [pack, packedSize, hsplit]
    simp only [List.length_append, List.length_cons, ih, packedSize, List.length_drop]
    omega

lemma take_group {cur : List (Code UInt8)} (later : List (Code UInt8)) (hpos : 0 < cur.length)
    (hcur : cur.length ≤ 8) (rest : Bytes) :
    (flagByte (cur ++ later) :: (cur ++ later).flatMap codeBytes ++ rest).take (packedSize cur) =
      flagByte (cur ++ later) :: cur.flatMap codeBytes := by
  have hsize : packedSize cur = (cur.flatMap codeBytes).length + 1 := by
    rw [packedSize]
    omega
  rw [hsize, List.flatMap_append, List.cons_append, List.take_succ_cons, List.append_assoc, List.take_left]

lemma parse_group {cur : List (Code UInt8)} (later : List (Code UInt8)) (hlen : (cur ++ later).length ≤ 8)
    (henc : ∀ c ∈ cur, Encodable c) (flags : UInt8) (rest : Bytes) :
    ∃ flags', parse flags 0 (flagByte (cur ++ later) :: (cur.flatMap codeBytes ++ rest)) =
      (cur ++ (parse flags' (8 - cur.length) rest).1, (parse flags' (8 - cur.length) rest).2) := by
  have hpend := pending_flagByte (cur ++ later) hlen
  rw [List.map_append] at hpend
  rw [List.length_append] at hlen
  obtain ⟨flags', -, hparse⟩ := parse_codes cur henc hpend (show cur.length ≤ 8 by omega) rest
  exact ⟨flags', by rw [parse, hparse]⟩

lemma parse_take_group {group : List (Code UInt8)} (hlen : group.length ≤ 8)
    (henc : ∀ c ∈ group, Encodable c) {k : ℕ} (hpos : 0 < k) (hk : k ≤ group.length) (flags : UInt8)
    (rest : Bytes) :
    parse flags 0 ((flagByte group :: group.flatMap codeBytes ++ rest).take
      (packedSize (group.take k))) = (group.take k, true) := by
  have hcur : (group.take k).length = k := List.length_take_of_le hk
  have hsplit : group.take k ++ group.drop k = group := List.take_append_drop k group
  have hcut := take_group (group.drop k) (show 0 < (group.take k).length by omega)
    (show (group.take k).length ≤ 8 by omega) rest
  obtain ⟨flags', hparse⟩ := parse_group (group.drop k) (by rwa [hsplit])
    (fun c hc => henc c (List.mem_of_mem_take hc)) flags []
  rw [hsplit] at hcut hparse
  rw [List.append_nil] at hparse
  rw [hcut, hparse]
  simp [parse]

lemma take_pack_group {group later : List (Code UInt8)} (hlen : group.length = 8) (rest : Bytes) :
    (flagByte group :: group.flatMap codeBytes ++ rest).take (packedSize (group ++ later)) =
      flagByte group :: (group.flatMap codeBytes ++ rest.take (packedSize later)) := by
  have hsize : packedSize (group ++ later) = ((group.flatMap codeBytes).length + 1) + packedSize later := by
    simp only [packedSize, List.flatMap_append, List.length_append, hlen]
    omega
  have hfirst : (flagByte group :: group.flatMap codeBytes).length =
      (group.flatMap codeBytes).length + 1 := rfl
  rw [hsize, ← hfirst, List.take_length_add_append]
  rfl

theorem parse_pack_take (codes : List (Code UInt8)) (henc : ∀ c ∈ codes, Encodable c) (k : ℕ)
    (hk : k ≤ codes.length) (flags : UInt8) :
    parse flags 0 ((pack codes).take (packedSize (codes.take k))) = (codes.take k, true) := by
  induction codes using pack.induct generalizing k flags with
  | case1 => simp [pack, parse]
  | case2 c cs ih =>
    rcases Nat.eq_zero_or_pos k with rfl | hpos
    · simp [packedSize, parse]
    set group := (c :: cs).take 8 with hgroup
    have hglen : group.length = min 8 (cs.length + 1) := by rw [hgroup, List.length_take, List.length_cons]
    have hgenc : ∀ c ∈ group, Encodable c := fun c hc => henc c (List.mem_of_mem_take hc)
    rw [List.length_cons] at hk
    rw [pack, ← hgroup]
    by_cases h8 : k ≤ 8
    · have htake : (c :: cs).take k = group.take k := by
        rw [hgroup, List.take_take, Nat.min_eq_left h8]
      rw [htake]
      exact parse_take_group (by omega) hgenc hpos (by omega) flags _
    · -- the prefix holds the whole first group
      have hgl : group.length = 8 := by omega
      have htake : (c :: cs).take k = group ++ (cs.drop 7).take (k - 8) := by
        conv_lhs => rw [show k = 8 + (k - 8) by omega, List.take_add]
        rfl
      obtain ⟨flags', hparse⟩ := parse_group [] (by rw [List.append_nil]; omega) hgenc flags
        ((pack (cs.drop 7)).take (packedSize ((cs.drop 7).take (k - 8))))
      have hih := ih (fun c hc => henc c (List.mem_cons_of_mem _ (List.mem_of_mem_drop hc)))
        (k - 8) (by rw [List.length_drop]; omega) flags'
      rw [List.append_nil, hgl, Nat.sub_self, hih] at hparse
      rw [htake, take_pack_group hgl, hparse]

end NxObject.Blz
