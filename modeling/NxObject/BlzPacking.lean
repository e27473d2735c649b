import NxObject.BlzEncoding

/-!
# The stream the encoder emits

`compress` never panics on an input shorter than `u32::MAX`. What it emits is either the input stored
verbatim or a `Packing`: a code boundary of some encoding of the reversed input, chosen so that no
boundary is cheaper, and cheap enough that the trailer fits into the bytes it saves.
-/
namespace NxObject.Blz
open Outcome Lz
variable {ε : Type}

/-- Bytes up to the next multiple of four. -/
def padding (n : ℕ) : ℕ := (4 - n % 4) % 4

lemma and_three (n : ℕ) : n &&& 3 = n % 4 := Nat.and_two_pow_sub_one_eq_mod n 2

lemma packedHeaderSize_eq (n : ℕ) : packedHeaderSize n = footerSize + padding n := by
  rw [packedHeaderSize, wrappingNeg, and_three, padding]
  omega

/-- The bytes of a stored stream. -/
def storedStream (data : Bytes) : Bytes :=
  data ++ List.replicate (padding data.length) 0 ++ toLe 4 0

/-- A layout that keeps the first `split` codes packed and the rest of the input raw. -/
structure Packing (data : Bytes) where
  codes : List (Code UInt8)
  split : ℕ
  split_le : split ≤ codes.length
  encodable : ∀ c ∈ codes, Encodable c
  expands : expand [] codes = some data.reverse
  cheapest : ∀ i ≤ codes.length, splitCost data.length codes split ≤ splitCost data.length codes i
  saves : splitCost data.length codes split +
    packedHeaderSize (splitCost data.length codes split) < data.length

namespace Packing
variable {data : Bytes} (p : Packing data)

/-- The packed bytes that are kept, in decode order. -/
def packed : Bytes := (pack p.codes).take (packedSize (p.codes.take p.split))

/-- Length of the raw prefix. -/
def remaining : ℕ := data.length - produced (p.codes.take p.split)

def headerSize : ℕ := packedHeaderSize (p.remaining + p.packed.length)

def footer : Footer where
  encLen := p.packed.length + p.headerSize
  headerSize := p.headerSize
  extraLen := data.length - p.packed.length - p.remaining - p.headerSize

def stream : Bytes :=
  data.take p.remaining ++ p.packed.reverse ++
    List.replicate (padding (p.remaining + p.packed.length)) 0xFF ++ p.footer.asBytes

end Packing

lemma packedSize_take_le (codes : List (Code UInt8)) (k : ℕ) :
    packedSize (codes.take k) ≤ packedSize codes := by
  have hf : codes.flatMap codeBytes =
      (codes.take k).flatMap codeBytes ++ (codes.drop k).flatMap codeBytes := by
    rw [← List.flatMap_append, List.take_append_drop]
  simp only [packedSize, hf, List.length_append, List.length_take]
  omega

lemma produced_take_le {codes : List (Code UInt8)} {out : Bytes}
    (h : expand [] codes = some out) (k : ℕ) : produced (codes.take k) ≤ out.length := by
  have hl := expand_length h
  have hs : produced codes = produced (codes.take k) + produced (codes.drop k) := by
    rw [← produced_append, List.take_append_drop]
  simp only [List.length_nil, Nat.zero_add] at hl
  omega

lemma Packing.packed_length {data : Bytes} (p : Packing data) :
    p.packed.length = packedSize (p.codes.take p.split) := by
  have := packedSize_take_le p.codes p.split
  rw [Packing.packed, List.length_take, pack_length]
  omega

lemma Packing.cost_eq {data : Bytes} (p : Packing data) :
    p.remaining + p.packed.length = splitCost data.length p.codes p.split := by
  rw [p.packed_length, splitCost, Packing.remaining]
  omega

section Writing

lemma flushFlag_shift (k fuel : ℕ) (hk : k ≤ fuel) (s : Encoder) (a b : Bytes) (v : ℕ)
    (hout : s.output = a ++ UInt8.ofNat v :: b) (hpos : s.flagPos = a.length)
    (hmask : s.mask.toNat = 2 ^ k) :
    (flushFlag fuel s : Outcome ε Encoder) =
      ok { s with output := a ++ UInt8.ofNat (v * 2 ^ k) :: b, mask := 1 } := by
  induction k generalizing fuel s v with
  | zero =>
    have hone : s.mask = 1 := UInt8.toNat_inj.mp (by simpa using hmask)
    have hstop : ¬ (s.mask ≠ 0 ∧ s.mask ≠ 1) := fun h => h.2 hone
    have hs : ({ s with output := a ++ UInt8.ofNat (v * 2 ^ 0) :: b, mask := 1 } : Encoder) = s := by
      cases s
      simp_all
    cases fuel <;> simp only [flushFlag, if_neg hstop, pure_eq, hs]
  | succ k ih =>
    obtain ⟨fuel, rfl⟩ : ∃ n, fuel = n + 1 := ⟨fuel - 1, by omega⟩
    have hpow : 1 ≤ 2 ^ k := Nat.one_le_two_pow
    have hgo : s.mask ≠ 0 ∧ s.mask ≠ 1 := by
      rw [pow_succ] at hmask
      constructor <;> intro h <;> rw [h] at hmask <;> simp at hmask
      omega
    have hshift : (s.mask >>> flagShift).toNat = 2 ^ k := by
      rw [shift_mask, hmask, pow_succ, Nat.mul_div_cancel _ two_pos]
    have hv : UInt8.ofNat v <<< 1 = UInt8.ofNat (v * 2) := by
      apply UInt8.toNat_inj.mp
      rw [UInt8.toNat_shiftLeft, show (1 : UInt8).toNat % 8 = 1 from rfl, Nat.shiftLeft_eq]
      simp only [UInt8.toNat_ofNat']
      omega
    have hstep := ih fuel (by omega)
      { s with output := a ++ UInt8.ofNat (v * 2) :: b, mask := s.mask >>> flagShift } (v * 2)
      rfl hpos hshift
    simp only [flushFlag, if_pos hgo, hout, index_append hpos, write_append _ _ hpos, ok_bind, hv, hstep,
      pow_succ', mul_assoc]

lemma flushFlag_spec {s : Encoder} {codes : List (Code UInt8)} (h : Grouped s codes) :
    ∃ s' rest, (flushFlag 8 s : Outcome ε Encoder) = ok s' ∧ s'.output = pack codes ++ rest ∧
      s'.output.length = s.output.length ∧ s'.writePos = s.writePos ∧
      s'.bestPacked = s.bestPacked ∧ s'.bestRemaining = s.bestRemaining := by
  rcases h with ⟨rfl, hm, _⟩ | ⟨done, cur, rfl, hne, hlen, hw, hm⟩
  · exact ⟨s, s.output, by simp [flushFlag, hm], by simp [pack], rfl, rfl, rfl, rfl⟩
  · obtain ⟨rest, hout⟩ := hw.output
    refine ⟨_, rest, flushFlag_shift (8 - cur.length) 8 (by omega) s _ _ _ hout hw.flagPos (mask_eq hm hlen),
      ?_, ?_, rfl, rfl, rfl⟩
    · rw [pack_append done cur hw.full, pack_group hne hlen, flagByte]
      simp
    · simp [hout]

lemma padTo4_spec (b : UInt8) (fuel : ℕ) (a rest : Bytes) (hf : padding a.length ≤ fuel)
    (hr : padding a.length ≤ rest.length) :
    (padTo4 b fuel (a ++ rest) a.length : Outcome ε (Bytes × ℕ)) =
      ok (a ++ List.replicate (padding a.length) b ++ rest.drop (padding a.length),
        a.length + padding a.length) := by
  by_cases hz : a.length % 4 = 0
  · have hp : padding a.length = 0 := by rw [padding]; omega
    cases fuel <;> simp [padTo4, and_three, hz, hp]
  · have hp : padding a.length = padding (a ++ [b]).length + 1 := by
      simp only [padding, List.length_append, List.length_singleton]
      omega
    cases fuel with
    | zero => omega
    | succ fuel =>
      obtain ⟨r, rest, rfl⟩ := List.exists_cons_of_ne_nil
        (List.ne_nil_of_length_pos (show 0 < rest.length by omega))
      have ih := padTo4_spec b fuel (a ++ [b]) rest (by omega) (by simp at hr; omega)
      simp only [List.append_assoc, List.singleton_append, List.length_append,
        List.length_singleton] at ih
      have hgo : a.length &&& 3 ≠ 0 := by rwa [and_three]
      simp only [List.length_append, List.length_singleton] at hp
      simp only [padTo4, if_pos hgo, write_append _ _ rfl, ok_bind, ih, hp, List.replicate_succ,
        List.drop_succ_cons]
      simp
      omega

theorem storeUncompressed_spec {data output : Bytes} (h : data.length + 7 ≤ output.length) :
    ∃ out len, (storeUncompressed data output : Outcome ε (Bytes × ℕ)) = ok (out, len) ∧
      out.take len = storedStream data := by
  have hpad : padding data.length ≤ 3 := by rw [padding]; omega
  have hcopy := copyFromSlice_append (ε := ε) [] output data (List.length_nil).symm
    (by omega)
  have hpadTo := padTo4_spec (ε := ε) 0 4 data (output.drop data.length) (by omega)
    (by rw [List.length_drop]; omega)
  have hfoot := copyFromSlice_append (ε := ε)
    (data ++ List.replicate (padding data.length) 0)
    ((output.drop data.length).drop (padding data.length)) (toLe 4 0)
    (show data.length + padding data.length = _ by simp)
    (by simp only [toLe_length, List.length_drop]; omega)
  simp only [List.nil_append] at hcopy
  simp only [storeUncompressed, hcopy, ok_bind, hpadTo, hfoot, pure_eq]
  refine ⟨_, _, rfl, ?_⟩
  have hl : (storedStream data).length = data.length + padding data.length + 4 := by
    simp [storedStream]
    omega
  rw [← hl]
  exact List.take_left

/-- The forward copy moves every packed byte although source and target overlap, because the target
does not start after the source. -/
lemma relocate_spec {remaining packedStart : ℕ} (hle : remaining ≤ packedStart) (n : ℕ)
    (output : Bytes) (hn : packedStart + n ≤ output.length) :
    ∃ out, (relocate remaining packedStart n output : Outcome ε Bytes) = ok out ∧
      out.length = output.length ∧ ∀ j, out[j]? =
        if remaining ≤ j ∧ j < remaining + n then output[packedStart + (j - remaining)]?
        else output[j]? := by
  induction n with
  | zero => exact ⟨output, rfl, rfl, fun j => by rw [if_neg (by omega)]⟩
  | succ n ih =>
    obtain ⟨out, hout, hlen, hget⟩ := ih (by omega)
    have hin : packedStart + n < output.length := by omega
    -- the source of this byte lies past everything the copy has written so far
    have hsrc : out[packedStart + n]? = some output[packedStart + n] := by
      rw [hget, if_neg (by omega), List.getElem?_eq_getElem hin]
    simp only [relocate, hout, ok_bind, index_of_getElem? hsrc,
      write_of_lt (show remaining + n < out.length by omega)]
    refine ⟨_, rfl, by simpa using hlen, fun j => ?_⟩
    by_cases hj : remaining + n = j
    · subst hj
      rw [List.getElem?_set_self (by omega), if_pos (by omega),
        show packedStart + (remaining + n - remaining) = packedStart + n by omega,
        List.getElem?_eq_getElem (by omega)]
    · rw [List.getElem?_set_ne hj, hget j]
      by_cases hin : remaining ≤ j ∧ j < remaining + n
      · rw [if_pos hin, if_pos (by omega)]
      · rw [if_neg hin, if_neg (by omega)]

section Packed
variable {data output : Bytes} (p : Packing data)

lemma Packing.packed_le : p.packed.length ≤ (pack p.codes).length := by
  rw [Packing.packed, List.length_take]
  exact Nat.min_le_right _ _

lemma Packing.take_length : (data.take p.remaining).length = p.remaining :=
  List.length_take_of_le (Nat.sub_le _ _)

/-- The boundary behind the last code is no cheaper, so what is kept starts no later than it stands. -/
lemma Packing.cost_le_pack : p.remaining + p.packed.length ≤ (pack p.codes).length := by
  have hproduced := expand_length p.expands
  simp only [List.length_reverse, List.length_nil, Nat.zero_add] at hproduced
  have hall : splitCost data.length p.codes p.codes.length = (pack p.codes).length := by
    rw [splitCost, List.take_length, pack_length, ← hproduced, Nat.sub_self, Nat.add_zero]
  rw [p.cost_eq, ← hall]
  exact p.cheapest p.codes.length le_rfl

lemma Packing.stream_length : p.stream.length = p.remaining + p.packed.length + p.headerSize := by
  rw [Packing.headerSize, packedHeaderSize_eq]
  simp only [Packing.stream, Footer.asBytes, List.length_append, p.take_length, List.length_reverse,
    List.length_replicate, toLe_length, footerSize]
  omega

lemma relocate_packed {rest : Bytes} (hout : output = (pack p.codes).reverse ++ rest) :
    ∃ moved, (relocate p.remaining ((pack p.codes).length - p.packed.length) p.packed.length output :
      Outcome ε Bytes) = ok moved ∧ moved.length = output.length ∧
      moved.drop p.remaining = p.packed.reverse ++ moved.drop (p.remaining + p.packed.length) := by
  have hcost := p.cost_le_pack
  have hkept := p.packed_le
  have hpacklen : (pack p.codes).length ≤ output.length := by simp [hout]
  obtain ⟨moved, hmove, hlen, hget⟩ := relocate_spec (ε := ε)
    (show p.remaining ≤ (pack p.codes).length - p.packed.length by omega) p.packed.length output (by omega)
  have hcut : p.packed.reverse = (pack p.codes).reverse.drop ((pack p.codes).length - p.packed.length) := by
    rw [List.drop_reverse, Nat.sub_sub_self hkept, p.packed_length, Packing.packed]
  have hsrc : (output.drop ((pack p.codes).length - p.packed.length)).take p.packed.length =
      p.packed.reverse := by
    rw [hout, List.drop_append_of_le_length (by simp), ← hcut, List.take_left' List.length_reverse]
  have hmiddle : (moved.drop p.remaining).take p.packed.length = p.packed.reverse := by
    rw [← hsrc]
    apply List.ext_getElem?
    intro j
    by_cases hj : j < p.packed.length
    · rw [List.getElem?_take_of_lt hj, List.getElem?_take_of_lt hj, List.getElem?_drop,
        List.getElem?_drop, hget, if_pos (by omega), Nat.add_sub_cancel_left]
    · rw [List.getElem?_eq_none (by rw [List.length_take]; omega),
        List.getElem?_eq_none (by rw [List.length_take]; omega)]
  refine ⟨moved, hmove, hlen, ?_⟩
  rw [← hmiddle, ← List.drop_drop, List.take_append_drop]

lemma storePacked_spec (hout : ∃ rest, output = (pack p.codes).reverse ++ rest)
    (hlen : worstCaseLen data.length ≤ output.length) :
    ∃ out len, (storePacked data output (pack p.codes).length p.packed.length p.remaining :
      Outcome ε (Bytes × ℕ)) = ok (out, len) ∧ out.take len = p.stream := by
  obtain ⟨rest, hrest⟩ := hout
  have hsaves := p.saves
  rw [← p.cost_eq, packedHeaderSize_eq, footerSize] at hsaves
  rw [worstCaseLen] at hlen
  obtain ⟨moved, hmove, hmlen, hmoved⟩ := relocate_packed (ε := ε) p hrest
  have hraw := p.take_length
  have hcopy : (copyFromSlice moved 0 (data.take p.remaining) : Outcome ε Bytes) =
      ok (data.take p.remaining ++ p.packed.reverse ++
        moved.drop (p.remaining + p.packed.length)) := by
    have h := copyFromSlice_append (ε := ε) [] moved (data.take p.remaining)
      (List.length_nil).symm (by rw [hraw]; omega)
    rw [hraw, hmoved] at h
    simpa using h
  have hbody : (data.take p.remaining ++ p.packed.reverse).length =
      p.remaining + p.packed.length := by
    rw [List.length_append, hraw, List.length_reverse]
  have hpad : padding (p.remaining + p.packed.length) ≤ 3 := by rw [padding]; omega
  have hpadTo := padTo4_spec (ε := ε) 0xFF 4 (data.take p.remaining ++ p.packed.reverse)
    (moved.drop (p.remaining + p.packed.length)) (by rw [hbody]; omega)
    (by rw [hbody, List.length_drop]; omega)
  rw [hbody] at hpadTo
  have hpos : p.remaining + p.packed.length + padding (p.remaining + p.packed.length) =
      (data.take p.remaining ++ p.packed.reverse ++
        List.replicate (padding (p.remaining + p.packed.length)) 0xFF).length := by
    rw [List.length_append, hbody, List.length_replicate]
  have hfoot := copyFromSlice_append (ε := ε)
    (data.take p.remaining ++ p.packed.reverse ++
      List.replicate (padding (p.remaining + p.packed.length)) 0xFF)
    ((moved.drop (p.remaining + p.packed.length)).drop (padding (p.remaining + p.packed.length)))
    p.footer.asBytes hpos
    (by simp only [Footer.asBytes, List.length_append, toLe_length, List.length_drop]; omega)
  have hheader : packedHeaderSize (p.remaining + p.packed.length) = p.headerSize := rfl
  have hheader' : p.headerSize ≤ data.length - p.packed.length - p.remaining := by
    rw [Packing.headerSize, packedHeaderSize_eq, footerSize]
    omega
  have hfooter : (⟨p.packed.length + p.headerSize, p.headerSize,
      data.length - p.packed.length - p.remaining - p.headerSize⟩ : Footer) = p.footer := rfl
  have hslice : (slice data 0 p.remaining : Outcome ε Bytes) = ok (data.take p.remaining) := by
    rw [slice_of_le (Nat.zero_le _) (by omega), List.drop_zero]
  simp only [storePacked, sub_of_le p.packed_le, hmove, hslice, hcopy, hpadTo, ok_bind, pure_eq, hheader,
    sub_of_le (show p.packed.length ≤ data.length by omega),
    sub_of_le (show p.remaining ≤ data.length - p.packed.length by omega), sub_of_le hheader',
    hfooter, hfoot]
  refine ⟨_, _, rfl, ?_⟩
  have hl : p.remaining + p.packed.length + padding (p.remaining + p.packed.length) + footerSize =
      p.stream.length := by
    rw [p.stream_length, Packing.headerSize, packedHeaderSize_eq, Nat.add_comm footerSize, Nat.add_assoc _ _ footerSize]
  rw [hl]
  exact List.take_left

end Packed
end Writing

/-- The two forms of a stream. -/
def Emitted (data stream : Bytes) : Prop :=
  stream = storedStream data ∨ ∃ p : Packing data, stream = p.stream

lemma encoding_start (input : Bytes) : Encoding input
    ⟨List.replicate (worstCaseLen input.length) 0, 0, 0, 0, 0, 0, input.length⟩ [] where
  encodable := by simp
  expands := by simp [expand]
  readPos_le := Nat.zero_le _
  grouped := Or.inl ⟨rfl, rfl, rfl⟩
  buffer := List.length_replicate
  best := ⟨0, le_rfl, rfl, by simp, fun i hi => by
    rw [Nat.le_zero.mp hi]
    simp [splitCost, packedSize]⟩

section Finished
variable {data : Bytes} {s : Encoder} {codes : List (Code UInt8)}

/-- Keeping nothing packed costs the input itself, and the recorded split is no worse. -/
lemma Encoding.best_le {input : Bytes} (h : Encoding input s codes) :
    s.bestPacked + s.bestRemaining ≤ input.length := by
  obtain ⟨split, -, -, -, hmin⟩ := h.best
  have hzero := hmin 0 (Nat.zero_le _)
  simpa [splitCost, packedSize] using hzero

lemma Encoding.bestRemaining_of_packed_eq_zero {input : Bytes} (h : Encoding input s codes)
    (hzero : s.bestPacked = 0) : s.bestRemaining = input.length := by
  obtain ⟨split, -, hpacked, hremaining, -⟩ := h.best
  rw [hzero, packedSize] at hpacked
  have hnil : codes.take split = [] := List.eq_nil_of_length_eq_zero (by omega)
  rwa [hnil, produced_nil, Nat.add_zero] at hremaining

lemma Encoding.exists_packing (h : Encoding data.reverse s codes) (hend : s.readPos = data.reverse.length)
    (hsaves : s.bestPacked + s.bestRemaining + packedHeaderSize (s.bestPacked + s.bestRemaining) <
      data.length) :
    ∃ p : Packing data, p.codes = codes ∧ p.packed.length = s.bestPacked ∧
      p.remaining = s.bestRemaining := by
  obtain ⟨split, hsplit, hpacked, hremaining, hmin⟩ := h.best
  have hexpands := h.expands
  rw [hend, List.take_length] at hexpands
  rw [List.length_reverse] at hremaining hmin
  have hcost : splitCost data.length codes split = s.bestPacked + s.bestRemaining := by
    rw [splitCost, ← hpacked]
    omega
  let p : Packing data :=
    { codes := codes
      split := split
      split_le := hsplit
      encodable := h.encodable
      expands := hexpands
      cheapest := fun i hi => by rw [hcost]; exact hmin i hi
      saves := by rwa [hcost] }
  refine ⟨p, rfl, by rw [p.packed_length, hpacked], ?_⟩
  rw [Packing.remaining]
  change data.length - produced (codes.take split) = s.bestRemaining
  omega

end Finished

/-- The run of the encoder. The codes that the loop emits are laid out as a packing when the recorded split
saves more than the trailer, and the input is stored verbatim otherwise. -/
theorem compress_run {data : Bytes} (h : data.length < NONE.toNat) :
    ∃ finder s codes, (MatchFinder.new data.reverse : Outcome ε _) = ok finder ∧
      (encodeLoop finder data.reverse data.length
        ⟨List.replicate (worstCaseLen data.length) 0, 0, 0, 0, 0, 0, data.length⟩ : Outcome ε _) = ok s ∧
      Encoding data.reverse s codes ∧ s.readPos = data.length ∧
      ((data.length ≤ s.bestPacked + s.bestRemaining + packedHeaderSize (s.bestPacked + s.bestRemaining) ∧
          (compress data : Outcome ε _) = ok (storedStream data)) ∨
        ∃ p : Packing data, p.codes = codes ∧ (compress data : Outcome ε _) = ok p.stream) := by
  have hrev : data.reverse.length = data.length := List.length_reverse
  obtain ⟨finder, hnew, hdata, hf⟩ := new_spec (ε := ε) (show data.reverse.length < NONE.toNat by rwa [hrev])
  obtain ⟨s₁, codes, hloop, henc, hend⟩ := encodeLoop_spec (ε := ε) hf finder.data.length
    (encoding_start finder.data) (Nat.le_add_left _ _)
  rw [hdata] at hloop henc hend
  obtain ⟨s, rest, hflush, hout, hlen, hw, hp, hr⟩ := flushFlag_spec (ε := ε) henc.grouped
  have hbest := henc.best_le
  rw [henc.grouped.writePos_eq, ← pack_length] at hw
  rw [henc.buffer, hrev] at hlen
  rw [hrev] at hbest hloop
  have hslice : (slice s.output 0 s.writePos : Outcome ε Bytes) = ok (pack codes) := by
    rw [slice_of_le (Nat.zero_le _) (by rw [hout, hw]; simp), hout, hw, List.take_left]
    rfl
  have hcopy : (copyFromSlice s.output 0 (pack codes).reverse : Outcome ε Bytes) =
      ok ((pack codes).reverse ++ rest) := by
    rw [copyFromSlice_of_le (by rw [hout]; simp), hout]
    simp
  have hlen' : ((pack codes).reverse ++ rest).length = worstCaseLen data.length := by
    rw [← hlen, hout]
    simp
  have hrun : (compress data : Outcome ε Bytes) =
      ((if s.bestPacked = 0 ∨
          ¬ packedHeaderSize (s.bestRemaining + s.bestPacked) <
            data.length - s.bestPacked - s.bestRemaining ∨
          data.length + 4 < ((s.bestPacked + s.bestRemaining + 3) &&& 0xFFFFFFFC) + 8 then
        storeUncompressed data ((pack codes).reverse ++ rest)
      else storePacked data ((pack codes).reverse ++ rest) s.writePos s.bestPacked
        s.bestRemaining) >>= fun r => ok (r.1.take r.2)) := by
    simp only [compress, compressInto, hnew, hrev, hloop, hflush, hslice, hcopy, ok_bind,
      sub_of_le (show s.bestPacked ≤ data.length by omega),
      sub_of_le (show s.bestRemaining ≤ data.length - s.bestPacked by omega), pure_eq]
  rw [hrev] at hend
  refine ⟨finder, s₁, codes, hnew, hloop, henc, hend, ?_⟩
  rw [hrun]
  split_ifs with hstored
  · obtain ⟨out, len, hstore, htake⟩ := storeUncompressed_spec (ε := ε)
      (show data.length + 7 ≤ ((pack codes).reverse ++ rest).length by rw [hlen', worstCaseLen]; omega)
    refine Or.inl ⟨?_, by rw [hstore, ← htake]; rfl⟩
    rw [hp, hr, Nat.add_comm s₁.bestRemaining] at hstored
    rcases hstored with hzero | hsaves | haligned
    · -- a split that packs nothing leaves the whole input raw
      rw [henc.bestRemaining_of_packed_eq_zero hzero, hrev]
      omega
    · omega
    · have hmask : (s₁.bestPacked + s₁.bestRemaining + 3) &&& 0xFFFFFFFC ≤ _ := Nat.and_le_left
      rw [packedHeaderSize_eq, footerSize]
      omega
  · simp only [not_or, not_not, hp, hr] at hstored
    obtain ⟨_, hsaves, _⟩ := hstored
    rw [Nat.add_comm s₁.bestRemaining] at hsaves
    obtain ⟨p, rfl, hpacked, hremaining⟩ := henc.exists_packing (by rwa [hrev]) (by omega)
    obtain ⟨out, len, hstore, htake⟩ := storePacked_spec (ε := ε) p ⟨rest, rfl⟩ hlen'.ge
    refine Or.inr ⟨p, rfl, ?_⟩
    rw [hw, hp, hr, ← hpacked, ← hremaining, hstore, ← htake]
    rfl

/-- The encoder never panics below its size limit, and emits one of the two forms. -/
theorem compress_spec {data : Bytes} (h : data.length < NONE.toNat) :
    ∃ stream, (compress data : Outcome ε Bytes) = ok stream ∧ Emitted data stream := by
  obtain ⟨-, -, -, -, -, -, -, ⟨-, hstored⟩ | ⟨p, -, hpacked⟩⟩ := compress_run (ε := ε) h
  · exact ⟨_, hstored, Or.inl rfl⟩
  · exact ⟨_, hpacked, Or.inr ⟨p, rfl⟩⟩

end NxObject.Blz
