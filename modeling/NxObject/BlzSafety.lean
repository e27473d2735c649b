import NxObject.BlzDecoder

/-!
# The BLZ decoder on arbitrary bytes

The loops write into the buffer they read codes from, so nothing is known of a code but where it stands.
Both cursors only walk down, and the read cursor stops at the start of the packed region.
-/
namespace NxObject.Blz
open Outcome

/-- Both cursors stay inside a buffer of `len` bytes, and the read cursor inside the packed region. -/
structure InBounds (packedStart len : ℕ) (s : Cursor) : Prop where
  out : s.out.length = len
  packed : packedStart ≤ s.cmp
  cmp : s.cmp ≤ len
  dst : s.dst ≤ len

/-- A buffer of `len` bytes, with an output cursor inside it. -/
def WritesIn (len : ℕ) (r : Bytes × ℕ) : Prop := r.1.length = len ∧ r.2 ≤ len

variable {packedStart len : ℕ} {s : Cursor}

lemma checkedSub_eq_some {a b c : ℕ} : checkedSub a b = some c ↔ b ≤ a ∧ c = a - b := by
  rw [checkedSub]
  split_ifs with h
  · rw [Option.some.injEq, eq_comm, and_iff_right h]
  · exact ⟨nofun, fun hsub => absurd hsub.1 h⟩

lemma copyLiteral_ensures {out : Bytes} {cmp dst : ℕ} (hcmp : cmp < out.length) (hdst : dst ≤ out.length) :
    Ensures (copyLiteral out cmp dst) (WritesIn out.length) := by
  rw [copyLiteral]
  refine (ensures_okOr _ _).bind fun dst' hdst' => ?_
  obtain ⟨hpos, rfl⟩ := checkedSub_eq_some.mp hdst'
  rw [index_of_getElem? (List.getElem?_eq_getElem hcmp), ok_bind, write_of_lt (by omega), ok_bind]
  exact ensures_ok ⟨List.length_set, by omega⟩

lemma copyMatch_ensures (distance n : ℕ) {out : Bytes} {dst : ℕ} (hdst : dst ≤ out.length) :
    Ensures (copyMatch distance n out dst) (WritesIn out.length) := by
  induction n generalizing out dst with
  | zero => exact ensures_ok ⟨rfl, hdst⟩
  | succ n ih =>
    rw [copyMatch]
    refine (ensures_okOr _ _).bind fun dst' hdst' => ?_
    obtain ⟨hpos, rfl⟩ := checkedSub_eq_some.mp hdst'
    refine (ensures_okOr _ _).bind fun source hsource => ?_
    have hlt : source < out.length := by simpa using (Option.filter_eq_some_iff.mp hsource).2
    rw [index_of_getElem? (List.getElem?_eq_getElem hlt), ok_bind, write_of_lt (by omega), ok_bind]
    have hrest := @ih (out.set (dst - 1) out[source]) (dst - 1) (by rw [List.length_set]; omega)
    rwa [List.length_set] at hrest

lemma InBounds.decodeCode (h : InBounds packedStart len s) (hgo : packedStart < s.cmp) (flags : UInt8) :
    Ensures (decodeCode packedStart flags s) (InBounds packedStart len) := by
  obtain ⟨hout, hpacked, hcmp, hdst⟩ := h
  rw [Blz.decodeCode]
  split_ifs with hflag
  · rw [sub_of_le (by omega), ok_bind]
    refine (copyLiteral_ensures (by omega) (by omega)).bind fun r hr => ?_
    exact ensures_ok ⟨hr.1.trans hout, Nat.le_sub_one_of_lt hgo, (Nat.sub_le _ _).trans hcmp, hout ▸ hr.2⟩
  · rw [sub_of_le (by omega), ok_bind]
    split_ifs with hroom
    · exact ensures_err _ _
    have hfirst := List.getElem?_eq_getElem (show s.cmp - 1 < s.out.length by omega)
    have hsecond := List.getElem?_eq_getElem (show s.cmp - 2 < s.out.length by omega)
    rw [sub_of_le (show 1 ≤ s.cmp by omega), ok_bind, index_of_getElem? hfirst, ok_bind,
      sub_of_le (show 2 ≤ s.cmp by omega), ok_bind, index_of_getElem? hsecond, ok_bind]
    refine (copyMatch_ensures _ _ (by omega)).bind fun r hr => ?_
    exact ensures_ok ⟨hr.1.trans hout, Nat.le_sub_of_add_le (by omega), (Nat.sub_le _ _).trans hcmp,
      hout ▸ hr.2⟩

lemma InBounds.decodeGroup (left : ℕ) (h : InBounds packedStart len s) (flags : UInt8) :
    Ensures (decodeGroup packedStart left flags s)
      fun s' => InBounds packedStart len s' ∧ s'.cmp ≤ s.cmp := by
  induction left generalizing flags s with
  | zero => exact ensures_ok ⟨h, le_rfl⟩
  | succ left ih =>
    rw [Blz.decodeGroup]
    split_ifs with hstop
    · exact ensures_ok ⟨h, le_rfl⟩
    have hcode := ensures_iff.mp (h.decodeCode (by omega) flags)
    have hstep : Ensures (Blz.decodeCode packedStart flags s)
        fun s' => InBounds packedStart len s' ∧ s'.cmp < s.cmp :=
      ensures_iff.mpr ⟨hcode.1, fun s' hs' => ⟨hcode.2 s' hs', decodeCode_cmp_lt (by omega) hs'⟩⟩
    refine hstep.bind fun s' hs' => (ih hs'.1 _).imp fun s'' hs'' => ?_
    exact ⟨hs''.1, hs''.2.trans hs'.2.le⟩

/-- Every turn reads a flag byte, so as many turns as there are packed bytes are enough. -/
lemma InBounds.decodeLoop (fuel : ℕ) (h : InBounds packedStart len s) (hfuel : s.cmp ≤ packedStart + fuel) :
    Ensures (decodeLoop packedStart fuel s) (InBounds packedStart len) := by
  induction fuel generalizing s with
  | zero =>
    rw [Blz.decodeLoop, if_neg (by omega)]
    exact ensures_ok h
  | succ fuel ih =>
    rw [Blz.decodeLoop]
    split_ifs with hgo
    · obtain ⟨hout, hpacked, hcmp, hdst⟩ := h
      have hflags := List.getElem?_eq_getElem (show s.cmp - 1 < s.out.length by omega)
      rw [sub_of_le (by omega), ok_bind, index_of_getElem? hflags, ok_bind]
      have hread : InBounds packedStart len { s with cmp := s.cmp - 1 } :=
        ⟨hout, Nat.le_sub_one_of_lt hgo, (Nat.sub_le _ _).trans hcmp, hdst⟩
      refine (hread.decodeGroup 8 _).bind fun s' hs' => ih hs'.1 ?_
      have hle : s'.cmp ≤ s.cmp - 1 := hs'.2
      omega
    · exact ensures_ok h

lemma decompress_ensures (data : Bytes) (decompressedSize : ℕ) :
    Ensures (decompress data decompressedSize) (·.length = decompressedSize) := by
  rw [decompress]
  refine (ensures_okOr _ _).bind fun extraLen hextra => ?_
  have hfour : 4 ≤ data.length := by
    obtain ⟨start, hstart, -⟩ := Option.bind_eq_some_iff.mp hextra
    exact (checkedSub_eq_some.mp hstart).1
  split_ifs with hzero
  · rw [sub_of_le hfour, ok_bind, slice_of_le (Nat.zero_le _) (Nat.sub_le _ _), ok_bind]
    split_ifs with hle
    · exact ensures_ok (List.length_take_of_le hle)
    · exact ensures_err _ _
  refine (ensures_okOr _ _).bind fun headerSize _ => (ensures_okOr _ _).bind fun encLen _ => ?_
  dsimp only
  split_ifs with hbad
  · exact ensures_err _ _
  push Not at hbad
  obtain ⟨-, hheader, henc⟩ := hbad
  refine (ensures_okOr _ _).bind fun finalLen hfinal => ?_
  obtain ⟨-, rfl⟩ := checkedAdd_eq_some.mp hfinal
  rw [copyFromSlice_of_le (by simp), ok_bind, sub_of_le henc, ok_bind, sub_of_le (by omega), ok_bind]
  have hstart : InBounds (data.length - encLen) (data.length + extraLen)
      ⟨(List.replicate (data.length + extraLen) 0).take 0 ++ data ++
        (List.replicate (data.length + extraLen) 0).drop (0 + data.length),
        data.length - headerSize, data.length + extraLen⟩ :=
    ⟨by simp, by dsimp only; omega, by dsimp only; omega, le_rfl⟩
  refine (hstart.decodeLoop _ (by dsimp only; omega)).bind fun s hs => ?_
  split_ifs with hlen
  · exact ensures_err _ _
  · exact ensures_ok (not_not.mp hlen)

/-- The decoder ends on any bytes, with a buffer of the requested length or with an error. -/
theorem decompress_total (data : Bytes) (decompressedSize : ℕ) :
    (∃ out, decompress data decompressedSize = ok out ∧ out.length = decompressedSize) ∨
      ∃ e, decompress data decompressedSize = err e :=
  decompress_ensures data decompressedSize

end NxObject.Blz
