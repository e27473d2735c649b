import NxObject.BlzSafety
import NxObject.Buffer
import NxObject.Kip

/-!
# What an accepted KIP1 hands out

The end of the last stored segment lies inside the buffer, and with it every segment before: each accessor
sums the same sizes once more.
-/
namespace NxObject.Kip
open Outcome

variable {ε : Type} {bytes : Bytes} {kip : Kip1} {header : Kip1Header}

lemma storedSize_lt (header : Kip1Header) (index : Fin 6) : storedSize header index < 2 ^ 32 := by
  rw [storedSize]
  split_ifs
  · exact Nat.two_pow_pos 32
  · exact (header.segments index).compSize.toNat_lt

lemma segmentOffset_one (header : Kip1Header) :
    segmentOffset header 1 = segmentOffset header 0 + storedSize header 0 := rfl

lemma segmentOffset_two (header : Kip1Header) :
    segmentOffset header 2 = segmentOffset header 1 + storedSize header 1 := rfl

lemma segmentOffset_three (header : Kip1Header) :
    segmentOffset header 3 = segmentOffset header 2 + storedSize header 2 := rfl

def storedEnd (header : Kip1Header) : ℕ := segmentOffset header 3 + storedSize header 3

lemma segment_le_storedEnd (header : Kip1Header) {i : Fin 6} (hi : i.val < loadedSegmentCount) :
    segmentOffset header i + storedSize header i ≤ storedEnd header := by
  rw [loadedSegmentCount] at hi
  have h₁ := segmentOffset_one header
  have h₂ := segmentOffset_two header
  have h₃ := segmentOffset_three header
  rw [storedEnd]
  obtain rfl | rfl | rfl | rfl : i = 0 ∨ i = 1 ∨ i = 2 ∨ i = 3 := by omega
  all_goals omega

lemma checkSegment_eq {available offset : ℕ} (index : Fin 6) (h : offset < 2 ^ 63) :
    checkSegment header available offset index =
      if available < offset + storedSize header index then
        err (.segmentOutOfBounds index offset (storedSize header index) available)
      else ok (offset + storedSize header index) := by
  have hlt := storedSize_lt header index
  rw [checkSegment]
  simp only [checkedAdd_of_lt (show offset + storedSize header index < 2 ^ 64 by omega), okOr_some, ok_bind,
    pure_eq]

/-- The loop over the segments is the one comparison with the end of the last, and reports the first that
does not fit. -/
lemma checkSegments_ensures (header : Kip1Header) (available : ℕ) :
    Settled (((List.finRange 6).take loadedSegmentCount).foldlM (checkSegment header available) headerSize) ∧
      ((∃ stop, ((List.finRange 6).take loadedSegmentCount).foldlM (checkSegment header available) headerSize =
        ok stop) ↔ storedEnd header ≤ available) := by
  have hlist : (List.finRange 6).take loadedSegmentCount = [0, 1, 2, 3] := rfl
  have h₀ := storedSize_lt header 0
  have h₁ := storedSize_lt header 1
  have h₂ := storedSize_lt header 2
  have hend : storedEnd header = headerSize + storedSize header 0 + storedSize header 1 +
      storedSize header 2 + storedSize header 3 := rfl
  have hsize : headerSize = 0x100 := rfl
  simp only [hlist, List.foldlM_cons, List.foldlM_nil, pure_eq, hend]
  rw [checkSegment_eq 0 (by omega)]
  split_ifs with hlt
  · exact ⟨settled_err _, iff_of_false (fun ⟨_, h⟩ => nomatch h) (by omega)⟩
  rw [ok_bind, checkSegment_eq 1 (by omega)]
  split_ifs with hlt
  · exact ⟨settled_err _, iff_of_false (fun ⟨_, h⟩ => nomatch h) (by omega)⟩
  rw [ok_bind, checkSegment_eq 2 (by omega)]
  split_ifs with hlt
  · exact ⟨settled_err _, iff_of_false (fun ⟨_, h⟩ => nomatch h) (by omega)⟩
  rw [ok_bind, checkSegment_eq 3 (by omega)]
  split_ifs with hlt
  · exact ⟨settled_err _, iff_of_false (fun ⟨_, h⟩ => nomatch h) (by omega)⟩
  · exact ⟨settled_ok _, iff_of_true ⟨_, rfl⟩ (by omega)⟩

namespace Kip1

/-- The header is the one found in the buffer, and what is stored for the segments lies behind it. -/
structure Valid (kip : Kip1) : Prop where
  header : Kip1Header.codec.fromPrefix kip.bytes = some kip.header
  magic : kip.header.magic = KIP1_MAGIC
  stored : storedEnd kip.header ≤ kip.bytes.length

theorem tryFromBytes_eq_ok : tryFromBytes bytes = ok kip ↔ kip.bytes = bytes ∧ kip.Valid := by
  constructor
  · intro h
    obtain ⟨header, hheader, h⟩ := bind_eq_ok.mp h
    obtain ⟨u, hmagic, h⟩ := bind_eq_ok.mp h
    obtain ⟨stop, hstop, h⟩ := bind_eq_ok.mp h
    obtain rfl := ok.inj h
    exact ⟨rfl, okOr_eq_ok.mp hheader, ensure_eq_ok.mp hmagic, (checkSegments_ensures _ _).2.mp ⟨stop, hstop⟩⟩
  · rintro ⟨rfl, h⟩
    obtain ⟨stop, hstop⟩ := (checkSegments_ensures kip.header kip.bytes.length).2.mpr h.stored
    simp only [tryFromBytes, h.header, okOr_some, ok_bind, ensure_true h.magic, hstop, pure_eq]

theorem tryFromBytes_settled (bytes : Bytes) : Settled (tryFromBytes bytes) := by
  refine (settled_okOr _ _).bind fun header _ => (settled_ensure _ _).bind fun _ _ => ?_
  exact (checkSegments_ensures header bytes.length).1.bind fun _ _ => settled_ok _

/-! ## The accessors -/

def view (kip : Kip1) (i : Fin 6) : Kip1Segment where
  index := i
  descriptor := kip.header.segments i
  compressed := isCompressed kip.header i
  stored := sliceAt kip.bytes (segmentOffset kip.header i) (storedSize kip.header i)

variable (h : kip.Valid)
include h

lemma stored_le {i : Fin 6} (hi : i.val < loadedSegmentCount) :
    segmentOffset kip.header i + storedSize kip.header i ≤ kip.bytes.length :=
  (segment_le_storedEnd kip.header hi).trans h.stored

theorem segment_eq {i : Fin 6} (hi : i.val < loadedSegmentCount) :
    (kip.segment i : Outcome ε _) = ok (some (kip.view i)) := by
  rw [segment, dif_pos hi]
  simp only [Fin.eta, slice_sliceAt (stored_le h hi), ok_bind, pure_eq]
  rfl

theorem segments_eq : (kip.segments : Outcome ε _) = ok [kip.view 0, kip.view 1, kip.view 2, kip.view 3] := by
  have hrange : List.range loadedSegmentCount = [((0 : Fin 6) : ℕ), ((1 : Fin 6) : ℕ), ((2 : Fin 6) : ℕ),
    ((3 : Fin 6) : ℕ)] := rfl
  have hsegment : ∀ i : Fin 6, i.val < loadedSegmentCount →
      (kip.segment i : Outcome ε _) = ok (some (kip.view i)) := fun i hi => segment_eq h hi
  rw [segments, hrange]
  simp only [List.mapM_cons, List.mapM_nil, hsegment 0 (by decide), hsegment 1 (by decide),
    hsegment 2 (by decide), hsegment 3 (by decide), ok_bind, pure_eq]
  rfl

omit h in
theorem segment_eq_none {index : ℕ} (hindex : loadedSegmentCount ≤ index) :
    (kip.segment index : Outcome ε _) = ok none := dif_neg (Nat.not_lt.mpr hindex)

end Kip1

theorem Kip1Segment.decompress_settled (segment : Kip1Segment) : Settled segment.decompress := by
  rw [decompress]
  split_ifs
  · exact (Blz.decompress_ensures _ _).settled.mapErr
  · exact settled_ok _

end NxObject.Kip
