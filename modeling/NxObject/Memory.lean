import NxObject.Bytes

/-!
# Mapped memory

Regions of bytes at fixed addresses. What stands at an address is the byte of the first region that reaches
over it. A region may hold fewer bytes than it maps; the rest of it is zero.
-/
namespace NxObject.Memory

structure Region where
  start : ℕ
  bytes : Bytes
  deriving DecidableEq, Repr

namespace Region

def byteAt (r : Region) (a : ℕ) : Option UInt8 := if r.start ≤ a then r.bytes[a - r.start]? else none

/-- A region of `size` bytes, of which only the first ones are given. -/
def filled (start : ℕ) (bytes : Bytes) (size : ℕ) : Region :=
  ⟨start, bytes ++ List.replicate (size - bytes.length) 0⟩

lemma byteAt_of_outside {r : Region} {a : ℕ} (h : a < r.start ∨ r.start + r.bytes.length ≤ a) :
    r.byteAt a = none := by
  rw [byteAt]
  split_ifs with hle
  · exact List.getElem?_eq_none (by omega)
  · rfl

variable {start size a : ℕ} {bytes : Bytes} {x : UInt8}

theorem filled_byteAt (h : bytes.length ≤ size) : (filled start bytes size).byteAt a = some x ↔
    start ≤ a ∧ a < start + size ∧ bytes.getD (a - start) 0 = x := by
  rw [byteAt, filled, List.getD_eq_getElem?_getD]
  by_cases hstart : start ≤ a
  · rw [if_pos hstart, and_iff_right hstart]
    rcases Nat.lt_or_ge (a - start) bytes.length with hlt | hge
    · rw [List.getElem?_append_left hlt, List.getElem?_eq_getElem hlt, Option.some.injEq,
        Option.getD_some, and_iff_right (by omega)]
    · rw [List.getElem?_append_right hge, List.getElem?_replicate, List.getElem?_eq_none hge,
        Option.getD_none]
      split_ifs with hfill
      · rw [Option.some.injEq, and_iff_right (by omega)]
      · exact iff_of_false not_false fun hlt => hfill (by omega)
  · rw [if_neg hstart]
    exact iff_of_false (Option.some_ne_none x).symm fun hle => hstart hle.1

lemma filled_outside (h : bytes.length ≤ size) (hout : a < start ∨ start + size ≤ a) :
    (filled start bytes size).byteAt a = none := by
  refine byteAt_of_outside (hout.imp id fun hle => ?_)
  rw [filled, List.length_append, List.length_replicate, Nat.add_sub_of_le h]
  exact hle

end Region

/-- The byte at an address. -/
def mapped (regions : List Region) (a : ℕ) : Option UInt8 := regions.findSome? (·.byteAt a)

lemma mapped_cons_of_none {r : Region} {regions : List Region} {a : ℕ} (h : r.byteAt a = none) :
    mapped (r :: regions) a = mapped regions a := by
  rw [mapped, List.findSome?_cons, h]
  rfl

lemma mapped_cons_of_some {r : Region} {regions : List Region} {a : ℕ} {x : UInt8}
    (h : r.byteAt a = some x) : mapped (r :: regions) a = some x := by
  rw [mapped, List.findSome?_cons, h]

lemma mapped_cons_congr {r s : Region} {a : ℕ} (h : r.byteAt a = s.byteAt a) (regions : List Region) :
    mapped (r :: regions) a = mapped (s :: regions) a := by
  simp only [mapped, List.findSome?_cons, h]

lemma exists_of_mapped {regions : List Region} {a : ℕ} {x : UInt8} (h : mapped regions a = some x) :
    ∃ r ∈ regions, r.byteAt a = some x := List.exists_of_findSome?_eq_some h

end NxObject.Memory
