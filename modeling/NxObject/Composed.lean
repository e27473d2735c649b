import NxObject.Buffer

/-!
# Parts between zeros

Bytes that are made up of parts, one behind the other, and are zero wherever no part stands. Byte strings of
this kind are put together by appending them.
-/
namespace NxObject
open Placement

/-- The part behind `n` more bytes. -/
def Part.shift (n : ℕ) (p : Part) : Part := (n + p.1, p.2)

lemma Part.shift_stop (n : ℕ) (p : Part) : (p.shift n).stop = n + p.stop := Nat.add_assoc _ _ _

/-- The bytes of these parts stand in this order, and zeros everywhere else. -/
structure Composed (bytes : Bytes) (parts : List Part) : Prop where
  ordered : parts.Pairwise fun p q => p.stop ≤ q.1
  inside : ∀ p ∈ parts, p.stop ≤ bytes.length
  holds : ∀ p ∈ parts, sliceAt bytes p.1 p.2.length = p.2
  zero : ∀ i < bytes.length, (∀ p ∈ parts, i < p.1 ∨ p.stop ≤ i) → bytes[i]? = some 0

theorem composed_zeros (n : ℕ) : Composed (List.replicate n 0) [] where
  ordered := .nil
  inside := nofun
  holds := nofun
  zero := fun i hi _ => by
    rw [List.length_replicate] at hi
    rw [List.getElem?_replicate, if_pos hi]

theorem composed_self (bytes : Bytes) : Composed bytes [(0, bytes)] where
  ordered := List.pairwise_singleton _ _
  inside := List.forall_mem_singleton.mpr (Nat.zero_add _).le
  holds := List.forall_mem_singleton.mpr
    (sliceAt_eq_of_append (a := []) (List.append_nil bytes).symm rfl rfl)
  zero := fun i hi h => by
    have hpart : i < 0 ∨ 0 + bytes.length ≤ i := h _ List.mem_cons_self
    omega

section Append
variable {as bs : Bytes} {ps qs : List Part} (ha : Composed as ps)
include ha

theorem Composed.append (hb : Composed bs qs) : Composed (as ++ bs) (ps ++ qs.map (·.shift as.length)) where
  ordered := by
    refine List.pairwise_append.mpr ⟨ha.ordered, ?_, fun p hp q hq => ?_⟩
    · refine List.pairwise_map.mpr (hb.ordered.imp fun {p q} h => ?_)
      rw [Part.shift_stop]
      exact Nat.add_le_add_left h _
    · obtain ⟨q, -, rfl⟩ := List.mem_map.mp hq
      exact (ha.inside p hp).trans (Nat.le_add_right _ _)
  inside := by
    intro p hp
    rw [List.length_append]
    rcases List.mem_append.mp hp with hp | hp
    · exact (ha.inside p hp).trans (Nat.le_add_right _ _)
    · obtain ⟨q, hq, rfl⟩ := List.mem_map.mp hp
      rw [Part.shift_stop]
      exact Nat.add_le_add_left (hb.inside q hq) _
  holds := by
    intro p hp
    rcases List.mem_append.mp hp with hp | hp
    · rw [← sliceAt_of_prefix (List.prefix_append as bs) (ha.inside p hp), ha.holds p hp]
    · obtain ⟨q, hq, rfl⟩ := List.mem_map.mp hp
      refine Eq.trans ?_ (hb.holds q hq)
      rw [sliceAt, sliceAt, Part.shift, ← List.drop_drop, List.drop_left]
  zero := by
    intro i hi hapart
    rcases Nat.lt_or_ge i as.length with hlt | hle
    · rw [List.getElem?_append_left hlt]
      exact ha.zero i hlt fun p hp => hapart p (List.mem_append_left _ hp)
    · rw [List.length_append] at hi
      rw [List.getElem?_append_right hle]
      refine hb.zero _ (by omega) fun q hq => ?_
      have hshift := hapart _ (List.mem_append_right _ (List.mem_map_of_mem (f := (·.shift as.length)) hq))
      rw [Part.shift_stop, Part.shift] at hshift
      omega

theorem Composed.append_zeros (n : ℕ) : Composed (as ++ List.replicate n 0) ps := by
  have h := ha.append (composed_zeros n)
  rwa [List.map_nil, List.append_nil] at h

theorem Composed.append_self (bs : Bytes) : Composed (as ++ bs) (ps ++ [(as.length, bs)]) :=
  ha.append (composed_self bs)

end Append

/-! ## Things in a row -/

section Row
variable {α : Type} [BEq α] [LawfulBEq α] {l : List α} {a : α}

lemma take_idxOf_append_of_mem {b : α} (hb : b ∈ l) :
    (l ++ [a]).take ((l ++ [a]).idxOf b) = l.take (l.idxOf b) := by
  rw [List.idxOf_append_of_mem hb, List.take_append_of_le_length (List.idxOf_lt_length_of_mem hb).le]

lemma take_idxOf_append_self (ha : a ∉ l) : (l ++ [a]).take ((l ++ [a]).idxOf a) = l := by
  rw [List.idxOf_append_of_notMem ha, List.idxOf_cons_self, Nat.add_zero, List.take_left]

/-- What is put together from things in a row has the part of each where that is put. -/
theorem composed_row (row : List α → Bytes) (start : List α → ℕ) {content : α → Bytes}
    (hnil : row [] = []) (hl : l.Nodup)
    (hstep : ∀ before a, before ++ [a] <+: l → ∀ parts, Composed (row before) parts →
      Composed (row (before ++ [a])) (parts ++ [(start before, content a)])) :
    Composed (row l) (l.map fun a => (start (l.take (l.idxOf a)), content a)) := by
  induction l using List.reverseRecOn with
  | nil =>
    rw [hnil]
    exact composed_zeros 0
  | append_singleton l a ih =>
    obtain ⟨hl, -, hdisjoint⟩ := List.nodup_append.mp hl
    have ha : a ∉ l := fun ha => hdisjoint a ha a List.mem_cons_self rfl
    have hrow := hstep l a List.prefix_rfl _
      (ih hl fun before b hb => hstep before b (hb.trans (List.prefix_append l [a])))
    have hparts : (l.map fun b => (start ((l ++ [a]).take ((l ++ [a]).idxOf b)), content b)) =
        l.map fun b => (start (l.take (l.idxOf b)), content b) :=
      List.map_congr_left fun b hb => by rw [take_idxOf_append_of_mem hb]
    rwa [List.map_append, hparts, List.map_singleton, take_idxOf_append_self ha]

theorem composed_flatMap {chunk content : α → Bytes} {size : α → ℕ}
    (hsize : ∀ a ∈ l, (chunk a).length = size a) (hchunk : ∀ a ∈ l, Composed (chunk a) [(0, content a)])
    (hl : l.Nodup) : Composed (l.flatMap chunk) (l.map fun a => (offsetOf size l a, content a)) := by
  refine composed_row (·.flatMap chunk) (total size) rfl hl fun before a hprefix parts h => ?_
  have hmem : ∀ b ∈ before ++ [a], b ∈ l := fun b hb => hprefix.subset hb
  have hlen : (before.flatMap chunk).length = total size before :=
    length_flatMap_eq before fun b hb => hsize b (hmem b (List.mem_append_left _ hb))
  rw [List.flatMap_append, List.flatMap_singleton, ← hlen]
  exact h.append (hchunk a (hmem a (List.mem_append_right _ List.mem_cons_self)))

end Row
end NxObject
