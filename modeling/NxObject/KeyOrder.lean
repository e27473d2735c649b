import Mathlib.Data.List.Sort
import Mathlib.Data.List.Nodup
import Mathlib.Order.Basic

/-!
# Sorting by a key

A stable sort by a key that tells the elements apart depends on neither their order nor what else is sorted
with them: leaving elements out leaves the first few alone exactly if none of them is left out.
-/
namespace NxObject

section SortOn
variable {α β κ : Type} [LinearOrder κ] (key : α → κ)

/-- The elements in the order of their keys, those of one key in the order they came in. -/
def sortOn (l : List α) : List α := l.mergeSort fun a b => decide (key a ≤ key b)

lemma sortOn_perm (l : List α) : (sortOn key l).Perm l := List.mergeSort_perm _ _

lemma mem_sortOn {l : List α} {a : α} : a ∈ sortOn key l ↔ a ∈ l := (sortOn_perm key l).mem_iff

lemma pairwise_sortOn (l : List α) : (sortOn key l).Pairwise fun a b => key a ≤ key b := by
  have hsorted : (sortOn key l).Pairwise fun a b => decide (key a ≤ key b) = true := by
    apply List.pairwise_mergeSort
    · exact fun a b c hab hbc => decide_eq_true ((of_decide_eq_true hab).trans (of_decide_eq_true hbc))
    · exact fun a b => by simpa using le_total (key a) (key b)
  exact hsorted.imp of_decide_eq_true

lemma sortOn_of_pairwise {l : List α} (h : l.Pairwise fun a b => key a ≤ key b) : sortOn key l = l :=
  List.mergeSort_of_pairwise (h.imp decide_eq_true)

lemma sortOn_map (f : β → α) (l : List β) : sortOn key (l.map f) = (sortOn (key ∘ f) l).map f :=
  (List.map_mergeSort (f := f) (s := fun a b => decide (key a ≤ key b)) fun _ _ _ _ => rfl).symm

section Distinct
variable {key} {l : List α} (hnodup : (l.map key).Nodup)
include hnodup

/-- What is ordered by distinct keys is what sorting gives. -/
theorem eq_sortOn {s : List α} (hperm : s.Perm l) (hs : s.Pairwise fun a b => key a ≤ key b) :
    s = sortOn key l := by
  refine (hperm.trans (sortOn_perm key l).symm).eq_of_pairwise ?_ hs (pairwise_sortOn key l)
  intro a b ha hb hab hba
  exact List.inj_on_of_nodup_map hnodup (hperm.mem_iff.mp ha) ((mem_sortOn key).mp hb) (le_antisymm hab hba)

theorem sortOn_congr_perm {l' : List α} (h : l'.Perm l) : sortOn key l' = sortOn key l :=
  eq_sortOn hnodup ((sortOn_perm key l').trans h) (pairwise_sortOn key l')

theorem sortOn_filter (p : α → Bool) : sortOn key (l.filter p) = (sortOn key l).filter p :=
  (eq_sortOn (hnodup.sublist (List.filter_sublist.map key)) ((sortOn_perm key l).filter p)
    ((pairwise_sortOn key l).filter p)).symm

/-- Leaving elements out leaves the first `n` alone exactly if none of them is left out. -/
theorem take_sortOn_filter_iff (p : α → Bool) (n : ℕ) :
    (sortOn key (l.filter p)).take n = (sortOn key l).take n ↔ ∀ a ∈ (sortOn key l).take n, p a := by
  rw [sortOn_filter hnodup]
  constructor
  · intro heq a ha
    rw [← heq] at ha
    exact List.of_mem_filter (List.mem_of_mem_take ha)
  · intro hall
    obtain ⟨s, hs⟩ : ∃ s, sortOn key l = s := ⟨_, rfl⟩
    rw [hs] at hall ⊢
    have hfilter : s.filter p = s.take n ++ (s.drop n).filter p := by
      conv_lhs => rw [← List.take_append_drop n s, List.filter_append, List.filter_eq_self.mpr hall]
    rcases Nat.le_total n s.length with hle | hle
    · rw [hfilter, List.take_left' (List.length_take_of_le hle)]
    · rw [hfilter, List.drop_eq_nil_of_le hle, List.filter_nil, List.append_nil, List.take_take, Nat.min_self]

end Distinct

end SortOn
end NxObject
