import NxObject.Utf8

/-!
# The order of texts

Strings compare by their bytes. What is sorted by a key that tells its elements apart does not depend on
the order it came in.
-/
namespace NxObject

/-- `a.cmp(b)` is not `Greater`: strings compare by their bytes. -/
def textLe (a b : Text) : Bool := decide (utf8 a ≤ utf8 b)

lemma textLe_iff {a b : Text} : textLe a b = true ↔ utf8 a ≤ utf8 b := decide_eq_true_iff

lemma textLe_total (a b : Text) : (textLe a b || textLe b a) = true := by
  rw [Bool.or_eq_true, textLe_iff, textLe_iff]
  exact List.le_total _ _

lemma textLe_trans {a b c : Text} (hab : textLe a b = true) (hbc : textLe b c = true) :
    textLe a c = true := by
  rw [textLe_iff] at *
  exact List.le_trans hab hbc

lemma textLe_antisymm {a b : Text} (hab : textLe a b = true) (hba : textLe b a = true) : a = b := by
  rw [textLe_iff] at *
  exact utf8_injective (List.le_antisymm hab hba)

lemma eq_nil_of_textLe_nil {a : Text} (h : textLe a [] = true) : a = [] := by
  rw [textLe_iff, utf8_nil, List.le_nil] at h
  exact utf8_injective h

lemma textLe_append_left (p a b : Text) : textLe (p ++ a) (p ++ b) = textLe a b := by
  rw [Bool.eq_iff_iff, textLe_iff, textLe_iff, utf8_append, utf8_append]
  constructor
  · intro h
    by_contra hlt
    exact h (List.append_left_lt (List.not_le.mp hlt))
  · exact List.append_left_le

section Sorting
variable {α : Type} (key : α → Text)

lemma pairwise_mergeSort_textLe (l : List α) :
    (l.mergeSort fun a b => textLe (key a) (key b)).Pairwise
      fun a b => textLe (key a) (key b) = true := by
  apply List.pairwise_mergeSort
  · exact fun a b c => textLe_trans
  · exact fun a b => textLe_total (key a) (key b)

lemma mergeSort_eq_of_perm {l s : List α} (h : l.Perm s)
    (hs : s.Pairwise fun a b => textLe (key a) (key b) = true)
    (hinj : ∀ a ∈ s, ∀ b ∈ s, key a = key b → a = b) :
    (l.mergeSort fun a b => textLe (key a) (key b)) = s := by
  have hperm := (List.mergeSort_perm l fun a b => textLe (key a) (key b)).trans h
  refine hperm.eq_of_pairwise ?_ (pairwise_mergeSort_textLe key l) hs
  intro a b ha hb hab hba
  exact hinj a (hperm.mem_iff.mp ha) b hb (textLe_antisymm hab hba)

lemma mergeSort_congr_perm {l₁ l₂ : List α} (h : l₁.Perm l₂)
    (hinj : ∀ a ∈ l₂, ∀ b ∈ l₂, key a = key b → a = b) :
    (l₁.mergeSort fun a b => textLe (key a) (key b)) =
      l₂.mergeSort fun a b => textLe (key a) (key b) := by
  refine mergeSort_eq_of_perm key (h.trans (List.mergeSort_perm _ _).symm)
    (pairwise_mergeSort_textLe key l₂) fun a ha b hb => ?_
  exact hinj a (List.mem_mergeSort.mp ha) b (List.mem_mergeSort.mp hb)

end Sorting

end NxObject
