import NxObject.Chain
import NxObject.Placement

/-!
# Chained hash tables

A table of bucket heads, and a link for every item. Items are inserted at the head of their bucket one
after the other; the chain from a bucket's head then visits the items of that bucket, the last one
first.
-/
namespace NxObject.Buckets
open Outcome Chain

variable {κ π : Type} (bucket : κ → ℕ) (pos : κ → π) (stop : π)

/-- The item becomes the head of its bucket and links to the old head. -/
def insert (s : List π × List π) (item : κ × ℕ) : List π × List π :=
  (s.1.set (bucket item.1) (pos item.1), s.2.set item.2 (s.1.getD (bucket item.1) stop))

def fill (size count : ℕ) (items : List κ) : List π × List π :=
  items.zipIdx.foldl (insert bucket pos stop) (List.replicate size stop, List.replicate count stop)

/-- The position of the item inserted last. -/
def headOf (items : List κ) : π := (items.getLast?.map pos).getD stop

/-- What holds after the items have been inserted. -/
structure Filled (size count : ℕ) (items : List κ) (s : List π × List π) : Prop where
  heads_length : s.1.length = size
  links_length : s.2.length = count
  heads : ∀ b < size, s.1[b]? = some (headOf pos stop (items.filter (bucket · = b)))
  links : ∀ i k, items[i]? = some k →
    s.2[i]? = some (headOf pos stop ((items.take i).filter (bucket · = bucket k)))

variable {bucket pos stop} {size count : ℕ}

lemma filled_insert {items : List κ} {s : List π × List π} {k : κ}
    (h : Filled bucket pos stop size count items s) (hcount : items.length < count)
    (hk : bucket k < size) :
    Filled bucket pos stop size count (items ++ [k])
      (insert bucket pos stop s (k, items.length)) where
  heads_length := by rw [insert, List.length_set, h.heads_length]
  links_length := by rw [insert, List.length_set, h.links_length]
  heads b hb := by
    rw [insert, List.getElem?_set, List.filter_append]
    by_cases heq : bucket k = b
    · subst heq
      simp [h.heads_length, hk, headOf]
    · simp [heq, h.heads b hb]
  links i j hj := by
    rw [insert, List.getElem?_set]
    by_cases hi : i < items.length
    · rw [List.getElem?_append_left hi] at hj
      rw [if_neg (by simpa using hi.ne'), h.links i j hj, List.take_append_of_le_length hi.le]
    · obtain rfl : i = items.length := by
        have := (List.getElem?_eq_some_iff.mp hj).1
        simp only [List.length_append, List.length_singleton] at this
        omega
      obtain rfl : k = j := by simpa using hj
      rw [if_pos rfl, if_pos (by rw [h.links_length]; exact hcount), List.take_left,
        List.getD_eq_getElem?_getD, h.heads _ hk, Option.getD_some]

/-- Filling a table. -/
theorem filled_fill {items : List κ} (hcount : items.length ≤ count)
    (hbucket : ∀ k ∈ items, bucket k < size) :
    Filled bucket pos stop size count items (fill bucket pos stop size count items) := by
  induction items using List.reverseRecOn with
  | nil =>
    refine ⟨List.length_replicate, List.length_replicate, fun b hb => ?_, fun i k hk => ?_⟩
    · simp [fill, headOf, hb]
    · cases hk
  | append_singleton items k ih =>
    have hlen : items.length < count := by simpa using hcount
    have hprev := ih hlen.le fun j hj => hbucket j (List.mem_append_left _ hj)
    have hstep := filled_insert hprev hlen (hbucket k (by simp))
    rw [fill, List.zipIdx_append, List.foldl_append]
    simpa [fill] using hstep

section Nodup
variable [BEq κ] [LawfulBEq κ]

lemma filter_take_idxOf {items before after : List κ} {p : κ → Bool} {k : κ} (hnodup : items.Nodup)
    (h : items.filter p = before ++ k :: after) : (items.take (items.idxOf k)).filter p = before := by
  have hk : k ∈ items.filter p := by simp [h]
  obtain ⟨hmem, hp⟩ := List.mem_filter.mp hk
  have hnotBefore : k ∉ before := by
    have hn : (before ++ k :: after).Nodup := h ▸ hnodup.filter p
    intro hb
    exact (List.nodup_append.mp hn).2.2 k hb k List.mem_cons_self rfl
  have hnotTake : k ∉ (items.take (items.idxOf k)).filter p := by
    intro hb
    have hlt' := (List.mem_take_iff_idxOf_lt hmem).mp (List.mem_filter.mp hb).1
    exact lt_irrefl _ hlt'
  have hfilter : (items.take (items.idxOf k)).filter p ++
      k :: (items.drop (items.idxOf k + 1)).filter p = before ++ k :: after := by
    rw [← h]
    conv_rhs => rw [Placement.split_at hmem, List.filter_append, List.filter_cons_of_pos hp]
  have hlen : ((items.take (items.idxOf k)).filter p).length = before.length := by
    have hidx := congrArg (List.idxOf k) hfilter
    rw [List.idxOf_append_of_notMem hnotTake, List.idxOf_append_of_notMem hnotBefore,
      List.idxOf_cons_self] at hidx
    simpa using hidx
  exact List.append_inj_left hfilter hlen

/-- The chain of a bucket visits its items, the last one first. -/
theorem spells_bucket {ε α : Type} {items : List κ} {read : π → Outcome ε α} {next : α → π}
    {entry : κ → α} (hnodup : items.Nodup) (hcount : items.length ≤ count)
    (hbucket : ∀ k ∈ items, bucket k < size) (hread : ∀ k ∈ items, read (pos k) = ok (entry k))
    (hstop : ∀ k ∈ items, pos k ≠ stop)
    (hnext : ∀ k ∈ items,
      (fill bucket pos stop size count items).2[items.idxOf k]? = some (next (entry k)))
    {b : ℕ} (hb : b < size) {head : π}
    (hhead : (fill bucket pos stop size count items).1[b]? = some head) :
    Spells read next stop head ((items.filter (bucket · = b)).reverse.map entry) := by
  have hfilled : Filled bucket pos stop size count items _ := filled_fill hcount hbucket
  have hmem : ∀ k ∈ (items.filter (bucket · = b)).reverse, k ∈ items ∧ bucket k = b := by
    intro k hk
    simpa using hk
  rw [hfilled.heads b hb, headOf, ← List.head?_reverse, Option.some_inj] at hhead
  rw [← hhead]
  refine spells_of_links pos entry (fun k hk => hread k (hmem k hk).1)
    (fun k hk => hstop k (hmem k hk).1) fun before k after hsplit => ?_
  have hk : k ∈ (items.filter (bucket · = b)).reverse := by simp [hsplit]
  obtain ⟨hki, rfl⟩ := hmem k hk
  have hfilter : items.filter (bucket · = bucket k) = after.reverse ++ k :: before.reverse := by
    have := congrArg List.reverse hsplit
    simpa using this
  have hlink := hfilled.links _ k (List.getElem?_idxOf hki)
  rw [hnext k hki, filter_take_idxOf hnodup hfilter, headOf, List.getLast?_reverse,
    Option.some_inj] at hlink
  exact hlink

end Nodup

end NxObject.Buckets
