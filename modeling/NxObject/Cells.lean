import NxObject.Codec
import NxObject.Outcome

/-!
# Cells that are written and read

A cell that a run of calls writes holds what the last of the calls that write it has written. A loop that
fills the cells of a table, each once, leaves in every cell what filling it alone would have left. A field
of fixed width holds bytes and zeroes behind them.
-/
namespace NxObject

section LastWritten
variable {σ κ α : Type} {step : σ → κ → σ} (cell : σ → Option α) {write : κ → Option α}

/-- The last writer wins. -/
theorem foldl_lastWritten (hstep : ∀ s c, cell (step s c) = (write c).or (cell s)) (calls : List κ) (s : σ) :
    cell (calls.foldl step s) = (calls.filterMap write).getLast?.or (cell s) := by
  induction calls generalizing s with
  | nil => rfl
  | cons c calls ih =>
    rw [List.foldl_cons, ih, hstep]
    cases hc : write c with
    | none => rw [List.filterMap_cons_none hc, Option.none_or]
    | some a =>
      rw [List.filterMap_cons_some hc, List.getLast?_cons]
      cases (calls.filterMap write).getLast? <;> rfl

end LastWritten

namespace Outcome
variable {ε ι β : Type} [DecidableEq ι] {f : ι → β → Outcome ε β}

/-- Filling the cells of a list, each of them once. -/
theorem foldlM_update_eq_ok {l : List ι} (hnodup : l.Nodup) {t t' : ι → β} :
    l.foldlM (fun t i => f i (t i) >>= fun b => ok (Function.update t i b)) t = ok t' ↔
      (∀ i ∈ l, f i (t i) = ok (t' i)) ∧ ∀ i ∉ l, t' i = t i := by
  induction l generalizing t with
  | nil =>
    simp only [List.foldlM_nil, pure_eq, ok.injEq, List.not_mem_nil, false_implies, implies_true, true_and,
      not_false_eq_true, true_implies]
    exact ⟨fun h i => (congrFun h i).symm, fun h => (funext h).symm⟩
  | cons a l ih =>
    obtain ⟨ha, hnodup⟩ := List.nodup_cons.mp hnodup
    rw [List.foldlM_cons, List.forall_mem_cons]
    constructor
    · intro h
      obtain ⟨u, hu, h⟩ := bind_eq_ok.mp h
      obtain ⟨b, hb, hu⟩ := bind_eq_ok.mp hu
      obtain rfl := ok.inj hu
      obtain ⟨hin, hout⟩ := (ih hnodup).mp h
      have hta : t' a = b := (hout a ha).trans (Function.update_self a b t)
      refine ⟨⟨hta ▸ hb, fun i hi => ?_⟩, fun i hi => ?_⟩
      · have hne : i ≠ a := fun h => ha (h ▸ hi)
        rw [← hin i hi, Function.update_of_ne hne]
      · obtain ⟨hne, hi⟩ := not_or.mp (List.mem_cons.not.mp hi)
        rw [hout i hi, Function.update_of_ne hne]
    · rintro ⟨⟨hfa, hin⟩, hout⟩
      rw [hfa, ok_bind, ok_bind, ih hnodup]
      refine ⟨fun i hi => ?_, fun i hi => ?_⟩
      · have hne : i ≠ a := fun h => ha (h ▸ hi)
        rw [Function.update_of_ne hne, hin i hi]
      · by_cases hia : i = a
        · rw [hia, Function.update_self]
        · rw [Function.update_of_ne hia, hout i (List.mem_cons.not.mpr (not_or.mpr ⟨hia, hi⟩))]

end Outcome

theorem findSome?_range {α : Type} (f : ℕ → Option α) (n : ℕ) :
    (∃ i < n, (f i).isSome ∧ (∀ j < i, f j = none) ∧ (List.range n).findSome? f = f i) ∨
      (∀ i < n, f i = none) ∧ (List.range n).findSome? f = none := by
  induction n with
  | zero => exact Or.inr ⟨nofun, rfl⟩
  | succ n ih =>
    rw [List.range_succ, List.findSome?_append]
    rcases ih with ⟨i, hi, hsome, hfirst, hfind⟩ | ⟨hnone, hfind⟩
    · refine Or.inl ⟨i, hi.trans n.lt_succ_self, hsome, hfirst, ?_⟩
      rw [hfind, Option.or_of_isSome hsome]
    · rw [hfind, Option.none_or, List.findSome?_singleton]
      cases hn : f n with
      | some a => exact Or.inl ⟨n, n.lt_succ_self, Option.isSome_iff_exists.mpr ⟨a, hn⟩, hnone, hn.symm⟩
      | none =>
        refine Or.inr ⟨fun i hi => ?_, rfl⟩
        rcases Nat.lt_succ_iff_lt_or_eq.mp hi with hi | rfl
        · exact hnone i hi
        · exact hn

/-- The bytes, cut to the width of a field or filled up with zeroes. -/
def zeroFilled (n : ℕ) (bs : Bytes) : List.Vector UInt8 n := (Codec.bytes n).dec bs

section ZeroFilled
variable {n : ℕ} {bs : Bytes}

lemma zeroFilled_eq : (zeroFilled n bs).toList = (bs ++ List.replicate n 0).take n := rfl

lemma zeroFilled_toList (h : bs.length ≤ n) : (zeroFilled n bs).toList = bs ++ List.replicate (n - bs.length) 0 := by
  rw [zeroFilled_eq, List.take_append, List.take_of_length_le h, List.take_replicate, min_eq_left (Nat.sub_le n _)]

lemma zeroFilled_zeroes (m : ℕ) : zeroFilled n (List.replicate m 0) = zeroFilled n [] := by
  apply List.Vector.toList_injective
  rw [zeroFilled_eq, zeroFilled_eq, List.nil_append, List.replicate_append_replicate, List.take_replicate,
    List.take_replicate, min_eq_left (Nat.le_add_left n m), min_self]

lemma zeroFilled_nil_toList : (zeroFilled n []).toList = List.replicate n 0 := zeroFilled_toList (Nat.zero_le n)

lemma zeroFilled_head : (zeroFilled (n + 1) bs).head = bs.headD 0 := by
  apply Option.some.inj
  rw [← List.Vector.head?_toList, zeroFilled_eq]
  cases bs <;> rfl

lemma copyFromSlice_zeroFilled_nil {ε : Type} (h : bs.length ≤ n) :
    (Outcome.copyFromSlice (zeroFilled n []).toList 0 bs : Outcome ε _) = .ok (zeroFilled n bs).toList := by
  rw [zeroFilled_nil_toList, zeroFilled_toList h, Outcome.copyFromSlice_of_le (by rw [List.length_replicate]; omega),
    List.take_zero, List.nil_append, List.drop_replicate, Nat.zero_add]

end ZeroFilled

lemma take_findIdx_zero (bs : Bytes) : bs.take (bs.findIdx (· == 0)) = bs.takeWhile (· != 0) := by
  simp only [List.takeWhile_eq_take_findIdx_not, bne, Bool.not_not]

lemma takeWhile_padded {name : Bytes} (hzero : 0 ∉ name) (n : ℕ) :
    (name ++ List.replicate n 0).takeWhile (· != 0) = name := by
  have hne : ∀ b ∈ name, (b != 0) = true := fun b hb => bne_iff_ne.mpr fun h => hzero (h ▸ hb)
  rw [List.takeWhile_append_of_pos hne]
  cases n <;> simp [List.replicate_succ]
end NxObject
