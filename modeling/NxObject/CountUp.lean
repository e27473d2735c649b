import NxObject.Outcome

/-!
# Counting up to a number that passes a test

A loop that adds one while a test fails has no measure of its own: it ends because every window of
some length holds a number that passes. Here such a window is found by sifting. What the first moduli
leave of a window is counted, and the later moduli strike out fewer numbers than that.
-/
namespace NxObject.CountUp
open Outcome

/-! ## The loop -/

section Loop
variable {ε : Type} {p : ℕ → Bool}

/-- `while p(n) { n += 1 }` on 64-bit integers. -/
def countUp (p : ℕ → Bool) : ℕ → ℕ → Outcome ε ℕ
  | 0, _ => running
  | turns + 1, n => if p n then do
      let next ← add n 1
      countUp p turns next
    else ok n

/-- `m` is the first number from `n` on that fails `p`. -/
structure IsFirst (p : ℕ → Bool) (n m : ℕ) : Prop where
  le : n ≤ m
  stops : p m = false
  skips : ∀ k, n ≤ k → k < m → p k = true

lemma IsFirst.self {n : ℕ} (h : p n = false) : IsFirst p n n where
  le := le_rfl
  stops := h
  skips _ hle hlt := absurd hle (Nat.not_le.mpr hlt)

lemma IsFirst.succ {n m : ℕ} (hn : p n = true) (h : IsFirst p (n + 1) m) : IsFirst p n m where
  le := (Nat.le_succ n).trans h.le
  stops := h.stops
  skips k hle hlt := by
    rcases Nat.eq_or_lt_of_le hle with rfl | hgt
    · exact hn
    · exact h.skips k hgt hlt

lemma exists_isFirst {window : ℕ} : ∀ {n : ℕ}, (∃ i < window, p (n + i) = false) →
    ∃ m, IsFirst p n m ∧ m < n + window := by
  induction window with
  | zero => exact fun ⟨_, hi, _⟩ => absurd hi (Nat.not_lt_zero _)
  | succ window ih =>
    rintro n ⟨i, hi, hfail⟩
    cases hn : p n with
    | false => exact ⟨n, IsFirst.self hn, by omega⟩
    | true =>
      cases i with
      | zero => exact absurd hn (by simpa using hfail)
      | succ i =>
        obtain ⟨m, hm, hlt⟩ := ih (n := n + 1) ⟨i, by omega, by rwa [show n + 1 + i = n + (i + 1) by omega]⟩
        exact ⟨m, hm.succ hn, by omega⟩

/-- The loop ends at the first failing number, one turn for every number it looks at. -/
theorem countUp_eq_ok {m : ℕ} (hm : m < 2 ^ 64) :
    ∀ {turns n : ℕ}, IsFirst p n m → m < n + turns → (countUp p turns n : Outcome ε ℕ) = ok m := by
  intro turns
  induction turns with
  | zero => exact fun h hlt => absurd h.le (by omega)
  | succ turns ih =>
    intro n h hlt
    rw [countUp]
    rcases Nat.eq_or_lt_of_le h.le with rfl | hgt
    · rw [h.stops, if_neg Bool.false_ne_true]
    · rw [if_pos (h.skips n le_rfl hgt), add_of_lt (by omega), ok_bind]
      exact ih ⟨hgt, h.stops, fun k hle => h.skips k (Nat.le_of_succ_le hle)⟩ (by omega)

end Loop

/-! ## Sifting a window -/

/-- The places of a window from `n` on that no modulus of `base` divides. -/
def sifted (base : Finset ℕ) (window n : ℕ) : Finset ℕ :=
  (Finset.range window).filter fun i => ∀ q ∈ base, ¬ q ∣ n + i

/-- Those of them that `p` divides. -/
def struck (base : Finset ℕ) (window p n : ℕ) : Finset ℕ :=
  (sifted base window n).filter fun i => p ∣ n + i

section Sifting
variable {base : Finset ℕ} {window period : ℕ}

lemma dvd_mod_add {q : ℕ} (h : q ∣ period) (n i : ℕ) : q ∣ n % period + i ↔ q ∣ n + i := by
  have hsplit : n + i = period * (n / period) + (n % period + i) := by
    rw [← Nat.add_assoc, Nat.div_add_mod]
  rw [hsplit]
  exact (Nat.dvd_add_right (h.mul_right _)).symm

/-- What is left of a window depends on where it stands in the common period of the moduli. -/
lemma sifted_mod (h : ∀ q ∈ base, q ∣ period) (n : ℕ) :
    sifted base window (n % period) = sifted base window n := by
  refine Finset.filter_congr fun i _ => ?_
  exact forall₂_congr fun q hq => not_congr (dvd_mod_add (h q hq) n i)

/-- A place that is struck out stands for a multiple, and no modulus of the base divides the cofactor. -/
lemma exists_cofactor {p n i : ℕ} (hi : i ∈ struck base window p n) :
    i < window ∧ ∃ c, n + i = p * c ∧ ∀ q ∈ base, ¬ q ∣ c := by
  obtain ⟨hsifted, c, hc⟩ := Finset.mem_filter.mp hi
  obtain ⟨hwindow, hbase⟩ := Finset.mem_filter.mp hsifted
  refine ⟨Finset.mem_range.mp hwindow, c, hc, fun q hq hdvd => hbase q hq ?_⟩
  rw [hc]
  exact hdvd.mul_left p

/-- If the moduli of `later` strike out fewer places than `base` leaves, one place is free of all. -/
theorem exists_unstruck {later : Finset ℕ} {n : ℕ}
    (h : ∑ p ∈ later, (struck base window p n).card < (sifted base window n).card) :
    ∃ i < window, ∀ q ∈ base ∪ later, ¬ q ∣ n + i := by
  by_contra hnone
  push Not at hnone
  have hcover : sifted base window n ⊆ later.biUnion fun p => struck base window p n := by
    intro i hi
    obtain ⟨hwindow, hbase⟩ := Finset.mem_filter.mp hi
    obtain ⟨q, hq, hdvd⟩ := hnone i (Finset.mem_range.mp hwindow)
    rcases Finset.mem_union.mp hq with hq | hq
    · exact absurd hdvd (hbase q hq)
    · exact Finset.mem_biUnion.mpr ⟨q, hq, Finset.mem_filter.mpr ⟨hi, hdvd⟩⟩
  have hle := calc (sifted base window n).card
    _ ≤ (later.biUnion fun p => struck base window p n).card := Finset.card_le_card hcover
    _ ≤ ∑ p ∈ later, (struck base window p n).card := Finset.card_biUnion_le
  exact absurd h (Nat.not_lt.mpr hle)

end Sifting

end NxObject.CountUp
