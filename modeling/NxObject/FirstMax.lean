import Mathlib

/-!
# The first maximum of a function over a range

A scan keeps a value only if it is strictly greater than every one before it, so that it ends with the
greatest value at the smallest index. A predicate's occurrences are visited from the last one backwards.
-/
namespace NxObject
variable (g : ℕ → ℕ)

/-- Scan `left` indices from `i` upwards for a value greater than that of `best`. -/
def scan : ℕ → ℕ → ℕ × ℕ → ℕ × ℕ
  | 0, _, best => best
  | left + 1, i, best => scan left (i + 1) (if best.1 < g i then (g i, i) else best)

/-- What a scan over `[first, stop)` turns `start` into. -/
structure FirstMax (first stop : ℕ) (start best : ℕ × ℕ) : Prop where
  start_le : start.1 ≤ best.1
  bound : ∀ j, first ≤ j → j < stop → g j ≤ best.1
  source : best = start ∨ first ≤ best.2 ∧ best.2 < stop ∧ start.1 < best.1 ∧ best.1 = g best.2 ∧
    ∀ j, first ≤ j → j < best.2 → g j < best.1

variable {g}

theorem scan_firstMax (left i : ℕ) (start : ℕ × ℕ) :
    FirstMax g i (i + left) start (scan g left i start) := by
  induction left generalizing i start with
  | zero => exact ⟨le_rfl, fun j hi hj => by omega, Or.inl rfl⟩
  | succ left ih =>
    rw [scan]
    obtain ⟨hle, hbound, hsource⟩ := ih (i + 1) (if start.1 < g i then (g i, i) else start)
    rw [show i + 1 + left = i + (left + 1) by omega] at hbound hsource
    have hgi : g i ≤ (if start.1 < g i then (g i, i) else start).1 := by
      split_ifs with hlt
      · exact le_rfl
      · exact Nat.le_of_not_lt hlt
    have hstart : start.1 ≤ (if start.1 < g i then (g i, i) else start).1 := by
      split_ifs with hlt
      · exact hlt.le
      · exact le_rfl
    refine ⟨hstart.trans hle, fun j hi hj => ?_, ?_⟩
    · rcases hi.eq_or_lt with rfl | hi
      · exact hgi.trans hle
      · exact hbound j hi hj
    rcases hsource with heq | ⟨hfirst, hstop, hlt, hvalue, hmin⟩
    · rw [heq]
      split_ifs with hlt
      · exact Or.inr ⟨le_rfl, by dsimp only; omega, hlt, rfl, fun j hi hj => absurd hj (Nat.not_lt.mpr hi)⟩
      · exact Or.inl rfl
    · refine Or.inr ⟨by omega, hstop, hstart.trans_lt hlt, hvalue, fun j hi hj => ?_⟩
      rcases hi.eq_or_lt with rfl | hi
      · exact hgi.trans_lt hlt
      · exact hmin j hi hj

/-- A scan over values none of which is greater keeps what it was given. -/
theorem scan_of_le (left : ℕ) {i : ℕ} {best : ℕ × ℕ} (h : ∀ j, i ≤ j → g j ≤ best.1) :
    scan g left i best = best := by
  rcases (scan_firstMax left i best).source with heq | ⟨hfirst, -, hlt, hvalue, -⟩
  · exact heq
  · have hle := h _ hfirst
    omega

theorem scan_past {first stop : ℕ} {best : ℕ × ℕ} (h : stop ≤ first) :
    scan g (stop - first) first best = best := by
  rw [Nat.sub_eq_zero_of_le h]
  rfl

theorem scan_step {first stop : ℕ} {best : ℕ × ℕ} (h : first < stop) :
    scan g (stop - first) first best =
      scan g (stop - (first + 1)) (first + 1) (if best.1 < g first then (g first, first) else best) := by
  rw [show stop - first = stop - (first + 1) + 1 by omega, scan]

theorem scan_skip {first stop : ℕ} {best : ℕ × ℕ} (h : g first ≤ best.1) :
    scan g (stop - first) first best = scan g (stop - (first + 1)) (first + 1) best := by
  by_cases hstop : first < stop
  · rw [scan_step hstop, if_neg (Nat.not_lt.mpr h)]
  · rw [scan_past (Nat.le_of_not_lt hstop), scan_past (by omega)]

theorem scan_from_of_le {first i stop : ℕ} {best : ℕ × ℕ} (hle : first ≤ i)
    (h : ∀ j, first ≤ j → j < i → g j ≤ best.1) :
    scan g (stop - first) first best = scan g (stop - i) i best := by
  induction i, hle using Nat.le_induction with
  | base => rfl
  | succ i hi ih =>
    rw [ih fun j hj hlt => h j hj (hlt.trans (Nat.lt_succ_self i))]
    exact scan_skip (h i hi (Nat.lt_succ_self i))

/-- The last index below `n` at which the predicate holds. -/
def latest (p : ℕ → Bool) : ℕ → Option ℕ
  | 0 => none
  | n + 1 => if p n then some n else latest p n

end NxObject
