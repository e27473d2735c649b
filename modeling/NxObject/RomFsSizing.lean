import NxObject.CountUp
import NxObject.RomFsBuilder

/-!
# The size of the hash tables

From 19 entries on, `romfs_get_hash_table_count` counts up to a number without a small prime factor.
Of thirty successive numbers eight are divisible by none of 2, 3 and 5, and 7, 11, 13 and 17 divide
at most seven of these, so that thirty turns of the loop are enough wherever it starts.
-/
namespace NxObject.Romfs
open Outcome CountUp

variable {ε : Type}

/-- `romfs_get_hash_table_count` as its loop runs, on 64-bit integers, with a number of turns. -/
def romfsGetHashTableCountTurns (turns numEntries : ℕ) : Outcome ε ℕ :=
  if numEntries < 3 then ok 3
  else if numEntries < 19 then ok (numEntries ||| 1)
  else countUp smallFactor turns numEntries

/-! ## Numbers without a small factor -/

lemma smallFactor_eq_true {n : ℕ} :
    smallFactor n = true ↔ ∃ p ∈ [2, 3, 5, 7, 11, 13, 17], p ∣ n := by
  simp [smallFactor, Nat.dvd_iff_mod_eq_zero, or_assoc]

lemma smallFactor_eq_false {n : ℕ} :
    smallFactor n = false ↔ ∀ p ∈ [2, 3, 5, 7, 11, 13, 17], ¬ p ∣ n := by
  rw [← Bool.not_eq_true, smallFactor_eq_true]
  push Not
  rfl

lemma card_sifted (n : ℕ) : (sifted {2, 3, 5} 30 n).card = 8 := by
  have hresidues : ∀ r < 30, (sifted {2, 3, 5} 30 r).card = 8 := by decide +kernel
  rw [← sifted_mod (by decide : ∀ q ∈ ({2, 3, 5} : Finset ℕ), q ∣ 30)]
  exact hresidues _ (Nat.mod_lt _ (by omega))

/-- Two odd cofactors differ by two, so that two struck places are `2 * p` apart. -/
lemma card_struck_le_one {p : ℕ} (hp : 15 ≤ p) (n : ℕ) : (struck {2, 3, 5} 30 p n).card ≤ 1 := by
  by_contra hcard
  obtain ⟨i, hi, j, hj, hne⟩ := Finset.one_lt_card.mp (Nat.not_le.mp hcard)
  obtain ⟨hi30, c, hc, hcbase⟩ := exists_cofactor hi
  obtain ⟨hj30, d, hd, hdbase⟩ := exists_cofactor hj
  have hc₂ := hcbase 2 (by decide)
  have hd₂ := hdbase 2 (by decide)
  have hcd : c ≠ d := by
    rintro rfl
    omega
  rcases (by omega : c + 2 ≤ d ∨ d + 2 ≤ c) with hle | hle
  all_goals
    have := Nat.mul_le_mul_left p hle
    rw [Nat.mul_add] at this
    omega

lemma mod_six {c : ℕ} (h : ¬ 2 ∣ c ∧ ¬ 3 ∣ c) : c % 6 = 1 ∨ c % 6 = 5 := by
  omega

lemma exists_six_apart {c d e : ℕ} (hc : ¬ 2 ∣ c ∧ ¬ 3 ∣ c) (hd : ¬ 2 ∣ d ∧ ¬ 3 ∣ d)
    (he : ¬ 2 ∣ e ∧ ¬ 3 ∣ e) (hcd : c ≠ d) (hce : c ≠ e) (hde : d ≠ e) :
    ∃ x ∈ [c, d, e], ∃ y ∈ [c, d, e], x + 6 ≤ y := by
  by_contra hnone
  push Not at hnone
  simp only [List.forall_mem_cons] at hnone
  have := mod_six hc
  have := mod_six hd
  have := mod_six he
  omega

lemma card_struck_le_two {p : ℕ} (hp : 5 ≤ p) (n : ℕ) : (struck {2, 3, 5} 30 p n).card ≤ 2 := by
  by_contra hcard
  obtain ⟨i, hi, j, hj, k, hk, hij, hik, hjk⟩ := Finset.two_lt_card.mp (Nat.not_le.mp hcard)
  obtain ⟨hi30, c, hc, hcbase⟩ := exists_cofactor hi
  obtain ⟨hj30, d, hd, hdbase⟩ := exists_cofactor hj
  obtain ⟨hk30, e, he, hebase⟩ := exists_cofactor hk
  have hapart := exists_six_apart (c := c) (d := d) (e := e)
    ⟨hcbase 2 (by decide), hcbase 3 (by decide)⟩ ⟨hdbase 2 (by decide), hdbase 3 (by decide)⟩
    ⟨hebase 2 (by decide), hebase 3 (by decide)⟩ (by rintro rfl; omega) (by rintro rfl; omega)
    (by rintro rfl; omega)
  obtain ⟨x, hx, y, hy, hxy⟩ := hapart
  have hplace : ∀ z ∈ [c, d, e], n ≤ p * z ∧ p * z < n + 30 := by
    simp only [List.forall_mem_cons, ← hc, ← hd, ← he]
    exact ⟨by omega, by omega, by omega, by simp⟩
  have hmul := Nat.mul_le_mul_left p hxy
  rw [Nat.mul_add] at hmul
  have := (hplace x hx).1
  have := (hplace y hy).2
  omega

/-- Among thirty successive numbers one has no small factor. -/
theorem exists_smallFactor_eq_false (n : ℕ) : ∃ i < 30, smallFactor (n + i) = false := by
  have hstruck : ∑ p ∈ {7, 11, 13, 17}, (struck {2, 3, 5} 30 p n).card <
      (sifted {2, 3, 5} 30 n).card := by
    have h₇ := card_struck_le_two (p := 7) (by omega) n
    have h₁₁ := card_struck_le_two (p := 11) (by omega) n
    have h₁₃ := card_struck_le_two (p := 13) (by omega) n
    have h₁₇ := card_struck_le_one (p := 17) (by omega) n
    rw [card_sifted, Finset.sum_insert (by decide), Finset.sum_insert (by decide),
      Finset.sum_insert (by decide), Finset.sum_singleton]
    omega
  obtain ⟨i, hi, hfree⟩ := exists_unstruck hstruck
  refine ⟨i, hi, smallFactor_eq_false.mpr fun p hp => hfree p ?_⟩
  exact (by decide : ∀ p ∈ [2, 3, 5, 7, 11, 13, 17], p ∈ ({2, 3, 5} ∪ {7, 11, 13, 17} : Finset ℕ)) p hp

/-! ## The loop -/

lemma skipSmallFactors_eq {n m : ℕ} (h : IsFirst smallFactor n m) : skipSmallFactors n = m := by
  fun_induction skipSmallFactors n with
  | case1 n hn ih =>
    have hne : n ≠ m := by
      rintro rfl
      exact absurd hn (by simp [h.stops])
    exact ih ⟨Nat.lt_of_le_of_ne h.le hne, h.stops, fun k hle => h.skips k (Nat.le_of_succ_le hle)⟩
  | case2 n hn =>
    by_contra hne
    exact hn (h.skips n le_rfl (Nat.lt_of_le_of_ne h.le hne))

lemma hashTableCount_isFirst {n : ℕ} (h : 19 ≤ n) :
    IsFirst smallFactor n (romfsGetHashTableCount n) ∧ romfsGetHashTableCount n < n + 30 := by
  obtain ⟨m, hm, hlt⟩ := exists_isFirst (exists_smallFactor_eq_false n)
  have hcount : romfsGetHashTableCount n = m := by
    rw [romfsGetHashTableCount, if_neg (by omega), if_neg (by omega), skipSmallFactors_eq hm]
  rw [hcount]
  exact ⟨hm, hlt⟩

lemma hashTableCountTurns_eq {turns n : ℕ} (hn : n + 30 < 2 ^ 64) (hturns : 30 ≤ turns) :
    (romfsGetHashTableCountTurns turns n : Outcome ε ℕ) = ok (romfsGetHashTableCount n) := by
  by_cases hlarge : 19 ≤ n
  · obtain ⟨hfirst, hlt⟩ := hashTableCount_isFirst hlarge
    rw [romfsGetHashTableCountTurns, if_neg (by omega), if_neg (by omega),
      countUp_eq_ok (by omega) hfirst (by omega)]
  · rw [romfsGetHashTableCountTurns, romfsGetHashTableCount]
    split_ifs <;> first | rfl | omega

lemma max_le_hashTableCount (n : ℕ) : max n 3 ≤ romfsGetHashTableCount n := by
  by_cases hlarge : 19 ≤ n
  · have := (hashTableCount_isFirst hlarge).1.le
    omega
  · rw [romfsGetHashTableCount]
    split_ifs
    · omega
    · have := Nat.left_le_or (n := n) (m := 1)
      omega
    · omega

lemma hashTableCount_pos (n : ℕ) : 0 < romfsGetHashTableCount n := by
  have := max_le_hashTableCount n
  omega

/-- Sizing ends for every number of entries, and its result is exact: at least the number of entries
and at least three, and from 19 entries on the first number that none of the seven primes divides,
less than thirty above. -/
theorem hashTableCount_exact (n : ℕ) (h : n + 30 < 2 ^ 64) :
    ∃ m, (∀ turns, 30 ≤ turns → (romfsGetHashTableCountTurns turns n : Outcome ε ℕ) = ok m) ∧
      romfsGetHashTableCount n = m ∧ max n 3 ≤ m ∧ m ≠ 0 ∧
      (19 ≤ n → (∀ p ∈ [2, 3, 5, 7, 11, 13, 17], ¬ p ∣ m) ∧
        (∀ k, n ≤ k → k < m → ∃ p ∈ [2, 3, 5, 7, 11, 13, 17], p ∣ k) ∧ m - n < 30) := by
  refine ⟨_, fun turns hturns => hashTableCountTurns_eq h hturns, rfl, max_le_hashTableCount n,
    (hashTableCount_pos n).ne', fun hlarge => ?_⟩
  obtain ⟨hfirst, hlt⟩ := hashTableCount_isFirst hlarge
  refine ⟨smallFactor_eq_false.mp hfirst.stops, fun k hle hk => ?_, by omega⟩
  exact smallFactor_eq_true.mp (hfirst.skips k hle hk)

theorem hashTableCount_exact_of_114 :
    ∃ m, (∀ turns, 30 ≤ turns →
        (romfsGetHashTableCountTurns turns 114 : Outcome Empty ℕ) = ok m) ∧
      romfsGetHashTableCount 114 = m ∧ max 114 3 ≤ m ∧ m ≠ 0 ∧
      (19 ≤ 114 → (∀ p ∈ [2, 3, 5, 7, 11, 13, 17], ¬ p ∣ m) ∧
        (∀ k, 114 ≤ k → k < m → ∃ p ∈ [2, 3, 5, 7, 11, 13, 17], p ∣ k) ∧ m - 114 < 30) :=
  hashTableCount_exact 114 (by decide)

end NxObject.Romfs
