import NxObject.Utf8

/-!
# Numbers as text

A number is written in hexadecimal digits, with zeroes in front up to a width. The digits of a number are read back
as the number.
-/
namespace NxObject

/-- At least `width` digits in lower case. -/
def lowerHex (width n : ℕ) : Text := (Nat.toDigits 16 n).leftpad width '0'

def hexValue (c : Char) : ℕ := if c.isDigit then c.toNat - '0'.toNat else c.toNat - 'a'.toNat + 10

def ofHex (text : Text) : ℕ := text.foldl (fun n c => 16 * n + hexValue c) 0

lemma hexValue_digitChar {d : ℕ} (h : d < 16) : hexValue (Nat.digitChar d) = d := by
  interval_cases d <;> rfl

lemma ofHex_concat (text : Text) (c : Char) : ofHex (text ++ [c]) = 16 * ofHex text + hexValue c := by
  simp [ofHex]

lemma ofHex_toDigits (n : ℕ) : ofHex (Nat.toDigits 16 n) = n := by
  induction n using Nat.strong_induction_on with
  | _ n ih =>
    by_cases h : n < 16
    · rw [Nat.toDigits_of_lt_base h]
      simp [ofHex, hexValue_digitChar h]
    · rw [Nat.toDigits_of_base_le (by decide) (not_lt.mp h), ofHex_concat, ih (n / 16) (by omega),
        hexValue_digitChar (Nat.mod_lt _ (by decide)), Nat.div_add_mod]

lemma ofHex_replicate_append (k : ℕ) (text : Text) : ofHex (List.replicate k '0' ++ text) = ofHex text := by
  have hzeroes : ofHex (List.replicate k '0') = 0 := by
    induction k with
    | zero => rfl
    | succ k ih =>
      rw [List.replicate_succ', ofHex_concat, ih]
      rfl
  simp only [ofHex] at hzeroes
  simp [ofHex, hzeroes]

theorem ofHex_lowerHex (width n : ℕ) : ofHex (lowerHex width n) = n := by
  rw [lowerHex, List.leftpad, ofHex_replicate_append, ofHex_toDigits]

theorem lowerHex_injective (width : ℕ) : Function.Injective (lowerHex width) :=
  Function.LeftInverse.injective (g := ofHex) (ofHex_lowerHex width)

lemma exists_digit_of_mem_toDigits {n : ℕ} {c : Char} (h : c ∈ Nat.toDigits 16 n) : ∃ d < 16, c = Nat.digitChar d := by
  induction n using Nat.strong_induction_on with
  | _ n ih =>
    by_cases hlt : n < 16
    · rw [Nat.toDigits_of_lt_base hlt, List.mem_singleton] at h
      exact ⟨n, hlt, h⟩
    · rw [Nat.toDigits_of_base_le (by decide) (not_lt.mp hlt), List.mem_append, List.mem_singleton] at h
      rcases h with h | h
      · exact ih (n / 16) (by omega) h
      · exact ⟨n % 16, Nat.mod_lt _ (by decide), h⟩

lemma exists_digit_of_mem {width n : ℕ} {c : Char} (h : c ∈ lowerHex width n) : ∃ d < 16, c = Nat.digitChar d := by
  rw [lowerHex, List.leftpad, List.mem_append] at h
  rcases h with h | h
  · exact ⟨0, by decide, List.eq_of_mem_replicate h⟩
  · exact exists_digit_of_mem_toDigits h

lemma notMem_lowerHex {c : Char} (h : ∀ d < 16, c ≠ Nat.digitChar d) (width n : ℕ) : c ∉ lowerHex width n := by
  intro hmem
  obtain ⟨d, hd, rfl⟩ := exists_digit_of_mem hmem
  exact h d hd rfl

lemma lowerHex_length {width n : ℕ} (hpos : 0 < width) (h : n < 16 ^ width) : (lowerHex width n).length = width := by
  have hle : (Nat.toDigits 16 n).length ≤ width := (Nat.length_toDigits_le_iff (by decide) hpos).mpr h
  rw [lowerHex, List.length_leftpad, Nat.max_eq_left hle]

end NxObject
