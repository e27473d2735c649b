import NxObject.Bytes

/-!
# Placement

Things that stand one behind the other in a byte string: each is found at the sum of the sizes of those
before it. Positions are rounded up to multiples of an alignment.
-/
namespace NxObject.Placement

/-! ## Alignment -/

def alignUp (k n : ℕ) : ℕ := (n + (k - 1)) / k * k

section AlignUp
variable {k : ℕ} (hk : 0 < k) (n : ℕ)
include hk

theorem le_alignUp : n ≤ alignUp k n := by
  have h := Nat.div_add_mod' (n + (k - 1)) k
  have hmod := Nat.mod_lt (n + (k - 1)) hk
  rw [alignUp]
  omega

theorem alignUp_lt : alignUp k n < n + k := by
  have h := Nat.div_mul_le_self (n + (k - 1)) k
  rw [alignUp]
  omega

theorem alignUp_add {a : ℕ} (h : k ∣ a) : alignUp k (a + n) = a + alignUp k n := by
  obtain ⟨m, rfl⟩ := h
  rw [alignUp, alignUp, Nat.add_assoc, Nat.mul_add_div hk, Nat.add_mul, Nat.mul_comm m k]

theorem alignUp_of_dvd {a : ℕ} (h : k ∣ a) : alignUp k a = a := by
  have hzero : alignUp k 0 = 0 := by
    rw [alignUp, Nat.zero_add, Nat.div_eq_of_lt (by omega), Nat.zero_mul]
  rw [← Nat.add_zero a, alignUp_add hk 0 h, hzero]

end AlignUp

theorem dvd_alignUp (k n : ℕ) : k ∣ alignUp k n := Nat.dvd_mul_left k _

theorem alignUp_mono (k : ℕ) {m n : ℕ} (h : m ≤ n) : alignUp k m ≤ alignUp k n :=
  Nat.mul_le_mul_right k (Nat.div_le_div_right (by omega))

theorem dvd_add_sub_mod (hk : 0 < k) (n : ℕ) : k ∣ n + (k - n % k) := by
  have hlt := Nat.mod_lt n hk
  have hdiv := Nat.div_add_mod n k
  refine ⟨n / k + 1, ?_⟩
  rw [Nat.mul_add, Nat.mul_one]
  omega

/-- Clearing the low bits of a word rounds it down. -/
theorem and_two_pow_sub {w k x : ℕ} (hk : k ≤ w) (hx : x < 2 ^ w) :
    x &&& (2 ^ w - 1 - (2 ^ k - 1)) = x / 2 ^ k * 2 ^ k := by
  have hmask : 2 ^ w - 1 - (2 ^ k - 1) = 2 ^ w - (2 ^ k - 1 + 1) := by omega
  have hlt : 2 ^ k - 1 < 2 ^ w := by
    have := Nat.pow_le_pow_right (n := 2) (by omega) hk
    have := Nat.two_pow_pos k
    omega
  rw [hmask, ← Nat.shiftRight_eq_div_pow, ← Nat.shiftLeft_eq]
  apply Nat.eq_of_testBit_eq
  intro i
  rw [Nat.testBit_and, Nat.testBit_two_pow_sub_succ hlt, Nat.testBit_two_pow_sub_one,
    Nat.testBit_shiftLeft, Nat.testBit_shiftRight]
  by_cases hi : k ≤ i
  · rw [Nat.add_sub_cancel' hi]
    by_cases hiw : i < w
    · simp [hi, hiw]
    · have hbit : x.testBit i = false :=
        Nat.testBit_lt_two_pow (hx.trans_le (Nat.pow_le_pow_right (by omega) (by omega)))
      simp [hbit]
  · simp [hi, Nat.lt_of_not_le hi]

theorem alignUp_two_pow {w k : ℕ} (hk : k ≤ w) (n : ℕ) :
    (n + (2 ^ k - 1)) % 2 ^ w &&& (2 ^ w - 1 - (2 ^ k - 1)) = alignUp (2 ^ k) n % 2 ^ w := by
  have hw : 2 ^ w = 2 ^ k * 2 ^ (w - k) := by rw [← pow_add, Nat.add_sub_cancel' hk]
  rw [and_two_pow_sub hk (Nat.mod_lt _ (Nat.two_pow_pos w)), alignUp, hw, Nat.mod_mul_right_div_self,
    Nat.mul_comm (2 ^ k) (2 ^ (w - k)), Nat.mul_mod_mul_right]

/-! ## Offsets -/

variable {α : Type} [BEq α] [LawfulBEq α]

/-- Where `a` begins when everything in `l` stands one behind the other. -/
def offsetOf (size : α → ℕ) (l : List α) (a : α) : ℕ := ((l.take (l.idxOf a)).map size).sum

/-- Where the last one ends. -/
def total (size : α → ℕ) (l : List α) : ℕ := (l.map size).sum

variable {size : α → ℕ} {l : List α} {a b : α}

lemma split_at (ha : a ∈ l) : l = l.take (l.idxOf a) ++ a :: l.drop (l.idxOf a + 1) := by
  have hlt := List.idxOf_lt_length_of_mem ha
  conv_lhs => rw [← List.take_append_drop (l.idxOf a) l, List.drop_eq_getElem_cons hlt,
    List.getElem_idxOf hlt]

theorem offsetOf_add_le (ha : a ∈ l) : offsetOf size l a + size a ≤ total size l := by
  have h := congrArg (fun l => (l.map size).sum) (split_at ha)
  simp only [List.map_append, List.map_cons, List.sum_append, List.sum_cons] at h
  rw [offsetOf, total]
  omega

/-- What comes later begins behind. -/
theorem offsetOf_add_le_offsetOf (ha : a ∈ l) (h : l.idxOf a < l.idxOf b) :
    offsetOf size l a + size a ≤ offsetOf size l b := by
  have hmem : a ∈ l.take (l.idxOf b) := (List.mem_take_iff_idxOf_lt ha).mpr h
  have hidx : (l.take (l.idxOf b)).idxOf a = l.idxOf a :=
    (List.take_prefix _ _).idxOf_eq_of_mem hmem
  have hle : offsetOf size (l.take (l.idxOf b)) a + size a ≤ total size (l.take (l.idxOf b)) :=
    offsetOf_add_le hmem
  rwa [offsetOf, hidx, List.take_take, Nat.min_eq_left h.le] at hle

lemma offsetOf_append {before after : List α} (hnodup : (before ++ a :: after).Nodup) :
    offsetOf size (before ++ a :: after) a = total size before := by
  have hnot : a ∉ before := fun ha =>
    (List.nodup_append.mp hnodup).2.2 a ha a List.mem_cons_self rfl
  rw [offsetOf, List.idxOf_append_of_notMem hnot, List.idxOf_cons_self, Nat.add_zero, List.take_left,
    total]

omit [BEq α] [LawfulBEq α] in
lemma dvd_total {k : ℕ} (hsize : ∀ a, k ∣ size a) (l : List α) : k ∣ total size l :=
  List.dvd_sum fun _ hn => by
    obtain ⟨a, -, rfl⟩ := List.mem_map.mp hn
    exact hsize a

omit [LawfulBEq α] in
lemma dvd_offsetOf {k : ℕ} (hsize : ∀ a, k ∣ size a) (l : List α) (a : α) : k ∣ offsetOf size l a :=
  dvd_total hsize _

omit [BEq α] [LawfulBEq α] in
lemma length_le_total {l : List α} (hsize : ∀ a ∈ l, 0 < size a) : l.length ≤ total size l := by
  induction l with
  | nil => exact Nat.zero_le _
  | cons a l ih =>
    have ha := hsize a List.mem_cons_self
    have hl := ih fun b hb => hsize b (List.mem_cons_of_mem _ hb)
    rw [total, List.map_cons, List.sum_cons, ← total, List.length_cons]
    omega

theorem offsetOf_injOn (hsize : ∀ a ∈ l, 0 < size a) (ha : a ∈ l) (hb : b ∈ l)
    (h : offsetOf size l a = offsetOf size l b) : a = b := by
  have ha' := hsize a ha
  have hb' := hsize b hb
  rcases lt_trichotomy (l.idxOf a) (l.idxOf b) with hlt | heq | hlt
  · have hle : offsetOf size l a + size a ≤ offsetOf size l b := offsetOf_add_le_offsetOf ha hlt
    omega
  · exact (List.idxOf_inj ha).mp heq
  · have hle : offsetOf size l b + size b ≤ offsetOf size l a := offsetOf_add_le_offsetOf hb hlt
    omega

omit [BEq α] [LawfulBEq α] in
theorem exists_of_lt_total {p : ℕ} (h : p < total size l) :
    ∃ before a after, l = before ++ a :: after ∧ total size before ≤ p ∧
      p < total size before + size a := by
  induction l generalizing p with
  | nil => exact absurd h (Nat.not_lt_zero p)
  | cons a l ih =>
    by_cases hp : p < size a
    · exact ⟨[], a, l, rfl, Nat.zero_le p, by simpa [total] using hp⟩
    · rw [total, List.map_cons, List.sum_cons, ← total] at h
      obtain ⟨before, b, after, rfl, hle, hlt⟩ := ih (p := p - size a) (by omega)
      refine ⟨a :: before, b, after, rfl, ?_, ?_⟩ <;>
        rw [total, List.map_cons, List.sum_cons, ← total] <;> omega

omit [BEq α] [LawfulBEq α] in
theorem offsetOf_finRange_succ {n : ℕ} (size : Fin (n + 1) → ℕ) (i : Fin n) :
    offsetOf size (List.finRange (n + 1)) i.succ =
      offsetOf size (List.finRange (n + 1)) i.castSucc + size i.castSucc := by
  have hlt : (i : ℕ) < (List.finRange (n + 1)).length := by
    rw [List.length_finRange]
    omega
  have hget : (List.finRange (n + 1))[(i : ℕ)] = i.castSucc := by
    rw [List.getElem_finRange]
    rfl
  rw [offsetOf, offsetOf, List.idxOf_finRange, List.idxOf_finRange, Fin.val_succ, Fin.val_castSucc,
    List.take_succ_eq_append_getElem hlt, hget]
  simp

omit [BEq α] [LawfulBEq α] in
lemma length_flatMap_eq {chunk : α → Bytes} (l : List α)
    (hchunk : ∀ a ∈ l, (chunk a).length = size a) : (l.flatMap chunk).length = total size l := by
  rw [List.length_flatMap, total, List.map_congr_left hchunk]

/-- What is written for `a` stands at its offset. -/
theorem flatMap_at {chunk : α → Bytes} (hchunk : ∀ a ∈ l, (chunk a).length = size a) (ha : a ∈ l) :
    ∃ pre post, l.flatMap chunk = pre ++ (chunk a ++ post) ∧ pre.length = offsetOf size l a := by
  refine ⟨(l.take (l.idxOf a)).flatMap chunk, (l.drop (l.idxOf a + 1)).flatMap chunk, ?_, ?_⟩
  · conv_lhs => rw [split_at ha]
    rw [List.flatMap_append, List.flatMap_cons]
  · exact length_flatMap_eq _ fun b hb => hchunk b (List.mem_of_mem_take hb)

end NxObject.Placement
