import Mathlib

/-!
# Words made of bit fields

A word is laid out as fields, the highest bits first. A field has a width and a value; a run of ones at the
low end that a zero ends can serve as the mark of the layout.
-/
namespace NxObject.BitFields

/-- The bits `[hi:lo]` of a word. -/
def bits (word hi lo : ℕ) : ℕ := word / 2 ^ lo % 2 ^ (hi + 1 - lo)

/-- How many bits the fields take, each a width and a value. -/
def width (fields : List (ℕ × ℕ)) : ℕ := (fields.map Prod.fst).sum

def pack : List (ℕ × ℕ) → ℕ
  | [] => 0
  | (w, value) :: fields => 2 ^ width fields * (value % 2 ^ w) + pack fields

lemma width_append (high low : List (ℕ × ℕ)) : width (high ++ low) = width high + width low := by
  simp [width]

lemma pack_append (high low : List (ℕ × ℕ)) :
    pack (high ++ low) = 2 ^ width low * pack high + pack low := by
  induction high with
  | nil => simp [pack]
  | cons f high ih =>
    rw [List.cons_append, pack, pack, ih, width_append, pow_add]
    ring

lemma pack_lt (fields : List (ℕ × ℕ)) : pack fields < 2 ^ width fields := by
  induction fields with
  | nil => exact Nat.one_pos
  | cons f fields ih =>
    have hvalue : f.2 % 2 ^ f.1 < 2 ^ f.1 := Nat.mod_lt _ (Nat.two_pow_pos _)
    calc pack (f :: fields) < 2 ^ width fields * (f.2 % 2 ^ f.1) + 2 ^ width fields :=
          Nat.add_lt_add_left ih _
      _ = 2 ^ width fields * (f.2 % 2 ^ f.1 + 1) := by ring
      _ ≤ 2 ^ width fields * 2 ^ f.1 := Nat.mul_le_mul_left _ hvalue
      _ = 2 ^ (f.1 + width fields) := by rw [Nat.add_comm, pow_add]

lemma bits_pack (high low : List (ℕ × ℕ)) (w value : ℕ) {hi lo : ℕ} (hlo : width low = lo)
    (hhi : lo + w = hi + 1) : bits (pack (high ++ (w, value) :: low)) hi lo = value % 2 ^ w := by
  have hw : hi + 1 - lo = w := by omega
  have hlow : pack low / 2 ^ lo = 0 := Nat.div_eq_of_lt (hlo ▸ pack_lt low)
  have hsplit : pack (high ++ (w, value) :: low) =
      pack low + 2 ^ lo * (value % 2 ^ w + 2 ^ w * pack high) := by
    have hwidth : width ((w, value) :: low) = lo + w := by rw [← hlo, Nat.add_comm]; rfl
    rw [pack_append, hwidth, pack, hlo, pow_add]
    ring
  rw [bits, hw, hsplit, Nat.add_mul_div_left _ _ (Nat.two_pow_pos lo), hlow, Nat.zero_add,
    Nat.add_mul_mod_self_left, Nat.mod_mod]

lemma testBit_bits (word hi lo i : ℕ) :
    (bits word hi lo).testBit i = (decide (i < hi + 1 - lo) && word.testBit (lo + i)) := by
  rw [bits, Nat.testBit_mod_two_pow, Nat.testBit_div_two_pow, Nat.add_comm i lo]

lemma testBit_eq_bits (word i : ℕ) : word.testBit i = decide (bits word i i = 1) := by
  rw [Nat.testBit_eq_decide_div_mod_eq, bits, Nat.add_sub_cancel_left, pow_one]

def setBits (word : ℕ) (positions : List ℕ) : ℕ := positions.foldl (fun word i => word ||| 2 ^ i) word

lemma testBit_setBits (word : ℕ) (positions : List ℕ) (j : ℕ) :
    (setBits word positions).testBit j = (word.testBit j || decide (j ∈ positions)) := by
  induction positions generalizing word with
  | nil => simp [setBits]
  | cons i positions ih =>
    rw [setBits, List.foldl_cons, ← setBits, ih, Nat.testBit_or, Nat.testBit_two_pow, Bool.or_assoc]
    simp [List.mem_cons, eq_comm]

/-! ## The mark -/

/-- How many ones the low end of a word of `w` bits begins with. -/
def trailingOnes : ℕ → ℕ → ℕ
  | 0, _ => 0
  | w + 1, word => if word % 2 = 1 then trailingOnes w (word / 2) + 1 else 0

lemma trailingOnes_eq {w n word : ℕ} (hn : n < w) (hones : ∀ i < n, word.testBit i = true)
    (hzero : word.testBit n = false) : trailingOnes w word = n := by
  induction n generalizing w word with
  | zero =>
    obtain ⟨w, rfl⟩ := Nat.exists_eq_add_one_of_ne_zero hn.ne'
    rw [trailingOnes, if_neg (by simpa [Nat.testBit_zero] using hzero)]
  | succ n ih =>
    obtain ⟨w, rfl⟩ := Nat.exists_eq_add_one_of_ne_zero (Nat.ne_of_gt (Nat.zero_lt_of_lt hn))
    have hlow : word % 2 = 1 := by simpa [Nat.testBit_zero] using hones 0 n.succ_pos
    rw [trailingOnes, if_pos hlow, ih (Nat.lt_of_succ_lt_succ hn)]
    · intro i hi
      rw [← Nat.testBit_succ]
      exact hones (i + 1) (Nat.succ_lt_succ hi)
    · rw [← Nat.testBit_succ]
      exact hzero

lemma trailingOnes_of_bits {w n word : ℕ} (hn : n < w) (hmark : bits word n 0 = 2 ^ n - 1) :
    trailingOnes w word = n := by
  have hbit : ∀ i ≤ n, word.testBit i = decide (i < n) := by
    intro i hi
    have hlt : i < n + 1 - 0 := Nat.lt_succ_of_le hi
    have h := testBit_bits word n 0 i
    rw [hmark, Nat.testBit_two_pow_sub_one, decide_eq_true hlt, Nat.zero_add] at h
    exact h.symm
  refine trailingOnes_eq hn (fun i hi => ?_) ?_
  · rw [hbit i hi.le, decide_eq_true hi]
  · rw [hbit n le_rfl, decide_eq_false (lt_irrefl n)]

/-! ## Words of 32 bits -/

def Packed (word : UInt32) (fields : List (ℕ × ℕ)) : Prop := word.toNat = pack fields

section Packed
variable {acc value shift : UInt32} {fields more : List (ℕ × ℕ)}

lemma Packed.ext {other : UInt32} (hacc : Packed acc fields) (hother : Packed other more)
    (h : pack fields = pack more) : acc = other :=
  UInt32.toNat_inj.mp (hacc.trans (h.trans hother.symm))

lemma Packed.or_shift (hacc : Packed acc fields) (hvalue : Packed value more)
    (hshift : shift.toNat = width fields) (hfit : width more + width fields ≤ 32) :
    Packed (acc ||| value <<< shift) (more ++ fields) := by
  have hmore : 2 ^ width fields * pack more < 2 ^ 32 := by
    calc 2 ^ width fields * pack more < 2 ^ width fields * 2 ^ width more :=
          Nat.mul_lt_mul_of_pos_left (pack_lt more) (Nat.two_pow_pos _)
      _ = 2 ^ (width more + width fields) := by rw [pow_add, Nat.mul_comm]
      _ ≤ 2 ^ 32 := Nat.pow_le_pow_right two_pos hfit
  have hmoved : (value <<< shift).toNat = 2 ^ width fields * pack more := by
    rcases Nat.eq_or_lt_of_le (Nat.le_trans (Nat.le_add_left _ _) hfit) with heq | hlt
    · -- Nothing is left above the fields, so nothing is moved.
      have hwidth : width more = 0 := by omega
      have hzero : pack more = 0 := Nat.lt_one_iff.mp (by simpa [hwidth] using pack_lt more)
      have hvalue₀ : value = 0 := UInt32.toNat_inj.mp (hvalue.trans hzero)
      simp [hvalue₀, hzero]
    · rw [UInt32.toNat_shiftLeft, hshift, Nat.mod_eq_of_lt hlt, Nat.shiftLeft_eq, hvalue, Nat.mul_comm,
        Nat.mod_eq_of_lt hmore]
  rw [Packed, UInt32.toNat_or, hmoved, hacc, pack_append, Nat.or_comm,
    ← Nat.two_pow_add_eq_or_of_lt (pack_lt fields)]

lemma packed_mask (value : UInt32) {mask : UInt32} {w : ℕ} (hmask : mask.toNat = 2 ^ w - 1) :
    Packed (value &&& mask) [(w, value.toNat)] := by
  rw [Packed, UInt32.toNat_and, hmask, Nat.and_two_pow_sub_one_eq_mod]
  simp [pack, width]

lemma Packed.pad (hacc : Packed acc fields) (w : ℕ) : Packed acc ((w, 0) :: fields) := by
  rw [Packed, pack, Nat.zero_mod, Nat.mul_zero, Nat.zero_add, hacc]

lemma Packed.bits_mod (hacc : Packed acc fields) (i : ℕ) {w n hi lo : ℕ} (hfield : fields[i]? = some (w, n))
    (hlo : width (fields.drop (i + 1)) = lo) (hhi : lo + w = hi + 1) :
    bits acc.toNat hi lo = n % 2 ^ w := by
  obtain ⟨hi', hget⟩ := List.getElem?_eq_some_iff.mp hfield
  have hsplit : fields = fields.take i ++ (w, n) :: fields.drop (i + 1) := by
    rw [← hget, List.getElem_cons_drop, List.take_append_drop]
  rw [hacc, hsplit, bits_pack _ _ _ _ hlo hhi]

lemma Packed.bits_eq (hacc : Packed acc fields) (i : ℕ) {w n hi lo : ℕ} (hfield : fields[i]? = some (w, n))
    (hlo : width (fields.drop (i + 1)) = lo) (hhi : lo + w = hi + 1) (hn : n < 2 ^ w) :
    bits acc.toNat hi lo = n := by
  rw [hacc.bits_mod i hfield hlo hhi, Nat.mod_eq_of_lt hn]

lemma Packed.mark (hacc : Packed acc fields) (i : ℕ) {n : ℕ} (hfield : fields[i]? = some (n + 1, 2 ^ n - 1))
    (hlast : width (fields.drop (i + 1)) = 0) (hn : n < 32) : trailingOnes 32 acc.toNat = n := by
  have hlt : 2 ^ n - 1 < 2 ^ (n + 1) := by
    have hle : 2 ^ n ≤ 2 ^ (n + 1) := Nat.pow_le_pow_right two_pos n.le_succ
    have hpos := Nat.two_pow_pos n
    omega
  exact trailingOnes_of_bits hn (hacc.bits_eq i hfield hlast (Nat.zero_add _) hlt)

lemma Packed.testBit_eq (hacc : Packed acc fields) (i : ℕ) {set : Bool} {lo : ℕ}
    (hfield : fields[i]? = some (1, set.toNat)) (hlo : width (fields.drop (i + 1)) = lo) :
    acc.toNat.testBit lo = set := by
  rw [testBit_eq_bits, hacc.bits_mod i hfield hlo rfl]
  cases set <;> rfl

end Packed
end NxObject.BitFields
