import Mathlib

/-!
# Byte strings and little-endian integers

Byte strings are lists of bytes. An unsigned integer of `w` bytes is stored least significant byte
first; storing keeps the value modulo `256 ^ w`, and every string of `w` bytes is some value's.
-/
namespace NxObject

abbrev Bytes := List UInt8

/-- The `w` low-order bytes of `n`, least significant first. -/
def toLe : ℕ → ℕ → Bytes
  | 0, _ => []
  | w + 1, n => UInt8.ofNat n :: toLe w (n / 256)

def ofLe : Bytes → ℕ
  | [] => 0
  | b :: bs => b.toNat + 256 * ofLe bs

@[simp] theorem toLe_length (w n : ℕ) : (toLe w n).length = w := by
  induction w generalizing n <;> simp [toLe, *]

theorem ofLe_toLe (w n : ℕ) : ofLe (toLe w n) = n % 256 ^ w := by
  induction w generalizing n with
  | zero => simp [toLe, ofLe, Nat.mod_one]
  | succ w ih =>
    have hb : (UInt8.ofNat n).toNat = n % 256 := by simp
    rw [toLe, ofLe, ih, hb, pow_succ', Nat.mod_mul]

theorem ofLe_toLe_of_lt {w n : ℕ} (h : n < 256 ^ w) : ofLe (toLe w n) = n := by
  rw [ofLe_toLe, Nat.mod_eq_of_lt h]

theorem ofLe_lt (bs : Bytes) : ofLe bs < 256 ^ bs.length := by
  induction bs with
  | nil => simp [ofLe]
  | cons b bs ih =>
    have hb := b.toNat_lt
    rw [ofLe, List.length_cons, pow_succ]
    omega

theorem toLe_ofLe (bs : Bytes) : toLe bs.length (ofLe bs) = bs := by
  induction bs with
  | nil => rfl
  | cons b bs ih =>
    have hb := b.toNat_lt
    have hd : (b.toNat + 256 * ofLe bs) / 256 = ofLe bs := by omega
    have hm : UInt8.ofNat (b.toNat + 256 * ofLe bs) = b := by
      apply UInt8.toNat_inj.mp
      simp
    rw [List.length_cons, ofLe, toLe, hd, hm, ih]

/-- The part of a byte string that starts at `off` and is `len` bytes long. -/
def sliceAt (bs : Bytes) (off len : ℕ) : Bytes := (bs.drop off).take len

theorem sliceAt_length {bs : Bytes} {off len : ℕ} (h : off + len ≤ bs.length) :
    (sliceAt bs off len).length = len := by
  simp only [sliceAt, List.length_take, List.length_drop]
  omega

theorem sliceAt_middle (a b c : Bytes) : sliceAt (a ++ (b ++ c)) a.length b.length = b := by
  simp [sliceAt]

theorem sliceAt_eq_of_append {bs a b c : Bytes} {off len : ℕ} (h : bs = a ++ (b ++ c))
    (ha : a.length = off) (hb : b.length = len) : sliceAt bs off len = b := by
  subst h ha hb
  exact sliceAt_middle a b c

end NxObject
