import NxObject.Bytes

/-!
# Fixed-size codecs

A codec writes the values of a type as byte strings of one size and reads them back: the layout of a
structure whose fields stand one after the other without padding. The laws make writing and reading
inverse to each other, so a structure read off a buffer writes the bytes it was read from.
-/
namespace NxObject

structure Codec (α : Type) where
  size : ℕ
  enc : α → Bytes
  dec : Bytes → α
  enc_length : ∀ a, (enc a).length = size
  dec_append : ∀ a rest, dec (enc a ++ rest) = a
  enc_dec : ∀ bs, size ≤ bs.length → enc (dec bs) = bs.take size

namespace Codec
variable {α β : Type}

attribute [simp] enc_length dec_append

/-- An unsigned integer of `w` bytes, least significant first. -/
def le (w : ℕ) (ofNat : ℕ → α) (toNat : α → ℕ) (lt : ∀ a, toNat a < 256 ^ w)
    (ofNat_toNat : ∀ a, ofNat (toNat a) = a) (toNat_ofNat : ∀ n < 256 ^ w, toNat (ofNat n) = n) :
    Codec α where
  size := w
  enc a := toLe w (toNat a)
  dec bs := ofNat (ofLe (bs.take w))
  enc_length a := toLe_length w _
  dec_append a rest := by
    rw [List.take_left' (toLe_length w _), ofLe_toLe_of_lt (lt a), ofNat_toNat]
  enc_dec bs h := by
    have hlen : (bs.take w).length = w := List.length_take_of_le h
    have hlt := ofLe_lt (bs.take w)
    rw [hlen] at hlt
    have hbytes := toLe_ofLe (bs.take w)
    rw [hlen] at hbytes
    rw [toNat_ofNat _ hlt, hbytes]

def u8 : Codec UInt8 :=
  le 1 UInt8.ofNat UInt8.toNat UInt8.toNat_lt (fun _ => UInt8.ofNat_toNat)
    fun _ h => UInt8.toNat_ofNat_of_lt' h

def u16 : Codec UInt16 :=
  le 2 UInt16.ofNat UInt16.toNat UInt16.toNat_lt (fun _ => UInt16.ofNat_toNat)
    fun _ h => UInt16.toNat_ofNat_of_lt' h

def u32 : Codec UInt32 :=
  le 4 UInt32.ofNat UInt32.toNat UInt32.toNat_lt (fun _ => UInt32.ofNat_toNat)
    fun _ h => UInt32.toNat_ofNat_of_lt' h

def u64 : Codec UInt64 :=
  le 8 UInt64.ofNat UInt64.toNat UInt64.toNat_lt (fun _ => UInt64.ofNat_toNat)
    fun _ h => UInt64.toNat_ofNat_of_lt' h

def bytes (n : ℕ) : Codec (List.Vector UInt8 n) where
  size := n
  enc v := v.toList
  dec bs := ⟨(bs ++ List.replicate n 0).take n, by simp⟩
  enc_length v := v.toList_length
  dec_append v rest := by
    apply Subtype.ext
    change ((v.toList ++ rest) ++ _).take n = v.toList
    rw [List.append_assoc, List.take_left' v.toList_length]
  enc_dec bs h := by
    change (bs ++ List.replicate n 0).take n = bs.take n
    exact List.take_append_of_le_length h

def pair (c : Codec α) (d : Codec β) : Codec (α × β) where
  size := c.size + d.size
  enc p := c.enc p.1 ++ d.enc p.2
  dec bs := (c.dec bs, d.dec (bs.drop c.size))
  enc_length p := by simp
  dec_append p rest := by
    rw [List.append_assoc, c.dec_append, List.drop_left' (c.enc_length p.1), d.dec_append]
  enc_dec bs h := by
    rw [c.enc_dec bs (by omega), d.enc_dec _ (by rw [List.length_drop]; omega), List.take_add]

/-- The layout of a structure is that of the tuple of its fields. -/
def iso (c : Codec α) (e : α ≃ β) : Codec β where
  size := c.size
  enc b := c.enc (e.symm b)
  dec bs := e (c.dec bs)
  enc_length b := c.enc_length _
  dec_append b rest := by simp
  enc_dec bs h := by simpa using c.enc_dec bs h

lemma length_flatMap {f : α → Bytes} {k : ℕ} (hf : ∀ a, (f a).length = k) (xs : List α) :
    (xs.flatMap f).length = xs.length * k := by
  induction xs with
  | nil => simp
  | cons x xs ih =>
    rw [List.flatMap_cons, List.length_append, hf, ih, List.length_cons, Nat.succ_mul, Nat.add_comm]

lemma drop_flatMap {f : α → Bytes} {k : ℕ} (hf : ∀ a, (f a).length = k) (xs : List α) (i : ℕ) :
    (xs.flatMap f).drop (i * k) = (xs.drop i).flatMap f := by
  induction i generalizing xs with
  | zero => simp
  | succ i ih =>
    cases xs with
    | nil => simp
    | cons x xs =>
      rw [Nat.succ_mul, Nat.add_comm, ← List.drop_drop, List.flatMap_cons,
        List.drop_left' (hf x), ih, List.drop_succ_cons]

def array (n : ℕ) (c : Codec α) : Codec (Fin n → α) where
  size := n * c.size
  enc v := (List.ofFn v).flatMap c.enc
  dec bs i := c.dec (bs.drop (i * c.size))
  enc_length v := by rw [length_flatMap c.enc_length, List.length_ofFn]
  dec_append v rest := by
    funext i
    have hi : (i : ℕ) < (List.ofFn v).length := by simp
    have hle : i * c.size ≤ ((List.ofFn v).flatMap c.enc).length := by
      rw [length_flatMap c.enc_length, List.length_ofFn]
      exact Nat.mul_le_mul_right _ i.isLt.le
    rw [List.drop_append_of_le_length hle, drop_flatMap c.enc_length, List.drop_eq_getElem_cons hi,
      List.flatMap_cons, List.append_assoc, c.dec_append, List.getElem_ofFn]
  enc_dec bs h := by
    induction n generalizing bs with
    | zero => simp
    | succ n ih =>
      have hsize : (n + 1) * c.size = c.size + n * c.size := by ring
      rw [hsize] at h
      have hstep : ∀ i : ℕ, bs.drop ((i + 1) * c.size) = (bs.drop c.size).drop (i * c.size) := by
        intro i
        rw [List.drop_drop]
        congr 1
        ring
      have htail := ih (bs.drop c.size) (by rw [List.length_drop]; omega)
      rw [List.ofFn_succ, List.flatMap_cons, hsize, List.take_add, ← htail]
      simp only [Fin.val_succ, hstep, Fin.val_zero, Nat.zero_mul, List.drop_zero,
        c.enc_dec bs (by omega)]

variable (c : Codec α)

def fromPrefix (bs : Bytes) : Option α := if c.size ≤ bs.length then some (c.dec bs) else none

theorem fromPrefix_append (a : α) (rest : Bytes) : c.fromPrefix (c.enc a ++ rest) = some a := by
  rw [fromPrefix, if_pos (by simp), c.dec_append]

theorem fromPrefix_enc (a : α) : c.fromPrefix (c.enc a) = some a := by
  have h := c.fromPrefix_append a []
  rwa [List.append_nil] at h

theorem fromPrefix_eq_some {bs : Bytes} {a : α} :
    c.fromPrefix bs = some a ↔ ∃ rest, bs = c.enc a ++ rest := by
  constructor
  · intro h
    rw [fromPrefix] at h
    split_ifs at h with hle
    cases h
    exact ⟨bs.drop c.size, by rw [c.enc_dec bs hle, List.take_append_drop]⟩
  · rintro ⟨rest, rfl⟩
    exact c.fromPrefix_append a rest

theorem fromPrefix_of_prefix {bs cs : Bytes} {a : α} (h : bs <+: cs) (ha : c.fromPrefix bs = some a) :
    c.fromPrefix cs = some a := by
  obtain ⟨rest, rfl⟩ := c.fromPrefix_eq_some.mp ha
  obtain ⟨more, rfl⟩ := h
  rw [List.append_assoc]
  exact c.fromPrefix_append a _

theorem le_of_fromPrefix {bs : Bytes} {a : α} (h : c.fromPrefix bs = some a) : c.size ≤ bs.length := by
  rw [fromPrefix] at h
  split_ifs at h with hle
  exact hle

theorem fromPrefix_eq_none {bs : Bytes} : c.fromPrefix bs = none ↔ bs.length < c.size := by
  rw [fromPrefix]
  split_ifs <;> simp <;> omega

/-- Read `n` values that stand one behind the other off the front of a buffer. -/
def prefixElems (n : ℕ) (bs : Bytes) : Option (List α) := ((array n c).fromPrefix bs).map List.ofFn

theorem prefixElems_append {n : ℕ} {xs : List α} (h : xs.length = n) (rest : Bytes) :
    c.prefixElems n (xs.flatMap c.enc ++ rest) = some xs := by
  subst h
  have henc : (array xs.length c).enc xs.get = xs.flatMap c.enc := by
    change (List.ofFn xs.get).flatMap c.enc = _
    rw [List.ofFn_get]
  rw [prefixElems, ← henc, fromPrefix_append, Option.map_some, List.ofFn_get]

theorem prefixElems_eq_some {n : ℕ} {bs : Bytes} {xs : List α} :
    c.prefixElems n bs = some xs ↔ xs.length = n ∧ ∃ rest, bs = xs.flatMap c.enc ++ rest := by
  constructor
  · intro h
    obtain ⟨v, hv, rfl⟩ := Option.map_eq_some_iff.mp h
    exact ⟨List.length_ofFn, (fromPrefix_eq_some _).mp hv⟩
  · rintro ⟨hlen, rest, rfl⟩
    exact c.prefixElems_append hlen rest

theorem prefixElems_of_prefix {n : ℕ} {bs cs : Bytes} {xs : List α} (h : bs <+: cs)
    (hxs : c.prefixElems n bs = some xs) : c.prefixElems n cs = some xs := by
  obtain ⟨v, hv, rfl⟩ := Option.map_eq_some_iff.mp hxs
  rw [prefixElems, fromPrefix_of_prefix _ h hv, Option.map_some]

def fromBytes (bs : Bytes) : Option α := if bs.length = c.size then some (c.dec bs) else none

theorem fromBytes_enc (a : α) : c.fromBytes (c.enc a) = some a := by
  have h := c.dec_append a []
  rw [List.append_nil] at h
  rw [fromBytes, if_pos (c.enc_length a), h]

theorem fromPrefix_append_of_length {a : Bytes} (h : a.length = c.size) (b : Bytes) :
    c.fromPrefix (a ++ b) = c.fromBytes a := by
  obtain ⟨x, rfl⟩ : ∃ x, a = c.enc x := ⟨c.dec a, by rw [c.enc_dec a h.ge, ← h, List.take_length]⟩
  rw [fromPrefix_append, fromBytes_enc]

end Codec
end NxObject
