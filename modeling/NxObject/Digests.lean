import NxObject.Codec
import NxObject.Outcome

/-!
# Blocks and tables of digests

A byte string is cut into blocks of one size, the last of which may be short; a table holds the digest
of every block, one behind the other. Whoever knows the table can check any block by itself.
-/
namespace NxObject.Digests
open Outcome

section Blocks
variable {α : Type} {n : ℕ}

/-- The block of index `k`. -/
def block (n : ℕ) (xs : List α) (k : ℕ) : List α := (xs.drop (k * n)).take n

/-- How many blocks `len` elements fill, a last short one included. -/
def blockCount (n len : ℕ) : ℕ := (len + (n - 1)) / n

def blocks (n : ℕ) (xs : List α) : List (List α) :=
  (List.range (blockCount n xs.length)).map (block n xs)

/-- `xs.chunks(n)`. -/
def chunks {ε : Type} (n : ℕ) (xs : List α) : Outcome ε (List (List α)) :=
  if n = 0 then panic else ok (blocks n xs)

lemma blocks_length (xs : List α) : (blocks n xs).length = blockCount n xs.length := by
  rw [blocks, List.length_map, List.length_range]

lemma blocks_getElem (xs : List α) {k : ℕ} (hk : k < (blocks n xs).length) :
    (blocks n xs)[k] = block n xs k := by
  simp only [blocks, List.getElem_map, List.getElem_range]

lemma getElem?_block (xs : List α) {i : ℕ} (hn : 0 < n) : (block n xs (i / n))[i % n]? = xs[i]? := by
  have hi : i / n * n + i % n = i := Nat.div_add_mod' i n
  rw [block, List.getElem?_take_of_lt (Nat.mod_lt i hn), List.getElem?_drop, hi]

lemma div_lt_blockCount {i len : ℕ} (hn : 0 < n) (hi : i < len) : i / n < blockCount n len := by
  rw [blockCount, Nat.lt_iff_add_one_le, Nat.le_div_iff_mul_le hn, Nat.add_mul, Nat.one_mul]
  have hle : i / n * n ≤ i := Nat.div_mul_le_self i n
  omega

theorem eq_of_blocks (hn : 0 < n) {xs ys : List α} (hlen : xs.length = ys.length)
    (h : ∀ k < blockCount n xs.length, block n xs k = block n ys k) : xs = ys := by
  refine List.ext_getElem? fun i => ?_
  rcases Nat.lt_or_ge i xs.length with hi | hi
  · rw [← getElem?_block xs hn, ← getElem?_block ys hn, h _ (div_lt_blockCount hn hi)]
  · rw [List.getElem?_eq_none hi, List.getElem?_eq_none (hlen ▸ hi)]

end Blocks

/-! ## Tables -/

variable {d : ℕ} (H : Bytes → List.Vector UInt8 d) {n : ℕ}

def table (blocks : List Bytes) : Bytes := blocks.flatMap fun block => (H block).toList

lemma table_length (blocks : List Bytes) : (table H blocks).length = blocks.length * d :=
  Codec.length_flatMap (fun block => (H block).toList_length) blocks

theorem table_at (blocks : List Bytes) {k : ℕ} (hk : k < blocks.length) (pad : Bytes) :
    sliceAt (table H blocks ++ pad) (k * d) d = (H blocks[k]).toList := by
  have hle : k * d ≤ (table H blocks).length := by
    rw [table_length]
    exact Nat.mul_le_mul_right d hk.le
  rw [sliceAt, List.drop_append_of_le_length hle, table,
    Codec.drop_flatMap (fun block => (H block).toList_length), List.drop_eq_getElem_cons hk,
    List.flatMap_cons, List.append_assoc, List.take_left' (H blocks[k]).toList_length]

/-- Every block of `data` hashes to the digest `digests` has at its index. -/
def Covers (n : ℕ) (digests data : Bytes) : Prop :=
  ∀ k < blockCount n data.length, sliceAt digests (k * d) d = (H (block n data k)).toList

theorem covers_table (data pad : Bytes) : Covers H n (table H (blocks n data) ++ pad) data := by
  intro k hk
  rw [← blocks_length] at hk
  rw [table_at H _ hk, blocks_getElem]

/-- Digests commit to the data they cover, as far as `H` tells the blocks apart. -/
theorem eq_of_covers (hn : 0 < n) {digests xs ys : Bytes} (hlen : xs.length = ys.length)
    (hH : Set.InjOn H {b | b ∈ blocks n xs ∨ b ∈ blocks n ys}) (hxs : Covers H n digests xs)
    (hys : Covers H n digests ys) : xs = ys := by
  refine eq_of_blocks hn hlen fun k hk => ?_
  have hk' : k < blockCount n ys.length := hlen ▸ hk
  have hmem : ∀ {zs : Bytes}, k < blockCount n zs.length → block n zs k ∈ blocks n zs := fun h =>
    List.mem_map.mpr ⟨k, List.mem_range.mpr h, rfl⟩
  have hdigest : (H (block n xs k)).toList = (H (block n ys k)).toList :=
    (hxs k hk).symm.trans (hys k hk')
  exact hH (Or.inl (hmem hk)) (Or.inr (hmem hk')) (Subtype.ext hdigest)

end NxObject.Digests
