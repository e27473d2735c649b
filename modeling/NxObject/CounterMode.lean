import NxObject.Codec

/-!
# Counters of a block cipher in counter mode

A counter is a byte string read as one big-endian number, and block `k` is encrypted under the counter
plus `k`, modulo the range of the string. Two streams share no counter if one ends before the other
begins.
-/
namespace NxObject

/-- The `w` low-order bytes of `n`, most significant first. -/
def toBe (w n : ℕ) : Bytes := (toLe w n).reverse

def ofBe (bs : Bytes) : ℕ := ofLe bs.reverse

@[simp] theorem toBe_length (w n : ℕ) : (toBe w n).length = w := by
  rw [toBe, List.length_reverse, toLe_length]

theorem ofBe_toBe_of_lt {w n : ℕ} (h : n < 256 ^ w) : ofBe (toBe w n) = n := by
  rw [ofBe, toBe, List.reverse_reverse, ofLe_toLe_of_lt h]

lemma ofLe_append (a b : Bytes) : ofLe (a ++ b) = ofLe a + 256 ^ a.length * ofLe b := by
  induction a with
  | nil => simp [ofLe]
  | cons x a ih =>
    rw [List.cons_append, ofLe, ofLe, ih, List.length_cons, pow_succ]
    ring

theorem ofBe_append (a b : Bytes) : ofBe (a ++ b) = ofBe a * 256 ^ b.length + ofBe b := by
  rw [ofBe, List.reverse_append, ofLe_append, List.length_reverse, ofBe, ofBe]
  ring

namespace CounterMode

/-- The counters that `blocks` blocks are encrypted under. -/
def stream (counter : Bytes) (blocks : ℕ) : List ℕ :=
  (List.range blocks).map fun k => (ofBe counter + k) % 256 ^ counter.length

variable {counter : Bytes} {blocks : ℕ}

lemma mem_stream (h : ofBe counter + blocks ≤ 256 ^ counter.length) {n : ℕ} :
    n ∈ stream counter blocks ↔ ofBe counter ≤ n ∧ n < ofBe counter + blocks := by
  rw [stream, List.mem_map]
  constructor
  · rintro ⟨k, hk, rfl⟩
    have hk := List.mem_range.mp hk
    rw [Nat.mod_eq_of_lt (by omega)]
    omega
  · rintro ⟨hle, hlt⟩
    refine ⟨n - ofBe counter, List.mem_range.mpr (by omega), ?_⟩
    rw [Nat.add_sub_cancel' hle, Nat.mod_eq_of_lt (by omega)]

/-- A stream that ends before another begins shares no counter with it. -/
theorem disjoint_stream {counter' : Bytes} {blocks' : ℕ}
    (hle : ofBe counter + blocks ≤ ofBe counter')
    (h' : ofBe counter' + blocks' ≤ 256 ^ counter'.length)
    (hlen : counter.length = counter'.length) :
    (stream counter blocks).Disjoint (stream counter' blocks') := by
  intro n hn hn'
  have hn := (mem_stream (by rw [hlen]; omega)).mp hn
  have hn' := (mem_stream h').mp hn'
  omega

end CounterMode
end NxObject
