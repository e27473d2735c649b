import NxObject.Bytes
import NxObject.Outcome

/-! The hash-chain match finder of the BLZ encoder, and the soundness of its answers: whatever
back-reference it returns is encodable and copies bytes that equal the ones it stands for. -/
namespace NxObject.Blz
open Outcome

def matchThreshold : ℕ := 2
def maxOffset : ℕ := 0x1002
def maxMatch : ℕ := (1 <<< 4) + matchThreshold
def minMatch : ℕ := matchThreshold + 1
def hashBits : ℕ := 16
def hashSize : ℕ := 1 <<< hashBits
def hashMultiplier : UInt32 := 0x9E3779B1
def NONE : UInt32 := 0xFFFFFFFF

structure MatchFinder where
  /-- Reversed input the matcher searches over. -/
  data : Bytes
  /-- For each position, the previous position in its hash bucket. -/
  prev : List UInt32

/-- The bucket index is the top half of a 32-bit product, so it never leaves the table. -/
theorem bucket_lt (key : UInt32) :
    ((key * hashMultiplier) >>> UInt32.ofNat (32 - hashBits)).toNat < hashSize := by
  have h := (key * hashMultiplier).toNat_lt
  have hs : (UInt32.ofNat (32 - hashBits)).toNat % 32 = 16 := rfl
  rw [UInt32.toNat_shiftRight, Nat.shiftRight_eq_div_pow, hs]
  exact Nat.div_lt_of_lt_mul (by simpa [hashBits, hashSize] using h)

/-- Map the three-byte prefix at `pos` to a hash bucket. -/
def MatchFinder.hash {ε : Type} (data : Bytes) (pos : ℕ) : Outcome ε (Fin hashSize) := do
  let b₀ ← index data pos
  let b₁ ← index data (pos + 1)
  let b₂ ← index data (pos + 2)
  let key := b₀.toUInt32 ||| (b₁.toUInt32 <<< 8) ||| (b₂.toUInt32 <<< 16)
  pure ⟨_, bucket_lt key⟩

/-- The two tables after the positions below `n` have been linked: `head` maps a bucket to its most
recent position, `prev` a position to the previous occupant of its bucket. -/
def MatchFinder.link {ε : Type} (data : Bytes) :
    ℕ → Outcome ε ((Fin hashSize → UInt32) × List UInt32)
  | 0 => pure (fun _ => NONE, List.replicate data.length NONE)
  | pos + 1 => do
      let (head, prev) ← link data pos
      let bucket ← hash data pos
      let prev ← write prev pos (head bucket)
      pure (Function.update head bucket (UInt32.ofNat pos), prev)

/-- Build the hash-chain index over `data` in a single forward pass. -/
def MatchFinder.new {ε : Type} (data : Bytes) : Outcome ε MatchFinder :=
  if data.length < NONE.toNat then do
    -- only positions with a full three-byte prefix are hashable
    let (_, prev) ← link data (data.length - (minMatch - 1))
    pure ⟨data, prev⟩
  else panic

/-- The inner comparison loop: how far the bytes at `pos` agree with those `offset` before. -/
def MatchFinder.matchLength {ε : Type} (data : Bytes) (pos offset remaining : ℕ) :
    ℕ → ℕ → Outcome ε ℕ
  | 0, len => pure len
  | steps + 1, len =>
      if len < maxMatch ∧ len ≠ remaining ∧ len < offset then do
        let a ← index data (pos + len)
        let back ← sub (pos + len) offset
        let b ← index data back
        if a = b then matchLength data pos offset remaining steps (len + 1) else pure len
      else pure len

/-- Length of the match with one candidate. Offsets below `minMatch` cannot be encoded; such a
candidate is skipped, which a length of zero amounts to. -/
def MatchFinder.candidateLength {ε : Type} (data : Bytes) (pos offset remaining : ℕ) :
    Outcome ε ℕ :=
  if minMatch ≤ offset then matchLength data pos offset remaining maxMatch 0 else pure 0

/-- Walks one bucket's chain nearest-first, keeping only strictly longer matches. The chain only
ever leads to earlier positions. -/
def MatchFinder.walk {ε : Type} (self : MatchFinder) (pos remaining : ℕ) :
    ℕ → UInt32 → ℕ → ℕ → Outcome ε (ℕ × ℕ)
  | 0, _, _, _ => running
  | fuel + 1, candidate, bestLen, bestOffset =>
      if candidate = NONE then pure (bestLen, bestOffset) else do
        let candidatePos := candidate.toNat
        let offset ← sub pos candidatePos
        if maxOffset < offset then pure (bestLen, bestOffset) else do
          let len ← candidateLength self.data pos offset remaining
          let next ← index self.prev candidatePos
          if bestLen < len then
            if len = maxMatch then pure (len, offset)
            else self.walk pos remaining fuel next len offset
          else self.walk pos remaining fuel next bestLen bestOffset

/-- Find the longest back-reference for the data starting at `pos`: its length and its distance. -/
def MatchFinder.longestMatch {ε : Type} (self : MatchFinder) (pos : ℕ) : Outcome ε (ℕ × ℕ) := do
  if self.data.length < pos + minMatch then pure (matchThreshold, 0) else
    let remaining ← sub self.data.length pos
    let candidate ← index self.prev pos
    self.walk pos remaining (pos + 1) candidate matchThreshold 0

/-- Links lead strictly backwards, so that a chain walked from any position ends. -/
structure MatchFinder.WellLinked (finder : MatchFinder) : Prop where
  length : finder.prev.length = finder.data.length
  backwards : ∀ p c, finder.prev[p]? = some c → c = NONE ∨ c.toNat < p

lemma hash_ok {ε : Type} {data : Bytes} {pos : ℕ} (h : pos + 2 < data.length) :
    ∃ bucket, (MatchFinder.hash data pos : Outcome ε _) = ok bucket := by
  have h₀ := List.getElem?_eq_getElem (show pos < data.length by omega)
  have h₁ := List.getElem?_eq_getElem (show pos + 1 < data.length by omega)
  have h₂ := List.getElem?_eq_getElem (show pos + 2 < data.length by omega)
  simp only [MatchFinder.hash, index_of_getElem? h₀, index_of_getElem? h₁, index_of_getElem? h₂,
    ok_bind, pure_eq]
  exact ⟨_, rfl⟩

lemma link_spec {ε : Type} {data : Bytes} (hlen : data.length < NONE.toNat) (n : ℕ)
    (h : n = 0 ∨ n + 2 ≤ data.length) :
    ∃ head prev, (MatchFinder.link data n : Outcome ε _) = ok (head, prev) ∧
      prev.length = data.length ∧ (∀ b, head b = NONE ∨ (head b).toNat < n) ∧
      ∀ p c, prev[p]? = some c → c = NONE ∨ c.toNat < p := by
  induction n with
  | zero =>
    refine ⟨_, _, rfl, by simp, fun _ => Or.inl rfl, ?_⟩
    intro p c hc
    rw [List.getElem?_replicate] at hc
    split_ifs at hc
    exact Or.inl (by simpa using hc.symm)
  | succ n ih =>
    obtain ⟨head, prev, hl, hp, hh, hb⟩ := ih (by omega)
    obtain ⟨bucket, hk⟩ := hash_ok (ε := ε) (show n + 2 < data.length by omega)
    have hn : (UInt32.ofNat n).toNat = n := by
      have hN : NONE.toNat < 2 ^ 32 := NONE.toNat_lt
      exact UInt32.toNat_ofNat_of_lt' (by simp only [UInt32.size]; omega)
    simp only [MatchFinder.link, hl, hk, ok_bind, pure_eq,
      write_of_lt (show n < prev.length by omega)]
    refine ⟨_, _, rfl, by simpa using hp, ?_, ?_⟩
    · intro b
      by_cases hbk : b = bucket
      · subst hbk
        right
        rw [Function.update_self, hn]
        omega
      · rw [Function.update_of_ne hbk]
        exact (hh b).imp id (fun hlt => by omega)
    · intro p c hc
      by_cases hpn : n = p
      · subst hpn
        rw [List.getElem?_set_self (by omega)] at hc
        have hc' : head bucket = c := by simpa using hc
        rw [← hc']
        exact hh bucket
      · rw [List.getElem?_set_ne hpn] at hc
        exact hb p c hc

theorem new_spec {ε : Type} {data : Bytes} (hlen : data.length < NONE.toNat) :
    ∃ finder, (MatchFinder.new data : Outcome ε _) = ok finder ∧ finder.data = data ∧
      finder.WellLinked := by
  obtain ⟨head, prev, hl, hp, _, hb⟩ :=
    link_spec (ε := ε) hlen (data.length - (minMatch - 1)) (by simp [minMatch, matchThreshold]; omega)
  refine ⟨⟨data, prev⟩, ?_, rfl, ⟨hp, hb⟩⟩
  simp [MatchFinder.new, hlen, hl]

/-- A back-reference that can be encoded and that repeats, at `pos`, bytes standing `offset` before,
without reaching into the bytes it produces itself. -/
structure IsMatch (data : Bytes) (pos len offset : ℕ) : Prop where
  min_le_len : minMatch ≤ len
  len_le_max : len ≤ maxMatch
  min_le_offset : minMatch ≤ offset
  offset_le_max : offset ≤ maxOffset
  offset_le_pos : offset ≤ pos
  len_le_offset : len ≤ offset
  in_range : pos + len ≤ data.length
  agree : ∀ i < len, data[pos + i]? = data[pos + i - offset]?

/-- What a search may return: the empty answer, or a genuine match. -/
def Found (data : Bytes) (pos len offset : ℕ) : Prop :=
  (len = matchThreshold ∧ offset = 0) ∨ IsMatch data pos len offset

lemma matchLength_spec {ε : Type} {data : Bytes} {pos offset remaining : ℕ}
    (hr : pos + remaining = data.length) (ho : offset ≤ pos) (steps len : ℕ)
    (h₁ : len ≤ maxMatch) (h₂ : len ≤ remaining) (h₃ : len ≤ offset)
    (h₄ : ∀ i < len, data[pos + i]? = data[pos + i - offset]?) :
    ∃ n, (MatchFinder.matchLength data pos offset remaining steps len : Outcome ε ℕ) = ok n ∧
      n ≤ maxMatch ∧ n ≤ remaining ∧ n ≤ offset ∧
      ∀ i < n, data[pos + i]? = data[pos + i - offset]? := by
  induction steps generalizing len with
  | zero => exact ⟨len, rfl, h₁, h₂, h₃, h₄⟩
  | succ steps ih =>
    by_cases hc : len < maxMatch ∧ len ≠ remaining ∧ len < offset
    · have ha := List.getElem?_eq_getElem (show pos + len < data.length by omega)
      have hb := List.getElem?_eq_getElem (show pos + len - offset < data.length by omega)
      simp only [MatchFinder.matchLength, if_pos hc, index_of_getElem? ha, index_of_getElem? hb,
        sub_of_le (show offset ≤ pos + len by omega), ok_bind]
      split_ifs with he
      · refine ih (len + 1) (by omega) (by omega) (by omega) ?_
        intro i hi
        rcases Nat.lt_succ_iff_lt_or_eq.mp hi with hi | rfl
        · exact h₄ i hi
        · rw [ha, hb, he]
      · exact ⟨len, rfl, h₁, h₂, h₃, h₄⟩
    · simp only [MatchFinder.matchLength, if_neg hc]
      exact ⟨len, rfl, h₁, h₂, h₃, h₄⟩

lemma candidateLength_spec {ε : Type} {data : Bytes} {pos offset remaining : ℕ}
    (hr : pos + remaining = data.length) (ho : offset ≤ pos) (hfar : offset ≤ maxOffset) :
    ∃ n, (MatchFinder.candidateLength data pos offset remaining : Outcome ε ℕ) = ok n ∧
      (matchThreshold < n → IsMatch data pos n offset) := by
  unfold MatchFinder.candidateLength
  split_ifs with hm
  · obtain ⟨n, hn, h₁, h₂, h₃, h₄⟩ := matchLength_spec (ε := ε) hr ho maxMatch 0
      (by omega) (by omega) (by omega) (by simp)
    exact ⟨n, hn, fun ht => ⟨ht, h₁, hm, hfar, ho, h₃, by omega, h₄⟩⟩
  · exact ⟨0, rfl, fun ht => absurd ht (by simp [matchThreshold])⟩

/-- A walk that starts below `pos` with enough fuel ends, and only improves on what it was given. -/
lemma walk_spec {ε : Type} {finder : MatchFinder} (hw : finder.WellLinked) {pos remaining : ℕ}
    (hr : pos + remaining = finder.data.length) (fuel : ℕ) (candidate : UInt32) (len offset : ℕ)
    (hc : candidate = NONE ∨ candidate.toNat < pos ∧ candidate.toNat + 2 ≤ fuel) (hf : 0 < fuel)
    (hbest : Found finder.data pos len offset) :
    ∃ n o, (finder.walk pos remaining fuel candidate len offset : Outcome ε _) = ok (n, o) ∧
      Found finder.data pos n o := by
  induction fuel generalizing candidate len offset with
  | zero => omega
  | succ fuel ih =>
    by_cases hN : candidate = NONE
    · exact ⟨len, offset, by simp [MatchFinder.walk, hN], hbest⟩
    obtain ⟨hlt, hfuel⟩ := hc.resolve_left hN
    by_cases hfar : maxOffset < pos - candidate.toNat
    · exact ⟨len, offset, by simp [MatchFinder.walk, hN, sub_of_le hlt.le, hfar], hbest⟩
    obtain ⟨n, hn, hfound⟩ := candidateLength_spec (ε := ε) hr
      (show pos - candidate.toNat ≤ pos by omega) (by omega)
    have hthr : matchThreshold ≤ len := by
      rcases hbest with ⟨h, _⟩ | h
      · exact h.ge
      · exact (Nat.le_succ _).trans h.min_le_len
    have hnext := List.getElem?_eq_getElem
      (show candidate.toNat < finder.prev.length by rw [hw.length]; omega)
    have hback := hw.backwards _ _ hnext
    simp only [MatchFinder.walk, if_neg hN, sub_of_le hlt.le, ok_bind, if_neg hfar, hn,
      index_of_getElem? hnext]
    split_ifs
    · exact ⟨_, _, rfl, Or.inr (hfound (by omega))⟩
    · exact ih _ _ _ (hback.imp id fun h => by omega) (by omega) (Or.inr (hfound (by omega)))
    · exact ih _ _ _ (hback.imp id fun h => by omega) (by omega) hbest

theorem longestMatch_spec {ε : Type} {finder : MatchFinder} (hw : finder.WellLinked) (pos : ℕ) :
    ∃ n o, (finder.longestMatch pos : Outcome ε _) = ok (n, o) ∧ Found finder.data pos n o := by
  by_cases hs : finder.data.length < pos + minMatch
  · exact ⟨_, _, by simp [MatchFinder.longestMatch, hs], Or.inl ⟨rfl, rfl⟩⟩
  have hm : minMatch = 3 := rfl
  have hpos : pos < finder.prev.length := by rw [hw.length]; omega
  have hp := List.getElem?_eq_getElem hpos
  obtain ⟨n, o, hn, hf⟩ := walk_spec (ε := ε) hw
    (show pos + (finder.data.length - pos) = _ by omega) (pos + 1) finder.prev[pos] matchThreshold 0
    ((hw.backwards _ _ hp).imp id fun h => ⟨h, by omega⟩) (by omega) (Or.inl ⟨rfl, rfl⟩)
  refine ⟨n, o, ?_, hf⟩
  simp [MatchFinder.longestMatch, hs, sub_of_le (show pos ≤ finder.data.length by omega),
    index_of_getElem? hp, hn]

end NxObject.Blz
