import NxObject.BlzFinder
import NxObject.FirstMax

/-!
# The match finder against the exhaustive search

A chain of the finder visits, nearest first, the earlier positions in the bucket of its start. A match long
enough to be kept repeats the three bytes that are hashed, so every position off the chain is one the
exhaustive search passes over.
-/
namespace NxObject.Blz
open Outcome

variable {ε : Type}

def bruteForceLength (data : Bytes) (pos offset : ℕ) : ℕ → ℕ → Outcome ε ℕ
  | 0, len => pure len
  | steps + 1, len =>
      if len < maxMatch then do
        let remaining ← sub data.length pos
        if len = remaining ∨ offset ≤ len then pure len else do
          let a ← index data (pos + len)
          let back ← sub (pos + len) offset
          let b ← index data back
          if a ≠ b then pure len else bruteForceLength data pos offset steps (len + 1)
      else pure len

/-- The oracle's loop over the offsets, of which `left` are left to try. -/
def bruteForceFrom (data : Bytes) (pos : ℕ) : ℕ → ℕ → ℕ → ℕ → Outcome ε (ℕ × ℕ)
  | 0, _, bestLen, bestOffset => pure (bestLen, bestOffset)
  | left + 1, offset, bestLen, bestOffset => do
      let len ← bruteForceLength data pos offset maxMatch 0
      if bestLen < len then
        if len = maxMatch then pure (len, offset)
        else bruteForceFrom data pos left (offset + 1) len offset
      else bruteForceFrom data pos left (offset + 1) bestLen bestOffset

/-- The search that tries every offset from 3 to the largest allowed one. -/
def longestMatchBruteForce (data : Bytes) (pos : ℕ) : Outcome ε (ℕ × ℕ) :=
  bruteForceFrom data pos (min pos maxOffset + 1 - 3) 3 matchThreshold 0

/-! ## The length of a match -/

abbrev Agrees (data : Bytes) (pos offset n : ℕ) : Prop :=
  ∀ i < n, data[pos + i]? = data[pos + i - offset]?

/-- The most bytes that a match over `offset` may have at `pos`. -/
def matchCap (data : Bytes) (pos offset : ℕ) : ℕ := min maxMatch (min offset (data.length - pos))

/-- The length of the longest match over `offset`. -/
def agreement (data : Bytes) (pos offset : ℕ) : ℕ :=
  Nat.findGreatest (Agrees data pos offset) (matchCap data pos offset)

variable {data : Bytes} {pos offset : ℕ}

lemma agreement_le : agreement data pos offset ≤ matchCap data pos offset := Nat.findGreatest_le _

lemma agreement_le_max : agreement data pos offset ≤ maxMatch := agreement_le.trans (min_le_left _ _)

lemma agrees_agreement : Agrees data pos offset (agreement data pos offset) :=
  Nat.findGreatest_spec (P := Agrees data pos offset) (Nat.zero_le _) fun _ hi => absurd hi (Nat.not_lt_zero _)

lemma agreement_eq {len : ℕ} (hcap : len ≤ matchCap data pos offset) (h : Agrees data pos offset len)
    (hstop : len < matchCap data pos offset → data[pos + len]? ≠ data[pos + len - offset]?) :
    agreement data pos offset = len := by
  refine le_antisymm ?_ (Nat.le_findGreatest hcap h)
  by_contra hlt
  have hlt := Nat.lt_of_not_le hlt
  exact hstop (hlt.trans_le agreement_le) (agrees_agreement len hlt)

lemma matchLength_eq (hpos : pos ≤ data.length) (ho : offset ≤ pos) (steps len : ℕ)
    (hsteps : matchCap data pos offset ≤ len + steps) (hcap : len ≤ matchCap data pos offset)
    (h : Agrees data pos offset len) :
    (MatchFinder.matchLength data pos offset (data.length - pos) steps len : Outcome ε ℕ) =
      ok (agreement data pos offset) := by
  induction steps generalizing len with
  | zero =>
    rw [agreement_eq hcap h fun hlt => by omega]
    rfl
  | succ steps ih =>
    rw [MatchFinder.matchLength]
    have hcapEq : matchCap data pos offset = min maxMatch (min offset (data.length - pos)) := rfl
    split_ifs with hgo
    · have ha := List.getElem?_eq_getElem (show pos + len < data.length by omega)
      have hb := List.getElem?_eq_getElem (show pos + len - offset < data.length by omega)
      rw [index_of_getElem? ha, ok_bind, sub_of_le (show offset ≤ pos + len by omega), ok_bind,
        index_of_getElem? hb, ok_bind]
      split_ifs with heq
      · refine ih (len + 1) (by omega) (by omega) fun i hi => ?_
        rcases Nat.lt_succ_iff_lt_or_eq.mp hi with hi | rfl
        · exact h i hi
        · rw [ha, hb, heq]
      · rw [agreement_eq hcap h fun _ => by rw [ha, hb]; exact fun he => heq (Option.some.inj he)]
        rfl
    · rw [agreement_eq hcap h fun hlt => by omega]
      rfl

lemma bruteForceLength_eq (hpos : pos ≤ data.length) (steps len : ℕ) :
    (bruteForceLength data pos offset steps len : Outcome ε ℕ) =
      MatchFinder.matchLength data pos offset (data.length - pos) steps len := by
  induction steps generalizing len with
  | zero => rfl
  | succ steps ih =>
    rw [bruteForceLength, MatchFinder.matchLength]
    by_cases hmax : len < maxMatch
    · rw [if_pos hmax, sub_of_le hpos, ok_bind]
      by_cases hstop : len = data.length - pos ∨ offset ≤ len
      · rw [if_pos hstop, if_neg (by omega)]
      · rw [if_neg hstop, if_pos (by omega)]
        refine bind_congr fun a => bind_congr fun back => bind_congr fun b => ?_
        rw [ite_not, ih]
    · rw [if_neg hmax, if_neg (by omega)]

/-- The length the finder gives a candidate: one too near to be encoded has none. -/
def candidateAgreement (data : Bytes) (pos offset : ℕ) : ℕ :=
  if minMatch ≤ offset then agreement data pos offset else 0

lemma candidateLength_eq (hpos : pos ≤ data.length) (ho : offset ≤ pos) :
    (MatchFinder.candidateLength data pos offset (data.length - pos) : Outcome ε ℕ) =
      ok (candidateAgreement data pos offset) := by
  rw [MatchFinder.candidateLength, candidateAgreement]
  split_ifs with hmin
  · exact matchLength_eq hpos ho maxMatch 0 (by rw [matchCap]; omega) (Nat.zero_le _)
      fun i hi => absurd hi (Nat.not_lt_zero i)
  · rfl

lemma candidateAgreement_le_max : candidateAgreement data pos offset ≤ maxMatch := by
  rw [candidateAgreement]
  split_ifs
  · exact agreement_le_max
  · exact Nat.zero_le _

/-- The oracle's early exit loses nothing: no match is longer than the one it stops at. -/
lemma bruteForceFrom_eq (hpos : pos ≤ data.length) (left bestLen bestOffset : ℕ)
    (hmin : minMatch ≤ offset) (hleft : offset + left ≤ pos + 1) :
    (bruteForceFrom data pos left offset bestLen bestOffset : Outcome ε _) =
      ok (scan (candidateAgreement data pos) left offset (bestLen, bestOffset)) := by
  induction left generalizing offset bestLen bestOffset with
  | zero => rfl
  | succ left ih =>
    have hlen : (bruteForceLength data pos offset maxMatch 0 : Outcome ε ℕ) =
        ok (candidateAgreement data pos offset) := by
      have hcandidate := candidateLength_eq (ε := ε) hpos (show offset ≤ pos by omega)
      rwa [MatchFinder.candidateLength, if_pos hmin, ← bruteForceLength_eq hpos] at hcandidate
    rw [bruteForceFrom, hlen, ok_bind, scan]
    split_ifs with hbetter hmax
    · rw [scan_of_le left fun j _ => candidateAgreement_le_max.trans hmax.ge]
      rfl
    · exact ih _ _ (by omega) (by omega)
    · exact ih _ _ (by omega) (by omega)

/-! ## The chains -/

/-- The bucket of the three bytes at `pos`. -/
def bucketAt (data : Bytes) (pos : ℕ) : Fin hashSize :=
  ⟨_, bucket_lt ((data.getD pos 0).toUInt32 ||| ((data.getD (pos + 1) 0).toUInt32 <<< 8) |||
    ((data.getD (pos + 2) 0).toUInt32 <<< 16))⟩

lemma hash_eq (h : pos + 2 < data.length) :
    (MatchFinder.hash data pos : Outcome ε _) = ok (bucketAt data pos) := by
  have hbyte : ∀ i < data.length, (index data i : Outcome ε _) = ok (data.getD i 0) := by
    intro i hi
    rw [index_of_getElem? (List.getElem?_eq_getElem hi), List.getD_eq_getElem _ _ hi]
  simp only [MatchFinder.hash, hbyte pos (by omega), hbyte (pos + 1) (by omega), hbyte (pos + 2) h,
    ok_bind, pure_eq]
  rfl

lemma bucketAt_eq (ho : offset ≤ pos) (h : Agrees data pos offset minMatch) :
    bucketAt data (pos - offset) = bucketAt data pos := by
  have hbyte : ∀ i < minMatch, data.getD (pos - offset + i) 0 = data.getD (pos + i) 0 := by
    intro i hi
    rw [List.getD_eq_getElem?_getD, List.getD_eq_getElem?_getD, h i hi,
      Nat.sub_add_comm ho]
  have h₀ := hbyte 0 (by decide)
  have h₁ := hbyte 1 (by decide)
  have h₂ := hbyte 2 (by decide)
  simp only [Nat.add_zero] at h₀
  simp only [bucketAt, h₀, h₁, h₂]

lemma candidateAgreement_le (ho : offset ≤ pos) (h : bucketAt data (pos - offset) ≠ bucketAt data pos) :
    candidateAgreement data pos offset ≤ matchThreshold := by
  by_contra hlt
  rw [candidateAgreement] at hlt
  split_ifs at hlt with hmin
  · exact h (bucketAt_eq ho fun i hi => agrees_agreement i (hi.trans_le (Nat.lt_of_not_le hlt)))
  · exact hlt (Nat.zero_le _)

def marker : Option ℕ → UInt32
  | none => NONE
  | some pos => UInt32.ofNat pos

/-- The last position below `n` in a bucket. -/
abbrev latestIn (data : Bytes) (bucket : Fin hashSize) (n : ℕ) : Option ℕ :=
  latest (fun pos => bucketAt data pos = bucket) n

lemma toNat_marker (hlen : data.length < NONE.toNat) (hpos : pos < data.length) :
    (marker (some pos)).toNat = pos := by
  have hN : NONE.toNat < 2 ^ 32 := NONE.toNat_lt
  exact UInt32.toNat_ofNat_of_lt' (by simp only [UInt32.size]; omega)

lemma link_latest (n : ℕ) (h : n = 0 ∨ n + 2 ≤ data.length) :
    ∃ head prev, (MatchFinder.link data n : Outcome ε _) = ok (head, prev) ∧
      prev.length = data.length ∧ (∀ b, head b = marker (latestIn data b n)) ∧
      ∀ p < n, prev[p]? = some (marker (latestIn data (bucketAt data p) p)) := by
  induction n with
  | zero =>
    refine ⟨_, _, rfl, List.length_replicate, fun _ => rfl, fun p hp => absurd hp (Nat.not_lt_zero p)⟩
  | succ n ih =>
    obtain ⟨head, prev, hlink, hlen, hhead, hprev⟩ := ih (by omega)
    refine ⟨Function.update head (bucketAt data n) (UInt32.ofNat n),
      prev.set n (head (bucketAt data n)), ?_, ?_, ?_, ?_⟩
    · rw [MatchFinder.link, hlink, ok_bind]
      dsimp only
      rw [hash_eq (by omega), ok_bind, write_of_lt (by omega), ok_bind]
      rfl
    · rw [List.length_set, hlen]
    · intro b
      rw [latestIn, latest]
      by_cases hb : b = bucketAt data n
      · subst hb
        rw [Function.update_self, if_pos (by simp)]
        rfl
      · rw [Function.update_of_ne hb, hhead, if_neg (by simpa using fun he => hb he.symm)]
    · intro p hp
      rcases Nat.lt_succ_iff_lt_or_eq.mp hp with hp | rfl
      · rw [List.getElem?_set_ne (by omega), hprev p hp]
      · rw [List.getElem?_set_self (by omega), hhead]

/-- Every hashable position is linked to the last one before it in its bucket. -/
structure MatchFinder.Chained (finder : MatchFinder) : Prop where
  short : finder.data.length < NONE.toNat
  prev : ∀ p, p + 2 < finder.data.length →
    finder.prev[p]? = some (marker (latestIn finder.data (bucketAt finder.data p) p))

lemma new_chained (hlen : data.length < NONE.toNat) :
    ∃ finder, (MatchFinder.new data : Outcome ε _) = ok finder ∧ finder.data = data ∧ finder.Chained := by
  have hmin : minMatch - 1 = 2 := rfl
  obtain ⟨head, prev, hlink, -, -, hprev⟩ :=
    link_latest (ε := ε) (data.length - (minMatch - 1))
      (show data.length - (minMatch - 1) = 0 ∨ data.length - (minMatch - 1) + 2 ≤ data.length by omega)
  refine ⟨⟨data, prev⟩, ?_, rfl, hlen, fun p hp => hprev p (by dsimp only at hp; omega)⟩
  rw [MatchFinder.new, if_pos hlen, hlink]
  rfl

section Walk
variable {finder : MatchFinder} (h : finder.Chained) (hpos : pos + 2 < finder.data.length)
include h hpos

lemma marker_ne_none {q : ℕ} (hq : q < pos) : marker (some q) ≠ NONE := by
  intro he
  have hmarker := toNat_marker h.short (show q < finder.data.length by omega)
  have hshort := h.short
  rw [he] at hmarker
  omega

lemma walk_far {q : ℕ} (hq : q < pos) (hfar : maxOffset < pos - q) (remaining fuel len offset : ℕ) :
    (finder.walk pos remaining (fuel + 1) (marker (some q)) len offset : Outcome ε _) =
      ok (len, offset) := by
  rw [MatchFinder.walk, if_neg (marker_ne_none h hpos hq),
    toNat_marker h.short (show q < finder.data.length by omega)]
  dsimp only
  rw [sub_of_le hq.le, ok_bind, if_pos hfar]
  rfl

lemma walk_near {q : ℕ} (hq : q < pos) (hnear : ¬maxOffset < pos - q) (fuel len offset : ℕ) :
    (finder.walk pos (finder.data.length - pos) (fuel + 1) (marker (some q)) len offset : Outcome ε _) =
      if len < candidateAgreement finder.data pos (pos - q) then
        if candidateAgreement finder.data pos (pos - q) = maxMatch then
          ok (candidateAgreement finder.data pos (pos - q), pos - q)
        else finder.walk pos (finder.data.length - pos) fuel
          (marker (latestIn finder.data (bucketAt finder.data q) q))
          (candidateAgreement finder.data pos (pos - q)) (pos - q)
      else finder.walk pos (finder.data.length - pos) fuel
        (marker (latestIn finder.data (bucketAt finder.data q) q)) len offset := by
  rw [MatchFinder.walk, if_neg (marker_ne_none h hpos hq),
    toNat_marker h.short (show q < finder.data.length by omega)]
  dsimp only
  rw [sub_of_le hq.le, ok_bind, if_neg hnear, candidateLength_eq (by omega) (by omega), ok_bind,
    index_of_getElem? (h.prev q (by omega)), ok_bind]
  rfl

/-- Walking the chain below `q` is scanning the offsets that lead below `q`. The induction is on `q`: a
position in another bucket is off the chain and is passed over by the scan. -/
lemma walk_eq (q : ℕ) (hq : q ≤ pos) {fuel : ℕ} (hfuel : q ≤ fuel) (len offset : ℕ)
    (hlen : matchThreshold ≤ len) :
    (finder.walk pos (finder.data.length - pos) (fuel + 1)
        (marker (latestIn finder.data (bucketAt finder.data pos) q)) len offset : Outcome ε _) =
      ok (scan (candidateAgreement finder.data pos) (min pos maxOffset + 1 - (pos - q + 1)) (pos - q + 1)
        (len, offset)) := by
  induction q generalizing fuel len offset with
  | zero =>
    rw [scan_past (by omega)]
    rfl
  | succ q ih =>
    rw [show pos - (q + 1) + 1 = pos - q by omega, latestIn, latest]
    by_cases hbucket : bucketAt finder.data q = bucketAt finder.data pos
    · rw [if_pos (by simpa using hbucket)]
      by_cases hfar : maxOffset < pos - q
      · rw [walk_far h hpos (by omega) hfar, scan_past (by omega)]
      obtain ⟨fuel, rfl⟩ : ∃ k, fuel = k + 1 := ⟨fuel - 1, by omega⟩
      rw [walk_near h hpos (by omega) hfar, hbucket, scan_step (by omega)]
      dsimp only
      split_ifs with hbetter hmax
      · rw [scan_of_le _ fun j _ => candidateAgreement_le_max.trans hmax.ge]
      · exact ih (by omega) (by omega) _ _ (hlen.trans hbetter.le)
      · exact ih (by omega) (by omega) _ _ hlen
    · have hskip : candidateAgreement finder.data pos (pos - q) ≤ len := by
        refine le_trans (candidateAgreement_le (by omega) ?_) hlen
        rwa [Nat.sub_sub_self (by omega)]
      rw [if_neg (by simpa using hbucket), ih (by omega) (by omega) len offset hlen]
      exact congrArg ok (scan_skip hskip).symm

end Walk

/-! ## The answer -/

/-- The longest match there is, at the smallest of its offsets, or the empty answer where there is none. -/
structure Longest (data : Bytes) (pos len offset : ℕ) : Prop where
  bound : ∀ o, minMatch ≤ o → o ≤ min pos maxOffset → agreement data pos o ≤ len
  source : (len = matchThreshold ∧ offset = 0) ∨ minMatch ≤ offset ∧ offset ≤ min pos maxOffset ∧
    matchThreshold < len ∧ len = agreement data pos offset ∧
    ∀ o, minMatch ≤ o → o < offset → agreement data pos o < len

/-- Offsets too near to be encoded may be scanned as well. -/
lemma longest_of_scan {first : ℕ} (hfirst : first ≤ minMatch) {best : ℕ × ℕ}
    (h : FirstMax (candidateAgreement data pos) first (min pos maxOffset + 1) (matchThreshold, 0) best) :
    Longest data pos best.1 best.2 := by
  have hcandidate : ∀ o, minMatch ≤ o → candidateAgreement data pos o = agreement data pos o :=
    fun o ho => if_pos ho
  refine ⟨fun o ho hle => ?_, ?_⟩
  · rw [← hcandidate o ho]
    exact h.bound o (hfirst.trans ho) (Nat.lt_succ_of_le hle)
  rcases h.source with rfl | ⟨-, hstop, hlt, hvalue, hmin⟩
  · exact Or.inl ⟨rfl, rfl⟩
  · have hnear : minMatch ≤ best.2 := by
      by_contra hnear
      rw [hvalue, candidateAgreement, if_neg hnear] at hlt
      exact absurd hlt (Nat.not_lt_zero _)
    refine Or.inr ⟨hnear, Nat.le_of_lt_succ hstop, hlt, hvalue.trans (hcandidate _ hnear), fun o ho hlt => ?_⟩
    rw [← hcandidate o ho]
    exact hmin o (hfirst.trans ho) hlt

lemma agreement_le_of_short (h : data.length < pos + minMatch) : agreement data pos offset ≤ matchThreshold := by
  have hcap : matchCap data pos offset ≤ data.length - pos := (min_le_right _ _).trans (min_le_right _ _)
  have hmin : minMatch = matchThreshold + 1 := rfl
  exact agreement_le.trans (by omega)

lemma longestMatch_eq {finder : MatchFinder} (h : finder.Chained) (hpos : pos < finder.data.length) :
    (finder.longestMatch pos : Outcome ε _) =
      ok (scan (candidateAgreement finder.data pos) (min pos maxOffset) 1 (matchThreshold, 0)) := by
  have hmin : minMatch = 3 := rfl
  rw [MatchFinder.longestMatch]
  split_ifs with hshort
  · rw [scan_of_le]
    · rfl
    · intro o _
      rw [candidateAgreement]
      split_ifs
      · exact agreement_le_of_short hshort
      · exact Nat.zero_le _
  · have hwalk := walk_eq (ε := ε) h (show pos + 2 < finder.data.length by omega) pos le_rfl
      le_rfl matchThreshold 0 le_rfl
    rw [sub_of_le hpos.le, ok_bind, index_of_getElem? (h.prev pos (by omega)), ok_bind, hwalk,
      Nat.sub_self, Nat.zero_add, Nat.add_sub_cancel]

lemma longestMatchBruteForce_eq (hpos : pos ≤ data.length) :
    (longestMatchBruteForce data pos : Outcome ε _) =
      ok (scan (candidateAgreement data pos) (min pos maxOffset) 1 (matchThreshold, 0)) := by
  have hnear : ∀ o, 1 ≤ o → o < minMatch → candidateAgreement data pos o ≤ matchThreshold := by
    intro o _ ho
    rw [candidateAgreement, if_neg (Nat.not_le.mpr ho)]
    exact Nat.zero_le _
  have hscan : scan (candidateAgreement data pos) (min pos maxOffset + 1 - 1) 1 (matchThreshold, 0) =
      scan (candidateAgreement data pos) (min pos maxOffset + 1 - minMatch) minMatch (matchThreshold, 0) :=
    scan_from_of_le (show 1 ≤ minMatch by decide) hnear
  rw [Nat.add_sub_cancel] at hscan
  rw [hscan, longestMatchBruteForce, show minMatch = 3 from rfl]
  by_cases hroom : 3 ≤ min pos maxOffset + 1
  · exact bruteForceFrom_eq hpos _ _ _ le_rfl (by omega)
  · rw [show min pos maxOffset + 1 - 3 = 0 by omega]
    rfl

/-- The finder is built for every input that can be indexed, and answers at every position what the
exhaustive search does: the longest match, at its smallest offset. -/
theorem longestMatch_eq_bruteForce (hlen : data.length < NONE.toNat) (hpos : pos < data.length) :
    ∃ finder len offset, (MatchFinder.new data : Outcome ε _) = ok finder ∧
      (finder.longestMatch pos : Outcome ε _) = ok (len, offset) ∧
      (longestMatchBruteForce data pos : Outcome ε _) = ok (len, offset) ∧
      Longest data pos len offset := by
  obtain ⟨finder, hnew, rfl, hchained⟩ := new_chained (ε := ε) hlen
  refine ⟨finder, _, _, hnew, longestMatch_eq hchained hpos, longestMatchBruteForce_eq hpos.le, ?_⟩
  have hmax := scan_firstMax (g := candidateAgreement finder.data pos) (min pos maxOffset) 1
    (matchThreshold, 0)
  rw [Nat.add_comm 1] at hmax
  exact longest_of_scan (by decide) hmax

theorem longestMatch_eq_bruteForce_run :
    ∃ finder len offset, (MatchFinder.new [7, 8, 9, 7, 8, 9] : Outcome Unit _) = ok finder ∧
      (finder.longestMatch 3 : Outcome Unit _) = ok (len, offset) ∧
      (longestMatchBruteForce [7, 8, 9, 7, 8, 9] 3 : Outcome Unit _) = ok (len, offset) ∧
      Longest [7, 8, 9, 7, 8, 9] 3 len offset :=
  longestMatch_eq_bruteForce (by decide) (by decide)

end NxObject.Blz
