import NxObject.BlzInPlace

/-!
# What a successful decode says about an arbitrary stream

The decoder checks neither that output stays clear of the bytes still to be read nor that the codes
produce what the trailer accounts for. A stream that keeps its pace and produces the right amount is
decoded as its codes say; one that keeps its pace and does not is accepted all the same; one that
does not keep its pace has output written over bytes that are still to be read.
-/
namespace NxObject.Blz
open Outcome Lz

/-- If a packed stream decodes, its codes, read from the unmodified region, produce exactly the bytes
behind the raw prefix, and the result is the raw prefix followed by them. -/
def SoundAt (data : Bytes) (n : ℕ) : Prop :=
  ∀ out extraLen, decompress data n = ok out → trailingU32 data 4 = some extraLen → extraLen ≠ 0 →
    ∃ footer, readFooter data = some footer ∧ ∃ h : footer.Fits data,
      let l := footer.layout data h
      l.complete = true ∧ ∃ prod, expand [] l.codes = some prod ∧
        l.packedStart + prod.length = n ∧ out = data.take l.packedStart ++ prod.reverse

/-- The property holds of the layout of `data`, if the trailer describes one of total length `n`. -/
def OfTrailer (P : Layout → Prop) (data : Bytes) (n : ℕ) : Prop :=
  ∀ footer, readFooter data = some footer → footer.extraLen ≠ 0 → ∀ h : footer.Fits data,
    data.length + footer.extraLen = n → P (footer.layout data h)

/-- A region whose codes expand to something that fits produces what the trailer accounts for. -/
def Layout.Exact (l : Layout) : Prop :=
  l.complete = true → ∀ prod, expand [] l.codes = some prod → prod.length ≤ l.finalLen →
    l.packedStart + prod.length = l.finalLen

/-- Output is written over a byte while a code is still to be read. -/
def Layout.Overtakes (l : Layout) : Prop :=
  ∃ flags left s, Reaches l.packedStart l.start flags left s ∧ l.packedStart < s.cmp ∧ s.dst < s.cmp

namespace Layout
variable {l : Layout}

/-- Up to a boundary the codes of which expand and fit, the run either reaches it in step with the
out-of-place one or has written over unread bytes before. -/
lemma reaches_or_overtakes (i : ℕ) (hi : i ≤ l.codes.length)
    (hexp : (expand [] (l.codes.take i)).isSome) (hfit : produced (l.codes.take i) ≤ l.finalLen) :
    l.Overtakes ∨ ∃ flags left s prod rest, Reaches l.packedStart l.start flags left s ∧ left < 8 ∧
      l.Mirrors flags left s i prod rest := by
  induction i with
  | zero => exact Or.inr ⟨0, 0, l.start, [], l.region, .start, by omega, l.mirrors_start⟩
  | succ i ih =>
    have htake : l.codes.take (i + 1) = l.codes.take i ++ [l.codes[i]] := by
      rw [List.take_add_one, List.getElem?_eq_getElem hi]
      rfl
    have hexp' : (expand [] (l.codes.take i)).isSome := by
      rw [htake, expand_append] at hexp
      exact Option.isSome_of_isSome_bind hexp
    have hfit' : produced (l.codes.take i) ≤ l.finalLen := by
      rw [htake, produced_append] at hfit
      omega
    rcases ih (by omega) hexp' hfit' with ho | ⟨flags, left, s, prod, rest, hr, hleft, hm⟩
    · exact Or.inl ho
    have hgo := hm.lt_cmp (Or.inl hi)
    by_cases hle : s.cmp ≤ s.dst
    swap
    · exact Or.inl ⟨flags, left, s, hr, hgo, Nat.lt_of_not_le hle⟩
    right
    cases left with
    | succ left =>
      obtain ⟨s', hcode, prod', rest', hm'⟩ := hm.code_ok hgo hle hi hexp hfit
      exact ⟨_, left, s', prod', rest', hr.code hgo hcode, by omega, hm'⟩
    | zero =>
      have hin : s.cmp - 1 < s.out.length := by
        have hw := hm.written.length
        omega
      have hflag := List.getElem?_eq_getElem hin
      obtain ⟨rest₁, hm₁⟩ := hm.flag (fun _ => hle) hgo hflag
      have hgo₁ := hm₁.lt_cmp (Or.inl hi)
      obtain ⟨s', hcode, prod', rest', hm'⟩ :=
        hm₁.code_ok hgo₁ ((Nat.sub_le _ _).trans hle) hi hexp hfit
      exact ⟨_, 7, s', prod', rest', (hr.flag hgo hflag).code hgo₁ hcode, by omega, hm'⟩

/-- A layout that does not keep its pace has unread bytes written over. -/
theorem overtakes_of_not_pace (h : ¬ l.Pace) : l.Overtakes := by
  simp only [Pace, not_forall] at h
  obtain ⟨i, hi, hpending, hexp, hfit, hslow⟩ := h
  rcases reaches_or_overtakes i hi hexp hfit with ho | ⟨flags, left, s, prod, rest, hr, hleft, hm⟩
  · exact ho
  · exact ⟨flags, left, s, hr, hm.lt_cmp hpending, hm.dst_lt_cmp hleft hslow⟩

end Layout

theorem soundAt_iff {data : Bytes} {n : ℕ} (hpace : OfTrailer Layout.Pace data n) :
    SoundAt data n ↔ OfTrailer Layout.Exact data n := by
  constructor
  · intro hsound footer hf hx h hn hcomplete prod hexp hfit
    obtain ⟨s, hs⟩ := Layout.decodeLoop_ok (hpace footer hf hx h hn) hcomplete hexp hfit
    obtain ⟨_, _, hlen, _⟩ := Layout.eq_of_decodeLoop (hpace footer hf hx h hn) hs
    have hn' : s.out.length = n := hlen.trans hn
    have hok : decompress data n = ok s.out := by
      rw [decompress_packed hf hx h, hs, ok_bind, if_neg (not_not.mpr hn')]
    have hextra : trailingU32 data 4 = some footer.extraLen := by
      obtain ⟨extraLen, hextra, hrest⟩ := Option.bind_eq_some_iff.mp hf
      obtain ⟨_, _, hrest⟩ := Option.bind_eq_some_iff.mp hrest
      obtain ⟨_, _, hrest⟩ := Option.bind_eq_some_iff.mp hrest
      cases hrest
      exact hextra
    obtain ⟨footer', hf', h', _, prod', hexp', hprod', _⟩ := hsound _ _ hok hextra hx
    obtain rfl : footer = footer' := Option.some.inj (hf.symm.trans hf')
    obtain rfl : prod = prod' := Option.some.inj (hexp.symm.trans hexp')
    exact hprod'.trans hn.symm
  · intro hexact out extraLen hok hextra hx
    obtain ⟨footer, hf, rfl, h⟩ := footer_of_decompress hok hextra hx
    refine ⟨footer, hf, h, ?_⟩
    rw [decompress_packed hf hx h] at hok
    obtain ⟨s, hs, hout⟩ := bind_eq_ok.mp hok
    split_ifs at hout with hn
    cases hout
    have hn' : s.out.length = n := not_not.mp hn
    have hfinal : s.out.length = data.length + footer.extraLen := by
      obtain ⟨_, _, hr, _⟩ := decodeLoop_reaches _ .start (Or.inl rfl) hs
      rw [hr.out_length]
      simp [Layout.start, Footer.layout]
    have hlayout := hfinal.symm.trans hn'
    obtain ⟨hcomplete, _, hlen, hraw, prod, hexp, hw⟩ :=
      Layout.eq_of_decodeLoop (hpace footer hf hx h hlayout) hs
    have hl := hw.length
    have htotal := hexact footer hf hx h hlayout hcomplete prod hexp (by omega)
    have hdst : s.dst = (footer.layout data h).packedStart := by omega
    rw [hdst, Nat.min_self] at hraw
    refine ⟨hcomplete, prod, hexp, htotal.trans (hlen.symm.trans hn'), ?_⟩
    conv_lhs => rw [← List.take_append_drop (footer.layout data h).packedStart s.out]
    rw [hraw, ← hdst, hw.suffix]
    rfl

/-- When a packed stream is decoded as its codes say. A layout that keeps its pace is, exactly when
its codes produce what the trailer accounts for; one that does not keep it has unread packed bytes
written over. -/
theorem soundAt_cases (data : Bytes) (n : ℕ) :
    (OfTrailer Layout.Pace data n ∧ OfTrailer Layout.Exact data n → SoundAt data n) ∧
      (OfTrailer Layout.Pace data n ∧ SoundAt data n → OfTrailer Layout.Exact data n) ∧
      OfTrailer (fun l => l.Pace ∨ l.Overtakes) data n := by
  refine ⟨fun h => (soundAt_iff h.1).mpr h.2, fun h => (soundAt_iff h.1).mp h.2, ?_⟩
  intro footer _ _ h _
  by_cases hp : (footer.layout data h).Pace
  · exact Or.inl hp
  · exact Or.inr (Layout.overtakes_of_not_pace hp)

def emptyRegionStream : Bytes := [12, 0, 0, 0, 12, 0, 0, 0, 1, 0, 0, 0]

theorem decompress_accepts_underproduction : ¬ SoundAt emptyRegionStream 13 := by
  intro hsound
  have hok : decompress emptyRegionStream 13 = ok (emptyRegionStream ++ [0]) := by decide
  have hf : readFooter emptyRegionStream = some ⟨12, 12, 1⟩ := rfl
  obtain ⟨footer, hf', h, _, prod, hexp, hlen, _⟩ := hsound _ 1 hok (by decide) (by decide)
  obtain rfl : footer = ⟨12, 12, 1⟩ := Option.some.inj (hf'.symm.trans hf)
  obtain rfl : prod = [] := (Option.some.inj hexp).symm
  change 0 + 0 = 13 at hlen
  omega

end NxObject.Blz
