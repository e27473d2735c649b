import NxObject.BlzDecoder

/-!
# Decoding in place and out of place

The decoder reads packed bytes and writes output in one buffer. As long as the output cursor stays at
or above the read cursor at the code boundaries that matter (`Layout.Pace`), the bytes still to be
read are the ones of the stream, and the run mirrors an out-of-place one: `parse` reads the codes from
the unmodified region, `expand` produces the output.
-/
namespace NxObject.Blz
open Outcome Lz

/-- The output produced so far stands, last byte first, behind the output cursor. -/
structure Written (out : Bytes) (dst : ℕ) (prod : Bytes) : Prop where
  length : dst + prod.length = out.length
  suffix : out.drop dst = prod.reverse

lemma Written.push {out : Bytes} {dst : ℕ} {prod : Bytes} (h : Written out (dst + 1) prod)
    (b : UInt8) : Written (out.set dst b) dst (prod ++ [b]) := by
  have hlen := h.length
  refine ⟨by simp only [List.length_append, List.length_singleton, List.length_set]; omega, ?_⟩
  have hset : dst < (out.set dst b).length := by rw [List.length_set]; omega
  rw [List.drop_eq_getElem_cons hset, List.getElem_set_self, List.drop_set_of_lt (Nat.lt_succ_self dst),
    h.suffix]
  simp

lemma Written.read {out : Bytes} {dst distance : ℕ} {prod : Bytes} (h : Written out (dst + 1) prod)
    (h₁ : 1 ≤ distance) (h₂ : distance ≤ prod.length) :
    out[dst + distance]? = prod[prod.length - distance]? := by
  have hget : out[dst + distance]? = (out.drop (dst + 1))[distance - 1]? := by
    rw [List.getElem?_drop]
    congr 1
    omega
  rw [hget, h.suffix, List.getElem?_reverse (by omega)]
  congr 1
  omega

lemma copySource_eq_some {dst distance len : ℕ} (hlen : len < 2 ^ 64) (h : dst + distance < len) :
    (checkedAdd dst distance).filter (· < len) = some (dst + distance) := by
  rw [checkedAdd, if_pos (by omega), Option.filter_some]
  simp [h]

lemma copySource_eq_none {dst distance len : ℕ} (h : len ≤ dst + distance) :
    (checkedAdd dst distance).filter (· < len) = none := by
  rw [checkedAdd]
  split_ifs <;> simp [h]

def writeCode : Code UInt8 → Bytes → ℕ → Outcome DecompressError (Bytes × ℕ)
  | .literal b, out, dst => do
      let dst ← okOr (checkedSub dst 1) .outputUnderflow
      let out ← write out dst b
      pure (out, dst)
  | .backRef length distance, out, dst => copyMatch distance length out dst

section Copy
variable {distance : ℕ}

lemma copyMatch_succ (hd : 1 ≤ distance) {out : Bytes} (h64 : out.length < 2 ^ 64) {dst : ℕ}
    {prod : Bytes} (hw : Written out (dst + 1) prod) (n : ℕ) :
    if distance ≤ prod.length then
      ∃ b, prod[prod.length - distance]? = some b ∧
        copyMatch distance (n + 1) out (dst + 1) = copyMatch distance n (out.set dst b) dst
    else ∃ e, copyMatch distance (n + 1) out (dst + 1) = err e := by
  have hlen := hw.length
  have hsub : checkedSub (dst + 1) 1 = some dst := by simp [checkedSub]
  split_ifs with h
  · have hb := List.getElem?_eq_getElem (show prod.length - distance < prod.length by omega)
    refine ⟨_, hb, ?_⟩
    rw [← hw.read hd h] at hb
    simp only [copyMatch, hsub, okOr_some, ok_bind, index_of_getElem? hb,
      copySource_eq_some h64 (show dst + distance < out.length by omega),
      write_of_lt (show dst < out.length by omega)]
  · refine ⟨.matchOutOfBounds dst distance, ?_⟩
    simp only [copyMatch, hsub, okOr_some, ok_bind,
      copySource_eq_none (show out.length ≤ dst + distance by omega), okOr_none, err_bind]

lemma copyMatch_eq_ok (hd : 1 ≤ distance) (n : ℕ) {out : Bytes} (h64 : out.length < 2 ^ 64)
    {dst : ℕ} {prod : Bytes} (hw : Written out dst prod) {r : Bytes × ℕ}
    (h : copyMatch distance n out dst = ok r) :
    ∃ prod', copyBack distance n prod = some prod' ∧ r.2 + n = dst ∧ Written r.1 r.2 prod' ∧
      r.1.take r.2 = out.take r.2 := by
  induction n generalizing out dst prod with
  | zero =>
    cases h
    exact ⟨prod, rfl, rfl, hw, rfl⟩
  | succ n ih =>
    cases dst with
    | zero => simp [copyMatch, checkedSub] at h
    | succ dst =>
      have hstep := copyMatch_succ hd h64 hw n
      split_ifs at hstep with hle
      · obtain ⟨b, hb, hcopy⟩ := hstep
        rw [hcopy] at h
        obtain ⟨prod', hprod, hdst, hw', htake⟩ := ih (by simpa using h64) (hw.push b) h
        refine ⟨prod', ?_, by omega, hw', ?_⟩
        · rw [copyBack, if_pos hle, hb]
          exact hprod
        · rw [htake, List.take_set_of_le (by omega)]
      · obtain ⟨e, he⟩ := hstep
        rw [he] at h
        cases h

lemma copyMatch_ok (hd : 1 ≤ distance) (n : ℕ) {out : Bytes} (h64 : out.length < 2 ^ 64)
    {dst : ℕ} {prod prod' : Bytes} (hw : Written out dst prod)
    (h : copyBack distance n prod = some prod') (hroom : n ≤ dst) :
    ∃ r, copyMatch distance n out dst = ok r := by
  induction n generalizing out dst prod with
  | zero => exact ⟨_, rfl⟩
  | succ n ih =>
    obtain ⟨dst, rfl⟩ : ∃ d, dst = d + 1 := ⟨dst - 1, by omega⟩
    rw [copyBack] at h
    split_ifs at h with hle
    obtain ⟨b, hb, hrest⟩ := Option.bind_eq_some_iff.mp h
    have hstep := copyMatch_succ hd h64 hw n
    rw [if_pos hle] at hstep
    obtain ⟨b', hb', hcopy⟩ := hstep
    obtain rfl : b = b' := Option.some.inj (hb.symm.trans hb')
    rw [hcopy]
    exact ih (by simpa using h64) (hw.push b) hrest (by omega)

end Copy

/-- A code whose distance is not zero. -/
def Backward : Code UInt8 → Prop
  | .literal _ => True
  | .backRef _ distance => 1 ≤ distance

lemma writeCode_eq_ok {c : Code UInt8} (hc : Backward c) {out : Bytes} (h64 : out.length < 2 ^ 64)
    {dst : ℕ} {prod : Bytes} (hw : Written out dst prod) {r : Bytes × ℕ}
    (h : writeCode c out dst = ok r) :
    ∃ prod', c.apply prod = some prod' ∧ r.2 + c.produced = dst ∧ Written r.1 r.2 prod' ∧
      r.1.take r.2 = out.take r.2 := by
  cases c with
  | literal b =>
    cases dst with
    | zero => simp [writeCode, checkedSub] at h
    | succ dst =>
      have hlen := hw.length
      simp only [writeCode, checkedSub, if_pos (Nat.le_add_left 1 dst), okOr_some, ok_bind,
        Nat.add_sub_cancel, write_of_lt (show dst < out.length by omega), pure_eq] at h
      cases h
      exact ⟨_, rfl, rfl, hw.push b, List.take_set_of_le le_rfl⟩
  | backRef length distance => exact copyMatch_eq_ok hc length h64 hw h

lemma writeCode_ok {c : Code UInt8} (hc : Backward c) {out : Bytes} (h64 : out.length < 2 ^ 64)
    {dst : ℕ} {prod prod' : Bytes} (hw : Written out dst prod) (h : c.apply prod = some prod')
    (hroom : c.produced ≤ dst) : ∃ r, writeCode c out dst = ok r := by
  cases c with
  | literal b =>
    obtain ⟨dst, rfl⟩ : ∃ d, dst = d + 1 := ⟨dst - 1, by simp only [Code.produced] at hroom; omega⟩
    have hlen := hw.length
    exact ⟨(out.set dst b, dst), by
      simp only [writeCode, checkedSub, if_pos (Nat.le_add_left 1 dst), okOr_some, ok_bind,
        Nat.add_sub_cancel, write_of_lt (show dst < out.length by omega), pure_eq]⟩
  | backRef length distance => exact copyMatch_ok hc length h64 hw h hroom

/-- Where a stream's trailer places the packed region and the end of the output. -/
structure Layout where
  data : Bytes
  packedStart : ℕ
  regionEnd : ℕ
  finalLen : ℕ
  start_le_end : packedStart ≤ regionEnd
  end_le_length : regionEnd ≤ data.length
  length_le_final : data.length ≤ finalLen
  final_lt : finalLen < 2 ^ 64

namespace Layout
variable (l : Layout)

def region : Bytes := ((l.data.take l.regionEnd).drop l.packedStart).reverse

def codes : List (Code UInt8) := (parse 0 0 l.region).1

/-- Whether the region ends behind a code, not inside a back-reference. -/
def complete : Bool := (parse 0 0 l.region).2

def start : Cursor :=
  ⟨l.data ++ List.replicate (l.finalLen - l.data.length) 0, l.regionEnd, l.finalLen⟩

/-- At every code boundary with a code still to be read, the bytes produced so far end at or above
the bytes still to be read. -/
def Pace : Prop :=
  ∀ i ≤ l.codes.length, (i < l.codes.length ∨ l.complete = false) →
    (expand [] (l.codes.take i)).isSome → produced (l.codes.take i) ≤ l.finalLen →
    l.regionEnd + produced (l.codes.take i) ≤ l.finalLen + packedSize (l.codes.take i)

lemma region_length : l.region.length = l.regionEnd - l.packedStart := by
  have := l.end_le_length
  simp only [region, List.length_reverse, List.length_drop, List.length_take]
  omega

lemma data_of_suffix {b : UInt8} {rest : Bytes} (h : b :: rest <:+ l.region) :
    l.data[l.packedStart + rest.length]? = some b := by
  obtain ⟨pre, hpre⟩ := h
  have hlen := congrArg List.length hpre
  rw [l.region_length] at hlen
  simp only [List.length_append, List.length_cons] at hlen
  have hrev : (l.data.take l.regionEnd).drop l.packedStart =
      rest.reverse ++ (b :: pre.reverse) := by
    rw [← List.reverse_reverse ((l.data.take l.regionEnd).drop l.packedStart)]
    change l.region.reverse = _
    rw [← hpre]
    simp
  have hget := congrArg (fun xs => xs[rest.length]?) hrev
  simpa [List.getElem?_drop, List.getElem?_take_of_lt
    (show l.packedStart + rest.length < l.regionEnd by omega)] using hget

/-- The in-place run before code `i` mirrors the out-of-place one: `rest` is still unread, `prod` has
been produced, and below both cursors the buffer still holds the stream. -/
structure Mirrors (flags : UInt8) (left : ℕ) (s : Cursor) (i : ℕ) (prod rest : Bytes) : Prop where
  index_le : i ≤ l.codes.length
  left_le : left ≤ 8
  aligned : (i + left) % 8 = 0
  unparsed : parse flags left rest = (l.codes.drop i, l.complete)
  suffix : rest <:+ l.region
  consumed : rest.length + ((l.codes.take i).flatMap codeBytes).length + (i + left) / 8 =
    l.region.length
  cmp : s.cmp = l.packedStart + rest.length
  expands : expand [] (l.codes.take i) = some prod
  written : Written s.out s.dst prod
  length : s.out.length = l.finalLen
  unread : s.out.take (min s.cmp s.dst) = l.data.take (min s.cmp s.dst)

lemma mirrors_start : l.Mirrors 0 0 l.start 0 [] l.region where
  index_le := Nat.zero_le _
  left_le := Nat.zero_le _
  aligned := rfl
  unparsed := rfl
  suffix := List.suffix_rfl
  consumed := by simp
  cmp := by
    have := l.start_le_end
    change l.regionEnd = _
    rw [l.region_length]
    omega
  expands := rfl
  written := by
    have := l.length_le_final
    refine ⟨by simp [start]; omega, ?_⟩
    simp only [start, List.reverse_nil, List.drop_eq_nil_iff, List.length_append,
      List.length_replicate]
    omega
  length := by
    have := l.length_le_final
    simp only [start, List.length_append, List.length_replicate]
    omega
  unread := List.take_append_of_le_length (le_trans (Nat.min_le_left _ _) l.end_le_length)

namespace Mirrors
variable {l} {flags : UInt8} {left : ℕ} {s s' : Cursor} {i : ℕ} {prod rest : Bytes}

lemma prod_length (h : l.Mirrors flags left s i prod rest) :
    prod.length = produced (l.codes.take i) := by
  simpa using expand_length h.expands

lemma cmp_le_dst_of_le (h : l.Mirrors flags left s i prod rest)
    (hp : l.regionEnd + produced (l.codes.take i) ≤ l.finalLen + packedSize (l.codes.take i)) :
    s.cmp ≤ s.dst := by
  have hw := h.written.length
  have hlen := h.consumed
  have hreg := l.region_length
  have hle := l.start_le_end
  have halign := h.aligned
  have hleft := h.left_le
  have htake : (l.codes.take i).length = i := List.length_take_of_le h.index_le
  rw [h.length] at hw
  rw [← h.prod_length, packedSize, htake] at hp
  rw [h.cmp]
  omega

lemma cmp_le_dst (h : l.Mirrors flags left s i prod rest) (hpace : l.Pace)
    (hi : i < l.codes.length ∨ l.complete = false) : s.cmp ≤ s.dst := by
  have hw := h.written.length
  rw [h.length, h.prod_length] at hw
  exact h.cmp_le_dst_of_le (hpace i h.index_le hi (by rw [h.expands]; rfl) (by omega))

lemma dst_lt_cmp (h : l.Mirrors flags left s i prod rest) (hleft : left < 8)
    (hp : ¬ l.regionEnd + produced (l.codes.take i) ≤
      l.finalLen + packedSize (l.codes.take i)) : s.dst < s.cmp := by
  have hw := h.written.length
  have hlen := h.consumed
  have hreg := l.region_length
  have hle := l.start_le_end
  have halign := h.aligned
  have htake : (l.codes.take i).length = i := List.length_take_of_le h.index_le
  rw [h.length] at hw
  rw [← h.prod_length, packedSize, htake] at hp
  rw [h.cmp]
  omega

lemma read {b : UInt8} (h : l.Mirrors flags left s i prod rest) (hle : s.cmp ≤ s.dst)
    {rest' : Bytes} (hb : b :: rest' <:+ rest) : s.out[l.packedStart + rest'.length]? = some b := by
  have hlt : l.packedStart + rest'.length < s.cmp := by
    have := hb.length_le
    rw [h.cmp]
    simp only [List.length_cons] at this
    omega
  have hunread := h.unread
  rw [Nat.min_eq_left hle] at hunread
  rw [← List.getElem?_take_of_lt hlt, hunread, List.getElem?_take_of_lt hlt]
  exact l.data_of_suffix (hb.trans h.suffix)

lemma rest_ne_nil (h : l.Mirrors flags left s i prod rest) (hgo : l.packedStart < s.cmp) :
    rest ≠ [] := by
  rintro rfl
  rw [h.cmp] at hgo
  simp at hgo

lemma parse_nil (flags : UInt8) (left : ℕ) : parse flags left [] = ([], true) := by
  cases left <;> rfl

lemma parse_ne_nil (flags : UInt8) (left : ℕ) (b : UInt8) (bs : Bytes) :
    parse flags (left + 1) (b :: bs) ≠ ([], true) := by
  by_cases hclear : flags &&& flagMaskInit = 0
  · simp [parse_literal hclear]
  · cases bs with
    | nil => simp [parse, hclear]
    | cons b' bs => simp [parse_backRef hclear]

/-- What the boundary before code `i` still has to read counts as a code or as a truncated one. -/
lemma pending (h : l.Mirrors flags (left + 1) s i prod rest) (hgo : l.packedStart < s.cmp) :
    i < l.codes.length ∨ l.complete = false := by
  obtain ⟨b, bs, rfl⟩ := List.exists_cons_of_ne_nil (h.rest_ne_nil hgo)
  by_contra hcon
  simp only [not_or, Nat.not_lt, Bool.not_eq_false] at hcon
  have hu := h.unparsed
  rw [List.drop_of_length_le hcon.1, hcon.2] at hu
  exact parse_ne_nil flags left b bs hu

lemma lt_cmp (h : l.Mirrors flags left s i prod rest)
    (hi : i < l.codes.length ∨ l.complete = false) : l.packedStart < s.cmp := by
  have hne : rest ≠ [] := by
    rintro rfl
    have hu := h.unparsed
    rw [parse_nil, Prod.mk.injEq] at hu
    rcases hi with hi | hi
    · exact absurd (List.drop_eq_nil_iff.mp hu.1.symm) (Nat.not_le.mpr hi)
    · rw [hi] at hu
      cases hu.2
  have hpos := List.length_pos_of_ne_nil hne
  rw [h.cmp]
  omega

lemma flag (h : l.Mirrors flags 0 s i prod rest)
    (hle : i < l.codes.length ∨ l.complete = false → s.cmp ≤ s.dst) (hgo : l.packedStart < s.cmp)
    {flags' : UInt8} (hf : s.out[s.cmp - 1]? = some flags') :
    ∃ rest', l.Mirrors flags' 8 { s with cmp := s.cmp - 1 } i prod rest' := by
  obtain ⟨f, rest', rfl⟩ := List.exists_cons_of_ne_nil (h.rest_ne_nil hgo)
  have hcmp : s.cmp - 1 = l.packedStart + rest'.length := by
    rw [h.cmp, List.length_cons]
    omega
  have hlen := h.consumed
  rw [List.length_cons] at hlen
  have hunparsed : parse flags' 8 rest' = (l.codes.drop i, l.complete) := by
    by_cases hi : i < l.codes.length ∨ l.complete = false
    · have hread := h.read (hle hi) (b := f) List.suffix_rfl
      rw [← hcmp, hf] at hread
      rw [Option.some.inj hread]
      exact h.unparsed
    · -- no code follows, so that nothing depends on the byte that is read
      simp only [not_or, Nat.not_lt, Bool.not_eq_false] at hi
      have hu := h.unparsed
      rw [List.drop_of_length_le hi.1, hi.2] at hu ⊢
      cases rest' with
      | nil => exact parse_nil flags' 8
      | cons b bs => exact absurd hu (parse_ne_nil f 7 b bs)
  exact ⟨rest',
    { index_le := h.index_le
      left_le := le_rfl
      aligned := by have := h.aligned; omega
      unparsed := hunparsed
      suffix := (List.suffix_cons f rest').trans h.suffix
      consumed := by omega
      cmp := hcmp
      expands := h.expands
      written := h.written
      length := h.length
      unread := by
        have hu := congrArg (List.take (min (s.cmp - 1) s.dst)) h.unread
        simpa only [List.take_take, ← Nat.min_assoc,
          show min (min (s.cmp - 1) s.dst) (min s.cmp s.dst) = min (s.cmp - 1) s.dst by omega]
          using hu }⟩

/-- Reading a code: the next one of the region, or a back-reference the region's end cuts short. -/
lemma next (h : l.Mirrors flags (left + 1) s i prod rest) (hgo : l.packedStart < s.cmp)
    (hle : s.cmp ≤ s.dst) :
    (∃ c rest', l.codes.drop i = c :: (parse (flags <<< flagShift) left rest').1 ∧
      (parse (flags <<< flagShift) left rest').2 = l.complete ∧ rest' <:+ rest ∧
      rest.length = rest'.length + (codeBytes c).length ∧ Backward c ∧
      decodeCode l.packedStart flags s =
        (writeCode c s.out s.dst >>= fun r => ok ⟨r.1, l.packedStart + rest'.length, r.2⟩)) ∨
    (l.codes.length ≤ i ∧ l.complete = false ∧ ∃ e, decodeCode l.packedStart flags s = err e) := by
  obtain ⟨b, bs, rfl⟩ := List.exists_cons_of_ne_nil (h.rest_ne_nil hgo)
  have hu := h.unparsed
  have hcmp := h.cmp
  rw [List.length_cons] at hcmp
  have hfirst := h.read hle (b := b) List.suffix_rfl
  have hone : s.cmp - 1 = l.packedStart + bs.length := by omega
  by_cases hclear : flags &&& flagMaskInit = 0
  · rw [parse_literal hclear, Prod.mk.injEq] at hu
    refine Or.inl ⟨.literal b, bs, hu.1.symm, hu.2, List.suffix_cons b bs, rfl, trivial, ?_⟩
    simp only [decodeCode, if_pos hclear, sub_of_le (show 1 ≤ s.cmp by omega), ok_bind, hone,
      copyLiteral, writeCode, index_of_getElem? hfirst, pure_eq]
  cases bs with
  | nil =>
    have htrunc : parse flags (left + 1) [b] = ([], false) := by simp [parse, hclear]
    rw [htrunc, Prod.mk.injEq] at hu
    refine Or.inr ⟨List.drop_eq_nil_iff.mp hu.1.symm, hu.2.symm, .truncatedCode s.cmp, ?_⟩
    have hshort : s.cmp - l.packedStart < 2 := by simp only [List.length_nil] at hcmp; omega
    simp only [decodeCode, if_neg hclear, sub_of_le hgo.le, ok_bind, if_pos hshort]
  | cons b' bs =>
    rw [parse_backRef hclear, Prod.mk.injEq] at hu
    have hsecond := h.read hle (b := b') (List.suffix_cons b (b' :: bs))
    have htwo : s.cmp - 2 = l.packedStart + bs.length := by
      simp only [List.length_cons] at hcmp
      omega
    have hroom : ¬ s.cmp - l.packedStart < 2 := by
      simp only [List.length_cons] at hcmp
      omega
    refine Or.inl ⟨.backRef (refLength b) (refDistance b b'), bs, hu.1.symm, hu.2,
      (List.suffix_cons b' bs).trans (List.suffix_cons b _), rfl, ?_, ?_⟩
    · exact Nat.le_add_left 1 _
    · simp only [decodeCode, if_neg hclear, sub_of_le hgo.le, ok_bind, if_neg hroom,
        sub_of_le (show 1 ≤ s.cmp by omega), sub_of_le (show 2 ≤ s.cmp by omega), hone, htwo,
        index_of_getElem? hfirst, index_of_getElem? hsecond, writeCode, pure_eq]

lemma next_backRef (h : l.Mirrors flags (left + 1) s i prod rest) (hgo : l.packedStart < s.cmp)
    (hle : s.cmp ≤ s.dst) (hset : flags &&& flagMaskInit ≠ 0) (hcomplete : l.complete = true)
    {first second : UInt8} (hfirst : s.out[s.cmp - 1]? = some first)
    (hsecond : s.out[s.cmp - 2]? = some second) :
    ∃ cs, l.codes.drop i = .backRef (refLength first) (refDistance first second) :: cs := by
  obtain ⟨b, bs, rfl⟩ := List.exists_cons_of_ne_nil (h.rest_ne_nil hgo)
  have hu := h.unparsed
  have hcmp := h.cmp
  cases bs with
  | nil => simp [parse, hset, hcomplete] at hu
  | cons b' bs =>
    have hone := h.read hle (b := b) List.suffix_rfl
    have htwo := h.read hle (b := b') (List.suffix_cons b (b' :: bs))
    simp only [List.length_cons] at hcmp hone
    rw [show l.packedStart + (bs.length + 1) = s.cmp - 1 by omega, hfirst] at hone
    rw [show l.packedStart + bs.length = s.cmp - 2 by omega, hsecond] at htwo
    rw [parse_backRef hset, Prod.mk.injEq] at hu
    rw [Option.some.inj hone, Option.some.inj htwo]
    exact ⟨_, hu.1.symm⟩

lemma advance (h : l.Mirrors flags (left + 1) s i prod rest) {c : Code UInt8} {rest' : Bytes}
    (hdrop : l.codes.drop i = c :: (parse (flags <<< flagShift) left rest').1)
    (hcomplete : (parse (flags <<< flagShift) left rest').2 = l.complete) (hsuffix : rest' <:+ rest)
    (hlength : rest.length = rest'.length + (codeBytes c).length) (hc : Backward c) {r : Bytes × ℕ}
    (hwrite : writeCode c s.out s.dst = ok r) :
    ∃ prod', l.Mirrors (flags <<< flagShift) left ⟨r.1, l.packedStart + rest'.length, r.2⟩ (i + 1)
      prod' rest' := by
  have hi : i < l.codes.length := by
    have := congrArg List.length hdrop
    simp only [List.length_drop, List.length_cons] at this
    omega
  rw [List.drop_eq_getElem_cons hi, List.cons.injEq] at hdrop
  have htake : l.codes.take (i + 1) = l.codes.take i ++ [c] := by
    rw [List.take_add_one, List.getElem?_eq_getElem hi, hdrop.1]
    rfl
  have h64 : s.out.length < 2 ^ 64 := by
    rw [h.length]
    exact l.final_lt
  obtain ⟨prod', happly, hdst, hw, hkeep⟩ := writeCode_eq_ok hc h64 h.written hwrite
  have hconsumed := h.consumed
  have halign := h.aligned
  have hcmp := h.cmp
  have hlen : r.1.length = s.out.length := by
    have h₁ := hw.length
    have h₂ := h.written.length
    have h₃ := apply_length happly
    omega
  exact ⟨prod',
    { index_le := hi
      left_le := by have := h.left_le; omega
      aligned := by omega
      unparsed := by rw [hdrop.2, ← hcomplete]
      suffix := hsuffix.trans h.suffix
      consumed := by
        rw [htake, List.flatMap_append, List.length_append, List.flatMap_singleton,
          show i + 1 + left = i + (left + 1) by omega]
        omega
      cmp := rfl
      expands := by
        rw [htake, expand_append, h.expands]
        simp [expand, happly]
      written := hw
      length := hlen.trans h.length
      unread := by
        set k := min (l.packedStart + rest'.length) r.2 with hk
        have hu := congrArg (List.take k) h.unread
        have hr := congrArg (List.take k) hkeep
        simp only [List.take_take, show min k (min s.cmp s.dst) = k by omega,
          show min k r.2 = k by omega] at hu hr
        rw [hr, hu] }⟩

lemma apply_of_expands (h : l.Mirrors flags left s i prod rest) {c : Code UInt8}
    {cs : List (Code UInt8)} (hdrop : l.codes.drop i = c :: cs)
    (hexp : (expand [] (l.codes.take (i + 1))).isSome) :
    ∃ prod', c.apply prod = some prod' ∧ prod'.length = produced (l.codes.take (i + 1)) := by
  have hi : i < l.codes.length := by
    have := congrArg List.length hdrop
    simp only [List.length_drop, List.length_cons] at this
    omega
  rw [List.drop_eq_getElem_cons hi, List.cons.injEq] at hdrop
  obtain ⟨prod', hprod'⟩ := Option.isSome_iff_exists.mp hexp
  have hlen := expand_length hprod'
  rw [List.take_add_one, List.getElem?_eq_getElem hi, hdrop.1, expand_append, h.expands] at hprod'
  refine ⟨prod', by simpa [expand] using hprod', by simpa using hlen⟩

lemma code_ok (h : l.Mirrors flags (left + 1) s i prod rest) (hgo : l.packedStart < s.cmp)
    (hle : s.cmp ≤ s.dst) (hi : i < l.codes.length)
    (hexp : (expand [] (l.codes.take (i + 1))).isSome)
    (hfit : produced (l.codes.take (i + 1)) ≤ l.finalLen) :
    ∃ s', decodeCode l.packedStart flags s = ok s' ∧
      ∃ prod' rest', l.Mirrors (flags <<< flagShift) left s' (i + 1) prod' rest' := by
  rcases h.next hgo hle with
    ⟨c, rest', hdrop, hcomplete, hsuffix, hlength, hc, heq⟩ | ⟨hlast, _⟩
  · obtain ⟨prod', happly, hlen⟩ := h.apply_of_expands hdrop hexp
    have hw := h.written.length
    have hl := h.length
    have hl' := apply_length happly
    have h64 := l.final_lt
    obtain ⟨r, hwrite⟩ := writeCode_ok hc (by omega) h.written happly (by omega)
    obtain ⟨prod', h'⟩ := h.advance hdrop hcomplete hsuffix hlength hc hwrite
    exact ⟨_, by rw [heq, hwrite, ok_bind], prod', rest', h'⟩
  · exact absurd hi (Nat.not_lt.mpr hlast)

lemma finished (h : l.Mirrors flags left s i prod rest) (hend : s.cmp ≤ l.packedStart) :
    s.cmp = l.packedStart ∧ l.complete = true ∧ expand [] l.codes = some prod := by
  have hcmp := h.cmp
  obtain rfl : rest = [] := List.eq_nil_of_length_eq_zero (by omega)
  have hu := h.unparsed
  rw [parse_nil, Prod.mk.injEq] at hu
  have hexp := h.expands
  rw [List.take_of_length_le (List.drop_eq_nil_iff.mp hu.1.symm)] at hexp
  exact ⟨by simpa using hcmp, hu.2.symm, hexp⟩

end Mirrors

variable {l} {flags : UInt8} {left : ℕ} {s : Cursor}

/-- Every reached state mirrors the out-of-place run. -/
theorem mirrors_of_reaches (hpace : l.Pace) (hr : Reaches l.packedStart l.start flags left s) :
    ∃ i prod rest, l.Mirrors flags left s i prod rest := by
  induction hr with
  | start => exact ⟨0, [], l.region, l.mirrors_start⟩
  | flag _ hgo hf ih =>
    obtain ⟨i, prod, rest, h⟩ := ih
    obtain ⟨rest', h'⟩ := h.flag (h.cmp_le_dst hpace) hgo hf
    exact ⟨i, prod, rest', h'⟩
  | code _ hgo hcode ih =>
    obtain ⟨i, prod, rest, h⟩ := ih
    rcases h.next hgo (h.cmp_le_dst hpace (h.pending hgo)) with
      ⟨c, rest', hdrop, hcomplete, hsuffix, hlength, hc, heq⟩ | ⟨_, _, e, he⟩
    · rw [heq] at hcode
      obtain ⟨r, hwrite, hs⟩ := bind_eq_ok.mp hcode
      obtain ⟨prod', h'⟩ := h.advance hdrop hcomplete hsuffix hlength hc hwrite
      cases hs
      exact ⟨i + 1, prod', rest', h'⟩
    · rw [he] at hcode
      cases hcode

/-- A region that expands to something that fits never gets the decoder stuck. -/
theorem live_of_expands (hpace : l.Pace) (hcomplete : l.complete = true) {out : Bytes}
    (hexp : expand [] l.codes = some out) (hlen : out.length ≤ l.finalLen) :
    Live l.packedStart l.start where
  flag flags s hr hgo := by
    obtain ⟨i, prod, rest, h⟩ := mirrors_of_reaches hpace hr
    have hcmp := h.cmp
    have hsuffix := h.suffix.length_le
    have hreg := l.region_length
    have h₁ := l.end_le_length
    have h₂ := l.length_le_final
    have hl := h.length
    exact ⟨_, List.getElem?_eq_getElem (show s.cmp - 1 < s.out.length by omega)⟩
  code flags left s hr hgo := by
    obtain ⟨i, prod, rest, h⟩ := mirrors_of_reaches hpace hr
    have hpending := h.pending hgo
    have htake := expand_take hexp (i + 1)
    have hle := (expand_length htake).symm.trans_le (List.length_take_le' _ _)
    rw [List.length_nil, Nat.zero_add] at hle
    obtain ⟨s', hs, _⟩ := h.code_ok hgo (h.cmp_le_dst hpace hpending)
      (hpending.resolve_right (by simp [hcomplete])) (by rw [htake]; rfl) (hle.trans hlen)
    exact ⟨s', hs⟩

theorem eq_of_decodeLoop (hpace : l.Pace) {fuel : ℕ}
    (h : decodeLoop l.packedStart fuel l.start = ok s) :
    l.complete = true ∧ s.cmp = l.packedStart ∧ s.out.length = l.finalLen ∧
      s.out.take (min l.packedStart s.dst) = l.data.take (min l.packedStart s.dst) ∧
      ∃ prod, expand [] l.codes = some prod ∧ Written s.out s.dst prod := by
  obtain ⟨flags, left, hr, hend⟩ := decodeLoop_reaches fuel .start (Or.inl rfl) h
  obtain ⟨i, prod, rest, hm⟩ := mirrors_of_reaches hpace hr
  obtain ⟨hcmp, hcomplete, hexp⟩ := hm.finished hend
  have hunread := hm.unread
  rw [hcmp] at hunread
  exact ⟨hcomplete, hcmp, hm.length, hunread, prod, hexp, hm.written⟩

theorem decodeLoop_ok (hpace : l.Pace) (hcomplete : l.complete = true) {out : Bytes}
    (hexp : expand [] l.codes = some out) (hlen : out.length ≤ l.finalLen) :
    ∃ s, decodeLoop l.packedStart l.regionEnd l.start = ok s :=
  (live_of_expands hpace hcomplete hexp hlen).decodeLoop l.regionEnd .start (Or.inl rfl)
    (Nat.le_add_left _ _)

end Layout

def readFooter (data : Bytes) : Option Footer := do
  let extraLen ← trailingU32 data 4
  let headerSize ← trailingU32 data 8
  let encLen ← trailingU32 data footerSize
  pure ⟨encLen, headerSize, extraLen⟩

/-- The trailer's lengths describe a layout that fits the buffer. -/
structure Footer.Fits (footer : Footer) (data : Bytes) : Prop where
  header : footerSize ≤ footer.headerSize
  enc : footer.headerSize ≤ footer.encLen
  total : footer.encLen ≤ data.length
  final : data.length + footer.extraLen < 2 ^ 64

def Footer.layout (footer : Footer) (data : Bytes) (h : footer.Fits data) : Layout where
  data := data
  packedStart := data.length - footer.encLen
  regionEnd := data.length - footer.headerSize
  finalLen := data.length + footer.extraLen
  start_le_end := by
    have := h.enc
    omega
  end_le_length := Nat.sub_le _ _
  length_le_final := Nat.le_add_right _ _
  final_lt := h.final

theorem decompress_packed {data : Bytes} {footer : Footer} (hf : readFooter data = some footer)
    (hx : footer.extraLen ≠ 0) (h : footer.Fits data) (n : ℕ) :
    decompress data n =
      (decodeLoop (footer.layout data h).packedStart (footer.layout data h).regionEnd
        (footer.layout data h).start >>= fun s =>
          if s.out.length ≠ n then err (.unexpectedLength n s.out.length) else ok s.out) := by
  obtain ⟨extraLen, hextra, hf⟩ := Option.bind_eq_some_iff.mp hf
  obtain ⟨headerSize, hheader, hf⟩ := Option.bind_eq_some_iff.mp hf
  obtain ⟨encLen, henc, hf⟩ := Option.bind_eq_some_iff.mp hf
  cases hf
  obtain ⟨h₁, h₂, h₃, h₄⟩ := h
  simp only at h₁ h₂ h₃ h₄ hx
  have hcopy : (copyFromSlice (List.replicate (data.length + extraLen) 0) 0 data :
      Outcome DecompressError Bytes) = ok (data ++ List.replicate extraLen 0) := by
    rw [copyFromSlice_of_le (by simp)]
    simp
  simp only [decompress, hextra, hheader, henc, okOr_some, ok_bind, if_neg hx,
    if_neg (show ¬ (headerSize < footerSize ∨ encLen < headerSize ∨ data.length < encLen) by omega),
    checkedAdd, if_pos h₄, hcopy, sub_of_le h₃, sub_of_le (show headerSize ≤ data.length by omega),
    Footer.layout, Layout.start, Nat.add_sub_cancel_left, pure_eq]

theorem footer_of_decompress {data out : Bytes} {n extraLen : ℕ} (h : decompress data n = ok out)
    (hextra : trailingU32 data 4 = some extraLen) (hx : extraLen ≠ 0) :
    ∃ footer, readFooter data = some footer ∧ footer.extraLen = extraLen ∧ footer.Fits data := by
  simp only [decompress, hextra, okOr_some, ok_bind, if_neg hx] at h
  obtain ⟨headerSize, hheader, h⟩ := bind_eq_ok.mp h
  obtain ⟨encLen, henc, h⟩ := bind_eq_ok.mp h
  rw [okOr_eq_ok] at hheader henc
  split_ifs at h with hbad
  obtain ⟨finalLen, hfinal, -⟩ := bind_eq_ok.mp h
  rw [okOr_eq_ok, checkedAdd] at hfinal
  split_ifs at hfinal with h64
  refine ⟨⟨encLen, headerSize, extraLen⟩, by simp [readFooter, hextra, hheader, henc], rfl,
    ⟨?_, ?_, ?_, h64⟩⟩ <;> simp only <;> omega

end NxObject.Blz
