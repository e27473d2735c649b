import NxObject.BlzEncoder

/-!
# The BLZ decoder

`decompress` and what it calls, over the one buffer it reads packed bytes from and writes output
into. The states its loops go through at code boundaries are the relation `Reaches`; a run whose
reached states can all take their next step ends, in a reached state with nothing left to read.
-/
namespace NxObject.Blz
open Outcome

inductive DecompressError where
  | bufferTooSmall (required available : ℕ)
  | malformedTrailer (encLen headerSize available : ℕ)
  | truncatedCode (offset : ℕ)
  | outputUnderflow
  | unexpectedLength (expected produced : ℕ)
  | matchOutOfBounds (dst distance : ℕ)
  deriving DecidableEq, Repr

/-- The little-endian `u32` sitting `back` bytes from the end of `data`. -/
def trailingU32 (data : Bytes) (back : ℕ) : Option ℕ := do
  let start ← checkedSub data.length back
  if start + 4 ≤ data.length then pure (ofLe (sliceAt data start 4)) else none

def copyLiteral (out : Bytes) (cmp dst : ℕ) : Outcome DecompressError (Bytes × ℕ) := do
  let dst ← okOr (checkedSub dst 1) .outputUnderflow
  let b ← index out cmp
  let out ← write out dst b
  pure (out, dst)

/-- Copy bytes from `distance` ahead of the output cursor, one byte at a time. -/
def copyMatch (distance : ℕ) : ℕ → Bytes → ℕ → Outcome DecompressError (Bytes × ℕ)
  | 0, out, dst => pure (out, dst)
  | length + 1, out, dst => do
      let dst ← okOr (checkedSub dst 1) .outputUnderflow
      let source ← okOr ((checkedAdd dst distance).filter (· < out.length))
        (.matchOutOfBounds dst distance)
      let b ← index out source
      let out ← write out dst b
      copyMatch distance length out dst

/-- The buffer, the read cursor and the output cursor; both cursors walk down. -/
structure Cursor where
  out : Bytes
  cmp : ℕ
  dst : ℕ
  deriving DecidableEq, Repr

/-- The body of the `for` loop: one code, chosen by the top bit of `flags`. -/
def decodeCode (packedStart : ℕ) (flags : UInt8) (s : Cursor) : Outcome DecompressError Cursor :=
  if flags &&& flagMaskInit = 0 then do
    let cmp ← sub s.cmp 1
    let (out, dst) ← copyLiteral s.out cmp s.dst
    pure ⟨out, cmp, dst⟩
  else do
    let unread ← sub s.cmp packedStart
    if unread < 2 then err (.truncatedCode s.cmp) else
      let first ← sub s.cmp 1 >>= index s.out
      let cmp ← sub s.cmp 2
      let second ← index s.out cmp
      let (out, dst) ← copyMatch (refDistance first second) (refLength first) s.out s.dst
      pure ⟨out, cmp, dst⟩

/-- `for _ in 0..8`, left as soon as the packed region is used up. -/
def decodeGroup (packedStart : ℕ) : ℕ → UInt8 → Cursor → Outcome DecompressError Cursor
  | 0, _, s => pure s
  | left + 1, flags, s =>
      if s.cmp ≤ packedStart then pure s else do
        let s ← decodeCode packedStart flags s
        decodeGroup packedStart left (flags <<< flagShift) s

/-- `while cmp > packed_start`; every turn reads at least one byte. -/
def decodeLoop (packedStart : ℕ) : ℕ → Cursor → Outcome DecompressError Cursor
  | 0, s => if packedStart < s.cmp then running else pure s
  | fuel + 1, s =>
      if packedStart < s.cmp then do
        let cmp ← sub s.cmp 1
        let flags ← index s.out cmp
        let s ← decodeGroup packedStart 8 flags { s with cmp }
        decodeLoop packedStart fuel s
      else pure s

/-- Decompress a BLZ stream into `decompressedSize` bytes. -/
def decompress (data : Bytes) (decompressedSize : ℕ) : Outcome DecompressError Bytes := do
  let extraLen ← okOr (trailingU32 data 4) (.bufferTooSmall 4 data.length)
  -- a zero here is what marks a stored stream
  if extraLen = 0 then do
    let stored ← sub data.length 4 >>= slice data 0
    if decompressedSize ≤ stored.length then pure (stored.take decompressedSize)
    else err (.unexpectedLength decompressedSize stored.length)
  else do
    let headerSize ← okOr (trailingU32 data 8) (.bufferTooSmall footerSize data.length)
    let encLen ← okOr (trailingU32 data footerSize) (.bufferTooSmall footerSize data.length)
    let total := data.length
    if headerSize < footerSize ∨ encLen < headerSize ∨ total < encLen then
      err (.malformedTrailer encLen headerSize total)
    else do
      let finalLen ← okOr (checkedAdd total extraLen) (.malformedTrailer encLen headerSize total)
      let out ← copyFromSlice (List.replicate finalLen 0) 0 data
      let packedStart ← sub total encLen
      let cmp ← sub total headerSize
      let s ← decodeLoop packedStart cmp ⟨out, cmp, finalLen⟩
      if s.out.length ≠ decompressedSize then
        err (.unexpectedLength decompressedSize s.out.length)
      else pure s.out

/-- The states the loops go through from `s₀`: before a flag byte is read (`left = 0`), and before
each of the codes it announces, with the bits and the number of codes still to come. -/
inductive Reaches (packedStart : ℕ) (s₀ : Cursor) : UInt8 → ℕ → Cursor → Prop
  | start : Reaches packedStart s₀ 0 0 s₀
  | flag {flags flags' : UInt8} {s : Cursor} : Reaches packedStart s₀ flags 0 s →
      packedStart < s.cmp → s.out[s.cmp - 1]? = some flags' →
      Reaches packedStart s₀ flags' 8 { s with cmp := s.cmp - 1 }
  | code {flags : UInt8} {left : ℕ} {s s' : Cursor} : Reaches packedStart s₀ flags (left + 1) s →
      packedStart < s.cmp → decodeCode packedStart flags s = ok s' →
      Reaches packedStart s₀ (flags <<< flagShift) left s'

section Loops
variable {packedStart : ℕ} {s₀ : Cursor}

lemma decodeCode_cmp_lt {flags : UInt8} {s s' : Cursor} (hs : 0 < s.cmp)
    (h : decodeCode packedStart flags s = ok s') : s'.cmp < s.cmp := by
  unfold decodeCode at h
  split_ifs at h
  · obtain ⟨cmp, hcmp, h⟩ := bind_eq_ok.mp h
    obtain ⟨r, _, h⟩ := bind_eq_ok.mp h
    rw [sub_of_le (show 1 ≤ s.cmp from hs)] at hcmp
    cases hcmp
    cases h
    exact Nat.sub_lt hs Nat.one_pos
  · obtain ⟨unread, _, h⟩ := bind_eq_ok.mp h
    split_ifs at h
    obtain ⟨first, _, h⟩ := bind_eq_ok.mp h
    obtain ⟨cmp, hcmp, h⟩ := bind_eq_ok.mp h
    obtain ⟨second, _, h⟩ := bind_eq_ok.mp h
    obtain ⟨r, _, h⟩ := bind_eq_ok.mp h
    unfold sub at hcmp
    split_ifs at hcmp
    cases hcmp
    cases h
    exact Nat.sub_lt hs Nat.two_pos

lemma write_length {ε α : Type} {xs ys : List α} {i : ℕ} {a : α}
    (h : (write xs i a : Outcome ε (List α)) = ok ys) : ys.length = xs.length := by
  unfold write at h
  split_ifs at h
  cases h
  exact List.length_set

lemma copyMatch_length {distance : ℕ} (n : ℕ) {out : Bytes} {dst : ℕ} {r : Bytes × ℕ}
    (h : copyMatch distance n out dst = ok r) : r.1.length = out.length := by
  induction n generalizing out dst with
  | zero =>
    cases h
    rfl
  | succ n ih =>
    obtain ⟨_, _, h⟩ := bind_eq_ok.mp h
    obtain ⟨_, _, h⟩ := bind_eq_ok.mp h
    obtain ⟨_, _, h⟩ := bind_eq_ok.mp h
    obtain ⟨out', hwrite, h⟩ := bind_eq_ok.mp h
    rw [ih h, write_length hwrite]

lemma decodeCode_length {flags : UInt8} {s s' : Cursor}
    (h : decodeCode packedStart flags s = ok s') : s'.out.length = s.out.length := by
  unfold decodeCode at h
  split_ifs at h
  · obtain ⟨_, _, h⟩ := bind_eq_ok.mp h
    obtain ⟨r, hcopy, h⟩ := bind_eq_ok.mp h
    obtain ⟨_, _, hcopy⟩ := bind_eq_ok.mp hcopy
    obtain ⟨_, _, hcopy⟩ := bind_eq_ok.mp hcopy
    obtain ⟨out', hwrite, hcopy⟩ := bind_eq_ok.mp hcopy
    cases hcopy
    cases h
    exact write_length hwrite
  · obtain ⟨_, _, h⟩ := bind_eq_ok.mp h
    split_ifs at h
    obtain ⟨_, _, h⟩ := bind_eq_ok.mp h
    obtain ⟨_, _, h⟩ := bind_eq_ok.mp h
    obtain ⟨_, _, h⟩ := bind_eq_ok.mp h
    obtain ⟨r, hcopy, h⟩ := bind_eq_ok.mp h
    cases h
    exact copyMatch_length _ hcopy

lemma Reaches.out_length {flags : UInt8} {left : ℕ} {s : Cursor}
    (h : Reaches packedStart s₀ flags left s) : s.out.length = s₀.out.length := by
  induction h with
  | start => rfl
  | flag _ _ _ ih => exact ih
  | code _ _ hcode ih => rw [decodeCode_length hcode, ih]

lemma decodeGroup_reaches {flags : UInt8} {left : ℕ} {s s' : Cursor}
    (hr : Reaches packedStart s₀ flags left s) (h : decodeGroup packedStart left flags s = ok s') :
    ∃ flags' left', Reaches packedStart s₀ flags' left' s' ∧ (left' = 0 ∨ s'.cmp ≤ packedStart) := by
  induction left generalizing flags s with
  | zero =>
    cases h
    exact ⟨flags, 0, hr, Or.inl rfl⟩
  | succ left ih =>
    rw [decodeGroup] at h
    split_ifs at h with hstop
    · cases h
      exact ⟨flags, left + 1, hr, Or.inr hstop⟩
    · obtain ⟨s₁, hcode, hgroup⟩ := bind_eq_ok.mp h
      exact ih (hr.code (by omega) hcode) hgroup

/-- A successful run ends in a reached state, with the packed region used up. -/
theorem decodeLoop_reaches (fuel : ℕ) {flags : UInt8} {left : ℕ} {s s' : Cursor}
    (hr : Reaches packedStart s₀ flags left s) (hleft : left = 0 ∨ s.cmp ≤ packedStart)
    (h : decodeLoop packedStart fuel s = ok s') :
    ∃ flags' left', Reaches packedStart s₀ flags' left' s' ∧ s'.cmp ≤ packedStart := by
  induction fuel generalizing flags left s with
  | zero =>
    rw [decodeLoop] at h
    split_ifs at h with hgo
    cases h
    exact ⟨flags, left, hr, Nat.le_of_not_lt hgo⟩
  | succ fuel ih =>
    rw [decodeLoop] at h
    split_ifs at h with hgo
    · obtain rfl : left = 0 := hleft.resolve_right (by omega)
      rw [sub_of_le (show 1 ≤ s.cmp by omega), ok_bind] at h
      obtain ⟨flags', hflags, h⟩ := bind_eq_ok.mp h
      obtain ⟨s₁, hgroup, hloop⟩ := bind_eq_ok.mp h
      obtain ⟨f₁, l₁, hr₁, hl₁⟩ :=
        decodeGroup_reaches (hr.flag hgo (index_eq_ok.mp hflags)) hgroup
      exact ih hr₁ hl₁ hloop
    · cases h
      exact ⟨flags, left, hr, Nat.le_of_not_lt hgo⟩

/-- No reached state with packed bytes left is stuck. -/
structure Live (packedStart : ℕ) (s₀ : Cursor) : Prop where
  flag : ∀ flags s, Reaches packedStart s₀ flags 0 s → packedStart < s.cmp →
    ∃ flags', s.out[s.cmp - 1]? = some flags'
  code : ∀ flags left s, Reaches packedStart s₀ flags (left + 1) s → packedStart < s.cmp →
    ∃ s', decodeCode packedStart flags s = ok s'

lemma Live.decodeGroup (hlive : Live packedStart s₀) {flags : UInt8} {left : ℕ} {s : Cursor}
    (hr : Reaches packedStart s₀ flags left s) :
    ∃ s', decodeGroup packedStart left flags s = ok s' ∧ s'.cmp ≤ s.cmp := by
  induction left generalizing flags s with
  | zero => exact ⟨s, rfl, le_rfl⟩
  | succ left ih =>
    by_cases hstop : s.cmp ≤ packedStart
    · exact ⟨s, by simp [Blz.decodeGroup, hstop], le_rfl⟩
    · obtain ⟨s₁, hcode⟩ := hlive.code flags left s hr (by omega)
      obtain ⟨s', hgroup, hle⟩ := ih (hr.code (by omega) hcode)
      have hlt := decodeCode_cmp_lt (by omega) hcode
      refine ⟨s', ?_, by omega⟩
      simp only [Blz.decodeGroup, if_neg hstop, hcode, ok_bind, hgroup]

theorem Live.decodeLoop (hlive : Live packedStart s₀) (fuel : ℕ) {flags : UInt8} {left : ℕ}
    {s : Cursor} (hr : Reaches packedStart s₀ flags left s)
    (hleft : left = 0 ∨ s.cmp ≤ packedStart) (hfuel : s.cmp ≤ packedStart + fuel) :
    ∃ s', decodeLoop packedStart fuel s = ok s' := by
  induction fuel generalizing flags left s with
  | zero => exact ⟨s, by simp only [Blz.decodeLoop, if_neg (show ¬ packedStart < s.cmp by omega), pure_eq]⟩
  | succ fuel ih =>
    by_cases hgo : packedStart < s.cmp
    · obtain rfl : left = 0 := hleft.resolve_right (by omega)
      obtain ⟨flags', hflags⟩ := hlive.flag flags s hr hgo
      have hr' := hr.flag hgo hflags
      obtain ⟨s₁, hgroup, hle⟩ := hlive.decodeGroup hr'
      obtain ⟨f₁, l₁, hr₁, hl₁⟩ := decodeGroup_reaches hr' hgroup
      obtain ⟨s', hloop⟩ := ih hr₁ hl₁ (by change s₁.cmp ≤ s.cmp - 1 at hle; omega)
      refine ⟨s', ?_⟩
      simp only [Blz.decodeLoop, if_pos hgo, sub_of_le (show 1 ≤ s.cmp by omega),
        index_of_getElem? hflags, ok_bind, hgroup, hloop]
    · exact ⟨s, by simp only [Blz.decodeLoop, if_neg hgo, pure_eq]⟩

end Loops

end NxObject.Blz
