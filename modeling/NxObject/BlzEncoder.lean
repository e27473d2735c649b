import NxObject.BlzStream

/-!
# The BLZ encoder

`compress` and what it calls, over an output buffer that every write is checked against. The encoder
walks the reversed input, keeps the split point where packed plus still-raw bytes are fewest, and
lays the stream out as a raw prefix, the packed bytes reversed, and a trailer.
-/
namespace NxObject.Blz
open Outcome
variable {ε : Type}

structure Footer where
  encLen : ℕ
  headerSize : ℕ
  extraLen : ℕ

def footerSize : ℕ := 12

def Footer.asBytes (footer : Footer) : Bytes :=
  toLe 4 footer.encLen ++ toLe 4 footer.headerSize ++ toLe 4 footer.extraLen

/-- Upper bound on the compressed size for `rawLen` input bytes. -/
def worstCaseLen (rawLen : ℕ) : ℕ := rawLen + (rawLen + 7) / 8 + 15

structure Encoder where
  output : Bytes
  mask : UInt8
  readPos : ℕ
  writePos : ℕ
  flagPos : ℕ
  bestPacked : ℕ
  bestRemaining : ℕ

/-- Move to the next flag bit, opening a fresh flag byte when the last one is used up. -/
def openFlag (s : Encoder) : Outcome ε Encoder :=
  let mask := s.mask >>> flagShift
  if mask = 0 then do
    let output ← write s.output s.writePos 0
    pure { s with
      output, mask := flagMaskInit, flagPos := s.writePos, writePos := s.writePos + 1 }
  else pure { s with mask }

/-- Lazy matching: a match is given up for a literal when deferring it by one byte packs better. -/
def lazyLength (finder : MatchFinder) (len readPos matchLen : ℕ) : Outcome ε ℕ :=
  if matchThreshold < matchLen ∧ readPos + matchLen < len then do
    let (nextLen, _) ← finder.longestMatch (readPos + matchLen)
    let back ← sub (readPos + matchLen) (matchLen - 1)
    let (postLen, _) ← finder.longestMatch back
    let nextLen := if nextLen ≤ matchThreshold then 1 else nextLen
    let postLen := if postLen ≤ matchThreshold then 1 else postLen
    pure (if matchLen + nextLen ≤ 1 + postLen then 1 else matchLen)
  else pure matchLen

/-- Make room for the code's flag bit, then write the code. -/
def emitCode (input : Bytes) (s : Encoder) (matchLen matchOffset : ℕ) : Outcome ε Encoder := do
  let flags ← index s.output s.flagPos
  let output ← write s.output s.flagPos (flags <<< 1)
  if matchThreshold < matchLen then do
    let flags ← index output s.flagPos
    let output ← write output s.flagPos (flags ||| 1)
    let length ← sub matchLen (matchThreshold + 1)
    let distance ← sub matchOffset 3
    let output ← write output s.writePos (refBytes length distance).1
    let output ← write output (s.writePos + 1) (refBytes length distance).2
    pure { s with output, readPos := s.readPos + matchLen, writePos := s.writePos + 2 }
  else do
    let b ← index input s.readPos
    let output ← write output s.writePos b
    pure { s with output, readPos := s.readPos + 1, writePos := s.writePos + 1 }

/-- Track the split point where packed bytes plus still-raw bytes are fewest. -/
def trackBest (len : ℕ) (s : Encoder) : Outcome ε Encoder := do
  let total ← sub (s.writePos + len) s.readPos
  if total < s.bestPacked + s.bestRemaining then do
    let remaining ← sub len s.readPos
    pure { s with bestPacked := s.writePos, bestRemaining := remaining }
  else pure s

def encodeStep (finder : MatchFinder) (input : Bytes) (s : Encoder) : Outcome ε Encoder := do
  let s ← openFlag s
  let (matchLen, matchOffset) ← finder.longestMatch s.readPos
  let matchLen ← lazyLength finder input.length s.readPos matchLen
  let s ← emitCode input s matchLen matchOffset
  trackBest input.length s

/-- `while read_pos < len`; every turn reads at least one byte. -/
def encodeLoop (finder : MatchFinder) (input : Bytes) : ℕ → Encoder → Outcome ε Encoder
  | 0, s => if s.readPos < input.length then running else pure s
  | fuel + 1, s =>
      if s.readPos < input.length then do
        let s ← encodeStep finder input s
        encodeLoop finder input fuel s
      else pure s

/-- Flush the trailing flag byte by shifting out its unused bits. -/
def flushFlag : ℕ → Encoder → Outcome ε Encoder
  | 0, s => if s.mask ≠ 0 ∧ s.mask ≠ 1 then running else pure s
  | fuel + 1, s =>
      if s.mask ≠ 0 ∧ s.mask ≠ 1 then do
        let flags ← index s.output s.flagPos
        let output ← write s.output s.flagPos (flags <<< 1)
        flushFlag fuel { s with output, mask := s.mask >>> flagShift }
      else pure s

/-- `usize::wrapping_neg`, on 64 bits. -/
def wrappingNeg (n : ℕ) : ℕ := (2 ^ 64 - n % 2 ^ 64) % 2 ^ 64

/-- Size of the trailer for a packed region ending at `packedEnd`, alignment padding included. -/
def packedHeaderSize (packedEnd : ℕ) : ℕ := footerSize + (wrappingNeg packedEnd &&& 3)

/-- `while pos & 3 != 0`: pad up to a 4-byte boundary. -/
def padTo4 (b : UInt8) : ℕ → Bytes → ℕ → Outcome ε (Bytes × ℕ)
  | 0, output, pos => if pos &&& 3 ≠ 0 then running else pure (output, pos)
  | fuel + 1, output, pos =>
      if pos &&& 3 ≠ 0 then do
        let output ← write output pos b
        padTo4 b fuel output (pos + 1)
      else pure (output, pos)

/-- Emit `input` verbatim with a zero trailer marking the data as stored. -/
def storeUncompressed (input output : Bytes) : Outcome ε (Bytes × ℕ) := do
  let output ← copyFromSlice output 0 input
  let (output, pos) ← padTo4 0 4 output input.length
  let output ← copyFromSlice output pos (toLe 4 0)
  pure (output, pos + 4)

/-- The forward copy that moves the first `n` packed bytes behind the raw prefix. -/
def relocate (remaining packedStart : ℕ) : ℕ → Bytes → Outcome ε Bytes
  | 0, output => pure output
  | n + 1, output => do
      let output ← relocate remaining packedStart n output
      let b ← index output (packedStart + n)
      write output (remaining + n) b

/-- Assemble the final stream: a raw prefix, the packed region relocated behind it, a trailer. -/
def storePacked (input output : Bytes) (packedLen bestPacked remaining : ℕ) :
    Outcome ε (Bytes × ℕ) := do
  let packedStart ← sub packedLen bestPacked
  let output ← relocate remaining packedStart bestPacked output
  let raw ← slice input 0 remaining
  let output ← copyFromSlice output 0 raw
  let headerSize := packedHeaderSize (remaining + bestPacked)
  let unpacked ← sub input.length bestPacked
  let incLen ← sub unpacked remaining
  let (output, pos) ← padTo4 0xFF 4 output (remaining + bestPacked)
  let extraLen ← sub incLen headerSize
  let footer : Footer := ⟨bestPacked + headerSize, headerSize, extraLen⟩
  let output ← copyFromSlice output pos footer.asBytes
  pure (output, pos + footerSize)

/-- Encode `input` into `output`, returning the buffer and the number of bytes written. -/
def compressInto (input output : Bytes) : Outcome ε (Bytes × ℕ) := do
  let reversed := input.reverse
  let len := reversed.length
  let finder ← MatchFinder.new reversed
  let s ← encodeLoop finder reversed len ⟨output, 0, 0, 0, 0, 0, len⟩
  let s ← flushFlag 8 s
  let packed ← slice s.output 0 s.writePos
  let output ← copyFromSlice s.output 0 packed.reverse
  let unpacked ← sub len s.bestPacked
  let saved ← sub unpacked s.bestRemaining
  if s.bestPacked = 0 ∨ ¬ packedHeaderSize (s.bestRemaining + s.bestPacked) < saved ∨
      len + 4 < ((s.bestPacked + s.bestRemaining + 3) &&& 0xFFFFFFFC) + 8 then
    storeUncompressed input output
  else storePacked input output s.writePos s.bestPacked s.bestRemaining

/-- Compress `data` with the BLZ algorithm. -/
def compress (data : Bytes) : Outcome ε Bytes := do
  let (output, len) ← compressInto data (List.replicate (worstCaseLen data.length) 0)
  pure (output.take len)

end NxObject.Blz
