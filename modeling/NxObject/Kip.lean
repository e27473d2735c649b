import NxObject.BlzDecoder
import NxObject.Codec
import NxObject.Utf8

/-!
# KIP1 images

The header and its segment descriptors, the builder that compresses three segments behind them, and
the reader that finds the segments again by summing the stored sizes before them.
-/
namespace NxObject.Kip
open Outcome

def KIP1_MAGIC : UInt32 := 0x3150494b

instance neZeroSegments : NeZero 6 := ⟨by decide⟩

structure RawSegment where
  dstAddr : UInt32
  decompSize : UInt32
  compSize : UInt32
  attributes : UInt32
  deriving DecidableEq, Repr

def RawSegment.codec : Codec RawSegment :=
  (Codec.u32.pair <| Codec.u32.pair <| Codec.u32.pair Codec.u32).iso
    { toFun := fun (dstAddr, decompSize, compSize, attributes) =>
        ⟨dstAddr, decompSize, compSize, attributes⟩
      invFun := fun s => (s.dstAddr, s.decompSize, s.compSize, s.attributes)
      left_inv := fun _ => rfl
      right_inv := fun _ => rfl }

def RawSegment.zeroed : RawSegment := ⟨0, 0, 0, 0⟩

structure Kip1Header where
  magic : UInt32
  name : List.Vector UInt8 12
  titleId : UInt64
  processCategory : UInt32
  mainThreadPriority : UInt8
  defaultCpuId : UInt8
  reserved : UInt8
  flags : UInt8
  segments : Fin 6 → RawSegment
  capabilities : List.Vector UInt8 0x80

def Kip1Header.codec : Codec Kip1Header :=
  (Codec.u32.pair <| (Codec.bytes 12).pair <| Codec.u64.pair <| Codec.u32.pair <| Codec.u8.pair <|
    Codec.u8.pair <| Codec.u8.pair <| Codec.u8.pair <| (Codec.array 6 RawSegment.codec).pair <|
    Codec.bytes 0x80).iso
    { toFun := fun (magic, name, titleId, processCategory, mainThreadPriority, defaultCpuId, reserved,
          flags, segments, capabilities) =>
        { magic, name, titleId, processCategory, mainThreadPriority, defaultCpuId, reserved, flags,
          segments, capabilities }
      invFun := fun h => (h.magic, h.name, h.titleId, h.processCategory, h.mainThreadPriority,
        h.defaultCpuId, h.reserved, h.flags, h.segments, h.capabilities)
      left_inv := fun _ => rfl
      right_inv := fun _ => rfl }

/-- `size_of::<Kip1Header>()`. -/
def headerSize : ℕ := 0x100

theorem Kip1Header.codec_size : Kip1Header.codec.size = headerSize := rfl

/-! ## The builder -/

/-- What the setters of the builder fill in; every value of this type is reached by them. -/
structure Kip1Builder where
  name : Option Text := none
  titleId : UInt64 := 0
  processCategory : UInt32 := 0
  mainThreadPriority : UInt8 := 0
  defaultCpuId : UInt8 := 0
  flags : Option UInt8 := none
  text : Option Bytes := none
  textVaddr : UInt32 := 0
  rodata : Option Bytes := none
  rodataVaddr : UInt32 := 0
  rodataAttributes : UInt32 := 0
  data : Option Bytes := none
  dataVaddr : UInt32 := 0
  bssVaddr : Option UInt32 := none
  bssSize : Option UInt32 := none
  kernelCapabilities : List UInt32 := []

inductive BuildError where
  | missingName
  | missingText
  | missingRodata
  | missingData
  | incompleteBssConfiguration (hasVaddr hasSize : Bool)
  | tooManyKernelCapabilities (count : ℕ)
  deriving DecidableEq, Repr

/-- Truncated to 11 bytes, so that the twelfth stays a terminator. -/
def nameBytes (name : Text) : Bytes :=
  let bytes := (utf8 name).take 11
  bytes ++ List.replicate (12 - bytes.length) 0

/-- The capability words, over a block of `0xFF` bytes. -/
def capabilityBytes (capabilities : List UInt32) : Outcome BuildError Bytes :=
  capabilities.zipIdx.foldlM
    (fun bytes entry => copyFromSlice bytes (entry.2 * 4) (toLe 4 entry.1.toNat))
    (List.replicate 0x80 0xFF)

/-- Both BSS parameters are set, or neither is. -/
def checkBss (bssVaddr bssSize : Option UInt32) : Outcome BuildError Unit :=
  match bssVaddr, bssSize with
  | some _, none => err (.incompleteBssConfiguration true false)
  | none, some _ => err (.incompleteBssConfiguration false true)
  | _, _ => pure ()

/-- The flags byte the builder derives when none is given: bits 0 to 5. -/
def defaultFlags : UInt8 := 0b00111111

def bssSegment (bssVaddr bssSize : Option UInt32) : RawSegment :=
  match bssVaddr, bssSize with
  | some vaddr, some size => ⟨vaddr, size, 0, 0⟩
  | _, _ => RawSegment.zeroed

def Kip1Builder.build (b : Kip1Builder) : Outcome BuildError Bytes := do
  let name ← okOr b.name .missingName
  let text ← okOr b.text .missingText
  let rodata ← okOr b.rodata .missingRodata
  let data ← okOr b.data .missingData
  checkBss b.bssVaddr b.bssSize
  ensure (b.kernelCapabilities.length ≤ 0x20)
    (.tooManyKernelCapabilities b.kernelCapabilities.length)
  let textCompressed ← Blz.compress text
  let rodataCompressed ← Blz.compress rodata
  let dataCompressed ← Blz.compress data
  let name ← exactly 12 (nameBytes name)
  let capabilities ← capabilityBytes b.kernelCapabilities >>= exactly 0x80
  let header : Kip1Header :=
    { magic := KIP1_MAGIC
      name
      titleId := b.titleId
      processCategory := b.processCategory
      mainThreadPriority := b.mainThreadPriority
      defaultCpuId := b.defaultCpuId
      reserved := 0
      flags := b.flags.getD defaultFlags
      segments :=
        ![⟨b.textVaddr, UInt32.ofNat text.length, UInt32.ofNat textCompressed.length, 0⟩,
          ⟨b.rodataVaddr, UInt32.ofNat rodata.length, UInt32.ofNat rodataCompressed.length,
            b.rodataAttributes⟩,
          ⟨b.dataVaddr, UInt32.ofNat data.length, UInt32.ofNat dataCompressed.length, 0⟩,
          bssSegment b.bssVaddr b.bssSize, RawSegment.zeroed, RawSegment.zeroed]
      capabilities }
  pure (Kip1Header.codec.enc header ++ textCompressed ++ rodataCompressed ++ dataCompressed)

/-! ## The reader -/

/-- Number of segments a KIP1 loads. -/
def loadedSegmentCount : ℕ := 4
/-- Index of the segment with no bytes in the file. -/
def bssIndex : ℕ := 3

inductive FromBytesError where
  | bufferTooSmall (required available : ℕ)
  | invalidMagic (found : UInt32)
  | segmentBoundsOverflow (segmentIndex offset size : ℕ)
  | segmentOutOfBounds (segmentIndex offset size available : ℕ)
  deriving DecidableEq, Repr

/-- Bytes segment `index` occupies in the file. -/
def storedSize (header : Kip1Header) (index : Fin 6) : ℕ :=
  if index.val = bssIndex then 0 else (header.segments index).compSize.toNat

/-- Whether segment `index` is marked packed by the header's flags. -/
def isCompressed (header : Kip1Header) (index : Fin 6) : Bool :=
  if bssIndex ≤ index.val then false else header.flags &&& (1 <<< UInt8.ofNat index.val) != 0

/-- One turn of the bounds check: the end of segment `index`, which starts at `offset`. -/
def checkSegment (header : Kip1Header) (available : ℕ) (offset : ℕ) (index : Fin 6) :
    Outcome FromBytesError ℕ := do
  let stored := storedSize header index
  let stop ← okOr (checkedAdd offset stored) (.segmentBoundsOverflow index offset stored)
  if available < stop then err (.segmentOutOfBounds index offset stored available) else pure stop

structure Kip1 where
  header : Kip1Header
  bytes : Bytes

/-- Validate `bytes` as a KIP1, proving every stored segment lies inside it. -/
def Kip1.tryFromBytes (bytes : Bytes) : Outcome FromBytesError Kip1 := do
  let header ← okOr (Kip1Header.codec.fromPrefix bytes) (.bufferTooSmall headerSize bytes.length)
  ensure (header.magic = KIP1_MAGIC) (.invalidMagic header.magic)
  let _ ← ((List.finRange 6).take loadedSegmentCount).foldlM (checkSegment header bytes.length)
    headerSize
  pure ⟨header, bytes⟩

/-- The process name, its padding trimmed; empty when it is not UTF-8. -/
def Kip1.name (kip : Kip1) : Text :=
  (fromUtf8 (kip.header.name.toList.takeWhile (· != 0))).getD []

structure Kip1Segment where
  index : Fin 6
  descriptor : RawSegment
  compressed : Bool
  stored : Bytes

/-- Where segment `index` starts: behind the header and the segments before it. -/
def segmentOffset (header : Kip1Header) (index : Fin 6) : ℕ :=
  ((List.finRange 6).take index).foldl (fun offset before => offset + storedSize header before)
    headerSize

/-- The segment at `index`, or nothing for a descriptor a KIP1 leaves unused. -/
def Kip1.segment {ε : Type} (kip : Kip1) (index : ℕ) : Outcome ε (Option Kip1Segment) :=
  if h : index < loadedSegmentCount then do
    let i : Fin 6 := ⟨index, lt_trans h (by decide)⟩
    let offset := segmentOffset kip.header i
    let stored ← slice kip.bytes offset (offset + storedSize kip.header i)
    pure (some ⟨i, kip.header.segments i, isCompressed kip.header i, stored⟩)
  else pure none

def Kip1.segments {ε : Type} (kip : Kip1) : Outcome ε (List Kip1Segment) := do
  let found ← (List.range loadedSegmentCount).mapM kip.segment
  pure (found.filterMap id)

structure DecompressError where
  segmentIndex : ℕ
  source : Blz.DecompressError
  deriving DecidableEq, Repr

/-- The segment's bytes, expanded if the header marks it packed. -/
def Kip1Segment.decompress (segment : Kip1Segment) : Outcome DecompressError Bytes :=
  if ¬ segment.compressed then pure segment.stored
  else mapErr (⟨segment.index, ·⟩)
    (Blz.decompress segment.stored segment.descriptor.decompSize.toNat)

end NxObject.Kip
