import NxObject.Buffer
import NxObject.Lz4Block

/-!
# The NSO image

A header and three segments, stored packed or plain. The size of a segment in memory, its size in the file,
its hash and its compression bit are recorded in separate fields. The packer and the hash function are
parameters.
-/
namespace NxObject.Executable
open Outcome

/-! ## The format -/

def NSO_MAGIC : UInt32 := 0x304f534e

def TEXT_COMPRESS : UInt32 := (1 : UInt32) <<< 0
def RODATA_COMPRESS : UInt32 := (1 : UInt32) <<< 1
def DATA_COMPRESS : UInt32 := (1 : UInt32) <<< 2
def TEXT_HASH : UInt32 := (1 : UInt32) <<< 3
def RODATA_HASH : UInt32 := (1 : UInt32) <<< 4
def DATA_HASH : UInt32 := (1 : UInt32) <<< 5

structure NsoSegmentHeader where
  fileOffset : UInt32
  memoryOffset : UInt32
  size : UInt32
  deriving DecidableEq, Repr

def NsoSegmentHeader.codec : Codec NsoSegmentHeader :=
  (Codec.u32.pair <| Codec.u32.pair Codec.u32).iso
    { toFun := fun (fileOffset, memoryOffset, size) => { fileOffset, memoryOffset, size }
      invFun := fun s => (s.fileOffset, s.memoryOffset, s.size)
      left_inv := fun _ => rfl
      right_inv := fun _ => rfl }

abbrev Digest := List.Vector UInt8 0x20

structure NsoHeader where
  magic : UInt32
  version : UInt32
  reserved : UInt32
  flags : UInt32
  text : NsoSegmentHeader
  moduleNameOffset : UInt32
  rodata : NsoSegmentHeader
  moduleNameSize : UInt32
  data : NsoSegmentHeader
  bssSize : UInt32
  moduleId : List.Vector UInt8 0x20
  textFileSize : UInt32
  rodataFileSize : UInt32
  dataFileSize : UInt32
  reserved2 : List.Vector UInt8 0x1C
  embeddedOffset : UInt32
  embeddedSize : UInt32
  dynstrOffset : UInt32
  dynstrSize : UInt32
  dynsymOffset : UInt32
  dynsymSize : UInt32
  textHash : Digest
  rodataHash : Digest
  dataHash : Digest
  deriving DecidableEq

def NsoHeader.codec : Codec NsoHeader :=
  (Codec.u32.pair <| Codec.u32.pair <| Codec.u32.pair <| Codec.u32.pair <| NsoSegmentHeader.codec.pair <|
    Codec.u32.pair <| NsoSegmentHeader.codec.pair <| Codec.u32.pair <| NsoSegmentHeader.codec.pair <|
    Codec.u32.pair <| (Codec.bytes 0x20).pair <| Codec.u32.pair <| Codec.u32.pair <| Codec.u32.pair <|
    (Codec.bytes 0x1C).pair <| Codec.u32.pair <| Codec.u32.pair <| Codec.u32.pair <| Codec.u32.pair <|
    Codec.u32.pair <| Codec.u32.pair <| (Codec.bytes 0x20).pair <| (Codec.bytes 0x20).pair <|
    Codec.bytes 0x20).iso
    { toFun := fun (magic, version, reserved, flags, text, moduleNameOffset, rodata, moduleNameSize, data,
          bssSize, moduleId, textFileSize, rodataFileSize, dataFileSize, reserved2, embeddedOffset,
          embeddedSize, dynstrOffset, dynstrSize, dynsymOffset, dynsymSize, textHash, rodataHash,
          dataHash) =>
        { magic, version, reserved, flags, text, moduleNameOffset, rodata, moduleNameSize, data, bssSize,
          moduleId, textFileSize, rodataFileSize, dataFileSize, reserved2, embeddedOffset, embeddedSize,
          dynstrOffset, dynstrSize, dynsymOffset, dynsymSize, textHash, rodataHash, dataHash }
      invFun := fun h => (h.magic, h.version, h.reserved, h.flags, h.text, h.moduleNameOffset, h.rodata,
        h.moduleNameSize, h.data, h.bssSize, h.moduleId, h.textFileSize, h.rodataFileSize, h.dataFileSize,
        h.reserved2, h.embeddedOffset, h.embeddedSize, h.dynstrOffset, h.dynstrSize, h.dynsymOffset,
        h.dynsymSize, h.textHash, h.rodataHash, h.dataHash)
      left_inv := fun _ => rfl
      right_inv := fun _ => rfl }

theorem NsoHeader.codec_size : NsoHeader.codec.size = 0x100 := rfl

/-! ## The packer -/

/-- A block compressor. A block does not carry the size it expands to, which is given to `decompress`. -/
structure Packer (δ : Type) where
  compress : Bytes → Bytes
  decompress : Bytes → ℕ → Except δ Bytes

/-- What was packed is found again by its size. -/
def Packer.Lossless {δ : Type} (lz4 : Packer δ) : Prop :=
  ∀ bytes, lz4.decompress (lz4.compress bytes) bytes.length = .ok bytes

/-- The decoder expands the LZ4 blocks that stand for no more bytes than it was asked for. -/
def Packer.ExpandsBlocks {δ : Type} (lz4 : Packer δ) : Prop :=
  ∀ block n v, lz4.decompress block n = .ok v ↔ Lz4.decode block = some v ∧ v.length ≤ n

/-! ## The builder -/

/-- What the setters of the builder fill in; every value of this type is reached by them. -/
structure NsoBuilder where
  text : Option Bytes := none
  textVaddr : UInt32 := 0
  rodata : Option Bytes := none
  rodataVaddr : UInt32 := 0
  data : Option Bytes := none
  dataVaddr : UInt32 := 0
  bssSize : UInt32 := 0
  moduleId : Option (List.Vector UInt8 0x20) := none
  compress : Bool := true
  deriving DecidableEq

inductive BuildError where
  | missingText
  | missingRodata
  | missingData
  deriving DecidableEq, Repr

/-- Each compression bit is written to match; the hashes are always included. -/
def nsoFlags (textCompressed rodataCompressed dataCompressed : Bool) : UInt32 :=
  let flags : UInt32 := 0
  let flags := if textCompressed then flags ||| TEXT_COMPRESS else flags
  let flags := if rodataCompressed then flags ||| RODATA_COMPRESS else flags
  let flags := if dataCompressed then flags ||| DATA_COMPRESS else flags
  flags ||| (TEXT_HASH ||| RODATA_HASH ||| DATA_HASH)

def NsoBuilder.build {δ : Type} (lz4 : Packer δ) (sha256 : Bytes → Digest) (b : NsoBuilder) :
    Outcome BuildError Bytes := do
  let text ← okOr b.text .missingText
  let rodata ← okOr b.rodata .missingRodata
  let data ← okOr b.data .missingData
  let textPadded ← padToAlignment text 0x1000
  let rodataPadded ← padToAlignment rodata 0x1000
  let dataPadded ← padToAlignment data 0x1000
  let textHash := sha256 textPadded
  let rodataHash := sha256 rodataPadded
  let dataHash := sha256 dataPadded
  let (textData, textCompressed, rodataData, rodataCompressed, dataData, dataCompressed) :=
    if b.compress then
      (lz4.compress textPadded, true, lz4.compress rodataPadded, true, lz4.compress dataPadded, true)
    else (textPadded, false, rodataPadded, false, dataPadded, false)
  let flags := nsoFlags textCompressed rodataCompressed dataCompressed
  let textOffset := 0x100
  let rodataOffset ← add32 textOffset (textData.length % 2 ^ 32)
  let dataOffset ← add32 rodataOffset (rodataData.length % 2 ^ 32)
  let header : NsoHeader :=
    { magic := NSO_MAGIC
      version := 0
      reserved := 0
      flags
      text := ⟨UInt32.ofNat textOffset, b.textVaddr, UInt32.ofNat textPadded.length⟩
      moduleNameOffset := 1
      rodata := ⟨UInt32.ofNat rodataOffset, b.rodataVaddr, UInt32.ofNat rodataPadded.length⟩
      moduleNameSize := 1
      data := ⟨UInt32.ofNat dataOffset, b.dataVaddr, UInt32.ofNat dataPadded.length⟩
      bssSize := b.bssSize
      moduleId := b.moduleId.getD (List.Vector.replicate 0x20 0)
      textFileSize := UInt32.ofNat textData.length
      rodataFileSize := UInt32.ofNat rodataData.length
      dataFileSize := UInt32.ofNat dataData.length
      reserved2 := List.Vector.replicate 0x1C 0
      embeddedOffset := 0
      embeddedSize := 0
      dynstrOffset := 0
      dynstrSize := 0
      dynsymOffset := 0
      dynsymSize := 0
      textHash
      rodataHash
      dataHash }
  withCapacity (0x100 + textData.length + rodataData.length + dataData.length)
  pure (NsoHeader.codec.enc header ++ textData ++ rodataData ++ dataData)

/-! ## The reader -/

inductive FromBytesError where
  | bufferTooSmall (required available : ℕ)
  | invalidMagic (found : UInt32)
  | segmentOutOfBounds (sect : String) (offset size bufferLen : ℕ)
  deriving DecidableEq, Repr

def validateSegmentBounds (bufferLen : ℕ) (segmentName : String) (offset size : UInt32) :
    Outcome FromBytesError Unit := do
  let stop ← okOr (checkedAdd offset.toNat size.toNat)
    (.segmentOutOfBounds segmentName offset.toNat size.toNat bufferLen)
  ensure (stop ≤ bufferLen) (.segmentOutOfBounds segmentName offset.toNat size.toNat bufferLen)

structure Nso where
  bytes : Bytes
  header : NsoHeader
  deriving DecidableEq

/-- Validate `bytes` as an NSO, proving each stored segment lies inside the buffer. -/
def Nso.tryFromBytes (bytes : Bytes) : Outcome FromBytesError Nso := do
  ensure (0x100 ≤ bytes.length) (.bufferTooSmall 0x100 bytes.length)
  let header ← okOr (NsoHeader.codec.fromPrefix bytes) (.bufferTooSmall 0x100 bytes.length)
  ensure (header.magic = NSO_MAGIC) (.invalidMagic header.magic)
  validateSegmentBounds bytes.length "text" header.text.fileOffset header.textFileSize
  validateSegmentBounds bytes.length "rodata" header.rodata.fileOffset header.rodataFileSize
  validateSegmentBounds bytes.length "data" header.data.fileOffset header.dataFileSize
  pure ⟨bytes, header⟩

inductive Segment where
  | text
  | roData
  | data
  deriving DecidableEq, Repr

structure DecompressError (δ : Type) where
  segment : Segment
  source : δ
  deriving DecidableEq, Repr

namespace Nso
variable {ε δ : Type} (lz4 : Packer δ) (nso : Nso)

/-- `NsoFlags::from_bits_truncate`: the bits that are not known are dropped. -/
def flags : UInt32 := nso.header.flags &&& 0b111111

def stored (segment : NsoSegmentHeader) (fileSize : UInt32) : Outcome ε Bytes :=
  slice nso.bytes segment.fileOffset.toNat (segment.fileOffset.toNat + fileSize.toNat)

def textCompressed : Outcome ε Bytes := nso.stored nso.header.text nso.header.textFileSize

def rodataCompressed : Outcome ε Bytes := nso.stored nso.header.rodata nso.header.rodataFileSize

def dataCompressed : Outcome ε Bytes := nso.stored nso.header.data nso.header.dataFileSize

/-- Expand what is stored when the flag is set, or copy it when it is not. -/
def decompress (segment : Segment) (stored : Bytes) (decompressedSize : ℕ) (flag : UInt32) :
    Outcome (DecompressError δ) Bytes :=
  if nso.flags &&& flag ≠ flag then pure stored
  else mapErr (⟨segment, ·⟩) (ofExcept (lz4.decompress stored decompressedSize))

def text : Outcome (DecompressError δ) Bytes := do
  let stored ← nso.textCompressed
  nso.decompress lz4 .text stored nso.header.text.size.toNat TEXT_COMPRESS

def rodata : Outcome (DecompressError δ) Bytes := do
  let stored ← nso.rodataCompressed
  nso.decompress lz4 .roData stored nso.header.rodata.size.toNat RODATA_COMPRESS

def data : Outcome (DecompressError δ) Bytes := do
  let stored ← nso.dataCompressed
  nso.decompress lz4 .data stored nso.header.data.size.toNat DATA_COMPRESS

end Nso
end NxObject.Executable
