import NxObject.CounterMode
import NxObject.NcaFormat
import NxObject.Outcome

/-!
# The NCA reader

The reader takes a decrypted image. Every section is proven to lie inside the buffer, and the data
region its superblock points at to lie inside the section, before any of them is handed out.
-/
namespace NxObject.Archive
open Outcome

inductive FromBytesError where
  | bufferTooSmall (required available : ℕ)
  | invalidMagic (found : UInt32)
  | unknownContentType (found : UInt8)
  | unknownHashType (sectionIndex : ℕ) (found : UInt8)
  | unknownCryptType (sectionIndex : ℕ) (found : UInt8)
  | sectionBoundsInvalid (sectionIndex start stop : ℕ)
  | sectionOutOfBounds (sectionIndex start stop available : ℕ)
  | superblockUnreadable (sectionIndex : ℕ)
  | ivfcLevelCountInvalid (sectionIndex : ℕ) (levelCount : UInt32)
  | dataRegionOutOfBounds (sectionIndex offset size available : ℕ)
  deriving DecidableEq, Repr

/-- The value among `known` that is stored as `value`. -/
def ofU8 {α : Type} (toU8 : α → UInt8) (known : List α) (value : UInt8) (unknown : FromBytesError) :
    Except FromBytesError α :=
  match known.find? fun a => value = toU8 a with
  | some a => .ok a
  | none => .error unknown

/-- The content type `value` names. -/
def contentType (value : UInt8) : Except FromBytesError NcaContentType :=
  ofU8 NcaContentType.toU8 [.program, .metadata, .control, .manual, .data, .publicData] value
    (.unknownContentType value)

/-- The hash type `value` names, or an error naming the section that carried it. -/
def hashType (index : ℕ) (value : UInt8) : Except FromBytesError NcaHashType :=
  ofU8 NcaHashType.toU8 [.pfs0, .romFs] value (.unknownHashType index value)

/-- The encryption type `value` names, or an error naming the section that carried it. -/
def cryptType (index : ℕ) (value : UInt8) : Except FromBytesError NcaCryptType :=
  ofU8 NcaCryptType.toU8 [.none, .xts, .ctr, .bktr] value (.unknownCryptType index value)

/-- Where one section sits in the image, or nothing when its entry ends at media unit zero. -/
def sectionRange (index : ℕ) (entry : NcaSectionEntry) (available : ℕ) :
    Except FromBytesError (Option (ℕ × ℕ)) :=
  let start := entry.mediaStartOffset.toNat * MEDIA_UNIT_SIZE
  let stop := entry.mediaEndOffset.toNat * MEDIA_UNIT_SIZE
  if stop = 0 then .ok none
  else if stop < start ∨ start < NCA_HEADER_SIZE then
    .error (.sectionBoundsInvalid index start stop)
  else if available < stop then .error (.sectionOutOfBounds index start stop available)
  else .ok (some (start, stop))

/-- What a fallible lookup finds, or the error its absence is reported as. -/
def orError {α : Type} (x : Option α) (e : FromBytesError) : Except FromBytesError α :=
  match x with
  | some a => .ok a
  | none => .error e

/-- The offset and size the superblock gives the filesystem image. -/
def dataRegion (index : ℕ) (fsHeader : NcaFsHeader) (hash : NcaHashType) :
    Except FromBytesError (UInt64 × UInt64) :=
  match hash with
  | .pfs0 => do
    let superblock ← orError (Pfs0Superblock.codec.fromBytes fsHeader.superblock.toList)
      (.superblockUnreadable index)
    pure (superblock.pfs0Offset, superblock.pfs0Size)
  | .romFs => do
    let superblock ← orError (RomFsSuperblock.codec.fromBytes fsHeader.superblock.toList)
      (.superblockUnreadable index)
    -- The count includes the master hash, so the bottom level is two below it.
    let ivfc := superblock.ivfcHeader
    let last ← orError (checkedSub ivfc.levelCount.toNat 2)
      (.ivfcLevelCountInvalid index ivfc.levelCount)
    let level ← orError (List.ofFn ivfc.levelHeaders)[last]?
      (.ivfcLevelCountInvalid index ivfc.levelCount)
    pure (level.logicalOffset, level.hashDataSize)

/-- Where the filesystem image sits within a section of `sectionSize` bytes. -/
def dataRange (index : ℕ) (fsHeader : NcaFsHeader) (hash : NcaHashType) (sectionSize : ℕ) :
    Except FromBytesError (ℕ × ℕ) := do
  let (offset, size) ← dataRegion index fsHeader hash
  let stop ← orError (checkedAdd offset.toNat size.toNat)
    (.dataRegionOutOfBounds index offset.toNat size.toNat sectionSize)
  if sectionSize < stop then
    .error (.dataRegionOutOfBounds index offset.toNat size.toNat sectionSize)
  else pure (offset.toNat, stop)

structure Nca where
  bytes : Bytes
  header : NcaHeader
  contentType : NcaContentType

def checkSection (header : NcaHeader) (available : ℕ) (index : Fin NCA_SECTION_COUNT) :
    Outcome FromBytesError Unit := do
  let range ← ofExcept (sectionRange index (header.sectionEntries index) available)
  match range with
  | none => pure ()
  | some (start, stop) => do
    let fsHeader := header.fsHeaders index
    let _ ← ofExcept (cryptType index fsHeader.cryptType)
    let hash ← ofExcept (hashType index fsHeader.hashType)
    let size ← sub stop start
    let _ ← ofExcept (dataRange index fsHeader hash size)

/-- Validate `bytes` as a decrypted NCA, proving every section lies inside it. -/
def Nca.tryFromBytes (bytes : Bytes) : Outcome FromBytesError Nca := do
  let header ← okOr (NcaHeader.codec.fromPrefix bytes) (.bufferTooSmall NCA_HEADER_SIZE bytes.length)
  ensure (header.magic = NCA3_MAGIC) (.invalidMagic header.magic)
  let contentType ← ofExcept (Archive.contentType header.contentType)
  (List.finRange NCA_SECTION_COUNT).forM (checkSection header bytes.length)
  pure ⟨bytes, header, contentType⟩

namespace Nca

def titleId (nca : Nca) : UInt64 := nca.header.titleId

/-- Length of the whole archive in bytes, as the header records it. -/
def ncaSize (nca : Nca) : UInt64 := nca.header.ncaSize

def keyGeneration (nca : Nca) : UInt8 := max (max nca.header.cryptoType nca.header.cryptoType2) 1

end Nca

structure NcaSection where
  index : ℕ
  range : ℕ × ℕ
  fsHeader : NcaFsHeader
  bytes : Bytes
  data : Bytes

/-- The section in slot `index`, or nothing when the archive leaves it empty. -/
def Nca.sectionAt {ε : Type} (nca : Nca) (index : ℕ) : Outcome ε (Option NcaSection) :=
  if h : index < NCA_SECTION_COUNT then
    let fsHeader := nca.header.fsHeaders ⟨index, h⟩
    match sectionRange index (nca.header.sectionEntries ⟨index, h⟩) nca.bytes.length with
    | .error _ => pure none
    | .ok none => pure none
    | .ok (some (start, stop)) => do
      let bytes ← slice nca.bytes start stop
      match hashType index fsHeader.hashType with
      | .error _ => pure none
      | .ok hash =>
        match dataRange index fsHeader hash bytes.length with
        | .error _ => pure none
        | .ok (first, last) => do
          let data ← slice bytes first last
          pure (some ⟨index, (start, stop), fsHeader, bytes, data⟩)
  else panic

inductive Superblock where
  | pfs0 (superblock : Pfs0Superblock)
  | romFs (superblock : RomFsSuperblock)
  | unreadable

namespace NcaSection

def fsType (sect : NcaSection) : NcaFsType :=
  if sect.fsHeader.fsType = NcaFsType.pfs0.toU8 then .pfs0 else .romFs

def encryption (sect : NcaSection) : NcaCryptType :=
  match cryptType sect.index sect.fsHeader.cryptType with
  | .ok crypt => crypt
  | .error _ => .none

/-- The verification structure covering the section, read according to its hash type. -/
def superblock (sect : NcaSection) : Superblock :=
  match hashType sect.index sect.fsHeader.hashType with
  | .ok .pfs0 =>
    ((Pfs0Superblock.codec.fromBytes sect.fsHeader.superblock.toList).map .pfs0).getD .unreadable
  | _ =>
    ((RomFsSuperblock.codec.fromBytes sect.fsHeader.superblock.toList).map .romFs).getD .unreadable

/-- The AES-CTR counter for the first byte of the section; a section that is not CTR-encrypted has
none. -/
def counter (sect : NcaSection) : Option (List.Vector UInt8 0x10) :=
  if sect.encryption ≠ .ctr then none
  else
    let offset := sect.range.1
    some ⟨sect.fsHeader.sectionCtr.toList.reverse ++ toBe 8 (offset / 0x10), by simp⟩

end NcaSection
end NxObject.Archive
