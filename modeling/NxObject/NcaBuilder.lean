import NxObject.CounterMode
import NxObject.NcaIvfc
import NxObject.NcaPartition

/-!
# The NCA builder

The sections are laid out in slot order behind the header, each one preceded by its hash structure and
padded to the media unit. The hash function is a parameter.
-/
namespace NxObject.Archive
open Outcome

/-- Highest key generation the header's two generation fields can express. -/
def MAX_KEY_GENERATION : UInt8 := 32

structure KeyGeneration where
  value : UInt8
  valid : value ≠ 0 ∧ value ≤ MAX_KEY_GENERATION

/-- The generation every title used before the keyset was first rotated. -/
def KeyGeneration.FIRST : KeyGeneration := ⟨1, by decide⟩

inductive SectionEncryption where
  | none
  | ctr
  deriving DecidableEq, Repr

inductive SectionData where
  | romFs (image : Bytes)
  | partition (archive : Bytes) (hashBlockSize : UInt32)

structure Section where
  data : SectionData
  encryption : SectionEncryption

structure NcaBuilder where
  contentType : NcaContentType
  titleId : UInt64
  sdkVersion : UInt32 := 0
  keyGeneration : KeyGeneration := .FIRST
  keyArea : Fin NCA_SECTION_COUNT → List.Vector UInt8 0x10 := fun _ => zeroes 0x10
  sections : Fin NCA_SECTION_COUNT → Option Section := fun _ => none

inductive AddSectionError where
  | indexOutOfRange (index : ℕ)
  | indexOccupied (index : ℕ)
  deriving DecidableEq, Repr

/-- Place `sect` at `index`. -/
def NcaBuilder.addSection (b : NcaBuilder) (index : ℕ) (sect : Section) :
    Outcome AddSectionError NcaBuilder :=
  if h : index < NCA_SECTION_COUNT then
    match b.sections ⟨index, h⟩ with
    | some _ => err (.indexOccupied index)
    | none => pure { b with sections := Function.update b.sections ⟨index, h⟩ (some sect) }
  else err (.indexOutOfRange index)

/-- The archive is larger than the header's media offsets can address. -/
structure BuildError where
  size : ℕ
  deriving DecidableEq, Repr

/-- What an unused slot holds. -/
def EMPTY_SECTION_ENTRY : NcaSectionEntry := ⟨0, 0, zeroes 8⟩

def EMPTY_FS_HEADER : NcaFsHeader :=
  { version := 0
    fsType := 0
    hashType := 0
    cryptType := 0
    reserved0x5 := zeroes 3
    superblock := zeroes superblockSize
    sectionCtr := zeroes 8
    reserved0x148 := zeroes 0xB8 }

def SectionEncryption.cryptType : SectionEncryption → NcaCryptType
  | none => .none
  | ctr => .ctr

section Build
variable (H : Bytes → Digest)

def ivfcSuperblock (tree : Ivfc.IvfcTree) : RomFsSuperblock where
  ivfcHeader :=
    { magic := IVFC_MAGIC
      version := 0x20000
      masterHashSize := 0x20
      -- Counts the master hash as well as the stored levels.
      levelCount := UInt32.ofNat IVFC_MAX_LEVELS + 1
      levelHeaders := tree.levelHeaders
      signatureSalt := zeroes 0x20
      masterHash := tree.masterHash }
  reserved := zeroes 0x58

/-- Turn a section into the bytes it occupies and the FS header describing them. -/
def layOutSection {ε : Type} (sect : Section) : Outcome ε (Bytes × NcaFsHeader) := do
  let fsHeader :=
    { EMPTY_FS_HEADER with version := 2, cryptType := sect.encryption.cryptType.toU8 }
  match sect.data with
  | .romFs image =>
    let tree ← Ivfc.build H image
    let superblock ← exactly superblockSize (RomFsSuperblock.codec.enc (ivfcSuperblock tree))
    pure (tree.data,
      { fsHeader with
        fsType := NcaFsType.romFs.toU8, hashType := NcaHashType.romFs.toU8, superblock })
  | .partition archive hashBlockSize =>
    let built ← Partition.build H archive hashBlockSize
    let superblock ← exactly superblockSize (Pfs0Superblock.codec.enc built.superblock)
    pure (built.data,
      { fsHeader with
        fsType := NcaFsType.pfs0.toU8, hashType := NcaHashType.pfs0.toU8, superblock })

/-- Split a key generation across the header's two generation fields. -/
def splitKeyGeneration (keyGeneration : KeyGeneration) : UInt8 × UInt8 :=
  if keyGeneration.value = 1 then (0, 0)
  else if keyGeneration.value = 2 then (2, 0)
  else (2, keyGeneration.value)

/-- Convert a byte offset into the media units a section entry records. -/
def mediaOffset (offset : ℕ) : Outcome BuildError UInt32 :=
  let units := offset / MEDIA_UNIT_SIZE
  if units < 2 ^ 32 then pure (UInt32.ofNat units) else err ⟨offset⟩

/-- Pad `body` up to the next media unit, leaving it untouched if it is already on one. -/
def padToMediaUnit (body : Bytes) : Bytes :=
  let remainder := body.length % MEDIA_UNIT_SIZE
  if remainder ≠ 0 then body ++ List.replicate (MEDIA_UNIT_SIZE - remainder) 0 else body

lemma reserved_length : ([1, 0, 0, 0, 0, 0, 0, 0] : Bytes).length = 8 := rfl

/-- One turn of the loop over the slots: the header and the body with the section at `index`. -/
def buildSection (sections : Fin NCA_SECTION_COUNT → Option Section) (s : NcaHeader × Bytes)
    (index : Fin NCA_SECTION_COUNT) : Outcome BuildError (NcaHeader × Bytes) :=
  match sections index with
  | none => pure s
  | some sect => do
    let (header, body) := s
    let mediaStart ← add NCA_HEADER_SIZE body.length >>= mediaOffset
    let (data, fsHeader) ← layOutSection H sect
    let body := padToMediaUnit (body ++ data)
    let mediaEnd ← add NCA_HEADER_SIZE body.length >>= mediaOffset
    let entry := ⟨mediaStart, mediaEnd, ⟨[1, 0, 0, 0, 0, 0, 0, 0], reserved_length⟩⟩
    let sectionHash := H (NcaFsHeader.codec.enc fsHeader)
    pure ({ header with
      sectionEntries := Function.update header.sectionEntries index entry
      sectionHashes := Function.update header.sectionHashes index sectionHash
      fsHeaders := Function.update header.fsHeaders index fsHeader }, body)

/-- A finished archive, neither signed nor encrypted. -/
structure PlainNca where
  header : NcaHeader
  body : Bytes

def NcaBuilder.emptyHeader (b : NcaBuilder) : NcaHeader :=
  { fixedKeySig := zeroes 0x100
    npdmKeySig := zeroes 0x100
    magic := NCA3_MAGIC
    distribution := 0
    contentType := b.contentType.toU8
    cryptoType := (splitKeyGeneration b.keyGeneration).1
    kaekIndex := 0
    ncaSize := 0
    titleId := b.titleId
    reserved0x218 := zeroes 4
    sdkVersion := b.sdkVersion
    cryptoType2 := (splitKeyGeneration b.keyGeneration).2
    reserved0x221 := zeroes 0xF
    rightsId := zeroes 0x10
    sectionEntries := fun _ => EMPTY_SECTION_ENTRY
    sectionHashes := fun _ => zeroes HASH_SIZE
    encryptedKeys := b.keyArea
    reserved0x340 := zeroes 0xC0
    fsHeaders := fun _ => EMPTY_FS_HEADER }

/-- Lay the sections out, derive their hashes, and return the archive with its header filled in. -/
def NcaBuilder.build (b : NcaBuilder) : Outcome BuildError PlainNca := do
  let (header, body) ←
    (List.finRange NCA_SECTION_COUNT).foldlM (buildSection H b.sections) (b.emptyHeader, [])
  let ncaSize ← add NCA_HEADER_SIZE body.length
  pure ⟨{ header with ncaSize := UInt64.ofNat ncaSize }, body⟩

def PlainNca.toBytes (plain : PlainNca) : Bytes := NcaHeader.codec.enc plain.header ++ plain.body

end Build

/-! ## The sections that are left to encrypt -/

structure CtrSection where
  range : ℕ × ℕ
  counter : List.Vector UInt8 0x10
  deriving DecidableEq

/-- Build the AES-CTR counter for the byte at `offset` of a section. -/
def sectionCounter (sectionCtr : List.Vector UInt8 8) (offset : ℕ) : List.Vector UInt8 0x10 :=
  ⟨sectionCtr.toList.reverse ++ toBe 8 (offset / 0x10), by simp⟩

/-- One turn of the loop over the entries and the FS headers. -/
def planSection {ε : Type} (header : NcaHeader) (sections : List CtrSection)
    (index : Fin NCA_SECTION_COUNT) : Outcome ε (List CtrSection) :=
  let entry := header.sectionEntries index
  let fsHeader := header.fsHeaders index
  if fsHeader.cryptType ≠ NcaCryptType.ctr.toU8 then pure sections
  else do
    let start := entry.mediaStartOffset.toNat * MEDIA_UNIT_SIZE
    let stop := entry.mediaEndOffset.toNat * MEDIA_UNIT_SIZE
    let first ← sub start NCA_HEADER_SIZE
    let last ← sub stop NCA_HEADER_SIZE
    pure (sections ++ [⟨(first, last), sectionCounter fsHeader.sectionCtr start⟩])

/-- The sections that must be encrypted before the archive is valid. -/
def PlainNca.ctrSections {ε : Type} (plain : PlainNca) : Outcome ε (List CtrSection) :=
  (List.finRange NCA_SECTION_COUNT).foldlM (planSection plain.header) []

end NxObject.Archive
