import NxObject.Codec

/-!
# The NCA header, its section entries and the FS headers

Offsets into an NCA are counted in media units. A section's entry and its FS header are matched by index
alone, and the hash type of the FS header decides which of two structures its superblock holds.
-/
namespace NxObject.Archive

def NCA3_MAGIC : UInt32 := 0x3341434E
def IVFC_MAGIC : UInt32 := 0x43465649
/-- Bytes in the unit every offset in an NCA header is counted in. -/
def MEDIA_UNIT_SIZE : ℕ := 0x200
def NCA_HEADER_SIZE : ℕ := 0xC00
abbrev NCA_SECTION_COUNT : ℕ := 4

instance : NeZero NCA_SECTION_COUNT := ⟨by decide⟩

abbrev IVFC_MAX_LEVELS : ℕ := 6
def HASH_SIZE : ℕ := 0x20

abbrev Digest := List.Vector UInt8 HASH_SIZE

def zeroes (n : ℕ) : List.Vector UInt8 n := List.Vector.replicate n 0

structure NcaSectionEntry where
  mediaStartOffset : UInt32
  mediaEndOffset : UInt32
  reserved : List.Vector UInt8 8
  deriving DecidableEq

def NcaSectionEntry.codec : Codec NcaSectionEntry :=
  (Codec.u32.pair <| Codec.u32.pair <| Codec.bytes 8).iso
    { toFun := fun (mediaStartOffset, mediaEndOffset, reserved) =>
        ⟨mediaStartOffset, mediaEndOffset, reserved⟩
      invFun := fun e => (e.mediaStartOffset, e.mediaEndOffset, e.reserved)
      left_inv := fun _ => rfl
      right_inv := fun _ => rfl }

structure IvfcLevelHeader where
  logicalOffset : UInt64
  hashDataSize : UInt64
  blockSize : UInt32
  reserved : UInt32
  deriving DecidableEq, Repr

def IvfcLevelHeader.codec : Codec IvfcLevelHeader :=
  (Codec.u64.pair <| Codec.u64.pair <| Codec.u32.pair Codec.u32).iso
    { toFun := fun (logicalOffset, hashDataSize, blockSize, reserved) =>
        ⟨logicalOffset, hashDataSize, blockSize, reserved⟩
      invFun := fun l => (l.logicalOffset, l.hashDataSize, l.blockSize, l.reserved)
      left_inv := fun _ => rfl
      right_inv := fun _ => rfl }

/-- `IvfcLevelHeader::default()`. -/
def IvfcLevelHeader.default : IvfcLevelHeader := ⟨0, 0, 0, 0⟩

/-- The root of a RomFS section's hash tree; `levelCount` counts the master hash as a level. -/
structure IvfcHeader where
  magic : UInt32
  version : UInt32
  masterHashSize : UInt32
  levelCount : UInt32
  levelHeaders : Fin IVFC_MAX_LEVELS → IvfcLevelHeader
  signatureSalt : List.Vector UInt8 0x20
  masterHash : Digest

def IvfcHeader.codec : Codec IvfcHeader :=
  (Codec.u32.pair <| Codec.u32.pair <| Codec.u32.pair <| Codec.u32.pair <|
    (Codec.array IVFC_MAX_LEVELS IvfcLevelHeader.codec).pair <| (Codec.bytes 0x20).pair <|
    Codec.bytes HASH_SIZE).iso
    { toFun := fun (magic, version, masterHashSize, levelCount, levelHeaders, signatureSalt,
          masterHash) =>
        { magic, version, masterHashSize, levelCount, levelHeaders, signatureSalt, masterHash }
      invFun := fun h => (h.magic, h.version, h.masterHashSize, h.levelCount, h.levelHeaders,
        h.signatureSalt, h.masterHash)
      left_inv := fun _ => rfl
      right_inv := fun _ => rfl }

structure RomFsSuperblock where
  ivfcHeader : IvfcHeader
  reserved : List.Vector UInt8 0x58

def RomFsSuperblock.codec : Codec RomFsSuperblock :=
  (IvfcHeader.codec.pair <| Codec.bytes 0x58).iso
    { toFun := fun (ivfcHeader, reserved) => ⟨ivfcHeader, reserved⟩
      invFun := fun s => (s.ivfcHeader, s.reserved)
      left_inv := fun _ => rfl
      right_inv := fun _ => rfl }

structure Pfs0Superblock where
  masterHash : Digest
  blockSize : UInt32
  layerCount : UInt32
  hashTableOffset : UInt64
  hashTableSize : UInt64
  pfs0Offset : UInt64
  pfs0Size : UInt64
  reserved : List.Vector UInt8 0xF0
  deriving DecidableEq

def Pfs0Superblock.codec : Codec Pfs0Superblock :=
  ((Codec.bytes HASH_SIZE).pair <| Codec.u32.pair <| Codec.u32.pair <| Codec.u64.pair <|
    Codec.u64.pair <| Codec.u64.pair <| Codec.u64.pair <| Codec.bytes 0xF0).iso
    { toFun := fun (masterHash, blockSize, layerCount, hashTableOffset, hashTableSize, pfs0Offset,
          pfs0Size, reserved) =>
        { masterHash, blockSize, layerCount, hashTableOffset, hashTableSize, pfs0Offset, pfs0Size,
          reserved }
      invFun := fun s => (s.masterHash, s.blockSize, s.layerCount, s.hashTableOffset,
        s.hashTableSize, s.pfs0Offset, s.pfs0Size, s.reserved)
      left_inv := fun _ => rfl
      right_inv := fun _ => rfl }

def superblockSize : ℕ := 0x138

theorem RomFsSuperblock.codec_size : RomFsSuperblock.codec.size = superblockSize := rfl

theorem Pfs0Superblock.codec_size : Pfs0Superblock.codec.size = superblockSize := rfl

/-! ## The enumerations, stored as one byte each -/

inductive NcaFsType where
  | romFs
  | pfs0
  deriving DecidableEq, Repr

def NcaFsType.toU8 : NcaFsType → UInt8
  | romFs => 0
  | pfs0 => 1

inductive NcaHashType where
  | pfs0
  | romFs
  deriving DecidableEq, Repr

def NcaHashType.toU8 : NcaHashType → UInt8
  | pfs0 => 2
  | romFs => 3

inductive NcaCryptType where
  | none
  | xts
  | ctr
  | bktr
  deriving DecidableEq, Repr

def NcaCryptType.toU8 : NcaCryptType → UInt8
  | none => 1
  | xts => 2
  | ctr => 3
  | bktr => 4

inductive NcaContentType where
  | program
  | metadata
  | control
  | manual
  | data
  | publicData
  deriving DecidableEq, Repr

def NcaContentType.toU8 : NcaContentType → UInt8
  | program => 0
  | metadata => 1
  | control => 2
  | manual => 3
  | data => 4
  | publicData => 5

/-! ## The headers -/

structure NcaFsHeader where
  version : UInt16
  fsType : UInt8
  hashType : UInt8
  cryptType : UInt8
  reserved0x5 : List.Vector UInt8 3
  superblock : List.Vector UInt8 superblockSize
  sectionCtr : List.Vector UInt8 8
  reserved0x148 : List.Vector UInt8 0xB8
  deriving DecidableEq

def NcaFsHeader.codec : Codec NcaFsHeader :=
  (Codec.u16.pair <| Codec.u8.pair <| Codec.u8.pair <| Codec.u8.pair <| (Codec.bytes 3).pair <|
    (Codec.bytes superblockSize).pair <| (Codec.bytes 8).pair <| Codec.bytes 0xB8).iso
    { toFun := fun (version, fsType, hashType, cryptType, reserved0x5, superblock, sectionCtr,
          reserved0x148) =>
        { version, fsType, hashType, cryptType, reserved0x5, superblock, sectionCtr, reserved0x148 }
      invFun := fun h => (h.version, h.fsType, h.hashType, h.cryptType, h.reserved0x5, h.superblock,
        h.sectionCtr, h.reserved0x148)
      left_inv := fun _ => rfl
      right_inv := fun _ => rfl }

structure NcaHeader where
  fixedKeySig : List.Vector UInt8 0x100
  npdmKeySig : List.Vector UInt8 0x100
  magic : UInt32
  distribution : UInt8
  contentType : UInt8
  cryptoType : UInt8
  kaekIndex : UInt8
  ncaSize : UInt64
  titleId : UInt64
  reserved0x218 : List.Vector UInt8 4
  sdkVersion : UInt32
  cryptoType2 : UInt8
  reserved0x221 : List.Vector UInt8 0xF
  rightsId : List.Vector UInt8 0x10
  sectionEntries : Fin NCA_SECTION_COUNT → NcaSectionEntry
  sectionHashes : Fin NCA_SECTION_COUNT → Digest
  encryptedKeys : Fin NCA_SECTION_COUNT → List.Vector UInt8 0x10
  reserved0x340 : List.Vector UInt8 0xC0
  fsHeaders : Fin NCA_SECTION_COUNT → NcaFsHeader

def NcaHeader.codec : Codec NcaHeader :=
  ((Codec.bytes 0x100).pair <| (Codec.bytes 0x100).pair <| Codec.u32.pair <| Codec.u8.pair <|
    Codec.u8.pair <| Codec.u8.pair <| Codec.u8.pair <| Codec.u64.pair <| Codec.u64.pair <|
    (Codec.bytes 4).pair <| Codec.u32.pair <| Codec.u8.pair <| (Codec.bytes 0xF).pair <|
    (Codec.bytes 0x10).pair <| (Codec.array NCA_SECTION_COUNT NcaSectionEntry.codec).pair <|
    (Codec.array NCA_SECTION_COUNT (Codec.bytes HASH_SIZE)).pair <|
    (Codec.array NCA_SECTION_COUNT (Codec.bytes 0x10)).pair <| (Codec.bytes 0xC0).pair <|
    Codec.array NCA_SECTION_COUNT NcaFsHeader.codec).iso
    { toFun := fun (fixedKeySig, npdmKeySig, magic, distribution, contentType, cryptoType, kaekIndex,
          ncaSize, titleId, reserved0x218, sdkVersion, cryptoType2, reserved0x221, rightsId,
          sectionEntries, sectionHashes, encryptedKeys, reserved0x340, fsHeaders) =>
        { fixedKeySig, npdmKeySig, magic, distribution, contentType, cryptoType, kaekIndex, ncaSize,
          titleId, reserved0x218, sdkVersion, cryptoType2, reserved0x221, rightsId, sectionEntries,
          sectionHashes, encryptedKeys, reserved0x340, fsHeaders }
      invFun := fun h => (h.fixedKeySig, h.npdmKeySig, h.magic, h.distribution, h.contentType,
        h.cryptoType, h.kaekIndex, h.ncaSize, h.titleId, h.reserved0x218, h.sdkVersion,
        h.cryptoType2, h.reserved0x221, h.rightsId, h.sectionEntries, h.sectionHashes,
        h.encryptedKeys, h.reserved0x340, h.fsHeaders)
      left_inv := fun _ => rfl
      right_inv := fun _ => rfl }

theorem NcaHeader.codec_size : NcaHeader.codec.size = NCA_HEADER_SIZE := rfl

end NxObject.Archive
