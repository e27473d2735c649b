import NxObject.Codec

/-!
# The RomFS header and its entries

Directories and files live in two metadata tables and are addressed by their byte offset; each entry is
followed by its name.
-/
namespace NxObject.Romfs

/-- The offset standing for "nothing here", which every chain in the tree ends with. -/
def NO_ENTRY : UInt32 := 0xFFFFFFFF

structure RomFsHeader where
  headerSize : UInt64
  dirHashTableOffset : UInt64
  dirHashTableSize : UInt64
  dirMetaTableOffset : UInt64
  dirMetaTableSize : UInt64
  fileHashTableOffset : UInt64
  fileHashTableSize : UInt64
  fileMetaTableOffset : UInt64
  fileMetaTableSize : UInt64
  fileDataOffset : UInt64
  deriving DecidableEq, Repr

def RomFsHeader.codec : Codec RomFsHeader :=
  (Codec.u64.pair <| Codec.u64.pair <| Codec.u64.pair <| Codec.u64.pair <| Codec.u64.pair <|
    Codec.u64.pair <| Codec.u64.pair <| Codec.u64.pair <| Codec.u64.pair Codec.u64).iso
    { toFun := fun (a, b, c, d, e, f, g, h, i, j) => ⟨a, b, c, d, e, f, g, h, i, j⟩
      invFun := fun h => (h.headerSize, h.dirHashTableOffset, h.dirHashTableSize,
        h.dirMetaTableOffset, h.dirMetaTableSize, h.fileHashTableOffset, h.fileHashTableSize,
        h.fileMetaTableOffset, h.fileMetaTableSize, h.fileDataOffset)
      left_inv := fun _ => rfl
      right_inv := fun _ => rfl }

theorem RomFsHeader.codec_size : RomFsHeader.codec.size = 0x50 := rfl

structure RomFsDirEntry where
  parentOffset : UInt32
  siblingOffset : UInt32
  childOffset : UInt32
  fileOffset : UInt32
  hashSiblingOffset : UInt32
  nameLen : UInt32
  deriving DecidableEq, Repr

def RomFsDirEntry.codec : Codec RomFsDirEntry :=
  (Codec.u32.pair <| Codec.u32.pair <| Codec.u32.pair <| Codec.u32.pair <| Codec.u32.pair
    Codec.u32).iso
    { toFun := fun (a, b, c, d, e, f) => ⟨a, b, c, d, e, f⟩
      invFun := fun e => (e.parentOffset, e.siblingOffset, e.childOffset, e.fileOffset,
        e.hashSiblingOffset, e.nameLen)
      left_inv := fun _ => rfl
      right_inv := fun _ => rfl }

theorem RomFsDirEntry.codec_size : RomFsDirEntry.codec.size = 0x18 := rfl

structure RomFsFileEntry where
  parentOffset : UInt32
  siblingOffset : UInt32
  dataOffset : UInt64
  dataSize : UInt64
  hashSiblingOffset : UInt32
  nameLen : UInt32
  deriving DecidableEq, Repr

def RomFsFileEntry.codec : Codec RomFsFileEntry :=
  (Codec.u32.pair <| Codec.u32.pair <| Codec.u64.pair <| Codec.u64.pair <| Codec.u32.pair
    Codec.u32).iso
    { toFun := fun (a, b, c, d, e, f) => ⟨a, b, c, d, e, f⟩
      invFun := fun e => (e.parentOffset, e.siblingOffset, e.dataOffset, e.dataSize,
        e.hashSiblingOffset, e.nameLen)
      left_inv := fun _ => rfl
      right_inv := fun _ => rfl }

theorem RomFsFileEntry.codec_size : RomFsFileEntry.codec.size = 0x20 := rfl

/-- `u32::rotate_right`. -/
def rotateRight (x k : UInt32) : UInt32 := (x >>> k) ||| (x <<< (32 - k))

/-- Hashes one path component to the bucket its entry is chained from. -/
def pathHash (parentOffset : UInt32) (name : Bytes) : UInt32 :=
  name.foldl (fun hash byte => rotateRight hash 5 ^^^ byte.toUInt32) (parentOffset ^^^ 123456789)

end NxObject.Romfs
