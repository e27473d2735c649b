import NxObject.Buffer
import NxObject.Codec
import NxObject.TextOrder

/-!
# The PFS0 archive

A header, one entry for each file, a table of names and the data of the files. The entries locate names
and data from the starts of the last two regions, and the builder writes all three in one pass over the
sorted files.
-/
namespace NxObject.Pfs
open Outcome

def PFS0_MAGIC : UInt32 := 0x30534650

structure Pfs0Header where
  magic : UInt32
  fileCount : UInt32
  stringTableSize : UInt32
  reserved : UInt32
  deriving DecidableEq, Repr

def Pfs0Header.codec : Codec Pfs0Header :=
  (Codec.u32.pair <| Codec.u32.pair <| Codec.u32.pair Codec.u32).iso
    { toFun := fun (magic, fileCount, stringTableSize, reserved) =>
        ⟨magic, fileCount, stringTableSize, reserved⟩
      invFun := fun h => (h.magic, h.fileCount, h.stringTableSize, h.reserved)
      left_inv := fun _ => rfl
      right_inv := fun _ => rfl }

theorem Pfs0Header.codec_size : Pfs0Header.codec.size = 0x10 := rfl

/-- One file in the archive. The offset of the data counts from the start of the data region, that of
the name from the start of the string table. -/
structure Pfs0FileEntry where
  offset : UInt64
  size : UInt64
  stringTableOffset : UInt32
  reserved : UInt32
  deriving DecidableEq, Repr

def Pfs0FileEntry.codec : Codec Pfs0FileEntry :=
  (Codec.u64.pair <| Codec.u64.pair <| Codec.u32.pair Codec.u32).iso
    { toFun := fun (offset, size, stringTableOffset, reserved) =>
        ⟨offset, size, stringTableOffset, reserved⟩
      invFun := fun e => (e.offset, e.size, e.stringTableOffset, e.reserved)
      left_inv := fun _ => rfl
      right_inv := fun _ => rfl }

theorem Pfs0FileEntry.codec_size : Pfs0FileEntry.codec.size = 0x18 := rfl

/-! ## The builder -/

structure FileEntry where
  name : Text
  data : Bytes
  deriving DecidableEq, Repr

structure Pfs0Builder where
  files : List FileEntry := []
  deriving DecidableEq, Repr

inductive AddFileError where
  | emptyFileName
  | invalidFileName (name : Text) (reason : String)
  | duplicateFile (name : Text)
  deriving DecidableEq, Repr

/-- Store `data` under `name`. -/
def Pfs0Builder.addFile (b : Pfs0Builder) (name : Text) (data : Bytes) :
    Outcome AddFileError Pfs0Builder :=
  if name = [] then err .emptyFileName
  else if '\x00' ∈ name then err (.invalidFileName name "filename contains null byte")
  else if '/' ∈ name ∨ '\\' ∈ name then
    err (.invalidFileName name "filename contains path separator")
  else if b.files.any fun f => f.name = name then err (.duplicateFile name)
  else ok ⟨b.files ++ [⟨name, data⟩]⟩

def addFiles (files : List FileEntry) : Outcome AddFileError Pfs0Builder :=
  files.foldlM (fun b f => b.addFile f.name f.data) {}

def alignUp (value alignment : ℕ) : ℕ := (value + (alignment - 1)) &&& (2 ^ 64 - 1 - (alignment - 1))

/-- One turn of the loop over the files: the buffer with the entry, the name and the data of the file,
and where the next name and the next data go. -/
def writeFile {ε : Type} (fileTableEnd dataStart : ℕ) (s : Bytes × ℕ × ℕ) (entry : FileEntry × ℕ) :
    Outcome ε (Bytes × ℕ × ℕ) := do
  let (buf, stringOffset, dataOffset) := s
  let (file, i) := entry
  let record : Pfs0FileEntry :=
    { offset := UInt64.ofNat dataOffset
      size := UInt64.ofNat file.data.length
      stringTableOffset := UInt32.ofNat stringOffset
      reserved := 0 }
  let buf ← copyFromSlice buf (0x10 + i * 0x18) (Pfs0FileEntry.codec.enc record)
  let nameBytes := utf8 file.name
  -- The terminator is one of the zeroes the buffer was filled with.
  let buf ← copyFromSlice buf (fileTableEnd + stringOffset) nameBytes
  let buf ← copyFromSlice buf (dataStart + dataOffset) file.data
  let stringOffset ← add32 stringOffset ((nameBytes.length + 1) % 2 ^ 32)
  let dataOffset ← add dataOffset file.data.length
  pure (buf, stringOffset, dataOffset)

/-- Sort the entries, lay out the tables and data, and return the finished archive. The sizes are
computed without bounds here: one that overflows is more than a buffer can hold. -/
def Pfs0Builder.build {ε : Type} (b : Pfs0Builder) : Outcome ε Bytes := do
  let files := b.files.mergeSort fun f g => textLe f.name g.name
  let fileCount := UInt32.ofNat files.length
  let fileTableSize := fileCount.toNat * 0x18
  let stringTableSize := alignUp (files.map fun f => (utf8 f.name).length + 1).sum 0x20
  let fileTableEnd := 0x10 + fileTableSize
  let dataStart := fileTableEnd + stringTableSize
  let totalSize := dataStart + (files.map fun f => f.data.length).sum
  let buf ← zeroed totalSize
  let header : Pfs0Header :=
    { magic := PFS0_MAGIC
      fileCount
      stringTableSize := UInt32.ofNat stringTableSize
      reserved := 0 }
  let buf ← copyFromSlice buf 0 (Pfs0Header.codec.enc header)
  let (buf, _, _) ← files.zipIdx.foldlM (writeFile fileTableEnd dataStart) (buf, 0, 0)
  pure buf

/-! ## The reader -/

inductive FromBytesError where
  | bufferTooSmall (required available : ℕ)
  | invalidMagic (found : UInt32)
  | entryTableOutOfBounds (fileCount available : ℕ)
  | stringTableOutOfBounds (stringTableSize available : ℕ)
  | fileBoundsOverflow (fileIndex offset size : ℕ)
  | fileOutOfBounds (fileIndex offset size available : ℕ)
  | nameOutOfBounds (fileIndex offset stringTableSize : ℕ)
  | nameUnterminated (fileIndex offset : ℕ)
  deriving DecidableEq, Repr

/-- Prove one entry's bytes lie inside the data region. -/
def checkFileBounds (index : ℕ) (entry : Pfs0FileEntry) (available : ℕ) :
    Outcome FromBytesError Unit := do
  let offset := entry.offset.toNat
  let size := entry.size.toNat
  let stop ← okOr (checkedAdd offset size) (.fileBoundsOverflow index offset size)
  ensure (stop ≤ available) (.fileOutOfBounds index offset size available)

/-- Prove one entry's name starts inside the string table and is terminated within it. -/
def checkNameBounds (index : ℕ) (entry : Pfs0FileEntry) (stringTable : Bytes) :
    Outcome FromBytesError Unit := do
  let offset := entry.stringTableOffset.toNat
  ensure (offset ≤ stringTable.length) (.nameOutOfBounds index offset stringTable.length)
  ensure (0 ∈ stringTable.drop offset) (.nameUnterminated index offset)

structure Pfs0 where
  header : Pfs0Header
  entries : List Pfs0FileEntry
  stringTable : Bytes
  data : Bytes
  deriving DecidableEq, Repr

/-- Validate `bytes` as a PFS0, proving every file lies inside the buffer. -/
def Pfs0.tryFromBytes (bytes : Bytes) : Outcome FromBytesError Pfs0 := do
  let header ← okOr (Pfs0Header.codec.fromPrefix bytes) (.bufferTooSmall 0x10 bytes.length)
  let rest := bytes.drop 0x10
  ensure (header.magic = PFS0_MAGIC) (.invalidMagic header.magic)
  let fileCount := header.fileCount.toNat
  let stringTableSize := header.stringTableSize.toNat
  let entries ← okOr (Pfs0FileEntry.codec.prefixElems fileCount rest)
    (.entryTableOutOfBounds fileCount bytes.length)
  let rest := rest.drop (fileCount * 0x18)
  ensure (stringTableSize ≤ rest.length) (.stringTableOutOfBounds stringTableSize rest.length)
  let stringTable := rest.take stringTableSize
  let data ← slice rest stringTableSize rest.length
  entries.zipIdx.forM fun (entry, index) => do
    checkFileBounds index entry data.length
    checkNameBounds index entry stringTable
  pure ⟨header, entries, stringTable, data⟩

structure Pfs0File where
  name : Text
  data : Bytes
  deriving DecidableEq, Repr

namespace Pfs0
variable {ε : Type} (pfs : Pfs0)

/-- Number of files in the archive. -/
def fileCount : ℕ := pfs.entries.length

/-- The file an entry describes. A name that is not UTF-8 reads as empty. -/
def resolve (entry : Pfs0FileEntry) : Outcome ε Pfs0File := do
  let offset := entry.offset.toNat
  let size := entry.size.toNat
  let nameOffset := entry.stringTableOffset.toNat
  let nameBytes ← slice pfs.stringTable nameOffset pfs.stringTable.length
  let nameEnd := nameBytes.findIdx (· == 0)
  let name ← slice nameBytes 0 nameEnd
  let stop ← add offset size
  let data ← slice pfs.data offset stop
  pure ⟨(fromUtf8 name).getD [], data⟩

/-- The file at `index`, or nothing when the archive holds fewer files than that. -/
def file (index : ℕ) : Outcome ε (Option Pfs0File) :=
  match pfs.entries[index]? with
  | none => pure none
  | some entry => some <$> pfs.resolve entry

def files : Outcome ε (List Pfs0File) := pfs.entries.mapM pfs.resolve

def findByName (name : Text) : List Pfs0FileEntry → Outcome ε (Option Pfs0File)
  | [] => pure none
  | entry :: entries => do
    let file ← pfs.resolve entry
    if file.name = name then pure (some file) else findByName name entries

/-- The file stored under `name`, or nothing when the archive holds no such entry. -/
def fileByName (name : Text) : Outcome ε (Option Pfs0File) := pfs.findByName name pfs.entries

end Pfs0
end NxObject.Pfs
