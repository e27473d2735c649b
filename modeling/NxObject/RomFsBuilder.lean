import NxObject.Outcome
import NxObject.RomFsFormat
import NxObject.TextOrder

/-!
# The RomFS builder

`add_file` keeps directories and files in two vectors that refer to each other by index; `build` sorts
them by path, assigns every entry its offset, threads the hash chains and writes the image. Indexing
out of range panics; here it reads a default entry, which no builder that `add_file` leads to does.
-/
namespace NxObject.Romfs
open Outcome

structure DirEntry where
  path : Text
  name : Text
  entryOffset : UInt32 := 0
  children : List ℕ := []
  files : List ℕ := []
  parent : ℕ
  deriving DecidableEq, Inhabited, Repr

def DirEntry.pushChild (dir : DirEntry) (idx : ℕ) : DirEntry :=
  { dir with children := dir.children ++ [idx] }

def DirEntry.pushFile (dir : DirEntry) (idx : ℕ) : DirEntry :=
  { dir with files := dir.files ++ [idx] }

structure FileEntry where
  path : Text
  name : Text
  data : Bytes
  entryOffset : UInt32 := 0
  dataOffset : UInt64 := 0
  parent : ℕ
  deriving DecidableEq, Inhabited, Repr

structure RomFsBuilder where
  dirs : List DirEntry
  files : List FileEntry
  dirHashSiblings : List UInt32 := []
  fileHashSiblings : List UInt32 := []
  deriving DecidableEq, Repr

inductive BuildError where
  | empty
  | invalidPath (path : Text)
  | duplicateEntry (path : Text)
  deriving DecidableEq, Repr

def align32 (value alignment : UInt32) : UInt32 := (value + (alignment - 1)) &&& ~~~(alignment - 1)

def align64 (value alignment : UInt64) : UInt64 := (value + (alignment - 1)) &&& ~~~(alignment - 1)

/-- `Vec::resize`. -/
def resize {α : Type} (xs : List α) (n : ℕ) (a : α) : List α :=
  xs.take n ++ List.replicate (n - xs.length) a

def smallFactor (n : ℕ) : Bool :=
  n % 2 == 0 || n % 3 == 0 || n % 5 == 0 || n % 7 == 0 || n % 11 == 0 || n % 13 == 0 || n % 17 == 0

/-- `while` a small prime divides `n`, `n += 1`. A number one above a multiple of all seven primes
ends the loop at the latest. -/
def skipSmallFactors (n : ℕ) : ℕ := if smallFactor n then skipSmallFactors (n + 1) else n
  termination_by (510511 - n % 510510) % 510510
  decreasing_by
    rename_i h
    simp only [smallFactor, Bool.or_eq_true, beq_iff_eq] at h
    omega

def romfsGetHashTableCount (numEntries : ℕ) : ℕ :=
  if numEntries < 3 then 3
  else if numEntries < 19 then numEntries ||| 1
  else skipSmallFactors numEntries

namespace RomFsBuilder

/-- A builder holding nothing but its root directory, which is its own parent. -/
def new : RomFsBuilder := { dirs := [{ path := [], name := [], parent := 0 }], files := [] }

variable (b : RomFsBuilder)

def dir (idx : ℕ) : DirEntry := b.dirs.getD idx default

def file (idx : ℕ) : FileEntry := b.files.getD idx default

end RomFsBuilder

/-- One directory component of a path: enter the child of that name, or create it. -/
def enterDir (s : RomFsBuilder × ℕ) (component : Text) : RomFsBuilder × ℕ :=
  match (s.1.dir s.2).children.find? (fun idx => (s.1.dir idx).name == component) with
  | some idx => (s.1, idx)
  | none =>
      let newIdx := s.1.dirs.length
      let entry : DirEntry :=
        { path := (s.1.dir s.2).path ++ '/' :: component, name := component, parent := s.2 }
      ({ s.1 with dirs := (s.1.dirs ++ [entry]).modify s.2 (·.pushChild newIdx) }, newIdx)

/-- The components of an absolute path, empty ones dropped. -/
def pathComponents (path : Text) : List Text := (path.tail.splitOn '/').filter (· ≠ [])

namespace RomFsBuilder
variable (b : RomFsBuilder)

def addFile (path : Text) (data : Bytes) : Outcome BuildError RomFsBuilder :=
  if path.head? ≠ some '/' then err (.invalidPath path)
  else
    let components := pathComponents path
    match components.getLast? with
    | none => err (.invalidPath path)
    | some fileName =>
        let (b, currentDir) := components.dropLast.foldl enterDir (b, 0)
        if (b.dir currentDir).files.any (fun idx => (b.file idx).name == fileName) then
          err (.duplicateEntry path)
        else
          let fileIdx := b.files.length
          let entry : FileEntry :=
            { path := (b.dir currentDir).path ++ '/' :: fileName, name := fileName, data,
              parent := currentDir }
          ok { b with
            files := b.files ++ [entry]
            dirs := b.dirs.modify currentDir (·.pushFile fileIdx) }

end RomFsBuilder

/-! ## Sorting -/

/-- Where each index ends up when the entries are put into the given order. -/
def newIndex (order : List ℕ) : List ℕ :=
  order.zipIdx.foldl (fun index entry => index.set entry.1 entry.2) (List.replicate order.length 0)

def sortByName (name : ℕ → Text) (indices : List ℕ) : List ℕ :=
  ((indices.map fun idx => (idx, name idx)).mergeSort fun a b => textLe a.2 b.2).map (·.1)

namespace RomFsBuilder
variable (b : RomFsBuilder)

def dirOrder : List ℕ :=
  (List.range b.dirs.length).mergeSort fun i j => textLe (b.dir i).path (b.dir j).path

def fileOrder : List ℕ :=
  (List.range b.files.length).mergeSort fun i j => textLe (b.file i).path (b.file j).path

/-- Order the directory and file tables by full path. -/
def sortEntriesByPath : RomFsBuilder :=
  let newDirIndex := newIndex b.dirOrder
  let newFileIndex := newIndex b.fileOrder
  { b with
    dirs := (b.dirs.mergeSort fun x y => textLe x.path y.path).map fun dir =>
      { dir with
        parent := newDirIndex.getD dir.parent 0
        children := dir.children.map (newDirIndex.getD · 0)
        files := dir.files.map (newFileIndex.getD · 0) }
    files := (b.files.mergeSort fun x y => textLe x.path y.path).map fun file =>
      { file with parent := newDirIndex.getD file.parent 0 } }

def sortByNames : RomFsBuilder :=
  { b with
    dirs := b.dirs.map fun dir =>
      { dir with
        children := sortByName (fun idx => (b.dir idx).name) dir.children
        files := sortByName (fun idx => (b.file idx).name) dir.files } }

end RomFsBuilder

/-! ## Offsets -/

def assignDataOffsets : UInt64 → List FileEntry → List FileEntry
  | _, [] => []
  | dataOffset, file :: files =>
      let dataOffset := align64 dataOffset 0x10
      { file with dataOffset } ::
        assignDataOffsets (dataOffset + UInt64.ofNat file.data.length) files

/-- Each entry gets the running offset, and moves it on by its size. -/
def assignOffsets {α : Type} (size : α → UInt32) (place : UInt32 → α → α) : UInt32 → List α → List α
  | _, [] => []
  | entryOffset, a :: as => place entryOffset a :: assignOffsets size place (entryOffset + size a) as

def assignFileOffsets : UInt32 → List FileEntry → List FileEntry :=
  assignOffsets (fun file => 0x20 + align32 (UInt32.ofNat (utf8 file.name).length) 4)
    fun entryOffset file => { file with entryOffset }

def assignDirOffsets : UInt32 → List DirEntry → List DirEntry :=
  assignOffsets (fun dir => 0x18 + align32 (UInt32.ofNat (utf8 dir.name).length) 4)
    fun entryOffset dir => { dir with entryOffset }

namespace RomFsBuilder
variable (b : RomFsBuilder)

def calculateOffsets : RomFsBuilder :=
  { b with
    files := assignFileOffsets 0 (assignDataOffsets 0 b.files)
    dirs := assignDirOffsets 0 b.dirs }

def calculateFilePartitionSize : UInt64 :=
  b.files.foldl (fun size file => align64 size 0x10 + UInt64.ofNat file.data.length) 0

end RomFsBuilder

/-! ## Hash tables -/

structure HashKey where
  parentOffset : UInt32
  name : Bytes
  entryOffset : UInt32
  deriving DecidableEq, Repr

def HashKey.bucket (key : HashKey) (tableSize : ℕ) : ℕ :=
  (pathHash key.parentOffset key.name).toNat % tableSize

/-- Chain one entry: it becomes the head of its bucket and points to the old head. -/
def chainEntry (tableSize : ℕ) (s : List UInt32 × List UInt32) (entry : HashKey × ℕ) :
    List UInt32 × List UInt32 :=
  let bucket := entry.1.bucket tableSize
  (s.1.set bucket entry.1.entryOffset, s.2.set entry.2 (s.1.getD bucket NO_ENTRY))

/-- The bucket heads, and the hash siblings of the entries. -/
def generateHashTable (keys : List HashKey) : List UInt32 × List UInt32 :=
  let tableSize := romfsGetHashTableCount keys.length
  keys.zipIdx.foldl (chainEntry tableSize)
    (List.replicate tableSize NO_ENTRY, List.replicate keys.length NO_ENTRY)

namespace RomFsBuilder
variable (b : RomFsBuilder)

def dirKeys : List HashKey :=
  b.dirs.map fun dir => ⟨(b.dir dir.parent).entryOffset, utf8 dir.name, dir.entryOffset⟩

def fileKeys : List HashKey :=
  b.files.map fun file => ⟨(b.dir file.parent).entryOffset, utf8 file.name, file.entryOffset⟩

def generateDirHashTable : List UInt32 × RomFsBuilder :=
  let (table, siblings) := generateHashTable b.dirKeys
  (table, { b with dirHashSiblings := siblings })

def generateFileHashTable : List UInt32 × RomFsBuilder :=
  let (table, siblings) := generateHashTable b.fileKeys
  (table, { b with fileHashSiblings := siblings })

end RomFsBuilder

/-! ## Metadata tables -/

/-- The entry behind the one at `entryOffset` in a list of siblings. -/
def findSibling {ι : Type} (offset : ι → UInt32) (siblings : List ι) (entryOffset : UInt32) : UInt32 :=
  match (siblings.zip siblings.tail).find? (fun window => offset window.1 == entryOffset) with
  | some window => offset window.2
  | none => NO_ENTRY

/-- Write one entry and its name, and pad the table to a 4-byte boundary. -/
def appendEntry (table header name : Bytes) : Bytes :=
  let table := table ++ header ++ name
  resize table (align32 (UInt32.ofNat table.length) 4).toNat 0

namespace RomFsBuilder
variable (b : RomFsBuilder)

def findSiblingDir (dir : DirEntry) : UInt32 :=
  findSibling (fun idx => (b.dir idx).entryOffset) (b.dir dir.parent).children dir.entryOffset

def findSiblingFile (file : FileEntry) : UInt32 :=
  findSibling (fun idx => (b.file idx).entryOffset) (b.dir file.parent).files file.entryOffset

def dirRecord (dir : DirEntry) (idx : ℕ) : RomFsDirEntry where
  parentOffset := (b.dir dir.parent).entryOffset
  siblingOffset := b.findSiblingDir dir
  childOffset := (dir.children.head?.map fun idx => (b.dir idx).entryOffset).getD NO_ENTRY
  fileOffset := (dir.files.head?.map fun idx => (b.file idx).entryOffset).getD NO_ENTRY
  hashSiblingOffset := b.dirHashSiblings.getD idx 0
  nameLen := UInt32.ofNat (utf8 dir.name).length

def fileRecord (file : FileEntry) (idx : ℕ) : RomFsFileEntry where
  parentOffset := (b.dir file.parent).entryOffset
  siblingOffset := b.findSiblingFile file
  dataOffset := file.dataOffset
  dataSize := UInt64.ofNat file.data.length
  hashSiblingOffset := b.fileHashSiblings.getD idx 0
  nameLen := UInt32.ofNat (utf8 file.name).length

def buildDirTable : Bytes :=
  b.dirs.zipIdx.foldl (fun table entry =>
    appendEntry table (RomFsDirEntry.codec.enc (b.dirRecord entry.1 entry.2)) (utf8 entry.1.name)) []

def buildFileTable : Bytes :=
  b.files.zipIdx.foldl (fun table entry =>
    appendEntry table (RomFsFileEntry.codec.enc (b.fileRecord entry.1 entry.2)) (utf8 entry.1.name)) []

end RomFsBuilder

/-! ## The image -/

def ROMFS_FILEPARTITION_OFS : UInt64 := 0x200

def hashTableBytes (table : List UInt32) : Bytes := table.flatMap fun hash => toLe 4 hash.toNat

def writeHeader (dirHashTable : List UInt32) (dirTable : Bytes) (fileHashTable : List UInt32)
    (fileTable : Bytes) (filePartitionSize : UInt64) : RomFsHeader :=
  let fileDataEnd := ROMFS_FILEPARTITION_OFS + filePartitionSize
  let dirHashOffset := align64 fileDataEnd 4
  let dirHashSize := UInt64.ofNat (dirHashTable.length * 4)
  let dirTableOffset := dirHashOffset + dirHashSize
  let dirTableSize := UInt64.ofNat dirTable.length
  let fileHashOffset := dirTableOffset + dirTableSize
  let fileHashSize := UInt64.ofNat (fileHashTable.length * 4)
  let fileTableOffset := fileHashOffset + fileHashSize
  let fileTableSize := UInt64.ofNat fileTable.length
  ⟨0x50, dirHashOffset, dirHashSize, dirTableOffset, dirTableSize, fileHashOffset, fileHashSize,
    fileTableOffset, fileTableSize, ROMFS_FILEPARTITION_OFS⟩

def writeFile (buf : Bytes) (file : FileEntry) : Bytes :=
  resize buf (align64 (UInt64.ofNat buf.length) 0x10).toNat 0 ++ file.data

namespace RomFsBuilder
variable (b : RomFsBuilder)

/-- The entries in their final order, with their offsets and hash siblings; and the two hash tables. -/
def layOut : RomFsBuilder × List UInt32 × List UInt32 :=
  let b := b.sortEntriesByPath.sortByNames.calculateOffsets
  let (dirHashTable, b) := b.generateDirHashTable
  let (fileHashTable, b) := b.generateFileHashTable
  (b, dirHashTable, fileHashTable)

/-- Build the complete RomFS image. A vector that would be longer than `isize::MAX` panics. -/
def build : Outcome BuildError Bytes :=
  if b.files.isEmpty then err .empty
  else
    let (b, dirHashTable, fileHashTable) := b.layOut
    let dirTable := b.buildDirTable
    let fileTable := b.buildFileTable
    let filePartitionSize := b.calculateFilePartitionSize
    let totalSize := ROMFS_FILEPARTITION_OFS + align64 filePartitionSize 4 +
      UInt64.ofNat (dirHashTable.length * 4) + UInt64.ofNat dirTable.length +
      UInt64.ofNat (fileHashTable.length * 4) + UInt64.ofNat fileTable.length
    if 2 ^ 63 ≤ totalSize.toNat then panic
    else
      let header :=
        writeHeader dirHashTable dirTable fileHashTable fileTable filePartitionSize
      let buf := resize (RomFsHeader.codec.enc header) ROMFS_FILEPARTITION_OFS.toNat 0
      let buf := b.files.foldl writeFile buf
      let buf := resize buf (align64 (UInt64.ofNat buf.length) 4).toNat 0
      ok (buf ++ hashTableBytes dirHashTable ++ dirTable ++ hashTableBytes fileHashTable ++ fileTable)

def addFiles (files : List (Text × Bytes)) : Outcome BuildError RomFsBuilder :=
  files.foldlM (fun b entry => b.addFile entry.1 entry.2) new

end RomFsBuilder
end NxObject.Romfs
