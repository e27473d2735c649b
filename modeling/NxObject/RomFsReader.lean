import NxObject.Chain
import NxObject.RomFsFormat
import NxObject.Utf8

/-!
# The RomFS reader

Construction checks that the tables the header locates lie inside the buffer; entries are checked as
they are read. Walks follow sibling offsets, and take the number of turns they may make.
-/
namespace NxObject.Romfs
open Outcome

inductive FromBytesError where
  | bufferTooSmall (required available : ℕ)
  | invalidHeaderSize (found : ℕ)
  | dirMetaTableBoundsOverflow (offset size : ℕ)
  | dirMetaTableOutOfBounds (offset size available : ℕ)
  | dirHashTableBoundsOverflow (offset size : ℕ)
  | dirHashTableOutOfBounds (offset size available : ℕ)
  | fileMetaTableBoundsOverflow (offset size : ℕ)
  | fileMetaTableOutOfBounds (offset size available : ℕ)
  | fileHashTableBoundsOverflow (offset size : ℕ)
  | fileHashTableOutOfBounds (offset size available : ℕ)
  | fileDataOffsetOutOfBounds (offset available : ℕ)
  | fileDataBoundsOverflow (fileDataOffset dataOffset dataSize : ℕ)
  | fileDataOutOfBounds (dataOffset dataSize available : ℕ)
  deriving DecidableEq, Repr

structure RootDirError where
  required : ℕ
  available : ℕ
  deriving DecidableEq, Repr

inductive OpenError where
  | bufferTooSmall (required available : ℕ)
  | pathNotFound
  | dirNotFound
  | fileNotFound
  deriving DecidableEq, Repr

structure RomFs where
  bytes : Bytes
  header : RomFsHeader
  deriving DecidableEq, Repr

def checkTable (available : ℕ) (offset size : UInt64) (overflow : ℕ → ℕ → FromBytesError)
    (outOfBounds : ℕ → ℕ → ℕ → FromBytesError) : Outcome FromBytesError Unit := do
  let stop ← okOr (checkedAdd offset.toNat size.toNat) (overflow offset.toNat size.toNat)
  if available < stop then err (outOfBounds offset.toNat size.toNat available) else pure ()

/-- Parse a RomFS, proving that its four tables lie inside the buffer. -/
def RomFs.tryFromBytes (bytes : Bytes) : Outcome FromBytesError RomFs := do
  ensure (0x50 ≤ bytes.length) (.bufferTooSmall 0x50 bytes.length)
  let header ← okOr (RomFsHeader.codec.fromPrefix bytes) (.bufferTooSmall 0x50 bytes.length)
  ensure (header.headerSize.toNat = 0x50) (.invalidHeaderSize header.headerSize.toNat)
  checkTable bytes.length header.dirMetaTableOffset header.dirMetaTableSize
    .dirMetaTableBoundsOverflow .dirMetaTableOutOfBounds
  checkTable bytes.length header.dirHashTableOffset header.dirHashTableSize
    .dirHashTableBoundsOverflow .dirHashTableOutOfBounds
  checkTable bytes.length header.fileMetaTableOffset header.fileMetaTableSize
    .fileMetaTableBoundsOverflow .fileMetaTableOutOfBounds
  checkTable bytes.length header.fileHashTableOffset header.fileHashTableSize
    .fileHashTableBoundsOverflow .fileHashTableOutOfBounds
  ensure (header.fileDataOffset.toNat ≤ bytes.length)
    (.fileDataOffsetOutOfBounds header.fileDataOffset.toNat bytes.length)
  pure ⟨bytes, header⟩

namespace RomFs
variable {ε : Type} (romfs : RomFs)

def dirMetaTable : Outcome ε Bytes := do
  let offset := romfs.header.dirMetaTableOffset.toNat
  let stop ← add offset romfs.header.dirMetaTableSize.toNat
  slice romfs.bytes offset stop

def fileMetaTable : Outcome ε Bytes := do
  let offset := romfs.header.fileMetaTableOffset.toNat
  let stop ← add offset romfs.header.fileMetaTableSize.toNat
  slice romfs.bytes offset stop

def fileData (offset size : ℕ) : Outcome ε Bytes := do
  let start ← add romfs.header.fileDataOffset.toNat offset
  let stop ← add start size
  slice romfs.bytes start stop

end RomFs

/-- What the three `from_offset` functions share: the fixed part of the entry at `offset`, and the name
that follows it, which reads as empty when it is not UTF-8. -/
def readEntry {ε H : Type} (codec : Codec H) (nameLen : H → UInt32) (tooSmall : ℕ → ℕ → ε)
    (table : Bytes) (tableBase : ℕ) (offset : UInt32) : Outcome ε (H × Text) := do
  let offset := offset.toNat
  let available ← add tableBase table.length
  if table.length ≤ offset then do
    let required ← add offset codec.size
    err (tooSmall required available)
  else
    let entryBytes ← slice table offset table.length
    match codec.fromPrefix entryBytes with
    | none => do
        let required ← add offset codec.size
        err (tooSmall required available)
    | some entry => do
        let nameOffset ← add offset codec.size
        let nameEnd ← okOr (checkedAdd nameOffset (nameLen entry).toNat)
          (tooSmall (2 ^ 64 - 1) available)
        if table.length < nameEnd then do
          let required ← add tableBase nameEnd
          err (tooSmall required available)
        else
          let nameBytes ← slice table nameOffset nameEnd
          pure (entry, (fromUtf8 nameBytes).getD [])

structure RomFsDir where
  entry : RomFsDirEntry
  name : Text
  deriving DecidableEq, Repr

structure RomFsFile where
  entry : RomFsFileEntry
  name : Text
  deriving DecidableEq, Repr

namespace RomFs
variable (romfs : RomFs)

def dirFromOffsetForRoot (offset : UInt32) (tableBase : ℕ) : Outcome RootDirError RomFsDir := do
  let table ← romfs.dirMetaTable
  let (entry, name) ← readEntry RomFsDirEntry.codec (·.nameLen) .mk table tableBase offset
  pure ⟨entry, name⟩

def dirFromOffset (tableBase : ℕ) (offset : UInt32) : Outcome OpenError RomFsDir := do
  let table ← romfs.dirMetaTable
  let (entry, name) ←
    readEntry RomFsDirEntry.codec (·.nameLen) .bufferTooSmall table tableBase offset
  pure ⟨entry, name⟩

def fileFromOffset (tableBase : ℕ) (offset : UInt32) : Outcome OpenError RomFsFile := do
  let table ← romfs.fileMetaTable
  let (entry, name) ←
    readEntry RomFsFileEntry.codec (·.nameLen) .bufferTooSmall table tableBase offset
  pure ⟨entry, name⟩

/-- The entry at `offset` of the directory table. -/
def readDir (offset : UInt32) : Outcome OpenError RomFsDir :=
  romfs.dirFromOffset romfs.header.dirMetaTableOffset.toNat offset

/-- The entry at `offset` of the file table. -/
def readFile (offset : UInt32) : Outcome OpenError RomFsFile :=
  romfs.fileFromOffset romfs.header.fileMetaTableOffset.toNat offset

def rootDir : Outcome RootDirError RomFsDir :=
  romfs.dirFromOffsetForRoot 0 romfs.header.dirMetaTableOffset.toNat

def findDir (fuel : ℕ) (dir : RomFsDir) (name : Text) : Outcome OpenError RomFsDir := do
  let found ← Chain.search romfs.readDir (·.entry.siblingOffset) NO_ENTRY (·.name == name) fuel
    dir.entry.childOffset
  okOr found .dirNotFound

def findFile (fuel : ℕ) (dir : RomFsDir) (name : Text) : Outcome OpenError RomFsFile := do
  let found ← Chain.search romfs.readFile (·.entry.siblingOffset) NO_ENTRY (·.name == name) fuel
    dir.entry.fileOffset
  okOr found .fileNotFound

/-- One turn over the path's components: the one before is entered, this one is kept. -/
def openStep (fuel : ℕ) (s : RomFsDir × Option Text) (component : Text) :
    Outcome OpenError (RomFsDir × Option Text) :=
  match s.2 with
  | some prev => do
      let dir ← romfs.findDir fuel s.1 prev
      pure (dir, some component)
  | none => pure (s.1, some component)

def openPath (fuel : ℕ) (path : Text) : Outcome OpenError RomFsFile := do
  let path := path.dropWhile (· == '/')
  if path = [] then err .pathNotFound
  else
    let root ← mapErr (fun e => .bufferTooSmall e.required e.available) romfs.rootDir
    let (dir, last) ← (path.splitOn '/').foldlM (romfs.openStep fuel) (root, none)
    match last with
    | some filename => romfs.findFile fuel dir filename
    | none => err .pathNotFound

end RomFs

/-- The file's bytes, whose bounds are checked here and not when the file was found. -/
def RomFsFile.data (romfs : RomFs) (file : RomFsFile) : Outcome FromBytesError Bytes := do
  let offset := file.entry.dataOffset.toNat
  let size := file.entry.dataSize.toNat
  let dataBase := romfs.header.fileDataOffset.toNat
  let absStart ← okOr (checkedAdd dataBase offset) (.fileDataBoundsOverflow dataBase offset size)
  let absEnd ← okOr (checkedAdd absStart size) (.fileDataBoundsOverflow dataBase offset size)
  if romfs.bytes.length < absEnd then err (.fileDataOutOfBounds offset size romfs.bytes.length)
  else romfs.fileData offset size

inductive RomFsEntry where
  | file (file : RomFsFile)
  | dir (dir : RomFsDir)
  deriving DecidableEq, Repr

/-- Walks one directory's children, subdirectories first and files after. -/
structure DirIterator where
  nextDirOffset : UInt32
  nextFileOffset : UInt32
  deriving DecidableEq, Repr

def RomFsDir.entries (dir : RomFsDir) : DirIterator := ⟨dir.entry.childOffset, dir.entry.fileOffset⟩

/-- `if offset != NO_ENTRY && let Ok(entry) = read(offset)`. -/
def readOk {ε α : Type} (read : UInt32 → Outcome ε α) (offset : UInt32) : Outcome ε (Option α) :=
  if offset = NO_ENTRY then ok none
  else
    match read offset with
    | .ok a => ok (some a)
    | .err _ => ok none
    | .panic => .panic
    | .running => .running

def DirIterator.next (romfs : RomFs) (it : DirIterator) :
    Outcome OpenError (Option RomFsEntry × DirIterator) := do
  match ← readOk romfs.readDir it.nextDirOffset with
  | some dir => pure (some (.dir dir), { it with nextDirOffset := dir.entry.siblingOffset })
  | none =>
      match ← readOk romfs.readFile it.nextFileOffset with
      | some file => pure (some (.file file), { it with nextFileOffset := file.entry.siblingOffset })
      | none => pure (none, it)

def DirIterator.collect (romfs : RomFs) : ℕ → DirIterator → Outcome OpenError (List RomFsEntry)
  | 0, _ => running
  | fuel + 1, it => do
      let (entry, it) ← it.next romfs
      match entry with
      | some entry => do
          let rest ← collect romfs fuel it
          pure (entry :: rest)
      | none => pure []

end NxObject.Romfs
