import NxObject.KeyOrder
import NxObject.Nro
import NxObject.Nso
import NxObject.Utf8

/-!
# Segments of an ELF

The `PT_LOAD` segments are sorted by address and taken as text, read-only data and data. The parser of the
file itself is a parameter: what its iterators yield is what there is to go by.
-/
namespace NxObject.Elf
open Outcome

def PT_LOAD : UInt32 := 1

def NT_GNU_BUILD_ID : ℕ := 3

/-! ## What the parser of the file yields -/

structure ProgramHeader where
  pType : UInt32
  pVaddr : UInt64
  pMemsz : UInt64
  pFilesz : UInt64
  contents : Option Bytes
  deriving DecidableEq, Repr

structure Segment where
  address : UInt64
  size : UInt64
  fileSize : UInt64
  data : Option Bytes
  deriving DecidableEq, Repr

structure Section where
  name : Option Text
  isNote : Bool
  data : Option Bytes
  address : UInt64
  size : UInt64
  deriving DecidableEq, Repr

inductive Architecture where
  | aarch64
  | other
  deriving DecidableEq, Repr

structure ElfFile where
  architecture : Architecture
  programHeaders : List ProgramHeader
  segments : List Segment
  sections : List Section
  deriving DecidableEq, Repr

/-! ## The build ID -/

abbrev BuildId := List.Vector UInt8 0x20

/-- The build ID in a note section, if its first note is one. -/
def noteBuildId {ε : Type} (data : Bytes) : Outcome ε (Option BuildId) :=
  if data.length < 12 then pure none
  else do
    let namesz := ofLe (← slice data 0 4)
    let descsz := ofLe (← slice data 4 8)
    let noteType := ofLe (← slice data 8 12)
    if noteType = NT_GNU_BUILD_ID ∧ namesz = 4 then
      let nameEnd ← add 12 namesz
      if data.length < nameEnd then pure none
      else
        let name ← slice data 12 nameEnd
        if name ≠ [0x47, 0x4E, 0x55, 0x00] then pure none
        else
          let descOffset ← add 12 ((namesz + 3) &&& (2 ^ 64 - 1 - 3))
          if data.length < descOffset then pure none
          else
            let copySize := min (min descsz 0x20) (data.length - descOffset)
            let desc ← slice data descOffset (descOffset + copySize)
            let buildId ← copyFromSlice (List.replicate 0x20 0) 0 desc
            pure (some ((Codec.bytes 0x20).dec buildId))
    else pure none

/-- The first build ID among the note sections that can be read. -/
def extractBuildId {ε : Type} : List Section → Outcome ε (Option BuildId)
  | [] => pure none
  | sect :: sections =>
    match sect.isNote, sect.data with
    | true, some data => do
        match ← noteBuildId data with
        | some buildId => pure (some buildId)
        | none => extractBuildId sections
    | _, _ => extractBuildId sections

/-! ## Parsing -/

structure SectionInfo where
  addr : UInt64
  size : UInt64
  deriving DecidableEq, Repr

structure ElfSegments where
  text : Bytes
  textVaddr : UInt64
  rodata : Bytes
  rodataVaddr : UInt64
  data : Bytes
  dataVaddr : UInt64
  bssSize : UInt64
  buildId : Option BuildId
  mod0Offset : Option UInt32
  dynamic : Option SectionInfo
  dynstr : Option SectionInfo
  dynsym : Option SectionInfo
  ehFrameHdr : Option SectionInfo
  deriving DecidableEq

inductive ParseError (E : Type) where
  | invalidElf (source : E)
  | unsupportedArch
  | missingText
  | missingRodata
  | missingData
  | unreadableSegment (address : UInt64)
  deriving DecidableEq, Repr

/-- What is kept of a segment until the segments are sorted. -/
structure Loaded where
  address : UInt64
  data : Bytes
  memsz : UInt64
  filesz : UInt64
  deriving DecidableEq, Repr

variable {E : Type}

def readSegment (seg : Segment) : Outcome (ParseError E) Loaded := do
  let data ← okOr seg.data (.unreadableSegment seg.address)
  pure ⟨seg.address, data, seg.size, seg.fileSize⟩

/-- The segments whose header is a `PT_LOAD`, as the two iterators pair them up. -/
def ElfFile.pairedSegments (elf : ElfFile) : List Segment :=
  ((elf.programHeaders.zip elf.segments).filter fun (raw, _) => raw.pType = PT_LOAD).map (·.2)

/-- `(value + 0xFFF) & !0xFFF`. -/
def pageAlign {ε : Type} (value : ℕ) : Outcome ε ℕ := do
  let sum ← add value 0xFFF
  pure (sum &&& (2 ^ 64 - 1 - 0xFFF))

/-- The size of a fourth segment, or what the third takes up in memory beyond its pages in the file. -/
def bssSizeOf (segments : List Loaded) : Outcome (ParseError E) ℕ :=
  if 4 ≤ segments.length then do
    let seg ← okOr segments[3]? .missingData
    pageAlign seg.memsz.toNat
  else do
    let seg ← okOr segments[2]? .missingData
    if seg.filesz.toNat < seg.memsz.toNat then
      let alignedFilesz ← pageAlign seg.filesz.toNat
      if alignedFilesz < seg.memsz.toNat then pageAlign (seg.memsz.toNat - alignedFilesz)
      else pure 0
    else pure 0

/-- The second word of the text, if it is an offset into it. -/
def mod0OffsetOf {ε : Type} (text : Bytes) : Outcome ε (Option UInt32) :=
  if 8 ≤ text.length then do
    let offset := ofLe (← slice text 4 8)
    if 0 < offset ∧ offset < text.length % 2 ^ 32 then pure (some (UInt32.ofNat offset)) else pure none
  else pure none

def sectionInfo (sections : List Section) (name : Text) : Option SectionInfo :=
  ((sections.filter (·.name = some name)).getLast?).map fun sect => ⟨sect.address, sect.size⟩

/-- Read an AArch64 ELF and pull out its segments, BSS size, and build ID. -/
def ElfSegments.parse (object : Bytes → Except E ElfFile) (data : Bytes) :
    Outcome (ParseError E) ElfSegments := do
  let elf ← mapErr .invalidElf (ofExcept (object data))
  ensure (elf.architecture = .aarch64) .unsupportedArch
  let segments ← elf.pairedSegments.mapM readSegment
  let segments := sortOn (·.address.toNat) segments
  let text ← okOr segments[0]? .missingText
  let rodata ← okOr segments[1]? .missingRodata
  let data ← okOr segments[2]? .missingData
  let bssSize ← bssSizeOf segments
  let buildId ← extractBuildId elf.sections
  let mod0Offset ← mod0OffsetOf text.data
  pure
    { text := text.data
      textVaddr := text.address
      rodata := rodata.data
      rodataVaddr := rodata.address
      data := data.data
      dataVaddr := data.address
      bssSize := UInt64.ofNat bssSize
      buildId
      mod0Offset
      dynamic := sectionInfo elf.sections ".dynamic".toList
      dynstr := sectionInfo elf.sections ".dynstr".toList
      dynsym := sectionInfo elf.sections ".dynsym".toList
      ehFrameHdr := sectionInfo elf.sections ".eh_frame_hdr".toList }

namespace ElfSegments
variable (segments : ElfSegments)

def intoNroBuilder : Relocatable.NroBuilder where
  text := some segments.text
  textVaddr := segments.textVaddr.toUInt32
  rodata := some segments.rodata
  rodataVaddr := segments.rodataVaddr.toUInt32
  data := some segments.data
  dataVaddr := segments.dataVaddr.toUInt32
  bssSize := segments.bssSize.toUInt32
  buildId := segments.buildId

def intoNsoBuilder : Executable.NsoBuilder where
  text := some segments.text
  textVaddr := segments.textVaddr.toUInt32
  rodata := some segments.rodata
  rodataVaddr := segments.rodataVaddr.toUInt32
  data := some segments.data
  dataVaddr := segments.dataVaddr.toUInt32
  bssSize := segments.bssSize.toUInt32
  moduleId := segments.buildId

end ElfSegments
end NxObject.Elf
