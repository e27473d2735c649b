import NxObject.Codec
import NxObject.Outcome

/-!
# The content meta file

A header, an extended header whose length the header declares, and one record for every content of a title.
There is no magic: a buffer is accepted if the declared counts fit its length.
-/
namespace NxObject.ContentMeta
open Outcome

structure CnmtHeader where
  titleId : UInt64
  titleVersion : UInt32
  metaType : UInt8
  reserved0xd : UInt8
  extendedHeaderSize : UInt16
  contentEntryCount : UInt16
  metaEntryCount : UInt16
  reserved0x14 : List.Vector UInt8 0xC
  deriving DecidableEq

def CnmtHeader.codec : Codec CnmtHeader :=
  (Codec.u64.pair <| Codec.u32.pair <| Codec.u8.pair <| Codec.u8.pair <| Codec.u16.pair <|
    Codec.u16.pair <| Codec.u16.pair <| Codec.bytes 0xC).iso
    { toFun := fun (titleId, titleVersion, metaType, reserved0xd, extendedHeaderSize, contentEntryCount,
          metaEntryCount, reserved0x14) =>
        { titleId, titleVersion, metaType, reserved0xd, extendedHeaderSize, contentEntryCount,
          metaEntryCount, reserved0x14 }
      invFun := fun h => (h.titleId, h.titleVersion, h.metaType, h.reserved0xd, h.extendedHeaderSize,
        h.contentEntryCount, h.metaEntryCount, h.reserved0x14)
      left_inv := fun _ => rfl
      right_inv := fun _ => rfl }

theorem CnmtHeader.codec_size : CnmtHeader.codec.size = 0x20 := rfl

structure CnmtApplicationExtendedHeader where
  patchTitleId : UInt64
  requiredSystemVersion : UInt32
  requiredApplicationVersion : UInt32
  deriving DecidableEq, Repr

def CnmtApplicationExtendedHeader.codec : Codec CnmtApplicationExtendedHeader :=
  (Codec.u64.pair <| Codec.u32.pair Codec.u32).iso
    { toFun := fun (patchTitleId, requiredSystemVersion, requiredApplicationVersion) =>
        ⟨patchTitleId, requiredSystemVersion, requiredApplicationVersion⟩
      invFun := fun e => (e.patchTitleId, e.requiredSystemVersion, e.requiredApplicationVersion)
      left_inv := fun _ => rfl
      right_inv := fun _ => rfl }

theorem CnmtApplicationExtendedHeader.codec_size : CnmtApplicationExtendedHeader.codec.size = 0x10 := rfl

structure CnmtContentRecord where
  hash : List.Vector UInt8 0x20
  ncaId : List.Vector UInt8 0x10
  size : List.Vector UInt8 6
  contentType : UInt8
  idOffset : UInt8
  deriving DecidableEq

def CnmtContentRecord.codec : Codec CnmtContentRecord :=
  ((Codec.bytes 0x20).pair <| (Codec.bytes 0x10).pair <| (Codec.bytes 6).pair <|
    Codec.u8.pair Codec.u8).iso
    { toFun := fun (hash, ncaId, size, contentType, idOffset) => ⟨hash, ncaId, size, contentType, idOffset⟩
      invFun := fun r => (r.hash, r.ncaId, r.size, r.contentType, r.idOffset)
      left_inv := fun _ => rfl
      right_inv := fun _ => rfl }

theorem CnmtContentRecord.codec_size : CnmtContentRecord.codec.size = 0x38 := rfl

inductive CnmtContentMetaType where
  | application
  | patch
  | addOnContent
  | delta
  deriving DecidableEq, Repr

def CnmtContentMetaType.toU8 : CnmtContentMetaType → UInt8
  | application => 0x80
  | patch => 0x81
  | addOnContent => 0x82
  | delta => 0x83

inductive CnmtContentType where
  | cnmt
  | program
  | data
  | control
  | htmlDocument
  | legalInformation
  | deltaFragment
  deriving DecidableEq, Repr

def CnmtContentType.toU8 : CnmtContentType → UInt8
  | cnmt => 0
  | program => 1
  | data => 2
  | control => 3
  | htmlDocument => 4
  | legalInformation => 5
  | deltaFragment => 6

/-! ## The reader -/

inductive FromBytesError where
  | bufferTooSmall (required available : ℕ)
  | extendedHeaderOutOfBounds (extendedHeaderSize available : ℕ)
  | recordsOutOfBounds (contentEntryCount available : ℕ)
  deriving DecidableEq, Repr

structure Cnmt where
  header : CnmtHeader
  extendedHeader : Option CnmtApplicationExtendedHeader
  records : List CnmtContentRecord
  deriving DecidableEq

/-- The header declares an application, and an extended header of the size of an application's. -/
def CnmtHeader.IsApplication (header : CnmtHeader) : Prop :=
  header.extendedHeaderSize.toNat = 0x10 ∧ header.metaType = CnmtContentMetaType.application.toU8

instance (header : CnmtHeader) : Decidable header.IsApplication := inferInstanceAs (Decidable (_ ∧ _))

/-- The extended header of an application; that of any other meta type is left alone. -/
def readExtendedHeader {ε : Type} (header : CnmtHeader) (bytes : Bytes) :
    Outcome ε (Option CnmtApplicationExtendedHeader) :=
  if header.IsApplication then do
    let extended ← slice bytes 0x20 bytes.length
    pure (CnmtApplicationExtendedHeader.codec.fromPrefix extended)
  else pure none

/-- Validate `bytes` as a CNMT, proving every record lies inside the buffer. -/
def Cnmt.tryFromBytes (bytes : Bytes) : Outcome FromBytesError Cnmt := do
  let header ← okOr (CnmtHeader.codec.fromPrefix bytes) (.bufferTooSmall 0x20 bytes.length)
  let rest := bytes.drop 0x20
  let extendedHeaderSize := header.extendedHeaderSize.toNat
  ensure (extendedHeaderSize ≤ rest.length) (.extendedHeaderOutOfBounds extendedHeaderSize rest.length)
  let rest := rest.drop extendedHeaderSize
  let extendedHeader ← readExtendedHeader header bytes
  let count := header.contentEntryCount.toNat
  let records ← okOr (CnmtContentRecord.codec.prefixElems count rest)
    (.recordsOutOfBounds count rest.length)
  pure ⟨header, extendedHeader, records⟩

/-- The meta type `value` names, or nothing for one that is not modelled: a delta is not. -/
def metaType (value : UInt8) : Option CnmtContentMetaType :=
  [.application, .patch, .addOnContent].find? fun t => value = CnmtContentMetaType.toU8 t

/-- The content type `value` names. -/
def contentType (value : UInt8) : Option CnmtContentType :=
  [.cnmt, .program, .data, .control, .htmlDocument, .legalInformation, .deltaFragment].find? fun t =>
    value = CnmtContentType.toU8 t

namespace Cnmt
variable (cnmt : Cnmt)

def titleId : UInt64 := cnmt.header.titleId

def titleVersion : UInt32 := cnmt.header.titleVersion

def metaType : Option CnmtContentMetaType := ContentMeta.metaType cnmt.header.metaType

def recordCount : ℕ := cnmt.records.length

end Cnmt

/-- Length of the NCA in bytes, stored across six bytes. -/
def CnmtContentRecord.sizeValue {ε : Type} (record : CnmtContentRecord) : Outcome ε ℕ := do
  let bytes ← copyFromSlice (List.replicate 8 0) 0 record.size.toList
  pure (ofLe bytes)

end NxObject.ContentMeta
