import NxObject.Buffer

/-!
# The NRO image

A start stub, a header that lies over the front of the text segment, three segments at the offsets the
linker placed them at, and behind them an optional section of assets for the homebrew menu.
-/
namespace NxObject.Relocatable
open Outcome

/-! ## The format -/

def NRO_MAGIC : UInt32 := 0x304f524e
def ASSET_MAGIC : UInt32 := 0x54455341

structure NroSegment where
  fileOff : UInt32
  size : UInt32
  deriving DecidableEq, Repr

def NroSegment.codec : Codec NroSegment :=
  (Codec.u32.pair Codec.u32).iso
    { toFun := fun (fileOff, size) => { fileOff, size }
      invFun := fun s => (s.fileOff, s.size)
      left_inv := fun _ => rfl
      right_inv := fun _ => rfl }

structure NroStart where
  unused : UInt32
  modOffset : UInt32
  padding : List.Vector UInt8 8
  deriving DecidableEq

def NroStart.codec : Codec NroStart :=
  (Codec.u32.pair <| Codec.u32.pair <| Codec.bytes 8).iso
    { toFun := fun (unused, modOffset, padding) => { unused, modOffset, padding }
      invFun := fun s => (s.unused, s.modOffset, s.padding)
      left_inv := fun _ => rfl
      right_inv := fun _ => rfl }

theorem NroStart.codec_size : NroStart.codec.size = 0x10 := rfl

/-- The segments are those of the code, the constants and the writable data, in this order. -/
structure NroHeader where
  magic : UInt32
  version : UInt32
  size : UInt32
  flags : UInt32
  segments : Fin 3 → NroSegment
  bssSize : UInt32
  reserved : UInt32
  buildId : List.Vector UInt8 0x20
  reserved2 : List.Vector UInt8 0x20
  deriving DecidableEq

def NroHeader.codec : Codec NroHeader :=
  (Codec.u32.pair <| Codec.u32.pair <| Codec.u32.pair <| Codec.u32.pair <|
    (Codec.array 3 NroSegment.codec).pair <| Codec.u32.pair <| Codec.u32.pair <|
    (Codec.bytes 0x20).pair <| Codec.bytes 0x20).iso
    { toFun := fun (magic, version, size, flags, segments, bssSize, reserved, buildId, reserved2) =>
        { magic, version, size, flags, segments, bssSize, reserved, buildId, reserved2 }
      invFun := fun h => (h.magic, h.version, h.size, h.flags, h.segments, h.bssSize, h.reserved,
        h.buildId, h.reserved2)
      left_inv := fun _ => rfl
      right_inv := fun _ => rfl }

theorem NroHeader.codec_size : NroHeader.codec.size = 0x70 := rfl

/-- Offsets count from the start of the asset header. -/
structure NroAssetSection where
  offset : UInt64
  size : UInt64
  deriving DecidableEq, Repr

def NroAssetSection.codec : Codec NroAssetSection :=
  (Codec.u64.pair Codec.u64).iso
    { toFun := fun (offset, size) => { offset, size }
      invFun := fun s => (s.offset, s.size)
      left_inv := fun _ => rfl
      right_inv := fun _ => rfl }

structure NroAssetHeader where
  magic : UInt32
  version : UInt32
  icon : NroAssetSection
  nacp : NroAssetSection
  romfs : NroAssetSection
  deriving DecidableEq, Repr

def NroAssetHeader.codec : Codec NroAssetHeader :=
  (Codec.u32.pair <| Codec.u32.pair <| NroAssetSection.codec.pair <| NroAssetSection.codec.pair
    NroAssetSection.codec).iso
    { toFun := fun (magic, version, icon, nacp, romfs) => { magic, version, icon, nacp, romfs }
      invFun := fun h => (h.magic, h.version, h.icon, h.nacp, h.romfs)
      left_inv := fun _ => rfl
      right_inv := fun _ => rfl }

theorem NroAssetHeader.codec_size : NroAssetHeader.codec.size = 0x38 := rfl

/-! ## The builder -/

/-- What the setters of the builder fill in; every value of this type is reached by them. -/
structure NroBuilder where
  text : Option Bytes := none
  textVaddr : UInt32 := 0
  rodata : Option Bytes := none
  rodataVaddr : UInt32 := 0
  data : Option Bytes := none
  dataVaddr : UInt32 := 0
  bssSize : UInt32 := 0
  buildId : Option (List.Vector UInt8 0x20) := none
  flags : UInt32 := 0
  icon : Option Bytes := none
  nacp : Option Bytes := none
  romfs : Option Bytes := none
  deriving DecidableEq

inductive BuildError where
  | missingText
  | missingRodata
  | missingData
  deriving DecidableEq, Repr

/-- The section an asset is recorded in, and the offset behind it. An absent asset takes no space. -/
def assetEntry (asset : Option Bytes) (assetOffset : ℕ) : NroAssetSection × ℕ :=
  match asset with
  | some bytes =>
    (⟨UInt64.ofNat assetOffset, UInt64.ofNat bytes.length⟩, assetOffset + bytes.length)
  | none => (⟨0, 0⟩, assetOffset)

/-- Write an asset at the cursor, and move the cursor behind it. -/
def writeAsset {ε : Type} (asset : Option Bytes) (buf : Bytes) (currentPos : ℕ) :
    Outcome ε (Bytes × ℕ) :=
  match asset with
  | some bytes => do
    let buf ← copyFromSlice buf currentPos bytes
    pure (buf, currentPos + bytes.length)
  | none => pure (buf, currentPos)

namespace NroBuilder
variable (b : NroBuilder)

def hasAssets : Bool := b.icon.isSome || b.nacp.isSome || b.romfs.isSome

def assetHeader : NroAssetHeader :=
  let assetOffset := 0x38
  let (icon, assetOffset) := assetEntry b.icon assetOffset
  let (nacp, assetOffset) := assetEntry b.nacp assetOffset
  let (romfs, _) := assetEntry b.romfs assetOffset
  { magic := ASSET_MAGIC, version := 0, icon, nacp, romfs }

def writeAssets {ε : Type} (buf : Bytes) (nroSize : ℕ) : Outcome ε Bytes := do
  let buf ← copyFromSlice buf nroSize (NroAssetHeader.codec.enc b.assetHeader)
  let (buf, currentPos) ← writeAsset b.icon buf (nroSize + 0x38)
  let (buf, currentPos) ← writeAsset b.nacp buf currentPos
  let (buf, _) ← writeAsset b.romfs buf currentPos
  pure buf

def build : Outcome BuildError Bytes := do
  let text ← okOr b.text .missingText
  let rodata ← okOr b.rodata .missingRodata
  let data ← okOr b.data .missingData
  let textPadded ← padToAlignment text 0x1000
  let rodataPadded ← padToAlignment rodata 0x1000
  let dataPadded ← padToAlignment data 0x1000
  let textOffset := b.textVaddr
  let rodataOffset := b.rodataVaddr
  let dataOffset := b.dataVaddr
  let nroSize ← add32 dataOffset.toNat (dataPadded.length % 2 ^ 32)
  let totalSize :=
    if b.hasAssets then
      nroSize + 0x38 + (b.icon.elim 0 List.length) + (b.nacp.elim 0 List.length) +
        (b.romfs.elim 0 List.length)
    else nroSize
  -- A sum that overflows is past what can be allocated as well.
  let buf ← zeroed totalSize
  let buf ← copyFromSlice buf textOffset.toNat textPadded
  let buf ← copyFromSlice buf rodataOffset.toNat rodataPadded
  let buf ← copyFromSlice buf dataOffset.toNat dataPadded
  let header : NroHeader :=
    { magic := NRO_MAGIC
      version := 0
      size := UInt32.ofNat nroSize
      flags := b.flags
      segments :=
        ![⟨textOffset, UInt32.ofNat textPadded.length⟩, ⟨rodataOffset, UInt32.ofNat rodataPadded.length⟩,
          ⟨dataOffset, UInt32.ofNat dataPadded.length⟩]
      bssSize := b.bssSize
      reserved := 0
      buildId := b.buildId.getD (List.Vector.replicate 0x20 0)
      reserved2 := List.Vector.replicate 0x20 0 }
  -- The stub in front of the header stays the one the text segment begins with.
  let buf ← copyFromSlice buf 0x10 (NroHeader.codec.enc header)
  if b.hasAssets then b.writeAssets buf nroSize else pure buf

end NroBuilder

/-! ## The reader -/

inductive FromBytesError where
  | bufferTooSmall (required available : ℕ)
  | invalidMagic (found : UInt32)
  | segmentBoundsOverflow (segmentIndex offset size : ℕ)
  | segmentOutOfBounds (segmentIndex offset size available : ℕ)
  | assetSectionBoundsOverflow (sectionName : String) (base offset size : ℕ)
  | assetSectionOutOfBounds (sectionName : String) (offset size available : ℕ)
  deriving DecidableEq, Repr

structure Nro where
  bytes : Bytes
  start : NroStart
  header : NroHeader
  assetHeader : Option NroAssetHeader
  deriving DecidableEq

def checkSegment (seg : NroSegment) (idx available : ℕ) : Outcome FromBytesError Unit := do
  let off := seg.fileOff.toNat
  let size := seg.size.toNat
  let stop ← okOr (checkedAdd off size) (.segmentBoundsOverflow idx off size)
  ensure (stop ≤ available) (.segmentOutOfBounds idx off size available)

/-- The asset header, if one stands behind the image proper. -/
def findAssetHeader (bytes : Bytes) (nroSize : ℕ) : Option NroAssetHeader :=
  if nroSize + 0x38 < bytes.length then
    (NroAssetHeader.codec.fromPrefix (bytes.drop nroSize)).filter (·.magic = ASSET_MAGIC)
  else none

/-- An empty section is valid wherever it is said to be. -/
def checkAssetSection (sectionName : String) (sect : NroAssetSection) (base available : ℕ) :
    Outcome FromBytesError Unit :=
  let off := sect.offset.toNat
  let size := sect.size.toNat
  if size = 0 then pure ()
  else do
    let absOff ← okOr (checkedAdd base off) (.assetSectionBoundsOverflow sectionName base off size)
    let stop ← okOr (checkedAdd absOff size) (.assetSectionBoundsOverflow sectionName base off size)
    ensure (stop ≤ available) (.assetSectionOutOfBounds sectionName absOff size available)

def checkAssetHeader (header : NroAssetHeader) (base available : ℕ) : Outcome FromBytesError Unit :=
  [("icon", header.icon), ("nacp", header.nacp), ("romfs", header.romfs)].forM fun (name, sect) =>
    checkAssetSection name sect base available

/-- Validate `bytes` as an NRO, proving every segment lies inside the buffer. -/
def Nro.tryFromBytes (bytes : Bytes) : Outcome FromBytesError Nro := do
  ensure (0x80 ≤ bytes.length) (.bufferTooSmall 0x80 bytes.length)
  let start ← okOr (NroStart.codec.fromPrefix bytes) (.bufferTooSmall 0x10 bytes.length)
  let rest ← slice bytes 0x10 bytes.length
  let header ← okOr (NroHeader.codec.fromPrefix rest) (.bufferTooSmall 0x80 bytes.length)
  ensure (header.magic = NRO_MAGIC) (.invalidMagic header.magic)
  (List.finRange 3).forM fun idx => checkSegment (header.segments idx) idx bytes.length
  let assetHeader := findAssetHeader bytes header.size.toNat
  match assetHeader with
  | some assetHdr => checkAssetHeader assetHdr header.size.toNat bytes.length
  | none => pure ()
  pure ⟨bytes, start, header, assetHeader⟩

namespace Nro
variable {ε : Type} (nro : Nro)

def segment (idx : Fin 3) : Outcome ε Bytes :=
  let seg := nro.header.segments idx
  slice nro.bytes seg.fileOff.toNat (seg.fileOff.toNat + seg.size.toNat)

def textSegment : Outcome ε Bytes := nro.segment 0

def rodataSegment : Outcome ε Bytes := nro.segment 1

def dataSegment : Outcome ε Bytes := nro.segment 2

/-- The position is computed before the size is looked at. -/
def assetSection (f : NroAssetHeader → NroAssetSection) : Outcome ε (Option Bytes) :=
  match nro.assetHeader with
  | none => pure none
  | some header => do
    let sect := f header
    let off ← add nro.header.size.toNat sect.offset.toNat
    let size := sect.size.toNat
    if size = 0 then pure none
    else do
      let stop ← add off size
      let bytes ← slice nro.bytes off stop
      pure (some bytes)

def assetIcon : Outcome ε (Option Bytes) := nro.assetSection (·.icon)

def assetNacp : Outcome ε (Option Bytes) := nro.assetSection (·.nacp)

def assetRomfs : Outcome ε (Option Bytes) := nro.assetSection (·.romfs)

end Nro
end NxObject.Relocatable
