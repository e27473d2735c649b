import NxObject.Buffer
import NxObject.Codec
import NxObject.Utf8

/-!
# The NPDM descriptor

Three headers, of which the last two each own a filesystem-access, a service-access and a
kernel-capability block. The offsets inside a section count from the start of that section.
-/
namespace NxObject.ProgramMeta
open Outcome

def META_MAGIC : UInt32 := 0x4154454d
def ACID_MAGIC : UInt32 := 0x44494341
def ACI0_MAGIC : UInt32 := 0x30494341

def zeroes (n : ℕ) : List.Vector UInt8 n := List.Vector.replicate n 0

structure NpdmHeader where
  magic : UInt32
  signatureKeyGeneration : UInt32
  reserved08 : UInt32
  flags : UInt8
  reserved0d : UInt8
  mainThreadPriority : UInt8
  mainThreadCoreNumber : UInt8
  reserved10 : UInt32
  systemResourceSize : UInt32
  version : UInt32
  mainThreadStackSize : UInt32
  name : List.Vector UInt8 16
  productCode : List.Vector UInt8 16
  reserved40 : List.Vector UInt8 48
  aciOffset : UInt32
  aciSize : UInt32
  acidOffset : UInt32
  acidSize : UInt32
  deriving DecidableEq

def NpdmHeader.codec : Codec NpdmHeader :=
  (Codec.u32.pair <| Codec.u32.pair <| Codec.u32.pair <| Codec.u8.pair <| Codec.u8.pair <|
    Codec.u8.pair <| Codec.u8.pair <| Codec.u32.pair <| Codec.u32.pair <| Codec.u32.pair <|
    Codec.u32.pair <| (Codec.bytes 16).pair <| (Codec.bytes 16).pair <| (Codec.bytes 48).pair <|
    Codec.u32.pair <| Codec.u32.pair <| Codec.u32.pair Codec.u32).iso
    { toFun := fun (magic, signatureKeyGeneration, reserved08, flags, reserved0d, mainThreadPriority,
          mainThreadCoreNumber, reserved10, systemResourceSize, version, mainThreadStackSize, name,
          productCode, reserved40, aciOffset, aciSize, acidOffset, acidSize) =>
        { magic, signatureKeyGeneration, reserved08, flags, reserved0d, mainThreadPriority,
          mainThreadCoreNumber, reserved10, systemResourceSize, version, mainThreadStackSize, name,
          productCode, reserved40, aciOffset, aciSize, acidOffset, acidSize }
      invFun := fun h => (h.magic, h.signatureKeyGeneration, h.reserved08, h.flags, h.reserved0d,
        h.mainThreadPriority, h.mainThreadCoreNumber, h.reserved10, h.systemResourceSize, h.version,
        h.mainThreadStackSize, h.name, h.productCode, h.reserved40, h.aciOffset, h.aciSize,
        h.acidOffset, h.acidSize)
      left_inv := fun _ => rfl
      right_inv := fun _ => rfl }

theorem NpdmHeader.codec_size : NpdmHeader.codec.size = 0x80 := rfl

structure AcidHeader where
  signature : List.Vector UInt8 0x100
  publicKey : List.Vector UInt8 0x100
  magic : UInt32
  size : UInt32
  version : UInt8
  reserved209 : List.Vector UInt8 3
  flags : UInt32
  programIdMin : UInt64
  programIdMax : UInt64
  facOffset : UInt32
  facSize : UInt32
  sacOffset : UInt32
  sacSize : UInt32
  kcOffset : UInt32
  kcSize : UInt32
  reserved238 : UInt64
  deriving DecidableEq

def AcidHeader.codec : Codec AcidHeader :=
  ((Codec.bytes 0x100).pair <| (Codec.bytes 0x100).pair <| Codec.u32.pair <| Codec.u32.pair <|
    Codec.u8.pair <| (Codec.bytes 3).pair <| Codec.u32.pair <| Codec.u64.pair <| Codec.u64.pair <|
    Codec.u32.pair <| Codec.u32.pair <| Codec.u32.pair <| Codec.u32.pair <| Codec.u32.pair <|
    Codec.u32.pair Codec.u64).iso
    { toFun := fun (signature, publicKey, magic, size, version, reserved209, flags, programIdMin,
          programIdMax, facOffset, facSize, sacOffset, sacSize, kcOffset, kcSize, reserved238) =>
        { signature, publicKey, magic, size, version, reserved209, flags, programIdMin, programIdMax,
          facOffset, facSize, sacOffset, sacSize, kcOffset, kcSize, reserved238 }
      invFun := fun h => (h.signature, h.publicKey, h.magic, h.size, h.version, h.reserved209, h.flags,
        h.programIdMin, h.programIdMax, h.facOffset, h.facSize, h.sacOffset, h.sacSize, h.kcOffset,
        h.kcSize, h.reserved238)
      left_inv := fun _ => rfl
      right_inv := fun _ => rfl }

theorem AcidHeader.codec_size : AcidHeader.codec.size = 0x240 := rfl

structure Aci0Header where
  magic : UInt32
  reserved04 : List.Vector UInt8 12
  programId : UInt64
  reserved18 : UInt64
  facOffset : UInt32
  facSize : UInt32
  sacOffset : UInt32
  sacSize : UInt32
  kcOffset : UInt32
  kcSize : UInt32
  reserved38 : UInt64
  deriving DecidableEq

def Aci0Header.codec : Codec Aci0Header :=
  (Codec.u32.pair <| (Codec.bytes 12).pair <| Codec.u64.pair <| Codec.u64.pair <| Codec.u32.pair <|
    Codec.u32.pair <| Codec.u32.pair <| Codec.u32.pair <| Codec.u32.pair <|
    Codec.u32.pair Codec.u64).iso
    { toFun := fun (magic, reserved04, programId, reserved18, facOffset, facSize, sacOffset, sacSize,
          kcOffset, kcSize, reserved38) =>
        { magic, reserved04, programId, reserved18, facOffset, facSize, sacOffset, sacSize, kcOffset,
          kcSize, reserved38 }
      invFun := fun h => (h.magic, h.reserved04, h.programId, h.reserved18, h.facOffset, h.facSize,
        h.sacOffset, h.sacSize, h.kcOffset, h.kcSize, h.reserved38)
      left_inv := fun _ => rfl
      right_inv := fun _ => rfl }

theorem Aci0Header.codec_size : Aci0Header.codec.size = 0x40 := rfl

/-! ## Kernel capabilities -/

structure MapRegionDescriptor where
  regionType : UInt8
  isRo : Bool
  deriving DecidableEq, Repr

/-- The named system calls stand in the order of their names. -/
inductive KernelCapability where
  | kernelFlags (highestThreadPriority lowestThreadPriority highestCpuId lowestCpuId : UInt8)
  | syscalls (calls : List (Text × UInt64))
  | map (address size : UInt64) (isRo isIo : Bool)
  | mapPage (page : UInt64)
  | mapRegion (regions : List MapRegionDescriptor)
  | irqPair (irq₀ irq₁ : UInt16)
  | applicationType (appType : UInt16)
  | minKernelVersion (minKernel : UInt64)
  | handleTableSize (size : UInt16)
  | debugFlags (allowDebug forceDebugProd forceDebug : Bool)
  deriving DecidableEq, Repr

/-- The bits of `value` under `mask`, moved up by `shift`. -/
def field (value mask shift : UInt32) : UInt32 := (value &&& mask) <<< shift

def flag (set : Bool) (shift : UInt32) : UInt32 := if set then 1 <<< shift else 0

/-- Sets the bit of one system call in the eight masks and marks the mask as used. -/
def setSyscall (s : List UInt32 × List Bool) (syscallId : UInt64) : List UInt32 × List Bool :=
  let maskIdx := syscallId.toNat / 24
  let bitOffset := syscallId.toNat % 24 + 5
  if maskIdx < 8 ∧ bitOffset < 32 then
    (s.1.modify maskIdx (· ||| flag true (UInt32.ofNat bitOffset)), s.2.set maskIdx true)
  else s

def encodeSyscalls (calls : List (Text × UInt64)) : List UInt32 :=
  let masks := (List.range 8).map fun idx => (0b1111 : UInt32) ||| field (UInt32.ofNat idx) 0x7 29
  let (masks, used) := (calls.map Prod.snd).foldl setSyscall (masks, List.replicate 8 false)
  (List.range 8).reverse.foldl
    (fun masks idx => if used.getD idx false then masks else masks.eraseIdx idx) masks

/-- The descriptors of a capability, each marked by its trailing ones. -/
def KernelCapability.encode : KernelCapability → List UInt32
  | kernelFlags highestThreadPriority lowestThreadPriority highestCpuId lowestCpuId =>
    [(0b111 : UInt32) ||| field lowestThreadPriority.toUInt32 0x3F 4 |||
      field highestThreadPriority.toUInt32 0x3F 10 ||| field lowestCpuId.toUInt32 0xFF 16 |||
      field highestCpuId.toUInt32 0xFF 24]
  | syscalls calls => encodeSyscalls calls
  | map address size isRo isIo =>
    let desc₁ := field address.toUInt32 0x00FFFFFF 0 ||| flag isRo 24
    -- The flag of the second descriptor is stored inverted.
    let desc₂ := field size.toUInt32 0x000FFFFF 0 ||| field (address >>> 24).toUInt32 0xF 20 |||
      flag (!isIo) 24
    [desc₁ <<< 7 ||| (0b111111 : UInt32), desc₂ <<< 7 ||| (0b111111 : UInt32)]
  | mapPage page => [(0b1111111 : UInt32) ||| field page.toUInt32 0x00FFFFFF 8]
  | mapRegion regions =>
    [(regions.take 3).zipIdx.foldl
      (fun val (region, i) => val |||
        (field region.regionType.toUInt32 0x3F 0 ||| flag region.isRo 6) <<< UInt32.ofNat (11 + 7 * i))
      (0b1111111111 : UInt32)]
  | irqPair irq₀ irq₁ =>
    [(0b11111111111 : UInt32) ||| field irq₀.toUInt32 0x3FF 12 ||| field irq₁.toUInt32 0x3FF 22]
  | applicationType appType => [(0b1111111111111 : UInt32) ||| field appType.toUInt32 0x7 14]
  | minKernelVersion minKernel =>
    [(0b11111111111111 : UInt32) ||| field minKernel.toUInt32 0x0001FFFF 15]
  | handleTableSize size => [(0b111111111111111 : UInt32) ||| field size.toUInt32 0x3FF 16]
  | debugFlags allowDebug forceDebugProd forceDebug =>
    [(0b1111111111111111 : UInt32) ||| flag allowDebug 17 ||| flag forceDebugProd 18 |||
      flag forceDebug 19]

def buildKernelCapabilities (capabilities : List KernelCapability) : Bytes :=
  capabilities.flatMap fun cap => cap.encode.flatMap fun desc => toLe 4 desc.toNat

/-! ## Filesystem and service access -/

structure SaveDataOwnerId where
  accessibility : UInt8
  id : UInt64
  deriving DecidableEq, Repr

/-- The ACI0 block is written from the lists, the ACID block from the ranges. -/
structure FilesystemAccess where
  permissions : UInt64 := 0xFFFFFFFFFFFFFFFF
  contentOwnerIds : List UInt64 := []
  saveDataOwnerIds : List SaveDataOwnerId := []
  contentOwnerIdMin : UInt64 := 0
  contentOwnerIdMax : UInt64 := 0xFFFFFFFFFFFFFFFF
  saveDataOwnerIdMin : UInt64 := 0
  saveDataOwnerIdMax : UInt64 := 0xFFFFFFFFFFFFFFFF
  deriving DecidableEq, Repr

structure ServiceAccess where
  services : List (Text × Bool) := []
  deriving DecidableEq, Repr

/-- `(n + 3) & !3`. -/
def alignFour (n : ℕ) : ℕ := (n + 3) &&& (2 ^ 64 - 1 - 3)

def buildFilesystemAccessHeader {ε : Type} (fsAccess : FilesystemAccess) : Outcome ε Bytes := do
  let contentIds := fsAccess.contentOwnerIds
  let saveDataIds := fsAccess.saveDataOwnerIds
  let count := saveDataIds.length
  let data := toLe 4 1 ++ toLe 8 fsAccess.permissions.toNat
  let coiSize := if contentIds = [] then 0 else (4 + contentIds.length * 8) % 2 ^ 32
  let sdoiSize := if saveDataIds = [] then 0 else (4 + alignFour count + count * 8) % 2 ^ 32
  let coiOffset := 0x1C
  let data := data ++ toLe 4 coiOffset ++ toLe 4 coiSize
  let sdoiOffset ← add32 coiOffset coiSize
  let data := data ++ toLe 4 sdoiOffset ++ toLe 4 sdoiSize
  let data :=
    if contentIds = [] then data
    else data ++ toLe 4 contentIds.length ++ contentIds.flatMap fun id => toLe 8 id.toNat
  let data :=
    if saveDataIds = [] then data
    else data ++ toLe 4 count ++ saveDataIds.map SaveDataOwnerId.accessibility ++
      List.replicate (alignFour count - count) 0 ++ saveDataIds.flatMap fun entry => toLe 8 entry.id.toNat
  pure data

def buildFilesystemAccessControl (fsAccess : FilesystemAccess) : Bytes :=
  [1, 0, 0, 0] ++ toLe 8 fsAccess.permissions.toNat ++ toLe 8 fsAccess.contentOwnerIdMin.toNat ++
    toLe 8 fsAccess.contentOwnerIdMax.toNat ++ toLe 8 fsAccess.saveDataOwnerIdMin.toNat ++
    toLe 8 fsAccess.saveDataOwnerIdMax.toNat

/-- Build Service Access Control (SAC). A service without a name is skipped. -/
def buildServiceAccessControl (sac : ServiceAccess) : Bytes :=
  sac.services.flatMap fun (serviceName, isHost) =>
    let nameBytes := utf8 serviceName
    let len := min nameBytes.length 8
    if len = 0 then []
    else
      let control := UInt8.ofNat (len - 1)
      (if isHost then control ||| 0x80 else control) :: nameBytes.take len

/-! ## The builder -/

structure AciData where
  programId : UInt64 := 0
  filesystemAccess : FilesystemAccess := {}
  serviceAccess : ServiceAccess := {}
  kernelCapabilities : List KernelCapability := []
  deriving DecidableEq, Repr

structure AcidData where
  programIdMin : UInt64 := 0
  programIdMax : UInt64 := 0xFFFFFFFFFFFFFFFF
  filesystemAccess : FilesystemAccess := {}
  serviceAccess : ServiceAccess := {}
  kernelCapabilities : List KernelCapability := []
  flags : UInt32 := 0
  deriving DecidableEq, Repr

structure NpdmMetadata where
  name : Text
  titleId : UInt64
  version : UInt32
  mainThreadPriority : UInt8
  defaultCpuId : UInt8
  mainThreadStackSize : UInt32
  flags : UInt8
  deriving DecidableEq, Repr

structure NpdmBuilder where
  metadata : NpdmMetadata
  aci : Option AciData := none
  acid : Option AcidData := none
  deriving DecidableEq, Repr

def alignUp16 {ε : Type} (value : ℕ) : Outcome ε ℕ := do
  let sum ← add32 value 0xF
  pure (sum &&& (2 ^ 32 - 1 - 0xF))

def buildAciSections {ε : Type} (aci : AciData) : Outcome ε (Bytes × Bytes × Bytes) := do
  let facData ← buildFilesystemAccessHeader aci.filesystemAccess
  pure (facData, buildServiceAccessControl aci.serviceAccess,
    buildKernelCapabilities aci.kernelCapabilities)

def buildAcidSections (acid : AcidData) : Bytes × Bytes × Bytes :=
  (buildFilesystemAccessControl acid.filesystemAccess, buildServiceAccessControl acid.serviceAccess,
    buildKernelCapabilities acid.kernelCapabilities)

/-- Where the three blocks of a section begin, and where the last of them ends, from the size of the
section's header on. -/
def blockLayout {ε : Type} (headerSize : ℕ) (blocks : Bytes × Bytes × Bytes) :
    Outcome ε (ℕ × ℕ × ℕ × ℕ) := do
  let (fac, sac, kc) := blocks
  let facOffset := headerSize
  let sacOffset ← add32 facOffset (fac.length % 2 ^ 32) >>= alignUp16
  let kcOffset ← add32 sacOffset (sac.length % 2 ^ 32) >>= alignUp16
  let size ← add32 kcOffset (kc.length % 2 ^ 32)
  pure (facOffset, sacOffset, kcOffset, size)

/-- UTF-8, truncated so that the last byte stays a terminator. -/
def nameField (name : Text) : List.Vector UInt8 16 :=
  let copied := (utf8 name).take 15
  ⟨copied ++ List.replicate (16 - copied.length) 0, by
    have hle : ((utf8 name).take 15).length ≤ 15 := List.length_take_le _ _
    simp only [List.length_append, List.length_replicate]
    change ((utf8 name).take 15).length + (16 - ((utf8 name).take 15).length) = 16
    omega⟩

def NpdmBuilder.build {ε : Type} (b : NpdmBuilder) : Outcome ε Bytes := do
  let aci := b.aci.getD { programId := b.metadata.titleId }
  let acid := b.acid.getD {}
  let (facData, sacData, kcData) ← buildAciSections aci
  let (acidFacData, acidSacData, acidKcData) := buildAcidSections acid
  let (aci0FacOffset, aci0SacOffset, aci0KcOffset, aci0Size) ←
    blockLayout 0x40 (facData, sacData, kcData)
  let (acidFacOffset, acidSacOffset, acidKcOffset, acidSize) ←
    blockLayout 0x240 (acidFacData, acidSacData, acidKcData)
  let acidOffset := 0x80
  let aci0Offset ← add32 acidOffset acidSize >>= alignUp16
  let metaHeader : NpdmHeader :=
    { magic := META_MAGIC
      signatureKeyGeneration := 0
      reserved08 := 0
      flags := b.metadata.flags
      reserved0d := 0
      mainThreadPriority := b.metadata.mainThreadPriority
      mainThreadCoreNumber := b.metadata.defaultCpuId
      reserved10 := 0
      systemResourceSize := 0
      version := b.metadata.version
      mainThreadStackSize := b.metadata.mainThreadStackSize
      name := nameField b.metadata.name
      productCode := zeroes 16
      reserved40 := zeroes 48
      aciOffset := UInt32.ofNat aci0Offset
      aciSize := UInt32.ofNat aci0Size
      acidOffset := UInt32.ofNat acidOffset
      acidSize := UInt32.ofNat acidSize }
  let unsignedSize ← sub acidSize 0x100
  let acidHeader : AcidHeader :=
    { signature := zeroes 0x100
      publicKey := zeroes 0x100
      magic := ACID_MAGIC
      size := UInt32.ofNat unsignedSize
      version := 0
      reserved209 := zeroes 3
      flags := acid.flags
      programIdMin := acid.programIdMin
      programIdMax := acid.programIdMax
      facOffset := UInt32.ofNat acidFacOffset
      facSize := UInt32.ofNat acidFacData.length
      sacOffset := UInt32.ofNat acidSacOffset
      sacSize := UInt32.ofNat acidSacData.length
      kcOffset := UInt32.ofNat acidKcOffset
      kcSize := UInt32.ofNat acidKcData.length
      reserved238 := 0 }
  let aci0Header : Aci0Header :=
    { magic := ACI0_MAGIC
      reserved04 := zeroes 12
      programId := aci.programId
      reserved18 := 0
      facOffset := UInt32.ofNat aci0FacOffset
      facSize := UInt32.ofNat facData.length
      sacOffset := UInt32.ofNat aci0SacOffset
      sacSize := UInt32.ofNat sacData.length
      kcOffset := UInt32.ofNat aci0KcOffset
      kcSize := UInt32.ofNat kcData.length
      reserved38 := 0 }
  let npdm ← zeroed (aci0Offset + aci0Size)
  let npdm ← copyFromSlice npdm 0 (NpdmHeader.codec.enc metaHeader)
  let npdm ← copyFromSlice npdm acidOffset (AcidHeader.codec.enc acidHeader)
  let npdm ← copyFromSlice npdm (acidOffset + acidFacOffset) acidFacData
  let npdm ← copyFromSlice npdm (acidOffset + acidSacOffset) acidSacData
  let npdm ← copyFromSlice npdm (acidOffset + acidKcOffset) acidKcData
  let npdm ← copyFromSlice npdm aci0Offset (Aci0Header.codec.enc aci0Header)
  let npdm ← copyFromSlice npdm (aci0Offset + aci0FacOffset) facData
  let npdm ← copyFromSlice npdm (aci0Offset + aci0SacOffset) sacData
  let npdm ← copyFromSlice npdm (aci0Offset + aci0KcOffset) kcData
  pure npdm

/-! ## The reader -/

inductive FromBytesError where
  | bufferTooSmall (required available : ℕ)
  | invalidMetaMagic (found : UInt32)
  | invalidAcidMagic (found : UInt32)
  | invalidAci0Magic (found : UInt32)
  | invalidAcidSize (found : ℕ)
  | invalidAci0Size (found : ℕ)
  | aci0InnerSectionOutOfBounds (sect : String) (offset size stop bufferSize : ℕ)
  deriving DecidableEq, Repr

def readSection {α : Type} (codec : Codec α) (bytes : Bytes) (offset size : ℕ)
    (invalidSize : ℕ → FromBytesError) : Outcome FromBytesError α := do
  let stop ← add offset size
  ensure (stop ≤ bytes.length) (.bufferTooSmall stop bytes.length)
  ensure (codec.size ≤ size) (invalidSize size)
  let rest ← slice bytes offset bytes.length
  okOr (codec.fromPrefix rest) (.bufferTooSmall (offset + codec.size) bytes.length)

structure Npdm where
  bytes : Bytes
  header : NpdmHeader
  acid : AcidHeader
  aci0 : Aci0Header
  deriving DecidableEq

/-- Parse an NPDM, proving that the ACID and ACI0 sections lie inside the buffer. -/
def Npdm.tryFromBytes (bytes : Bytes) : Outcome FromBytesError Npdm := do
  ensure (0x80 ≤ bytes.length) (.bufferTooSmall 0x80 bytes.length)
  let header ← okOr (NpdmHeader.codec.fromPrefix bytes) (.bufferTooSmall 0x80 bytes.length)
  ensure (header.magic = META_MAGIC) (.invalidMetaMagic header.magic)
  let acid ← readSection AcidHeader.codec bytes header.acidOffset.toNat header.acidSize.toNat
    .invalidAcidSize
  ensure (acid.magic = ACID_MAGIC) (.invalidAcidMagic acid.magic)
  let aci0 ← readSection Aci0Header.codec bytes header.aciOffset.toNat header.aciSize.toNat
    .invalidAci0Size
  ensure (aci0.magic = ACI0_MAGIC) (.invalidAci0Magic aci0.magic)
  pure ⟨bytes, header, acid, aci0⟩

namespace Npdm
variable (npdm : Npdm)

/-- The program name, without the bytes from its terminator on. -/
def name : Text :=
  let field := npdm.header.name.toList
  (fromUtf8 (field.take (field.findIdx (· == 0)))).getD []

def programIdRange : UInt64 × UInt64 := (npdm.acid.programIdMin, npdm.acid.programIdMax)

def programId : UInt64 := npdm.aci0.programId

/-- A block of the ACI0 section, checked when it is asked for. -/
def aci0InnerSection (sect : String) (offset size : UInt32) : Outcome FromBytesError Bytes := do
  let start ← add npdm.header.aciOffset.toNat offset.toNat
  let stop ← okOr (checkedAdd start size.toNat)
    (.aci0InnerSectionOutOfBounds sect offset.toNat size.toNat (2 ^ 64 - 1) npdm.bytes.length)
  ensure (stop ≤ npdm.bytes.length)
    (.aci0InnerSectionOutOfBounds sect offset.toNat size.toNat stop npdm.bytes.length)
  slice npdm.bytes start stop

def aci0FacData : Outcome FromBytesError Bytes :=
  npdm.aci0InnerSection "FAC" npdm.aci0.facOffset npdm.aci0.facSize

def aci0SacData : Outcome FromBytesError Bytes :=
  npdm.aci0InnerSection "SAC" npdm.aci0.sacOffset npdm.aci0.sacSize

def aci0KcData : Outcome FromBytesError Bytes :=
  npdm.aci0InnerSection "KC" npdm.aci0.kcOffset npdm.aci0.kcSize

end Npdm
end NxObject.ProgramMeta
