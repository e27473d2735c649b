import NxObject.Cells
import NxObject.Utf8

/-!
# The control structure

A NACP is 0x4000 bytes with every field at a fixed place and no magic. The builder fills fields of a zeroed
structure, the reader hands out the entries of its language table.
-/
namespace NxObject.Control
open Outcome

structure NacpLanguageEntry where
  name : List.Vector UInt8 0x200
  author : List.Vector UInt8 0x100
  deriving DecidableEq

def NacpLanguageEntry.codec : Codec NacpLanguageEntry :=
  ((Codec.bytes 0x200).pair (Codec.bytes 0x100)).iso
    { toFun := fun (name, author) => { name, author }
      invFun := fun e => (e.name, e.author)
      left_inv := fun _ => rfl
      right_inv := fun _ => rfl }

theorem NacpLanguageEntry.codec_size : NacpLanguageEntry.codec.size = 0x300 := rfl

structure NacpNeighborDetectionGroupConfig where
  groupId : UInt64
  key : List.Vector UInt8 0x10
  deriving DecidableEq

def NacpNeighborDetectionGroupConfig.codec : Codec NacpNeighborDetectionGroupConfig :=
  (Codec.u64.pair (Codec.bytes 0x10)).iso
    { toFun := fun (groupId, key) => { groupId, key }
      invFun := fun c => (c.groupId, c.key)
      left_inv := fun _ => rfl
      right_inv := fun _ => rfl }

structure NacpNeighborDetectionClientConfig where
  sendGroupConfig : NacpNeighborDetectionGroupConfig
  receivableGroupConfigs : Fin 0x10 → NacpNeighborDetectionGroupConfig

def NacpNeighborDetectionClientConfig.codec : Codec NacpNeighborDetectionClientConfig :=
  (NacpNeighborDetectionGroupConfig.codec.pair
    (Codec.array 0x10 NacpNeighborDetectionGroupConfig.codec)).iso
    { toFun := fun (sendGroupConfig, receivableGroupConfigs) => { sendGroupConfig, receivableGroupConfigs }
      invFun := fun c => (c.sendGroupConfig, c.receivableGroupConfigs)
      left_inv := fun _ => rfl
      right_inv := fun _ => rfl }

theorem NacpNeighborDetectionClientConfig.codec_size :
    NacpNeighborDetectionClientConfig.codec.size = 0x198 := rfl

structure NacpJitConfiguration where
  flags : UInt64
  memorySize : UInt64
  deriving DecidableEq

def NacpJitConfiguration.codec : Codec NacpJitConfiguration :=
  (Codec.u64.pair Codec.u64).iso
    { toFun := fun (flags, memorySize) => { flags, memorySize }
      invFun := fun c => (c.flags, c.memorySize)
      left_inv := fun _ => rfl
      right_inv := fun _ => rfl }

def i8 : Codec Int8 :=
  Codec.u8.iso
    { toFun := UInt8.toInt8
      invFun := Int8.toUInt8
      left_inv := fun _ => rfl
      right_inv := fun _ => rfl }

structure NacpStruct where
  lang : Fin 16 → NacpLanguageEntry
  isbn : List.Vector UInt8 0x25
  startupUserAccount : UInt8
  userAccountSwitchLock : UInt8
  addOnContentRegistrationType : UInt8
  attributeFlag : UInt32
  supportedLanguageFlag : UInt32
  parentalControlFlag : UInt32
  screenshot : UInt8
  videoCapture : UInt8
  dataLossConfirmation : UInt8
  playLogPolicy : UInt8
  presenceGroupId : UInt64
  ratingAge : Fin 0x20 → Int8
  displayVersion : List.Vector UInt8 0x10
  addOnContentBaseId : UInt64
  saveDataOwnerId : UInt64
  userAccountSaveDataSize : UInt64
  userAccountSaveDataJournalSize : UInt64
  deviceSaveDataSize : UInt64
  deviceSaveDataJournalSize : UInt64
  bcatDeliveryCacheStorageSize : UInt64
  applicationErrorCodeCategory : UInt64
  localCommunicationId : Fin 8 → UInt64
  logoType : UInt8
  logoHandling : UInt8
  runtimeAddOnContentInstall : UInt8
  runtimeParameterDelivery : UInt8
  reservedX30f4 : List.Vector UInt8 0x2
  crashReport : UInt8
  hdcp : UInt8
  pseudoDeviceIdSeed : UInt64
  bcatPassphrase : List.Vector UInt8 0x41
  startupUserAccountOption : UInt8
  reservedUserAccountSaveDataOp : List.Vector UInt8 0x6
  userAccountSaveDataSizeMax : UInt64
  userAccountSaveDataJournalSizeMax : UInt64
  deviceSaveDataSizeMax : UInt64
  deviceSaveDataJournalSizeMax : UInt64
  temporaryStorageSize : UInt64
  cacheStorageSize : UInt64
  cacheStorageJournalSize : UInt64
  cacheStorageDataAndJournalSizeMax : UInt64
  cacheStorageIndexMax : UInt16
  reservedX318a : List.Vector UInt8 0x6
  playLogQueryableApplicationId : Fin 0x10 → UInt64
  playLogQueryCapability : UInt8
  repairFlag : UInt8
  programIndex : UInt8
  requiredNetworkServiceLicenseOnLaunch : UInt8
  reservedX3214 : UInt32
  neighborDetectionClientConfig : NacpNeighborDetectionClientConfig
  jitConfiguration : NacpJitConfiguration
  reservedX33c0 : List.Vector UInt8 0xc40

def NacpStruct.codec : Codec NacpStruct :=
  ((Codec.array 16 NacpLanguageEntry.codec).pair <| (Codec.bytes 0x25).pair <| Codec.u8.pair <| Codec.u8.pair <|
    Codec.u8.pair <| Codec.u32.pair <| Codec.u32.pair <| Codec.u32.pair <| Codec.u8.pair <| Codec.u8.pair <|
    Codec.u8.pair <| Codec.u8.pair <| Codec.u64.pair <| (Codec.array 0x20 i8).pair <| (Codec.bytes 0x10).pair <|
    Codec.u64.pair <| Codec.u64.pair <| Codec.u64.pair <| Codec.u64.pair <| Codec.u64.pair <| Codec.u64.pair <|
    Codec.u64.pair <| Codec.u64.pair <| (Codec.array 8 Codec.u64).pair <| Codec.u8.pair <| Codec.u8.pair <|
    Codec.u8.pair <| Codec.u8.pair <| (Codec.bytes 0x2).pair <| Codec.u8.pair <| Codec.u8.pair <| Codec.u64.pair <|
    (Codec.bytes 0x41).pair <| Codec.u8.pair <| (Codec.bytes 0x6).pair <| Codec.u64.pair <| Codec.u64.pair <|
    Codec.u64.pair <| Codec.u64.pair <| Codec.u64.pair <| Codec.u64.pair <| Codec.u64.pair <| Codec.u64.pair <|
    Codec.u16.pair <| (Codec.bytes 0x6).pair <| (Codec.array 0x10 Codec.u64).pair <| Codec.u8.pair <| Codec.u8.pair <|
    Codec.u8.pair <| Codec.u8.pair <| Codec.u32.pair <| NacpNeighborDetectionClientConfig.codec.pair <|
    NacpJitConfiguration.codec.pair <| (Codec.bytes 0xc40)).iso
    { toFun := fun (lang, isbn, startupUserAccount, userAccountSwitchLock, addOnContentRegistrationType, attributeFlag,
          supportedLanguageFlag, parentalControlFlag, screenshot, videoCapture, dataLossConfirmation, playLogPolicy,
          presenceGroupId, ratingAge, displayVersion, addOnContentBaseId, saveDataOwnerId, userAccountSaveDataSize,
          userAccountSaveDataJournalSize, deviceSaveDataSize, deviceSaveDataJournalSize,
          bcatDeliveryCacheStorageSize, applicationErrorCodeCategory, localCommunicationId, logoType, logoHandling,
          runtimeAddOnContentInstall, runtimeParameterDelivery, reservedX30f4, crashReport, hdcp,
          pseudoDeviceIdSeed, bcatPassphrase, startupUserAccountOption, reservedUserAccountSaveDataOp,
          userAccountSaveDataSizeMax, userAccountSaveDataJournalSizeMax, deviceSaveDataSizeMax,
          deviceSaveDataJournalSizeMax, temporaryStorageSize, cacheStorageSize, cacheStorageJournalSize,
          cacheStorageDataAndJournalSizeMax, cacheStorageIndexMax, reservedX318a, playLogQueryableApplicationId,
          playLogQueryCapability, repairFlag, programIndex, requiredNetworkServiceLicenseOnLaunch, reservedX3214,
          neighborDetectionClientConfig, jitConfiguration, reservedX33c0) =>
        { lang, isbn, startupUserAccount, userAccountSwitchLock, addOnContentRegistrationType, attributeFlag,
          supportedLanguageFlag, parentalControlFlag, screenshot, videoCapture, dataLossConfirmation, playLogPolicy,
          presenceGroupId, ratingAge, displayVersion, addOnContentBaseId, saveDataOwnerId, userAccountSaveDataSize,
          userAccountSaveDataJournalSize, deviceSaveDataSize, deviceSaveDataJournalSize,
          bcatDeliveryCacheStorageSize, applicationErrorCodeCategory, localCommunicationId, logoType, logoHandling,
          runtimeAddOnContentInstall, runtimeParameterDelivery, reservedX30f4, crashReport, hdcp,
          pseudoDeviceIdSeed, bcatPassphrase, startupUserAccountOption, reservedUserAccountSaveDataOp,
          userAccountSaveDataSizeMax, userAccountSaveDataJournalSizeMax, deviceSaveDataSizeMax,
          deviceSaveDataJournalSizeMax, temporaryStorageSize, cacheStorageSize, cacheStorageJournalSize,
          cacheStorageDataAndJournalSizeMax, cacheStorageIndexMax, reservedX318a, playLogQueryableApplicationId,
          playLogQueryCapability, repairFlag, programIndex, requiredNetworkServiceLicenseOnLaunch, reservedX3214,
          neighborDetectionClientConfig, jitConfiguration, reservedX33c0 }
      invFun := fun h => (h.lang, h.isbn, h.startupUserAccount, h.userAccountSwitchLock, h.addOnContentRegistrationType,
        h.attributeFlag, h.supportedLanguageFlag, h.parentalControlFlag, h.screenshot, h.videoCapture,
        h.dataLossConfirmation, h.playLogPolicy, h.presenceGroupId, h.ratingAge, h.displayVersion,
        h.addOnContentBaseId, h.saveDataOwnerId, h.userAccountSaveDataSize, h.userAccountSaveDataJournalSize,
        h.deviceSaveDataSize, h.deviceSaveDataJournalSize, h.bcatDeliveryCacheStorageSize,
        h.applicationErrorCodeCategory, h.localCommunicationId, h.logoType, h.logoHandling,
        h.runtimeAddOnContentInstall, h.runtimeParameterDelivery, h.reservedX30f4, h.crashReport, h.hdcp,
        h.pseudoDeviceIdSeed, h.bcatPassphrase, h.startupUserAccountOption, h.reservedUserAccountSaveDataOp,
        h.userAccountSaveDataSizeMax, h.userAccountSaveDataJournalSizeMax, h.deviceSaveDataSizeMax,
        h.deviceSaveDataJournalSizeMax, h.temporaryStorageSize, h.cacheStorageSize, h.cacheStorageJournalSize,
        h.cacheStorageDataAndJournalSizeMax, h.cacheStorageIndexMax, h.reservedX318a,
        h.playLogQueryableApplicationId, h.playLogQueryCapability, h.repairFlag, h.programIndex,
        h.requiredNetworkServiceLicenseOnLaunch, h.reservedX3214, h.neighborDetectionClientConfig,
        h.jitConfiguration, h.reservedX33c0)
      left_inv := fun _ => rfl
      right_inv := fun _ => rfl }

theorem NacpStruct.codec_size : NacpStruct.codec.size = 0x4000 := rfl

/-! ## The reader -/

inductive SetLanguage where
  | ja | enUs | fr | de | it | es | zhCn | ko | nl | pt | ru | zhTw | enGb | frCa | es419 | zhHans | zhHant | ptBr
  deriving DecidableEq, Repr

def LANGUAGE_TABLE : List ℕ := [2, 0, 3, 4, 7, 6, 14, 12, 8, 10, 11, 13, 1, 9, 5, 14, 13, 15]

structure FromBytesError where
  required : ℕ
  available : ℕ
  deriving DecidableEq, Repr

structure Nacp where
  raw : NacpStruct

def Nacp.tryFromBytes (bytes : Bytes) : Outcome FromBytesError Nacp := do
  ensure (NacpStruct.codec.size ≤ bytes.length) ⟨NacpStruct.codec.size, bytes.length⟩
  let raw ← okOr (NacpStruct.codec.fromPrefix bytes) ⟨0x4000, bytes.length⟩
  ok ⟨raw⟩

namespace Nacp
variable (nacp : Nacp)

def languageEntry (index : ℕ) : Option NacpLanguageEntry :=
  if h : index < 16 then
    let entry := nacp.raw.lang ⟨index, h⟩
    if entry.name.head = 0 then none else some entry
  else none

/-- The entry of the language, or the first that there is. -/
def languageEntryFor (lang : SetLanguage) : Option NacpLanguageEntry :=
  let idx := (LANGUAGE_TABLE[lang.ctorIdx]?).getD 0
  match nacp.languageEntry idx with
  | some entry => some entry
  | none => (List.range 16).findSome? nacp.languageEntry

end Nacp

/-! ## The builder -/

structure NacpBuilder where
  names : Fin 16 → Option Text
  authors : Fin 16 → Option Text
  displayVersion : Option Text
  applicationId : Option UInt64
  saveDataOwnerId : Option UInt64
  userAccountSaveDataSize : Option UInt64
  userAccountSaveDataJournalSize : Option UInt64

inductive BuildError where
  | nameTooLong (languageIndex len : ℕ)
  | authorTooLong (languageIndex len : ℕ)
  | versionTooLong (len : ℕ)
  | internalBufferSizeError
  deriving DecidableEq, Repr

def languageToIndex : SetLanguage → Option (Fin 16)
  | .enUs => some 0
  | .enGb => some 1
  | .ja => some 2
  | .fr => some 3
  | .de => some 4
  | .es419 => some 5
  | .es => some 6
  | .it => some 7
  | .nl => some 8
  | .frCa => some 9
  | .pt => some 10
  | .ru => some 11
  | .ko => some 12
  | .zhTw | .zhHant => some 13
  | .zhCn | .zhHans => some 14
  | .ptBr => some 15

namespace NacpBuilder

def new : NacpBuilder where
  names _ := none
  authors _ := none
  displayVersion := none
  applicationId := none
  saveDataOwnerId := none
  userAccountSaveDataSize := none
  userAccountSaveDataJournalSize := none

variable (b : NacpBuilder)

def name (name : Text) : NacpBuilder := { b with names := fun _ => some name }

def nameForLanguage (lang : SetLanguage) (name : Text) : NacpBuilder :=
  match languageToIndex lang with
  | some idx => { b with names := Function.update b.names idx (some name) }
  | none => b

def author (author : Text) : NacpBuilder := { b with authors := fun _ => some author }

def authorForLanguage (lang : SetLanguage) (author : Text) : NacpBuilder :=
  match languageToIndex lang with
  | some idx => { b with authors := Function.update b.authors idx (some author) }
  | none => b

def version (version : Text) : NacpBuilder := { b with displayVersion := some version }

def setApplicationId (id : UInt64) : NacpBuilder := { b with applicationId := some id }

def setSaveDataOwnerId (id : UInt64) : NacpBuilder := { b with saveDataOwnerId := some id }

def setUserAccountSaveDataSize (size : UInt64) : NacpBuilder := { b with userAccountSaveDataSize := some size }

def setUserAccountSaveDataJournalSize (size : UInt64) : NacpBuilder :=
  { b with userAccountSaveDataJournalSize := some size }

/-- Copies a text to the front of its field, unless no terminator is left behind it. -/
def fillText {n : ℕ} (field : List.Vector UInt8 n) (tooLong : ℕ → BuildError) :
    Option Text → Outcome BuildError (List.Vector UInt8 n)
  | none => ok field
  | some text => do
    let bytes := utf8 text
    ensure (bytes.length < n) (tooLong bytes.length)
    let filled ← copyFromSlice field.toList 0 bytes
    exactly n filled

def fillEntry (i : Fin 16) (entry : NacpLanguageEntry) : Outcome BuildError NacpLanguageEntry := do
  let name ← fillText entry.name (.nameTooLong i) (b.names i)
  let author ← fillText entry.author (.authorTooLong i) (b.authors i)
  ok { name, author }

def withDefaults (nacp : NacpStruct) : NacpStruct :=
  { nacp with
    startupUserAccount := 1
    supportedLanguageFlag := 0xFFFF
    dataLossConfirmation := 1
    ratingAge := fun _ => (0xFF : UInt8).toInt8
    userAccountSaveDataSize := 0x3e00000
    userAccountSaveDataJournalSize := 0x180000
    logoType := 2
    logoHandling := 1 }

/-- The title ID goes to every field that is made of it. -/
def withApplicationId (nacp : NacpStruct) : Option UInt64 → Outcome BuildError NacpStruct
  | none => ok nacp
  | some id => do
    let addOnContentBaseId ← add id.toNat 0x1000
    ok { nacp with
      presenceGroupId := id
      addOnContentBaseId := UInt64.ofNat addOnContentBaseId
      saveDataOwnerId := id
      localCommunicationId := Function.update (Function.update nacp.localCommunicationId 0 id) 1 id
      pseudoDeviceIdSeed := id }

def withSaveData (nacp : NacpStruct) : NacpStruct :=
  { nacp with
    saveDataOwnerId := b.saveDataOwnerId.getD nacp.saveDataOwnerId
    userAccountSaveDataSize := b.userAccountSaveDataSize.getD nacp.userAccountSaveDataSize
    userAccountSaveDataJournalSize := b.userAccountSaveDataJournalSize.getD nacp.userAccountSaveDataJournalSize }

def build : Outcome BuildError Bytes := do
  let buf := List.replicate 0x4000 0
  let nacp ← okOr (NacpStruct.codec.fromBytes buf) .internalBufferSizeError
  let lang ← (List.finRange 16).foldlM (fun lang i =>
    fillEntry b i (lang i) >>= fun entry => ok (Function.update lang i entry)) nacp.lang
  let displayVersion ← fillText nacp.displayVersion .versionTooLong b.displayVersion
  let nacp ← withApplicationId (withDefaults { nacp with lang, displayVersion }) b.applicationId
  ok (NacpStruct.codec.enc (withSaveData b nacp))

end NacpBuilder

inductive Call where
  | name (name : Text)
  | nameForLanguage (lang : SetLanguage) (name : Text)
  | author (author : Text)
  | authorForLanguage (lang : SetLanguage) (author : Text)
  | version (version : Text)
  | applicationId (id : UInt64)
  | saveDataOwnerId (id : UInt64)
  | userAccountSaveDataSize (size : UInt64)
  | userAccountSaveDataJournalSize (size : UInt64)
  deriving DecidableEq, Repr

def NacpBuilder.call (b : NacpBuilder) : Call → NacpBuilder
  | .name name => b.name name
  | .nameForLanguage lang name => b.nameForLanguage lang name
  | .author author => b.author author
  | .authorForLanguage lang author => b.authorForLanguage lang author
  | .version version => b.version version
  | .applicationId id => b.setApplicationId id
  | .saveDataOwnerId id => b.setSaveDataOwnerId id
  | .userAccountSaveDataSize size => b.setUserAccountSaveDataSize size
  | .userAccountSaveDataJournalSize size => b.setUserAccountSaveDataJournalSize size

def NacpBuilder.reached (calls : List Call) : NacpBuilder := calls.foldl call new

end NxObject.Control
