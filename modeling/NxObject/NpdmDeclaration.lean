import NxObject.AccessBlocks
import NxObject.Capabilities

/-!
# What a descriptor declares

A program descriptor declares the rights of a program and the limits they are held against. Both are read here
from the blocks of an image, and a built image declares what its builder was given, no more and no less.
-/
namespace NxObject.ProgramMeta
open Outcome BitFields

variable {ε : Type}

/-! ## Services by the bytes of their names -/

/-- The entries of a service list. The bytes of a name need not be a text, since a name may be cut anywhere. -/
def scanNames (block : Bytes) : Option (List (Bytes × Bool)) :=
  match block with
  | [] => some []
  | control :: rest =>
    let len := control.toNat % 128 + 1
    if len ≤ rest.length then
      (scanNames (rest.drop len)).map ((rest.take len, decide (128 ≤ control.toNat)) :: ·)
    else none
  termination_by block.length
  decreasing_by simp only [List.length_drop, List.length_cons]; omega

/-- The services that are written: those with a name, by its first eight bytes. -/
def heldServices (sac : ServiceAccess) : List (Bytes × Bool) :=
  (sac.services.map fun service => ((utf8 service.1).take 8, service.2)).filter fun entry => entry.1 ≠ []

def nameEntry (entry : Bytes × Bool) : Bytes :=
  let control := UInt8.ofNat (entry.1.length - 1)
  (if entry.2 then control ||| 0x80 else control) :: entry.1

lemma heldServices_cons (service : Text × Bool) (services : List (Text × Bool)) :
    heldServices ⟨service :: services⟩ = if (utf8 service.1).take 8 = [] then heldServices ⟨services⟩
      else ((utf8 service.1).take 8, service.2) :: heldServices ⟨services⟩ := by
  unfold heldServices
  split_ifs with h <;> simp [h]

lemma buildServiceAccessControl_eq (sac : ServiceAccess) :
    buildServiceAccessControl sac = (heldServices sac).flatMap nameEntry := by
  obtain ⟨services⟩ := sac
  induction services with
  | nil => rfl
  | cons service services ih =>
    obtain ⟨name, isHost⟩ := service
    have hlen : min (utf8 name).length 8 = ((utf8 name).take 8).length :=
      (Nat.min_comm _ _).trans List.length_take.symm
    have htake : (utf8 name).take ((utf8 name).take 8).length = (utf8 name).take 8 := by
      rw [List.length_take, ← List.take_eq_take_min]
    have hentry : buildServiceAccessControl ⟨(name, isHost) :: services⟩ =
        (if ((utf8 name).take 8).length = 0 then [] else nameEntry ((utf8 name).take 8, isHost)) ++
          buildServiceAccessControl ⟨services⟩ := by
      unfold buildServiceAccessControl nameEntry
      simp only [List.flatMap_cons, hlen, htake]
    rw [hentry, ih, heldServices_cons]
    by_cases hnil : (utf8 name).take 8 = []
    · simp [hnil]
    · simp only [List.length_eq_zero_iff, hnil, if_false, List.flatMap_cons]

lemma length_of_mem_heldServices {sac : ServiceAccess} {entry : Bytes × Bool} (h : entry ∈ heldServices sac) :
    1 ≤ entry.1.length ∧ entry.1.length ≤ 8 := by
  obtain ⟨hmem, hne⟩ := List.mem_filter.mp h
  obtain ⟨service, -, rfl⟩ := List.mem_map.mp hmem
  exact ⟨List.length_pos_iff.mpr (of_decide_eq_true hne), List.length_take_le _ _⟩

lemma scanNames_flatMap {entries : List (Bytes × Bool)}
    (hlen : ∀ entry ∈ entries, 1 ≤ entry.1.length ∧ entry.1.length ≤ 8) :
    scanNames (entries.flatMap nameEntry) = some entries := by
  induction entries with
  | nil => simp [scanNames]
  | cons entry entries ih =>
    obtain ⟨name, isHost⟩ := entry
    obtain ⟨hpos, hle⟩ := hlen (name, isHost) List.mem_cons_self
    dsimp only at hpos hle
    have hcontrol := control_toNat (show name.length - 1 < 128 by omega) isHost
    generalize hbyte : (if isHost then UInt8.ofNat (name.length - 1) ||| 0x80 else UInt8.ofNat (name.length - 1)) =
      control at hcontrol
    have hcut : control.toNat % 128 + 1 = name.length := by
      rw [hcontrol]
      split_ifs <;> omega
    have hhost : decide (128 ≤ control.toNat) = isHost := by
      rw [hcontrol]
      cases isHost
      · exact decide_eq_false (by rw [if_neg (by decide)]; omega)
      · exact decide_eq_true (by rw [if_pos rfl]; omega)
    have hentry : ((name, isHost) :: entries).flatMap nameEntry = control :: (name ++ entries.flatMap nameEntry) := by
      rw [List.flatMap_cons, nameEntry, hbyte, List.cons_append]
    rw [hentry, scanNames, hcut, if_pos (by simp), List.drop_left, List.take_left, hhost,
      ih fun entry hmem => hlen entry (List.mem_cons_of_mem _ hmem), Option.map_some]

lemma scanNames_build (sac : ServiceAccess) : scanNames (buildServiceAccessControl sac) = some (heldServices sac) := by
  rw [buildServiceAccessControl_eq]
  exact scanNames_flatMap fun _ => length_of_mem_heldServices

/-! ## System calls by the descriptors of their masks -/

def descriptorWords (capabilities : List KernelCapability) : List ℕ :=
  (capabilities.flatMap KernelCapability.encode).map UInt32.toNat

def Grants (words : List ℕ) (id : ℕ) : Prop :=
  ∃ word ∈ words, trailingOnes 32 word = 4 ∧ ∃ k < 24, word.testBit (5 + k) = true ∧ 24 * maskIndex word + k = id

/-- The descriptors say what the capabilities ask for, and allow the system calls that are named and no others. -/
structure Describes (capabilities : List KernelCapability) (words : List ℕ) : Prop where
  decodes : decode words = some (capabilities.flatMap KernelCapability.descriptors)
  grants : ∀ id, Grants words id ↔ id < 192 ∧ ∃ calls, .syscalls calls ∈ capabilities ∧ Allowed calls id

lemma eq_syscalls_of_trailer {cap : KernelCapability} (h : cap.trailer = 4) : ∃ calls, cap = .syscalls calls := by
  cases cap with
  | syscalls calls => exact ⟨calls, rfl⟩
  | _ => simp [KernelCapability.trailer] at h

lemma describes {capabilities : List KernelCapability} (hfits : ∀ cap ∈ capabilities, cap.Fits) :
    Describes capabilities (descriptorWords capabilities) := by
  refine ⟨decode_encode hfits, fun id => ⟨?_, ?_⟩⟩
  · rintro ⟨_, hword, hmark, hcall⟩
    obtain ⟨word, hmem, rfl⟩ := List.mem_map.mp hword
    obtain ⟨cap, hcap, hencode⟩ := List.mem_flatMap.mp hmem
    obtain ⟨calls, rfl⟩ := eq_syscalls_of_trailer (((readsBack (hfits cap hcap)).mark word hencode).symm.trans hmark)
    obtain ⟨hlt, hallowed⟩ := ((encodeSyscalls_covers calls).union id).mp ⟨word, hencode, hcall⟩
    exact ⟨hlt, calls, hcap, hallowed⟩
  · rintro ⟨hlt, calls, hcap, hallowed⟩
    obtain ⟨word, hencode, hcall⟩ := ((encodeSyscalls_covers calls).union id).mpr ⟨hlt, hallowed⟩
    have hmark := (readsBack (hfits _ hcap)).mark word hencode
    exact ⟨word.toNat, List.mem_map_of_mem (List.mem_flatMap.mpr ⟨_, hcap, hencode⟩), hmark, hcall⟩

lemma buildKernelCapabilities_eq (capabilities : List KernelCapability) :
    buildKernelCapabilities capabilities = (descriptorWords capabilities).flatMap (toLe 4) := by
  rw [buildKernelCapabilities, descriptorWords, List.flatMap_map, List.flatMap_assoc]

/-! ## The declaration -/

/-- What the ACI0 section gives the program, with the capabilities described in one way or another. -/
structure Rights (D : Type) where
  programId : UInt64
  permissions : UInt64
  contentOwnerIds : List UInt64
  saveDataOwnerIds : List SaveDataOwnerId
  services : List (Bytes × Bool)
  descriptors : List D
  deriving DecidableEq, Repr

structure Limits (D : Type) where
  programIds : UInt64 × UInt64
  flags : UInt32
  permissions : UInt64
  contentOwnerIds : UInt64 × UInt64
  saveDataOwnerIds : UInt64 × UInt64
  services : List (Bytes × Bool)
  descriptors : List D
  deriving DecidableEq, Repr

structure Declaration (D : Type) where
  name : List.Vector UInt8 16
  version : UInt32
  mainThreadPriority : UInt8
  mainThreadCoreNumber : UInt8
  mainThreadStackSize : UInt32
  flags : UInt8
  rights : Rights D
  limits : Limits D
  deriving DecidableEq

namespace NpdmBuilder
variable (b : NpdmBuilder) {D : Type} (describe : List KernelCapability → List D)

def rights : Rights D where
  programId := b.aciData.programId
  permissions := b.aciData.filesystemAccess.permissions
  contentOwnerIds := b.aciData.filesystemAccess.contentOwnerIds
  saveDataOwnerIds := b.aciData.filesystemAccess.saveDataOwnerIds
  services := heldServices b.aciData.serviceAccess
  descriptors := describe b.aciData.kernelCapabilities

def limits : Limits D where
  programIds := (b.acidData.programIdMin, b.acidData.programIdMax)
  flags := b.acidData.flags
  permissions := b.acidData.filesystemAccess.permissions
  contentOwnerIds := (b.acidData.filesystemAccess.contentOwnerIdMin, b.acidData.filesystemAccess.contentOwnerIdMax)
  saveDataOwnerIds := (b.acidData.filesystemAccess.saveDataOwnerIdMin, b.acidData.filesystemAccess.saveDataOwnerIdMax)
  services := heldServices b.acidData.serviceAccess
  descriptors := describe b.acidData.kernelCapabilities

/-- What the builder was given, as far as an image has room for it. -/
def declaration : Declaration D where
  name := nameField b.metadata.name
  version := b.metadata.version
  mainThreadPriority := b.metadata.mainThreadPriority
  mainThreadCoreNumber := b.metadata.defaultCpuId
  mainThreadStackSize := b.metadata.mainThreadStackSize
  flags := b.metadata.flags
  rights := b.rights describe
  limits := b.limits describe

end NpdmBuilder

/-- The permissions and the lists of owners, found by the header of the block. -/
def readAccessHeader (block : Bytes) : Option (UInt64 × List UInt64 × List SaveDataOwnerId) := do
  let header ← AccessHeader.codec.fromPrefix block
  let contentOwnerIds ← readContentOwners
    (sliceAt block header.contentOwnerIdOffset.toNat header.contentOwnerIdSize.toNat)
  let saveDataOwnerIds ← readSaveDataOwners
    (sliceAt block header.saveDataOwnerIdOffset.toNat header.saveDataOwnerIdSize.toNat)
  pure (header.permissions, contentOwnerIds, saveDataOwnerIds)

/-- The permissions and the ranges of owners, behind a version. -/
def readAccessControl (block : Bytes) : Option (UInt64 × (UInt64 × UInt64) × (UInt64 × UInt64)) :=
  (Codec.u64.pair ((Codec.u64.pair Codec.u64).pair (Codec.u64.pair Codec.u64))).fromPrefix (block.drop 4)

namespace Npdm
variable (npdm : Npdm)

def rights : Option (Rights ℕ) :=
  match npdm.aci0FacData, npdm.aci0SacData, npdm.aci0KcData with
  | ok fac, ok sac, ok kc => do
    let (permissions, contentOwnerIds, saveDataOwnerIds) ← readAccessHeader fac
    let services ← scanNames sac
    pure
      { programId := npdm.programId
        permissions
        contentOwnerIds
        saveDataOwnerIds
        services
        descriptors := blockWords kc }
  | _, _, _ => none

def limits : Option (Limits ℕ) := do
  let (permissions, contentOwnerIds, saveDataOwnerIds) ←
    readAccessControl (npdm.acidBlock npdm.acid.facOffset npdm.acid.facSize)
  let services ← scanNames (npdm.acidBlock npdm.acid.sacOffset npdm.acid.sacSize)
  pure
    { programIds := npdm.programIdRange
      flags := npdm.acid.flags
      permissions
      contentOwnerIds
      saveDataOwnerIds
      services
      descriptors := blockWords (npdm.acidBlock npdm.acid.kcOffset npdm.acid.kcSize) }

def declaration : Option (Declaration ℕ) := do
  let rights ← npdm.rights
  let limits ← npdm.limits
  pure
    { name := npdm.header.name
      version := npdm.header.version
      mainThreadPriority := npdm.header.mainThreadPriority
      mainThreadCoreNumber := npdm.header.mainThreadCoreNumber
      mainThreadStackSize := npdm.header.mainThreadStackSize
      flags := npdm.header.flags
      rights
      limits }

end Npdm

/-! ## A built image declares what it was built from -/

section Access
variable {fsAccess other : FilesystemAccess}

lemma accessFits_of_length (h : (filesystemAccessHeader fsAccess).length < 2 ^ 32) : AccessFits fsAccess := by
  rw [filesystemAccessHeader_length] at h
  refine ⟨fun hne => ?_, fun hne => ?_⟩
  · rw [contentOwners_length hne] at h
    omega
  · rw [saveDataOwners_length hne] at h
    have hfour : alignFour fsAccess.saveDataOwnerIds.length =
        Placement.alignUp 4 fsAccess.saveDataOwnerIds.length := alignFour_eq (by omega)
    have hle : fsAccess.saveDataOwnerIds.length ≤ Placement.alignUp 4 fsAccess.saveDataOwnerIds.length :=
      Placement.le_alignUp (by decide) _
    omega

lemma readAccessHeader_build (h : (filesystemAccessHeader fsAccess).length < 2 ^ 32) :
    readAccessHeader (filesystemAccessHeader fsAccess) =
      some (fsAccess.permissions, fsAccess.contentOwnerIds, fsAccess.saveDataOwnerIds) := by
  obtain ⟨block, header, hbuild, hblock⟩ := (selfDescribing_iff (ε := Empty)).mpr (accessFits_of_length h)
  obtain ⟨-, rfl⟩ := buildFilesystemAccessHeader_eq_ok.mp hbuild
  simp only [readAccessHeader, hblock.read, hblock.contentOwnerIds, hblock.saveDataOwnerIds, hblock.permissions,
    Option.bind_eq_bind, Option.bind_some, Option.pure_def]

lemma readAccessControl_build (fsAccess : FilesystemAccess) :
    readAccessControl (buildFilesystemAccessControl fsAccess) = some (fsAccess.permissions,
      (fsAccess.contentOwnerIdMin, fsAccess.contentOwnerIdMax),
      (fsAccess.saveDataOwnerIdMin, fsAccess.saveDataOwnerIdMax)) := by
  have hblock : (buildFilesystemAccessControl fsAccess).drop 4 =
      (Codec.u64.pair ((Codec.u64.pair Codec.u64).pair (Codec.u64.pair Codec.u64))).enc (fsAccess.permissions,
        (fsAccess.contentOwnerIdMin, fsAccess.contentOwnerIdMax),
        (fsAccess.saveDataOwnerIdMin, fsAccess.saveDataOwnerIdMax)) ++ [] := by
    simp only [buildFilesystemAccessControl, List.append_assoc, List.append_nil]
    rfl
  rw [readAccessControl, hblock, Codec.fromPrefix_append]

lemma filesystemAccessHeader_congr (hpermissions : fsAccess.permissions = other.permissions)
    (hcontent : fsAccess.contentOwnerIds = other.contentOwnerIds)
    (hsave : fsAccess.saveDataOwnerIds = other.saveDataOwnerIds) :
    filesystemAccessHeader fsAccess = filesystemAccessHeader other := by
  simp only [filesystemAccessHeader, coiSize, sdoiSize, contentOwners, saveDataOwners, hpermissions, hcontent, hsave]

end Access

namespace NpdmBuilder
variable {b b' : NpdmBuilder}

lemma read_rights (h : b.Fits) : b.read.rights = some (b.rights descriptorWords) := by
  obtain ⟨hfac, hsac, hkc, -⟩ := read_blocks h
  have hheader : readAccessHeader b.aciBlocks.1 = _ :=
    readAccessHeader_build (fac_le_aciSize.trans_lt h.aciSize)
  have hnames : scanNames b.aciBlocks.2.1 = _ := scanNames_build b.aciData.serviceAccess
  have hwords : blockWords b.aciBlocks.2.2 = _ := blockWords_buildKernelCapabilities b.aciData.kernelCapabilities
  simp only [Npdm.rights, hfac, hsac, hkc, hheader, hnames, hwords, Option.bind_eq_bind, Option.bind_some]
  rfl

lemma read_limits (h : b.Fits) : b.read.limits = some (b.limits descriptorWords) := by
  obtain ⟨-, -, -, hfac, hsac, hkc⟩ := read_blocks h
  have hcontrol : readAccessControl b.acidBlocks.1 = _ := readAccessControl_build b.acidData.filesystemAccess
  have hnames : scanNames b.acidBlocks.2.1 = _ := scanNames_build b.acidData.serviceAccess
  have hwords : blockWords b.acidBlocks.2.2 = _ :=
    blockWords_buildKernelCapabilities b.acidData.kernelCapabilities
  simp only [Npdm.limits, hfac, hsac, hkc, hcontrol, hnames, hwords, Option.bind_eq_bind, Option.bind_some]
  rfl

lemma read_declaration (h : b.Fits) : b.read.declaration = some (b.declaration descriptorWords) := by
  simp only [Npdm.declaration, read_rights h, read_limits h, Option.bind_eq_bind, Option.bind_some]
  rfl

lemma aciBlocks_congr (h : b.rights descriptorWords = b'.rights descriptorWords) : b.aciBlocks = b'.aciBlocks := by
  obtain ⟨-, hpermissions, hcontent, hsave, hservices, hwords⟩ := (Rights.mk.injEq ..).mp h
  rw [aciBlocks, aciBlocks, filesystemAccessHeader_congr hpermissions hcontent hsave,
    buildServiceAccessControl_eq, buildServiceAccessControl_eq, hservices, buildKernelCapabilities_eq,
    buildKernelCapabilities_eq, hwords]

lemma acidBlocks_congr (h : b.limits descriptorWords = b'.limits descriptorWords) : b.acidBlocks = b'.acidBlocks := by
  obtain ⟨-, -, hpermissions, hcontent, hsave, hservices, hwords⟩ := (Limits.mk.injEq ..).mp h
  obtain ⟨hcontentMin, hcontentMax⟩ := Prod.mk.inj hcontent
  obtain ⟨hsaveMin, hsaveMax⟩ := Prod.mk.inj hsave
  simp only [acidBlocks, buildAcidSections, buildFilesystemAccessControl, hpermissions, hcontentMin, hcontentMax,
    hsaveMin, hsaveMax, buildServiceAccessControl_eq, hservices, buildKernelCapabilities_eq, hwords]

lemma image_congr (h : b.declaration descriptorWords = b'.declaration descriptorWords) : b.image = b'.image := by
  obtain ⟨hname, hversion, hpriority, hcore, hstack, hflags, hrights, hlimits⟩ := (Declaration.mk.injEq ..).mp h
  have haci := aciBlocks_congr hrights
  have hacid := acidBlocks_congr hlimits
  obtain ⟨hprogramId, -⟩ := (Rights.mk.injEq ..).mp hrights
  obtain ⟨hprogramIds, hacidFlags, -⟩ := (Limits.mk.injEq ..).mp hlimits
  obtain ⟨hmin, hmax⟩ := Prod.mk.inj hprogramIds
  have hacidSize : b.acidSize = b'.acidSize := by rw [acidSize, acidSize, hacid]
  have haciOffset : b.aciOffset = b'.aciOffset := by rw [aciOffset, aciOffset, hacidSize]
  have haciSize : b.aciSize = b'.aciSize := by rw [aciSize, aciSize, haci]
  simp only [image, parts, metaHeader, acidHeader, aci0Header, haci, hacid, hacidSize, haciOffset, haciSize, hname,
    hversion, hpriority, hcore, hstack, hflags, hprogramId, hacidFlags, hmin, hmax]

end NpdmBuilder

/-- A built image declares what its builder was given. The descriptors of capabilities that fit their layouts say
what the capabilities ask for, and allow the system calls that are named and no others. -/
theorem build_declares {b : NpdmBuilder} (h : b.Fits) :
    ∃ image npdm, (b.build : Outcome ε _) = ok image ∧ Npdm.tryFromBytes image = ok npdm ∧
      npdm.declaration = some (b.declaration descriptorWords) ∧
      ((∀ cap ∈ b.aciData.kernelCapabilities, cap.Fits) →
        Describes b.aciData.kernelCapabilities (b.declaration descriptorWords).rights.descriptors) ∧
      ((∀ cap ∈ b.acidData.kernelCapabilities, cap.Fits) →
        Describes b.acidData.kernelCapabilities (b.declaration descriptorWords).limits.descriptors) :=
  ⟨b.image, b.read, NpdmBuilder.build_eq h, Npdm.tryFromBytes_eq_ok.mpr ⟨rfl, NpdmBuilder.read_valid h⟩,
    NpdmBuilder.read_declaration h, describes, describes⟩

theorem build_declares_sample : ∃ image npdm, (sampleTitle.build : Outcome Unit _) = ok image ∧
    Npdm.tryFromBytes image = ok npdm ∧ npdm.declaration = some (sampleTitle.declaration descriptorWords) ∧
      Describes [.mapPage 1] (sampleTitle.declaration descriptorWords).rights.descriptors := by
  obtain ⟨image, npdm, hbuild, hread, hdeclared, hrights, -⟩ :=
    build_declares (ε := Unit) (b := sampleTitle) ⟨by decide +kernel, by decide +kernel⟩
  exact ⟨image, npdm, hbuild, hread, hdeclared,
    hrights (by simp [NpdmBuilder.aciData, sampleTitle, KernelCapability.Fits])⟩

def NpdmBuilder.CapabilitiesFit (b : NpdmBuilder) : Prop :=
  (∀ cap ∈ b.aciData.kernelCapabilities, cap.Fits) ∧ ∀ cap ∈ b.acidData.kernelCapabilities, cap.Fits

def requested (capabilities : List KernelCapability) : List Descriptor :=
  capabilities.flatMap KernelCapability.descriptors

lemma descriptorWords_eq_iff {capabilities capabilities' : List KernelCapability}
    (hfits : ∀ cap ∈ capabilities, cap.Fits) (hfits' : ∀ cap ∈ capabilities', cap.Fits) :
    descriptorWords capabilities = descriptorWords capabilities' ↔ requested capabilities = requested capabilities' := by
  constructor
  · intro hwords
    have hdecode : decode (descriptorWords capabilities) = some (requested capabilities) := decode_encode hfits
    rw [hwords] at hdecode
    exact Option.some.inj (hdecode.symm.trans (decode_encode hfits'))
  · intro hrequested
    rw [descriptorWords, descriptorWords, encode_written hfits, encode_written hfits']
    exact congrArg (·.flatMap Descriptor.words) hrequested

namespace NpdmBuilder
variable {b b' : NpdmBuilder}

lemma declaration_eq_iff (h : b.CapabilitiesFit) (h' : b'.CapabilitiesFit) :
    b.declaration descriptorWords = b'.declaration descriptorWords ↔
      b.declaration requested = b'.declaration requested := by
  simp only [declaration, rights, limits, Declaration.mk.injEq, Rights.mk.injEq, Limits.mk.injEq,
    descriptorWords_eq_iff h.1 h'.1, descriptorWords_eq_iff h.2 h'.2]

lemma declaration_of_image_eq (h : b.Fits) (h' : b'.Fits) (himage : b.image = b'.image) :
    b.declaration descriptorWords = b'.declaration descriptorWords := by
  have hread : Npdm.tryFromBytes b.image = ok b.read := Npdm.tryFromBytes_eq_ok.mpr ⟨rfl, read_valid h⟩
  have hread' : Npdm.tryFromBytes b'.image = ok b'.read := Npdm.tryFromBytes_eq_ok.mpr ⟨rfl, read_valid h'⟩
  rw [himage, hread'] at hread
  have hdeclared := read_declaration h
  rw [← ok.inj hread, read_declaration h'] at hdeclared
  exact (Option.some.inj hdeclared).symm

end NpdmBuilder

/-- Two builders give the same image if and only if they declare the same rights and limits, the capabilities
taken by what they ask for. -/
theorem build_eq_iff_declaration {b b' : NpdmBuilder} (h : b.Fits) (h' : b'.Fits) (hcaps : b.CapabilitiesFit)
    (hcaps' : b'.CapabilitiesFit) :
    (b.build : Outcome ε _) = b'.build ↔ b.declaration requested = b'.declaration requested := by
  rw [NpdmBuilder.build_eq h, NpdmBuilder.build_eq h', ok.injEq, ← NpdmBuilder.declaration_eq_iff hcaps hcaps']
  exact ⟨NpdmBuilder.declaration_of_image_eq h h', NpdmBuilder.image_congr⟩

def titleWith (services : List (Text × Bool)) (calls : List (Text × UInt64)) (regions : List MapRegionDescriptor)
    (page : UInt64) : NpdmBuilder :=
  { sampleTitle with
    aci := some
      { programId := 9
        serviceAccess := ⟨services⟩
        kernelCapabilities := [.kernelFlags 59 28 3 0, .syscalls calls, .mapRegion regions,
          .map page 0x1000 true false] } }

lemma titleWith_capabilitiesFit {services : List (Text × Bool)} {calls : List (Text × UInt64)} {page : UInt64}
    (hpage : page.toNat < 2 ^ 28) : (titleWith services calls [⟨2, true⟩] page).CapabilitiesFit ∧
      (titleWith services calls [⟨2, true⟩, ⟨0, false⟩] page).CapabilitiesFit := by
  simpa [NpdmBuilder.CapabilitiesFit, titleWith, sampleTitle, NpdmBuilder.aciData, NpdmBuilder.acidData,
    KernelCapability.Fits] using hpage

theorem build_eq_iff_declaration_titles :
    ((titleWith [(['s', 'm', ':'], true)] [(['a'], 1), (['b'], 33)] [⟨2, true⟩] 0x7000).build : Outcome Unit _) =
        (titleWith [([], false), (['s', 'm', ':'], true)] [(['c'], 33), (['d'], 200), ([], 1)]
          [⟨2, true⟩, ⟨0, false⟩] 0x7000).build ∧
      ((titleWith [(['s', 'm', ':'], true)] [(['a'], 1), (['b'], 33)] [⟨2, true⟩] 0x7000).build : Outcome Unit _) ≠
        (titleWith [(['s', 'm', ':'], true)] [(['a'], 1), (['b'], 33)] [⟨2, true⟩] 0x8000).build := by
  refine ⟨(build_eq_iff_declaration ⟨by decide +kernel, by decide +kernel⟩ ⟨by decide +kernel, by decide +kernel⟩
    (titleWith_capabilitiesFit (by decide)).1 (titleWith_capabilitiesFit (by decide)).2).mpr (by decide +kernel),
    fun heq => ?_⟩
  have hsame := (build_eq_iff_declaration ⟨by decide +kernel, by decide +kernel⟩
    ⟨by decide +kernel, by decide +kernel⟩ (titleWith_capabilitiesFit (by decide)).1
    (titleWith_capabilitiesFit (by decide)).1).mp heq
  exact absurd hsame (by decide +kernel)

end NxObject.ProgramMeta
