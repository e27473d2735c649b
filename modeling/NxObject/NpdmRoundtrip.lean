import NxObject.NpdmReading
import NxObject.Placement

/-!
# Reading back a built NPDM

Every offset is computed before a byte is written. The sections and their blocks stand in a row, so each
is found where the headers say, and the reader ends up at the bytes the blocks were encoded to.
-/
namespace NxObject.ProgramMeta
open Outcome

variable {ε : Type}

/-! ## The layout of a section -/

abbrev Blocks := Bytes × Bytes × Bytes

def sacOffset (headerSize : ℕ) (blocks : Blocks) : ℕ :=
  Placement.alignUp 16 (headerSize + blocks.1.length)

def kcOffset (headerSize : ℕ) (blocks : Blocks) : ℕ :=
  Placement.alignUp 16 (sacOffset headerSize blocks + blocks.2.1.length)

def sectionSize (headerSize : ℕ) (blocks : Blocks) : ℕ :=
  kcOffset headerSize blocks + blocks.2.2.length

section Layout
variable {headerSize : ℕ} {blocks : Blocks}

lemma alignUp16_eq {value : ℕ} (h : Placement.alignUp 16 value < 2 ^ 32) :
    (alignUp16 value : Outcome ε _) = ok (Placement.alignUp 16 value) := by
  have hlt : value + 15 < 2 ^ 32 := by
    rw [Placement.alignUp] at h
    omega
  rw [alignUp16, add32_of_lt hlt, ok_bind, pure_eq]
  exact congrArg ok (Placement.and_two_pow_sub (w := 32) (k := 4) (by decide) hlt)

variable (headerSize blocks) in
lemma fac_le : headerSize + blocks.1.length ≤ sacOffset headerSize blocks :=
  Placement.le_alignUp (by decide) _

variable (headerSize blocks) in
lemma sac_le : sacOffset headerSize blocks + blocks.2.1.length ≤ kcOffset headerSize blocks :=
  Placement.le_alignUp (by decide) _

variable (headerSize blocks) in
lemma headerSize_le : headerSize ≤ sectionSize headerSize blocks := by
  have hfac := fac_le headerSize blocks
  have hsac := sac_le headerSize blocks
  rw [sectionSize]
  omega

lemma blockLayout_eq (h : sectionSize headerSize blocks < 2 ^ 32) :
    (blockLayout headerSize blocks : Outcome ε _) =
      ok (headerSize, sacOffset headerSize blocks, kcOffset headerSize blocks,
        sectionSize headerSize blocks) := by
  have hfac := fac_le headerSize blocks
  have hsac := sac_le headerSize blocks
  have hsize : kcOffset headerSize blocks + blocks.2.2.length = sectionSize headerSize blocks := rfl
  obtain ⟨fac, sac, kc⟩ := blocks
  dsimp only at hfac hsac hsize
  have hmodFac : fac.length % 2 ^ 32 = fac.length := Nat.mod_eq_of_lt (by omega)
  have hmodSac : sac.length % 2 ^ 32 = sac.length := Nat.mod_eq_of_lt (by omega)
  have hmodKc : kc.length % 2 ^ 32 = kc.length := Nat.mod_eq_of_lt (by omega)
  have hsacAlign : (alignUp16 (headerSize + fac.length) : Outcome ε _) =
      ok (sacOffset headerSize (fac, sac, kc)) := alignUp16_eq (by
        change sacOffset headerSize (fac, sac, kc) < _
        omega)
  have hkcAlign : (alignUp16 (sacOffset headerSize (fac, sac, kc) + sac.length) : Outcome ε _) =
      ok (kcOffset headerSize (fac, sac, kc)) := alignUp16_eq (by
        change kcOffset headerSize (fac, sac, kc) < _
        omega)
  simp only [blockLayout, hmodFac, hmodSac, hmodKc, add32_of_lt (show headerSize + fac.length < 2 ^ 32
    by omega), ok_bind, hsacAlign, add32_of_lt (show sacOffset headerSize (fac, sac, kc) + sac.length <
    2 ^ 32 by omega), hkcAlign, add32_of_lt (show kcOffset headerSize (fac, sac, kc) + kc.length < 2 ^ 32
    by omega), pure_eq, hsize]

def sectionParts (start headerSize : ℕ) (header : Bytes) (blocks : Blocks) : List Part :=
  [(start, header), (start + headerSize, blocks.1), (start + sacOffset headerSize blocks, blocks.2.1),
    (start + kcOffset headerSize blocks, blocks.2.2)]

lemma sectionParts_stop {start : ℕ} {header : Bytes} (hheader : header.length = headerSize) :
    ∀ p ∈ sectionParts start headerSize header blocks,
      start ≤ p.1 ∧ p.stop ≤ start + sectionSize headerSize blocks := by
  have hfac := fac_le headerSize blocks
  have hsac := sac_le headerSize blocks
  have hsize : kcOffset headerSize blocks + blocks.2.2.length = sectionSize headerSize blocks := rfl
  simp only [sectionParts, List.forall_mem_cons, Part.stop]
  refine ⟨?_, ?_, ?_, ?_, List.forall_mem_nil _⟩ <;> omega

end Layout

/-! ## The filesystem access header -/

section Access
variable (fsAccess : FilesystemAccess)

def coiSize : ℕ :=
  if fsAccess.contentOwnerIds = [] then 0 else (4 + fsAccess.contentOwnerIds.length * 8) % 2 ^ 32

def sdoiSize : ℕ :=
  if fsAccess.saveDataOwnerIds = [] then 0
  else (4 + alignFour fsAccess.saveDataOwnerIds.length + fsAccess.saveDataOwnerIds.length * 8) % 2 ^ 32

def contentOwners : Bytes :=
  if fsAccess.contentOwnerIds = [] then []
  else toLe 4 fsAccess.contentOwnerIds.length ++ fsAccess.contentOwnerIds.flatMap fun id => toLe 8 id.toNat

def saveDataOwners : Bytes :=
  if fsAccess.saveDataOwnerIds = [] then []
  else toLe 4 fsAccess.saveDataOwnerIds.length ++
    fsAccess.saveDataOwnerIds.map SaveDataOwnerId.accessibility ++
    List.replicate (alignFour fsAccess.saveDataOwnerIds.length - fsAccess.saveDataOwnerIds.length) 0 ++
    fsAccess.saveDataOwnerIds.flatMap fun entry => toLe 8 entry.id.toNat

def filesystemAccessHeader : Bytes :=
  toLe 4 1 ++ toLe 8 fsAccess.permissions.toNat ++ toLe 4 0x1C ++ toLe 4 (coiSize fsAccess) ++
    toLe 4 (0x1C + coiSize fsAccess) ++ toLe 4 (sdoiSize fsAccess) ++ contentOwners fsAccess ++
    saveDataOwners fsAccess

lemma coiSize_le : 0x1C + coiSize fsAccess ≤ (filesystemAccessHeader fsAccess).length := by
  have hlist : coiSize fsAccess ≤ (contentOwners fsAccess).length := by
    rw [coiSize, contentOwners]
    split_ifs
    · exact Nat.zero_le _
    · rw [List.length_append, toLe_length, Codec.length_flatMap fun _ => toLe_length 8 _]
      exact Nat.mod_le _ _
  simp only [filesystemAccessHeader, List.length_append, toLe_length]
  omega

variable {fsAccess}

theorem buildFilesystemAccessHeader_eq_add32 : (buildFilesystemAccessHeader fsAccess : Outcome ε _) =
    (add32 0x1C (coiSize fsAccess) >>= fun _ => ok (filesystemAccessHeader fsAccess)) := by
  rw [buildFilesystemAccessHeader]
  change (add32 0x1C (coiSize fsAccess) >>= _) = _
  by_cases hlt : 0x1C + coiSize fsAccess < 2 ^ 32
  · rw [add32_of_lt hlt, ok_bind, ok_bind, pure_eq, filesystemAccessHeader, contentOwners, saveDataOwners]
    congr 1
    by_cases hcontent : fsAccess.contentOwnerIds = [] <;>
      by_cases hsave : fsAccess.saveDataOwnerIds = [] <;>
      simp only [hcontent, hsave, coiSize, sdoiSize, if_true, if_false, List.append_nil, List.append_assoc]
  · rw [add32, if_neg hlt]
    rfl

theorem buildFilesystemAccessHeader_eq (h : (filesystemAccessHeader fsAccess).length < 2 ^ 32) :
    (buildFilesystemAccessHeader fsAccess : Outcome ε _) = ok (filesystemAccessHeader fsAccess) := by
  rw [buildFilesystemAccessHeader_eq_add32, add32_of_lt (lt_of_le_of_lt (coiSize_le fsAccess) h), ok_bind]

end Access

/-! ## The image -/

namespace NpdmBuilder
variable (b : NpdmBuilder)

/-- The access control info that is written: without one, only the program ID is the builder's own. -/
def aciData : AciData := b.aci.getD { programId := b.metadata.titleId }

def acidData : AcidData := b.acid.getD {}

def aciBlocks : Blocks :=
  (filesystemAccessHeader b.aciData.filesystemAccess,
    buildServiceAccessControl b.aciData.serviceAccess,
    buildKernelCapabilities b.aciData.kernelCapabilities)

def acidBlocks : Blocks := buildAcidSections b.acidData

def acidSize : ℕ := sectionSize 0x240 b.acidBlocks

def aciOffset : ℕ := Placement.alignUp 16 (0x80 + b.acidSize)

def aciSize : ℕ := sectionSize 0x40 b.aciBlocks

/-- The offsets and sizes of the encoded sections fit the fields they are recorded in. -/
structure Fits : Prop where
  aciOffset : b.aciOffset < 2 ^ 32
  aciSize : b.aciSize < 2 ^ 32

def metaHeader : NpdmHeader where
  magic := META_MAGIC
  signatureKeyGeneration := 0
  reserved08 := 0
  flags := b.metadata.flags
  reserved0d := 0
  mainThreadPriority := b.metadata.mainThreadPriority
  mainThreadCoreNumber := b.metadata.defaultCpuId
  reserved10 := 0
  systemResourceSize := 0
  version := b.metadata.version
  mainThreadStackSize := b.metadata.mainThreadStackSize
  name := nameField b.metadata.name
  productCode := zeroes 16
  reserved40 := zeroes 48
  aciOffset := UInt32.ofNat b.aciOffset
  aciSize := UInt32.ofNat b.aciSize
  acidOffset := UInt32.ofNat 0x80
  acidSize := UInt32.ofNat b.acidSize

def acidHeader : AcidHeader where
  signature := zeroes 0x100
  publicKey := zeroes 0x100
  magic := ACID_MAGIC
  size := UInt32.ofNat (b.acidSize - 0x100)
  version := 0
  reserved209 := zeroes 3
  flags := b.acidData.flags
  programIdMin := b.acidData.programIdMin
  programIdMax := b.acidData.programIdMax
  facOffset := UInt32.ofNat 0x240
  facSize := UInt32.ofNat b.acidBlocks.1.length
  sacOffset := UInt32.ofNat (sacOffset 0x240 b.acidBlocks)
  sacSize := UInt32.ofNat b.acidBlocks.2.1.length
  kcOffset := UInt32.ofNat (kcOffset 0x240 b.acidBlocks)
  kcSize := UInt32.ofNat b.acidBlocks.2.2.length
  reserved238 := 0

def aci0Header : Aci0Header where
  magic := ACI0_MAGIC
  reserved04 := zeroes 12
  programId := b.aciData.programId
  reserved18 := 0
  facOffset := UInt32.ofNat 0x40
  facSize := UInt32.ofNat b.aciBlocks.1.length
  sacOffset := UInt32.ofNat (sacOffset 0x40 b.aciBlocks)
  sacSize := UInt32.ofNat b.aciBlocks.2.1.length
  kcOffset := UInt32.ofNat (kcOffset 0x40 b.aciBlocks)
  kcSize := UInt32.ofNat b.aciBlocks.2.2.length
  reserved38 := 0

def parts : List Part :=
  (0, NpdmHeader.codec.enc b.metaHeader) ::
    (sectionParts 0x80 0x240 (AcidHeader.codec.enc b.acidHeader) b.acidBlocks ++
      sectionParts b.aciOffset 0x40 (Aci0Header.codec.enc b.aci0Header) b.aciBlocks)

def image : Bytes := written (List.replicate (b.aciOffset + b.aciSize) 0) b.parts

variable {b}

lemma acid_le : 0x80 + b.acidSize ≤ b.aciOffset := Placement.le_alignUp (by decide) _

lemma fac_le_aciSize : (filesystemAccessHeader b.aciData.filesystemAccess).length ≤ b.aciSize := by
  have hfac := fac_le 0x40 b.aciBlocks
  have hsac := sac_le 0x40 b.aciBlocks
  change _ ≤ kcOffset 0x40 b.aciBlocks + b.aciBlocks.2.2.length
  change _ + (filesystemAccessHeader b.aciData.filesystemAccess).length ≤ _ at hfac
  omega

lemma parts_chain : b.parts.IsChain fun p q => p.stop ≤ q.1 := by
  have hacid : sectionSize 0x240 b.acidBlocks = b.acidSize := rfl
  have hle := acid_le (b := b)
  have hfac := fac_le 0x240 b.acidBlocks
  have hsac := sac_le 0x240 b.acidBlocks
  have hfac' := fac_le 0x40 b.aciBlocks
  have hsac' := sac_le 0x40 b.aciBlocks
  rw [sectionSize] at hacid
  simp only [parts, sectionParts, List.cons_append, List.nil_append, List.isChain_cons_cons,
    List.isChain_singleton, Part.stop, and_true, Codec.enc_length, NpdmHeader.codec_size,
    AcidHeader.codec_size, Aci0Header.codec_size]
  refine ⟨?_, ?_, ?_, ?_, ?_, ?_, ?_, ?_⟩ <;> omega

lemma parts_stop : ∀ p ∈ b.parts, p.stop ≤ b.aciOffset + b.aciSize := by
  have hle := acid_le (b := b)
  intro p hp
  rcases List.mem_cons.mp hp with rfl | hp
  · change 0 + (NpdmHeader.codec.enc b.metaHeader).length ≤ _
    rw [Codec.enc_length, NpdmHeader.codec_size]
    omega
  · rcases List.mem_append.mp hp with hp | hp
    · have hstop := (sectionParts_stop (Codec.enc_length _ _) p hp).2
      change p.stop ≤ 0x80 + b.acidSize at hstop
      omega
    · exact (sectionParts_stop (Codec.enc_length _ _) p hp).2

lemma image_length : b.image.length = b.aciOffset + b.aciSize := by
  rw [image, written_length (by simpa using parts_stop), List.length_replicate]

lemma sliceAt_image {p : Part} (hp : p ∈ b.parts) : sliceAt b.image p.1 p.2.length = p.2 :=
  sliceAt_written (by simpa using parts_stop) ((pairwise_stop_le parts_chain).imp Or.inl) hp

theorem build_eq (h : b.Fits) : (b.build : Outcome ε _) = ok b.image := by
  have hle := acid_le (b := b)
  have hacidSize : b.acidSize < 2 ^ 32 := by
    have := h.aciOffset
    omega
  have hblocks : (buildAciSections b.aciData : Outcome ε _) =
      ok (b.aciBlocks.1, b.aciBlocks.2.1, b.aciBlocks.2.2) := by
    rw [buildAciSections, buildFilesystemAccessHeader_eq (lt_of_le_of_lt fac_le_aciSize h.aciSize)]
    rfl
  have hlayout : (blockLayout 0x40 (b.aciBlocks.1, b.aciBlocks.2.1, b.aciBlocks.2.2) : Outcome ε _) =
      ok (0x40, sacOffset 0x40 b.aciBlocks, kcOffset 0x40 b.aciBlocks, b.aciSize) :=
    blockLayout_eq h.aciSize
  have hacidLayout : (blockLayout 0x240 (b.acidBlocks.1, b.acidBlocks.2.1, b.acidBlocks.2.2) :
      Outcome ε _) =
      ok (0x240, sacOffset 0x240 b.acidBlocks, kcOffset 0x240 b.acidBlocks, b.acidSize) :=
    blockLayout_eq hacidSize
  have hacidEnd : 0x80 + b.acidSize < 2 ^ 32 := by
    have := h.aciOffset
    omega
  have hoffset : (alignUp16 (0x80 + b.acidSize) : Outcome ε _) = ok b.aciOffset :=
    alignUp16_eq h.aciOffset
  have hunsigned : (sub b.acidSize 0x100 : Outcome ε _) = ok (b.acidSize - 0x100) :=
    sub_of_le ((by decide : 0x100 ≤ 0x240).trans (headerSize_le 0x240 b.acidBlocks))
  have hzeroed : (zeroed (b.aciOffset + b.aciSize) : Outcome ε _) = ok _ := zeroed_of_lt (by
    have := h.aciOffset
    have := h.aciSize
    omega)
  have hwrite : (writeParts (List.replicate (b.aciOffset + b.aciSize) 0) b.parts : Outcome ε _) =
      ok b.image := writeParts_eq (by simpa using parts_stop)
  have haci : b.aci.getD { programId := b.metadata.titleId } = b.aciData := rfl
  have hacid : b.acid.getD {} = b.acidData := rfl
  have hacidBlocks : buildAcidSections b.acidData =
      (b.acidBlocks.1, b.acidBlocks.2.1, b.acidBlocks.2.2) := rfl
  simp only [build, haci, hacid, hblocks, hacidBlocks, hlayout, hacidLayout, ok_bind,
    add32_of_lt hacidEnd, hoffset, hunsigned, hzeroed]
  simp only [writeParts, parts, sectionParts, List.cons_append, List.nil_append, List.foldlM_cons,
    List.foldlM_nil, bind_pure] at hwrite
  exact hwrite

/-! ## Reading back -/

lemma acidSize_lt (h : b.Fits) : b.acidSize < 2 ^ 32 := by
  have hle := acid_le (b := b)
  have hlt := h.aciOffset
  omega

variable (b) in
def read : Npdm := ⟨b.image, b.metaHeader, b.acidHeader, b.aci0Header⟩

lemma meta_toNat (h : b.Fits) :
    b.metaHeader.acidOffset.toNat = 0x80 ∧ b.metaHeader.acidSize.toNat = b.acidSize ∧
      b.metaHeader.aciOffset.toNat = b.aciOffset ∧ b.metaHeader.aciSize.toNat = b.aciSize :=
  ⟨rfl, UInt32.toNat_ofNat_of_lt' (acidSize_lt h), UInt32.toNat_ofNat_of_lt' h.aciOffset,
    UInt32.toNat_ofNat_of_lt' h.aciSize⟩

end NpdmBuilder

lemma blocks_toNat {headerSize : ℕ} {blocks : Blocks} (h : sectionSize headerSize blocks < 2 ^ 32) :
    (UInt32.ofNat headerSize).toNat = headerSize ∧
      (UInt32.ofNat blocks.1.length).toNat = blocks.1.length ∧
      (UInt32.ofNat (sacOffset headerSize blocks)).toNat = sacOffset headerSize blocks ∧
      (UInt32.ofNat blocks.2.1.length).toNat = blocks.2.1.length ∧
      (UInt32.ofNat (kcOffset headerSize blocks)).toNat = kcOffset headerSize blocks ∧
      (UInt32.ofNat blocks.2.2.length).toNat = blocks.2.2.length := by
  have hfac := fac_le headerSize blocks
  have hsac := sac_le headerSize blocks
  rw [sectionSize] at h
  refine ⟨?_, ?_, ?_, ?_, ?_, ?_⟩ <;> exact UInt32.toNat_ofNat_of_lt' (lt_of_le_of_lt (by omega) h)

namespace Npdm
variable (npdm : Npdm)

def acidBlock (offset size : UInt32) : Bytes :=
  sliceAt npdm.bytes (npdm.header.acidOffset.toNat + offset.toNat) size.toNat

/-- The headers and the blocks, by the offsets at which they begin and end in the image. -/
def extents : List (ℕ × ℕ) :=
  let extent (start size : ℕ) := (start, start + size)
  let acid := npdm.header.acidOffset.toNat
  let aci := npdm.header.aciOffset.toNat
  [extent 0 0x80, extent acid 0x240, extent (acid + npdm.acid.facOffset.toNat) npdm.acid.facSize.toNat,
    extent (acid + npdm.acid.sacOffset.toNat) npdm.acid.sacSize.toNat,
    extent (acid + npdm.acid.kcOffset.toNat) npdm.acid.kcSize.toNat, extent aci 0x40,
    extent (aci + npdm.aci0.facOffset.toNat) npdm.aci0.facSize.toNat,
    extent (aci + npdm.aci0.sacOffset.toNat) npdm.aci0.sacSize.toNat,
    extent (aci + npdm.aci0.kcOffset.toNat) npdm.aci0.kcSize.toNat]

end Npdm

namespace NpdmBuilder
variable {b : NpdmBuilder}

lemma read_extents (h : b.Fits) : b.read.extents = b.parts.map fun p => (p.1, p.stop) := by
  obtain ⟨hacidOffset, -, haciOffset, -⟩ := meta_toNat h
  obtain ⟨hheader, hfac, hsac, hsacLen, hkc, hkcLen⟩ := blocks_toNat (acidSize_lt h)
  obtain ⟨hheader', hfac', hsac', hsacLen', hkc', hkcLen'⟩ := blocks_toNat h.aciSize
  simp only [Npdm.extents, read, hacidOffset, haciOffset, acidHeader, aci0Header, hheader, hfac, hsac,
    hsacLen, hkc, hkcLen, hheader', hfac', hsac', hsacLen', hkc', hkcLen', parts, sectionParts,
    List.cons_append, List.nil_append, List.map_cons, List.map_nil, Part.stop, Codec.enc_length,
    NpdmHeader.codec_size, AcidHeader.codec_size, Aci0Header.codec_size]

lemma sectionPart_at {start headerSize : ℕ} {header : Bytes} {blocks : Blocks}
    (hparts : ∀ p ∈ sectionParts start headerSize header blocks, p ∈ b.parts) :
    sliceAt b.image start header.length = header ∧
      sliceAt b.image (start + headerSize) blocks.1.length = blocks.1 ∧
      sliceAt b.image (start + sacOffset headerSize blocks) blocks.2.1.length = blocks.2.1 ∧
      sliceAt b.image (start + kcOffset headerSize blocks) blocks.2.2.length = blocks.2.2 := by
  have hat : ∀ p ∈ sectionParts start headerSize header blocks,
      sliceAt b.image p.1 p.2.length = p.2 := fun p hp => sliceAt_image (hparts p hp)
  simp only [sectionParts, List.forall_mem_cons] at hat
  exact ⟨hat.1, hat.2.1, hat.2.2.1, hat.2.2.2.1⟩

lemma acidParts_mem : ∀ p ∈ sectionParts 0x80 0x240 (AcidHeader.codec.enc b.acidHeader) b.acidBlocks,
    p ∈ b.parts :=
  fun _ hp => List.mem_cons_of_mem _ (List.mem_append_left _ hp)

lemma aciParts_mem :
    ∀ p ∈ sectionParts b.aciOffset 0x40 (Aci0Header.codec.enc b.aci0Header) b.aciBlocks, p ∈ b.parts :=
  fun _ hp => List.mem_cons_of_mem _ (List.mem_append_right _ hp)

theorem read_valid (h : b.Fits) : b.read.Valid := by
  obtain ⟨hacidOffset, hacidSize, haciOffset, haciSize⟩ := meta_toNat h
  have hle := acid_le (b := b)
  have hacid := (sectionPart_at (acidParts_mem (b := b))).1
  have haci := (sectionPart_at (aciParts_mem (b := b))).1
  have hheader := sliceAt_image (b := b) (p := (0, NpdmHeader.codec.enc b.metaHeader))
    List.mem_cons_self
  rw [Codec.enc_length] at hacid haci
  dsimp only at hheader
  rw [Codec.enc_length] at hheader
  refine ⟨Codec.fromPrefix_drop _ hheader, rfl, ⟨?_, ?_, ?_⟩, rfl, ⟨?_, ?_, ?_⟩, rfl⟩
  · change b.metaHeader.acidOffset.toNat + b.metaHeader.acidSize.toNat ≤ b.image.length
    rw [hacidOffset, hacidSize, image_length]
    omega
  · change 0x240 ≤ b.metaHeader.acidSize.toNat
    rw [hacidSize]
    exact headerSize_le 0x240 b.acidBlocks
  · exact Codec.fromPrefix_drop _ hacid
  · change b.metaHeader.aciOffset.toNat + b.metaHeader.aciSize.toNat ≤ b.image.length
    rw [haciOffset, haciSize, image_length]
  · change 0x40 ≤ b.metaHeader.aciSize.toNat
    rw [haciSize]
    exact headerSize_le 0x40 b.aciBlocks
  · change Aci0Header.codec.fromPrefix (b.image.drop b.metaHeader.aciOffset.toNat) = _
    rw [haciOffset]
    exact Codec.fromPrefix_drop _ haci

lemma read_blocks (h : b.Fits) :
    b.read.aci0FacData = ok b.aciBlocks.1 ∧ b.read.aci0SacData = ok b.aciBlocks.2.1 ∧
      b.read.aci0KcData = ok b.aciBlocks.2.2 ∧
      b.read.acidBlock b.read.acid.facOffset b.read.acid.facSize = b.acidBlocks.1 ∧
      b.read.acidBlock b.read.acid.sacOffset b.read.acid.sacSize = b.acidBlocks.2.1 ∧
      b.read.acidBlock b.read.acid.kcOffset b.read.acid.kcSize = b.acidBlocks.2.2 := by
  obtain ⟨hacidOffset, -, haciOffset, -⟩ := meta_toNat h
  obtain ⟨hheader, hfac, hsac, hsacLen, hkc, hkcLen⟩ := blocks_toNat (acidSize_lt h)
  obtain ⟨hheader', hfac', hsac', hsacLen', hkc', hkcLen'⟩ := blocks_toNat h.aciSize
  obtain ⟨-, hacidFac, hacidSac, hacidKc⟩ := sectionPart_at (acidParts_mem (b := b))
  obtain ⟨-, haciFac, haciSac, haciKc⟩ := sectionPart_at (aciParts_mem (b := b))
  have hstop : ∀ p ∈ sectionParts b.aciOffset 0x40 (Aci0Header.codec.enc b.aci0Header) b.aciBlocks,
      p.stop ≤ b.image.length := by
    intro p hp
    rw [image_length]
    exact (sectionParts_stop (Codec.enc_length _ _) p hp).2
  simp only [sectionParts, List.forall_mem_cons, Part.stop] at hstop
  obtain ⟨-, hfacStop, hsacStop, hkcStop, -⟩ := hstop
  simp only [Npdm.aci0FacData, Npdm.aci0SacData, Npdm.aci0KcData, Npdm.aci0InnerSection_eq,
    Npdm.innerStart, Npdm.acidBlock, read, acidHeader, aci0Header, hacidOffset, haciOffset, hheader, hfac,
    hsac, hsacLen, hkc, hkcLen, hheader', hfac', hsac', hsacLen', hkc', hkcLen', if_pos hfacStop,
    if_pos hsacStop, if_pos hkcStop, hacidFac, hacidSac, hacidKc, haciFac, haciSac, haciKc, and_self]

lemma programId_eq :
    b.read.programId = match b.aci with
      | some aci => aci.programId
      | none => b.metadata.titleId := by
  change (b.aci.getD _).programId = _
  cases b.aci <;> rfl

end NpdmBuilder

/-- A built descriptor is accepted. Its sections and their blocks stand in a row, and every block reads
back as the bytes it was encoded to. -/
theorem build_blocks {b : NpdmBuilder} (h : b.Fits) :
    ∃ image npdm fac, (b.build : Outcome ε _) = ok image ∧ Npdm.tryFromBytes image = ok npdm ∧
      (buildFilesystemAccessHeader b.aciData.filesystemAccess : Outcome ε _) = ok fac ∧
      npdm.aci0FacData = ok fac ∧
      npdm.aci0SacData = ok (buildServiceAccessControl b.aciData.serviceAccess) ∧
      npdm.aci0KcData = ok (buildKernelCapabilities b.aciData.kernelCapabilities) ∧
      npdm.acidBlock npdm.acid.facOffset npdm.acid.facSize =
        buildFilesystemAccessControl b.acidData.filesystemAccess ∧
      npdm.acidBlock npdm.acid.sacOffset npdm.acid.sacSize =
        buildServiceAccessControl b.acidData.serviceAccess ∧
      npdm.acidBlock npdm.acid.kcOffset npdm.acid.kcSize =
        buildKernelCapabilities b.acidData.kernelCapabilities ∧
      npdm.extents.Pairwise (fun p q => p.2 ≤ q.1) ∧
      (∀ p ∈ npdm.extents, p.1 ≤ p.2 ∧ p.2 ≤ image.length) ∧
      16 ∣ npdm.header.acidOffset.toNat ∧ 16 ∣ npdm.header.aciOffset.toNat ∧
      image.length = npdm.header.aciOffset.toNat + npdm.header.aciSize.toNat ∧
      npdm.programId = match b.aci with
        | some aci => aci.programId
        | none => b.metadata.titleId := by
  obtain ⟨hacidOffset, -, haciOffset, haciSize⟩ := NpdmBuilder.meta_toNat h
  obtain ⟨hfac, hsac, hkc, hacidFac, hacidSac, hacidKc⟩ := NpdmBuilder.read_blocks h
  refine ⟨b.image, b.read, b.aciBlocks.1, NpdmBuilder.build_eq h,
    Npdm.tryFromBytes_eq_ok.mpr ⟨rfl, NpdmBuilder.read_valid h⟩,
    buildFilesystemAccessHeader_eq (lt_of_le_of_lt NpdmBuilder.fac_le_aciSize h.aciSize), hfac, hsac, hkc, hacidFac,
    hacidSac, hacidKc, ?_, ?_, ?_, ?_, ?_, NpdmBuilder.programId_eq⟩
  · rw [NpdmBuilder.read_extents h]
    exact List.pairwise_map.mpr (pairwise_stop_le NpdmBuilder.parts_chain)
  · rw [NpdmBuilder.read_extents h, NpdmBuilder.image_length]
    intro extent hextent
    obtain ⟨p, hp, rfl⟩ := List.mem_map.mp hextent
    exact ⟨Nat.le_add_right _ _, NpdmBuilder.parts_stop p hp⟩
  · rw [show b.read.header = b.metaHeader from rfl, hacidOffset]
    decide
  · rw [show b.read.header = b.metaHeader from rfl, haciOffset]
    exact Placement.dvd_alignUp 16 _
  · rw [show b.read.header = b.metaHeader from rfl, haciOffset, haciSize, NpdmBuilder.image_length]

def sampleTitle : NpdmBuilder :=
  { metadata :=
      { name := ['a']
        titleId := 7
        version := 0
        mainThreadPriority := 44
        defaultCpuId := 0
        mainThreadStackSize := 0x100000
        flags := 0 }
    aci := some
      { programId := 9
        serviceAccess := ⟨[(['s', 'm', ':'], true)]⟩
        kernelCapabilities := [.mapPage 1] } }

theorem build_blocks_sample : ∃ image npdm,
    (sampleTitle.build : Outcome Unit _) = ok image ∧ Npdm.tryFromBytes image = ok npdm ∧
      npdm.programId = 9 ∧ npdm.aci0SacData = ok [0x82, 0x73, 0x6d, 0x3a] := by
  obtain ⟨image, npdm, -, hbuild, hread, -, -, hsac, -, -, -, -, -, -, -, -, -, hid⟩ :=
    build_blocks (ε := Unit) (b := sampleTitle) ⟨by decide +kernel, by decide +kernel⟩
  exact ⟨image, npdm, hbuild, hread, hid, hsac.trans (congrArg ok (by decide))⟩

end NxObject.ProgramMeta
