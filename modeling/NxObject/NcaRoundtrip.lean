import NxObject.NcaLayout
import NxObject.NcaReader

/-!
# Reading back a built NCA

The reader turns the media offsets of the header back into the byte ranges the builder placed the
sections at, and the superblocks into the place of the image or the archive within each.
-/
namespace NxObject.Archive
open Outcome Placement

variable {H : Bytes → Digest}

/-! ## What the bytes of the enumerations name -/

lemma contentType_toU8 (c : NcaContentType) : contentType c.toU8 = .ok c := by
  cases c <;> rfl

lemma hashType_toU8 (index : ℕ) (t : NcaHashType) : hashType index t.toU8 = .ok t := by
  cases t <;> rfl

lemma cryptType_toU8 (index : ℕ) (t : NcaCryptType) : cryptType index t.toU8 = .ok t := by
  cases t <;> rfl

lemma splitKeyGeneration_max (g : KeyGeneration) :
    max (max (splitKeyGeneration g).1 (splitKeyGeneration g).2) 1 = g.value := by
  obtain ⟨v, hne, hle⟩ := g
  rw [splitKeyGeneration]
  have hpos : v.toNat ≠ 0 := fun h => hne (UInt8.toNat_inj.mp h)
  split_ifs with h₁ h₂
  · rw [h₁]
    rfl
  · rw [h₂]
    rfl
  · have h₁' : v.toNat ≠ 1 := fun h => h₁ (UInt8.toNat_inj.mp h)
    have htwo : (2 : UInt8) ≤ v := UInt8.le_iff_toNat_le.mpr (by change 2 ≤ v.toNat; omega)
    have hone : ¬ v ≤ 1 := fun h => by
      have hle := UInt8.le_iff_toNat_le.mp h
      change v.toNat ≤ 1 at hle
      omega
    have hmax : max (2 : UInt8) v = v := if_pos htwo
    have hmax' : max v 1 = v := if_neg hone
    change max (max 2 v) 1 = v
    rw [hmax, hmax']

/-! ## The data of a section -/

namespace Section

def dataOffset (H : Bytes → Digest) (sect : Section) : ℕ :=
  match sect.data with
  | .romFs image => Ivfc.levelOffset H image (Fin.last _)
  | .partition archive blockSize => (Partition.padded H archive blockSize).length

variable (sect : Section)

lemma stored_eq : ∃ pre, sect.stored H = pre ++ sect.data.contents ∧
    pre.length = sect.dataOffset H := by
  obtain ⟨data, encryption⟩ := sect
  cases data with
  | romFs image =>
    refine ⟨((List.finRange IVFC_MAX_LEVELS).take 5).flatMap (Ivfc.level H image), ?_, ?_⟩
    · change Ivfc.stored H image = _
      conv_lhs => rw [Ivfc.stored, ← List.take_append_drop 5 (List.finRange IVFC_MAX_LEVELS),
        List.flatMap_append]
      exact congrArg _ (List.append_nil image)
    · exact length_flatMap_eq _ fun _ _ => rfl
  | partition archive blockSize => exact ⟨Partition.padded H archive blockSize, rfl, rfl⟩

lemma stored_length :
    (sect.stored H).length = sect.dataOffset H + sect.data.contents.length := by
  obtain ⟨pre, hstored, hpre⟩ := sect.stored_eq (H := H)
  rw [hstored, List.length_append, hpre]

lemma fromBytes_romFs (image : Bytes) (encryption : SectionEncryption) :
    RomFsSuperblock.codec.fromBytes (fsHeader H ⟨.romFs image, encryption⟩).superblock.toList =
      some (ivfcSuperblock (Ivfc.tree H image)) :=
  Codec.fromBytes_enc _ _

lemma fromBytes_partition (archive : Bytes) (blockSize : UInt32) (encryption : SectionEncryption) :
    Pfs0Superblock.codec.fromBytes
      (fsHeader H ⟨.partition archive blockSize, encryption⟩).superblock.toList =
        some (Partition.superblock H archive blockSize) :=
  Codec.fromBytes_enc _ _

lemma dataRegion_eq (index : ℕ) :
    dataRegion index (sect.fsHeader H) sect.data.hashType =
      .ok (UInt64.ofNat (sect.dataOffset H), UInt64.ofNat sect.data.contents.length) := by
  obtain ⟨data, encryption⟩ := sect
  cases data with
  | romFs image =>
    simp only [dataRegion, SectionData.hashType, fromBytes_romFs]
    rfl
  | partition archive blockSize =>
    simp only [dataRegion, SectionData.hashType, fromBytes_partition]
    rfl

lemma dataRange_eq (index : ℕ) {size : ℕ} (hsize : (sect.stored H).length ≤ size)
    (hlt : size < 2 ^ 64) :
    dataRange index (sect.fsHeader H) sect.data.hashType size =
      .ok (sect.dataOffset H, sect.dataOffset H + sect.data.contents.length) := by
  rw [sect.stored_length] at hsize
  have hoffset : (UInt64.ofNat (sect.dataOffset H)).toNat = sect.dataOffset H :=
    UInt64.toNat_ofNat_of_lt' (by change _ < 2 ^ 64; omega)
  have hlen : (UInt64.ofNat sect.data.contents.length).toNat = sect.data.contents.length :=
    UInt64.toNat_ofNat_of_lt' (by change _ < 2 ^ 64; omega)
  have hadd := checkedAdd_of_lt (show sect.dataOffset H + sect.data.contents.length < 2 ^ 64 by omega)
  rw [dataRange, dataRegion_eq]
  change (orError (checkedAdd (UInt64.ofNat _).toNat (UInt64.ofNat _).toNat) _ >>= _) = _
  rw [hoffset, hlen, hadd]
  exact if_neg (Nat.not_lt.mpr hsize)

lemma stored_pos : 0 < (sect.stored H).length := by
  obtain ⟨data, encryption⟩ := sect
  rw [stored_length]
  cases data with
  | romFs image =>
    have hlevel := (Ivfc.hashLevel_length H (Ivfc.level H image 1)).2
    change _ < Ivfc.levelSize H image 0 at hlevel
    have hle : Ivfc.levelOffset H image 0 + Ivfc.levelSize H image 0 ≤
        Ivfc.levelOffset H image (Fin.last _) :=
      offsetOf_add_le_offsetOf (List.mem_finRange _) (by decide)
    change 0 < Ivfc.levelOffset H image (Fin.last _) + _
    omega
  | partition archive blockSize =>
    have hlt := Partition.padded_length H archive blockSize
    change 0 < (Partition.padded H archive blockSize).length + _
    omega

end Section

/-! ## The slots -/

namespace NcaBuilder
variable {b : NcaBuilder}

def view (H : Bytes → Digest) (b : NcaBuilder) (i : Fin NCA_SECTION_COUNT) : Option NcaSection :=
  (b.sections i).map fun sect =>
    { index := i
      range := (b.slotStart H i, b.slotStart H i + b.chunkSize H i)
      fsHeader := sect.fsHeader H
      bytes := b.chunk H i
      data := sect.data.contents }

def image (H : Bytes → Digest) (b : NcaBuilder) : Bytes :=
  NcaHeader.codec.enc (b.header H) ++ b.body H

lemma image_length : (b.image H).length = NCA_HEADER_SIZE + (b.body H).length := by
  rw [image, List.length_append, Codec.enc_length, NcaHeader.codec_size]

lemma chunk_at (i : Fin NCA_SECTION_COUNT) :
    ∃ pre post, b.image H = pre ++ (b.chunk H i ++ post) ∧ pre.length = b.slotStart H i := by
  have hchunk : ∀ j ∈ List.finRange NCA_SECTION_COUNT, (b.chunk H j).length = b.chunkSize H j :=
    fun _ _ => rfl
  obtain ⟨pre, post, hbody, hpre⟩ := flatMap_at hchunk (List.mem_finRange i)
  refine ⟨NcaHeader.codec.enc (b.header H) ++ pre, post, ?_, ?_⟩
  · rw [image, body, hbody, List.append_assoc]
  · rw [List.length_append, Codec.enc_length, NcaHeader.codec_size, hpre, slotStart]

section Placed
variable {i : Fin NCA_SECTION_COUNT} {sect : Section} (hsect : b.sections i = some sect)
include hsect

lemma chunk_eq : ∃ pad, b.chunk H i = sect.stored H ++ pad := by
  rw [chunk, hsect]
  exact padToMediaUnit_prefix _

lemma chunkSize_pos : 0 < b.chunkSize H i := by
  obtain ⟨pad, hchunk⟩ := chunk_eq (H := H) hsect
  have hpos := sect.stored_pos (H := H)
  rw [chunkSize, hchunk, List.length_append]
  omega

lemma mediaStart_placed (h : b.Fits H) :
    ((b.header H).sectionEntries i).mediaStartOffset.toNat * MEDIA_UNIT_SIZE = b.slotStart H i := by
  have hlt := h.addressable i sect hsect
  have hdiv : b.slotStart H i / MEDIA_UNIT_SIZE < 2 ^ 32 :=
    (Nat.div_lt_iff_lt_mul (by decide)).mpr (by omega)
  change (b.sectionEntry H i).mediaStartOffset.toNat * MEDIA_UNIT_SIZE = _
  rw [sectionEntry, hsect]
  change (UInt32.ofNat _).toNat * MEDIA_UNIT_SIZE = _
  rw [UInt32.toNat_ofNat_of_lt' hdiv, Nat.div_mul_cancel (slotStart_dvd i)]

lemma mediaEnd_placed (h : b.Fits H) :
    ((b.header H).sectionEntries i).mediaEndOffset.toNat * MEDIA_UNIT_SIZE =
      b.slotStart H i + b.chunkSize H i := by
  have hlt := h.addressable i sect hsect
  have hdiv := (Nat.div_lt_iff_lt_mul (by decide : 0 < MEDIA_UNIT_SIZE)).mpr hlt
  change (b.sectionEntry H i).mediaEndOffset.toNat * MEDIA_UNIT_SIZE = _
  rw [sectionEntry, hsect]
  change (UInt32.ofNat _).toNat * MEDIA_UNIT_SIZE = _
  rw [UInt32.toNat_ofNat_of_lt' hdiv,
    Nat.div_mul_cancel (Nat.dvd_add (slotStart_dvd i) (chunkSize_dvd i))]

lemma sectionRange_placed (h : b.Fits H) :
    sectionRange i ((b.header H).sectionEntries i) (b.image H).length =
      .ok (some (b.slotStart H i, b.slotStart H i + b.chunkSize H i)) := by
  have hpos := chunkSize_pos (H := H) hsect
  have hle := slotStart_add_le (b := b) (H := H) i
  have hheader : NCA_HEADER_SIZE ≤ b.slotStart H i := Nat.le_add_right _ _
  rw [sectionRange, mediaStart_placed hsect h, mediaEnd_placed hsect h, if_neg (by omega),
    if_neg (by omega), if_neg (by rw [image_length]; omega)]

lemma dataRange_placed (h : b.Fits H) :
    dataRange i ((b.header H).fsHeaders i) sect.data.hashType (b.chunkSize H i) =
      .ok (sect.dataOffset H, sect.dataOffset H + sect.data.contents.length) := by
  have hlt := h.addressable i sect hsect
  obtain ⟨pad, hchunk⟩ := chunk_eq (H := H) hsect
  change dataRange i (b.fsHeader H i) _ _ = _
  rw [fsHeader, hsect]
  refine sect.dataRange_eq i ?_ (lt_trans (Nat.lt_of_le_of_lt (Nat.le_add_left _ _) hlt) (by decide))
  rw [chunkSize, hchunk, List.length_append]
  exact Nat.le_add_right _ _

end Placed

lemma sectionRange_empty {i : Fin NCA_SECTION_COUNT} (hsect : b.sections i = none) (available : ℕ) :
    sectionRange i ((b.header H).sectionEntries i) available = .ok none := by
  change sectionRange i (b.sectionEntry H i) _ = _
  rw [sectionEntry, hsect]
  simp [sectionRange, EMPTY_SECTION_ENTRY]

lemma checkSection_ok (h : b.Fits H) (i : Fin NCA_SECTION_COUNT) :
    checkSection (b.header H) (b.image H).length i = ok () := by
  cases hsect : b.sections i with
  | none => simp [checkSection, sectionRange_empty hsect]
  | some sect =>
    have hfs : (b.header H).fsHeaders i = sect.fsHeader H := by
      change b.fsHeader H i = _
      rw [fsHeader, hsect]
    have hcrypt : cryptType i ((b.header H).fsHeaders i).cryptType =
        .ok sect.encryption.cryptType := by
      rw [hfs]
      exact cryptType_toU8 i _
    have hhash : hashType i ((b.header H).fsHeaders i).hashType = .ok sect.data.hashType := by
      rw [hfs]
      exact hashType_toU8 i _
    simp only [checkSection, sectionRange_placed hsect h, hcrypt, hhash, ofExcept_ok, ok_bind,
      sub_of_le (Nat.le_add_right _ _), Nat.add_sub_cancel_left, dataRange_placed hsect h, pure_eq]

theorem tryFromBytes_image (h : b.Fits H) :
    Nca.tryFromBytes (b.image H) = ok ⟨b.image H, b.header H, b.contentType⟩ := by
  have hread : NcaHeader.codec.fromPrefix (b.image H) = some (b.header H) :=
    Codec.fromPrefix_append _ _ _
  have hchecks : ∀ l : List (Fin NCA_SECTION_COUNT),
      l.forM (checkSection (b.header H) (b.image H).length) = ok () := by
    intro l
    induction l with
    | nil => rfl
    | cons i l ih =>
      change (checkSection (b.header H) _ i >>= fun _ => l.forM _) = _
      rw [checkSection_ok h, ok_bind, ih]
  have htype : Archive.contentType (b.header H).contentType = .ok b.contentType :=
    contentType_toU8 b.contentType
  have hmagic : (b.header H).magic = NCA3_MAGIC := rfl
  simp only [Nca.tryFromBytes, hread, okOr_some, ok_bind, ensure_true hmagic, htype, ofExcept_ok,
    hchecks, pure_eq]

theorem sectionAt_image {ε : Type} (h : b.Fits H) (i : Fin NCA_SECTION_COUNT) :
    (Nca.sectionAt ⟨b.image H, b.header H, b.contentType⟩ i : Outcome ε _) =
      ok (b.view H i) := by
  cases hsect : b.sections i with
  | none => simp [Nca.sectionAt, sectionRange_empty hsect, view, hsect]
  | some sect =>
    have hfs : (b.header H).fsHeaders i = sect.fsHeader H := by
      change b.fsHeader H i = _
      rw [fsHeader, hsect]
    have hhash : hashType i (sect.fsHeader H).hashType = .ok sect.data.hashType := hashType_toU8 i _
    obtain ⟨pre, post, himage, hpre⟩ := chunk_at (b := b) (H := H) i
    have hbytes : (slice (b.image H) (b.slotStart H i) (b.slotStart H i + b.chunkSize H i) :
        Outcome ε _) = ok (b.chunk H i) := slice_append himage hpre.symm (by rw [hpre]; rfl)
    obtain ⟨pad, hchunk⟩ := chunk_eq (H := H) hsect
    obtain ⟨front, hstored, hfront⟩ := sect.stored_eq (H := H)
    have hdata : (slice (b.chunk H i) (sect.dataOffset H)
        (sect.dataOffset H + sect.data.contents.length) : Outcome ε _) = ok sect.data.contents :=
      slice_append (by rw [hchunk, hstored, List.append_assoc]) hfront.symm (by rw [hfront])
    have hrange : dataRange i ((b.header H).fsHeaders i) sect.data.hashType (b.chunk H i).length =
        .ok _ := dataRange_placed hsect h
    rw [hfs] at hrange
    simp only [Nca.sectionAt, dif_pos i.isLt, Fin.eta, sectionRange_placed hsect h, hbytes, ok_bind,
      hhash, hrange, hdata, hfs, pure_eq, view, hsect, Option.map_some]

lemma view_isSome (i : Fin NCA_SECTION_COUNT) : (b.view H i).isSome = (b.sections i).isSome := by
  rw [view, Option.isSome_map]

lemma view_eq_some {i : Fin NCA_SECTION_COUNT} {v : NcaSection} (h : b.view H i = some v) :
    ∃ sect, b.sections i = some sect ∧ v =
      ⟨i, (b.slotStart H i, b.slotStart H i + b.chunkSize H i), sect.fsHeader H, b.chunk H i,
        sect.data.contents⟩ := by
  obtain ⟨sect, hsect, rfl⟩ := Option.map_eq_some_iff.mp h
  exact ⟨sect, hsect, rfl⟩

lemma slotStart_add_le_slotStart {i j : Fin NCA_SECTION_COUNT} (hij : i < j) :
    b.slotStart H i + b.chunkSize H i ≤ b.slotStart H j := by
  have hidx : (List.finRange NCA_SECTION_COUNT).idxOf i < (List.finRange NCA_SECTION_COUNT).idxOf j := by
    rw [List.idxOf_finRange, List.idxOf_finRange]
    exact hij
  have hle : offsetOf (b.chunkSize H) _ i + b.chunkSize H i ≤ offsetOf (b.chunkSize H) _ j :=
    offsetOf_add_le_offsetOf (List.mem_finRange i) hidx
  rw [slotStart, slotStart]
  omega

lemma exists_slot {p : ℕ} (hp : NCA_HEADER_SIZE ≤ p) (hlt : p < (b.image H).length) :
    ∃ i sect, b.sections i = some sect ∧ b.slotStart H i ≤ p ∧
      p < b.slotStart H i + b.chunkSize H i := by
  rw [image_length, body_length] at hlt
  obtain ⟨before, i, after, hsplit, hle, hlt⟩ := exists_of_lt_total
    (show p - NCA_HEADER_SIZE < total (b.chunkSize H) (List.finRange NCA_SECTION_COUNT) by omega)
  have hstart : NCA_HEADER_SIZE + total (b.chunkSize H) before = b.slotStart H i := by
    have hnodup : (before ++ i :: after).Nodup := hsplit ▸ List.nodup_finRange _
    rw [slotStart, hsplit, offsetOf_append hnodup]
  have hsome : b.sections i ≠ none := by
    intro hnone
    have hzero : b.chunkSize H i = 0 := by rw [chunkSize, chunk, hnone, List.length_nil]
    omega
  obtain ⟨sect, hsect⟩ := Option.ne_none_iff_exists'.mp hsome
  exact ⟨i, sect, hsect, by omega, by omega⟩

end NcaBuilder

/-! ## The round trip -/

lemma Section.superblock_romFs (image : Bytes) (encryption : SectionEncryption) (index : ℕ)
    (range : ℕ × ℕ) (bytes data : Bytes) :
    NcaSection.superblock ⟨index, range, fsHeader H ⟨.romFs image, encryption⟩, bytes, data⟩ =
      .romFs (ivfcSuperblock (Ivfc.tree H image)) := by
  have hhash : hashType index (fsHeader H ⟨.romFs image, encryption⟩).hashType = .ok .romFs :=
    hashType_toU8 index .romFs
  simp only [NcaSection.superblock, hhash, fromBytes_romFs]
  rfl

lemma Section.superblock_partition (archive : Bytes) (blockSize : UInt32)
    (encryption : SectionEncryption) (index : ℕ) (range : ℕ × ℕ) (bytes data : Bytes) :
    NcaSection.superblock
      ⟨index, range, fsHeader H ⟨.partition archive blockSize, encryption⟩, bytes, data⟩ =
        .pfs0 (Partition.superblock H archive blockSize) := by
  have hhash : hashType index (fsHeader H ⟨.partition archive blockSize, encryption⟩).hashType =
      .ok .pfs0 := hashType_toU8 index .pfs0
  simp only [NcaSection.superblock, hhash, fromBytes_partition]
  rfl

/-- What the reader hands out for a section is what the builder was given. -/
structure Section.ReadsAs (sect : Section) (view : NcaSection) : Prop where
  data : view.data = sect.data.contents
  encryption : view.encryption = sect.encryption.cryptType
  fsType : view.fsType = sect.data.fsType
  superblock : match sect.data with
    | .romFs _ => ∃ superblock, view.superblock = .romFs superblock
    | .partition _ _ => ∃ superblock, view.superblock = .pfs0 superblock

lemma Section.readsAs (sect : Section) (index : ℕ) (range : ℕ × ℕ) (bytes : Bytes) :
    sect.ReadsAs ⟨index, range, sect.fsHeader H, bytes, sect.data.contents⟩ where
  data := rfl
  encryption := by
    have hcrypt : cryptType index (sect.fsHeader H).cryptType = .ok sect.encryption.cryptType :=
      cryptType_toU8 index _
    simp only [NcaSection.encryption, hcrypt]
  fsType := by
    obtain ⟨data, encryption⟩ := sect
    cases data <;> rfl
  superblock := by
    obtain ⟨data, encryption⟩ := sect
    cases data with
    | romFs image => exact ⟨_, superblock_romFs ..⟩
    | partition archive blockSize => exact ⟨_, superblock_partition ..⟩

/-- A built archive is accepted. Its slots read back as they were filled, and the sections tile the body
on media units; the header's fields are the builder's. -/
theorem build_tryFromBytes {ε : Type} {b : NcaBuilder} {plain : PlainNca} (h : b.build H = ok plain) :
    ∃ nca, Nca.tryFromBytes plain.toBytes = ok nca ∧ nca.contentType = b.contentType ∧
      nca.titleId = b.titleId ∧ nca.ncaSize.toNat = plain.toBytes.length ∧
      nca.keyGeneration = b.keyGeneration.value ∧
      ∃ views : Fin NCA_SECTION_COUNT → Option NcaSection,
        (∀ i : Fin NCA_SECTION_COUNT, (nca.sectionAt i : Outcome ε _) = ok (views i)) ∧
        (∀ i, (views i).isSome = (b.sections i).isSome) ∧
        (∀ i sect view, b.sections i = some sect → views i = some view → sect.ReadsAs view) ∧
        (∀ i view, views i = some view →
          NCA_HEADER_SIZE ≤ view.range.1 ∧ MEDIA_UNIT_SIZE ∣ view.range.1 ∧
          view.range.2 ≤ plain.toBytes.length) ∧
        (∀ i j v w, i < j → views i = some v → views j = some w → v.range.2 ≤ w.range.1) ∧
        ∀ p, NCA_HEADER_SIZE ≤ p → p < plain.toBytes.length →
          ∃ i view, views i = some view ∧ view.range.1 ≤ p ∧ p < view.range.2 := by
  obtain ⟨rfl, hfits⟩ := NcaBuilder.build_eq_ok.mp h
  have himage : PlainNca.toBytes ⟨b.header H, b.body H⟩ = b.image H := rfl
  rw [himage]
  refine ⟨_, NcaBuilder.tryFromBytes_image hfits, rfl, rfl, ?_, splitKeyGeneration_max _, b.view H,
    fun i => NcaBuilder.sectionAt_image hfits i, NcaBuilder.view_isSome, ?_, ?_, ?_, ?_⟩
  · rw [NcaBuilder.image_length]
    exact UInt64.toNat_ofNat_of_lt' hfits.size
  · intro i sect v hsect hview
    obtain ⟨sect', hsect', rfl⟩ := NcaBuilder.view_eq_some hview
    obtain rfl := Option.some.inj (hsect.symm.trans hsect')
    exact sect.readsAs _ _ _
  · intro i v hview
    obtain ⟨sect, -, rfl⟩ := NcaBuilder.view_eq_some hview
    refine ⟨Nat.le_add_right _ _, NcaBuilder.slotStart_dvd i, ?_⟩
    rw [NcaBuilder.image_length]
    exact NcaBuilder.slotStart_add_le i
  · intro i j v w hij hv hw
    obtain ⟨-, -, rfl⟩ := NcaBuilder.view_eq_some hv
    obtain ⟨-, -, rfl⟩ := NcaBuilder.view_eq_some hw
    exact NcaBuilder.slotStart_add_le_slotStart hij
  · intro p hp hlt
    obtain ⟨i, sect, hsect, hle, hlt⟩ := NcaBuilder.exists_slot hp hlt
    exact ⟨i, _, by rw [NcaBuilder.view, hsect]; rfl, hle, hlt⟩

lemma build_contents {b : NcaBuilder} {plain : PlainNca} (h : b.build H = ok plain) :
    ∃ nca, Nca.tryFromBytes plain.toBytes = ok nca ∧ ∀ (i : Fin NCA_SECTION_COUNT) sect, b.sections i = some sect →
      ∃ view, (nca.sectionAt i : Outcome ε _) = ok (some view) ∧ view.data = sect.data.contents := by
  obtain ⟨rfl, hfits⟩ := NcaBuilder.build_eq_ok.mp h
  refine ⟨_, NcaBuilder.tryFromBytes_image hfits, fun i sect hsect => ?_⟩
  obtain ⟨view, hview⟩ : ∃ view, b.view H i = some view := by
    rw [NcaBuilder.view, hsect]
    exact ⟨_, rfl⟩
  refine ⟨view, (NcaBuilder.sectionAt_image hfits i).trans (congrArg ok hview), ?_⟩
  obtain ⟨sect', hsect', rfl⟩ := NcaBuilder.view_eq_some hview
  rw [Option.some.inj (hsect.symm.trans hsect')]

/-! ## Small archives -/

/-- The contents take up one block of a tree at most, or 256 blocks of a table. -/
def Section.Small (sect : Section) : Prop :=
  sect.data.contents.length ≤ Ivfc.IVFC_BLOCK_SIZE ∧
    match sect.data with
    | .romFs _ => True
    | .partition archive blockSize => 0 < blockSize.toNat ∧ archive.length ≤ 0x100 * blockSize.toNat

lemma blockCount_le {size n k : ℕ} (hpos : 0 < size) (h : n ≤ k * size) : Digests.blockCount size n ≤ k := by
  rw [Digests.blockCount]
  exact Nat.lt_succ_iff.mp ((Nat.div_lt_iff_lt_mul hpos).mpr (by rw [Nat.succ_mul]; omega))

lemma level_le {image : Bytes} (h : image.length ≤ Ivfc.IVFC_BLOCK_SIZE) (k : ℕ) :
    ((Ivfc.hashLevel H)^[k] image).length ≤ Ivfc.IVFC_BLOCK_SIZE := by
  induction k with
  | zero => exact h
  | succ k ih =>
    have hblock : Ivfc.IVFC_BLOCK_SIZE = 0x4000 := rfl
    have hhash : HASH_SIZE = 0x20 := rfl
    have hcount := blockCount_le (k := 1) (show 0 < Ivfc.IVFC_BLOCK_SIZE by decide) (ih.trans_eq (Nat.one_mul _).symm)
    rw [Function.iterate_succ_apply', Ivfc.hashLevel, List.length_append, List.length_replicate,
      Digests.table_length, Digests.blocks_length]
    rw [hblock] at hcount ⊢
    rw [hhash]
    omega

lemma Section.Small.stored_le {sect : Section} (h : sect.Small) :
    (sect.stored H).length ≤ 8 * Ivfc.IVFC_BLOCK_SIZE := by
  obtain ⟨data, encryption⟩ := sect
  obtain ⟨hlength, hblocks⟩ := h
  have hblock : Ivfc.IVFC_BLOCK_SIZE = 0x4000 := rfl
  cases data with
  | romFs image =>
    have hlevels : ((List.finRange IVFC_MAX_LEVELS).flatMap (Ivfc.level H image)).length ≤
        (List.finRange IVFC_MAX_LEVELS).length * Ivfc.IVFC_BLOCK_SIZE := by
      rw [List.length_flatMap]
      refine (List.sum_le_card_nsmul _ Ivfc.IVFC_BLOCK_SIZE fun n hn => ?_).trans (by simp)
      obtain ⟨i, -, rfl⟩ := List.mem_map.mp hn
      exact level_le hlength _
    refine hlevels.trans ?_
    rw [List.length_finRange]
    exact Nat.mul_le_mul_right _ (by decide)
  | partition archive blockSize =>
    have hcount := blockCount_le hblocks.1 hblocks.2
    have hhash : HASH_SIZE = 0x20 := rfl
    have hunit : MEDIA_UNIT_SIZE = 0x200 := rfl
    change (Partition.padded H archive blockSize ++ archive).length ≤ _
    rw [List.length_append, Partition.padded, List.length_append, List.length_replicate, Partition.digests_length,
      hhash, hunit]
    change archive.length ≤ _ at hlength
    omega

namespace NcaBuilder
variable {b : NcaBuilder}

lemma build_small (h : ∀ i sect, b.sections i = some sect → sect.Small) :
    ∃ plain, b.build H = ok plain ∧ plain.toBytes.length < 2 ^ 20 := by
  have hblock : Ivfc.IVFC_BLOCK_SIZE = 0x4000 := rfl
  have hunit : MEDIA_UNIT_SIZE = 0x200 := rfl
  have hheader : NCA_HEADER_SIZE = 0xC00 := rfl
  have hchunk : ∀ i, b.chunkSize H i ≤ 8 * 0x4000 + 0x200 := by
    intro i
    rw [chunkSize, chunk]
    cases hsect : b.sections i with
    | none => exact Nat.zero_le _
    | some sect =>
      have hle := (h i sect hsect).stored_le (H := H)
      change (padToMediaUnit (sect.stored H)).length ≤ _
      rw [padToMediaUnit, hunit]
      rw [hblock] at hle
      split_ifs
      · rw [List.length_append, List.length_replicate]
        omega
      · omega
  have hbody : (b.body H).length ≤ 4 * (8 * 0x4000 + 0x200) := by
    rw [body_length, Placement.total]
    refine (List.sum_le_card_nsmul _ (8 * 0x4000 + 0x200) fun n hn => ?_).trans (by simp [NCA_SECTION_COUNT])
    obtain ⟨i, -, rfl⟩ := List.mem_map.mp hn
    exact hchunk i
  refine ⟨_, build_eq_ok.mpr ⟨rfl, fun i sect hsect => ?_, fun i sect _ => ?_, by omega⟩, ?_⟩
  · have hsmall := h i sect hsect
    have hle := hsmall.stored_le (H := H)
    obtain ⟨data, encryption⟩ := sect
    cases data with
    | romFs image =>
      change (Ivfc.stored H image).length < 2 ^ 64
      change (Ivfc.stored H image).length ≤ _ at hle
      omega
    | partition archive blockSize =>
      have hpos : 0 < blockSize.toNat := hsmall.2.1
      change blockSize ≠ 0
      rintro rfl
      exact absurd hpos (by decide)
  · have hle := slotStart_add_le (b := b) (H := H) i
    omega
  · change (b.image H).length < 2 ^ 20
    rw [image_length]
    omega

end NcaBuilder

/-- The bytes themselves are taken for their digest, cut or filled up. -/
def cutHash (bytes : Bytes) : Digest := ⟨(bytes ++ List.replicate HASH_SIZE 0).take HASH_SIZE, by simp⟩

def pairedArchive : NcaBuilder where
  contentType := .control
  titleId := 1
  sections i :=
    if i = 0 then some ⟨.romFs [1, 2, 3], .ctr⟩
    else if i = 2 then some ⟨.partition [4, 5, 6, 7, 8] 2, .none⟩ else none

lemma pairedArchive_build : ∃ plain, pairedArchive.build cutHash = ok plain := by
  obtain ⟨plain, hplain, -⟩ := NcaBuilder.build_small (H := cutHash) (b := pairedArchive) fun i sect hsect => by
    simp only [pairedArchive] at hsect
    split_ifs at hsect
    · obtain rfl := Option.some.inj hsect
      exact ⟨by decide, trivial⟩
    · obtain rfl := Option.some.inj hsect
      exact ⟨by decide, by decide, by decide⟩
  exact ⟨plain, hplain⟩

theorem build_tryFromBytes_paired : ∃ plain nca,
    pairedArchive.build cutHash = ok plain ∧ Nca.tryFromBytes plain.toBytes = ok nca ∧ nca.titleId = 1 ∧
      (nca.sectionAt 1 : Outcome Unit _) = ok none ∧ ∃ image archive,
        (nca.sectionAt 0 : Outcome Unit _) = ok (some image) ∧ image.data = [1, 2, 3] ∧ image.encryption = .ctr ∧
        (nca.sectionAt 2 : Outcome Unit _) = ok (some archive) ∧ archive.data = [4, 5, 6, 7, 8] ∧
        image.range.2 ≤ archive.range.1 := by
  obtain ⟨plain, hplain⟩ := pairedArchive_build
  obtain ⟨nca, hread, -, htitle, -, -, views, hviews, hsome, hreads, -, happart, -⟩ :=
    build_tryFromBytes (ε := Unit) hplain
  obtain ⟨image, himage⟩ : ∃ view, views 0 = some view := Option.isSome_iff_exists.mp (hsome 0)
  obtain ⟨archive, harchive⟩ : ∃ view, views 2 = some view := Option.isSome_iff_exists.mp (hsome 2)
  have hnone : views 1 = none := Option.not_isSome_iff_eq_none.mp ((hsome 1).trans_ne (by decide))
  have hreadsImage := hreads 0 _ image rfl himage
  exact ⟨plain, nca, hplain, hread, htitle, (hviews 1).trans (congrArg ok hnone), image, archive,
    (hviews 0).trans (congrArg ok himage), hreadsImage.data, hreadsImage.encryption,
    (hviews 2).trans (congrArg ok harchive), (hreads 2 _ archive rfl harchive).data,
    happart 0 2 image archive (by decide) himage harchive⟩

end NxObject.Archive
