import NxObject.NroReading

/-!
# Reading back a built NRO

The segments stand at the offsets they were linked for, the header lies over the text segment behind its
start stub, and the assets fill the end of the file. Only the header covers anything that was written
before it.
-/
namespace NxObject.Relocatable
open Outcome

variable {ε : Type}

/-! ## Assets -/

def stored (asset : Option Bytes) : Bytes := asset.getD []

lemma assetEntry_snd (asset : Option Bytes) (assetOffset : ℕ) :
    (assetEntry asset assetOffset).2 = assetOffset + (stored asset).length := by
  cases asset <;> rfl

lemma assetEntry_fst {asset : Option Bytes} {assetOffset : ℕ}
    (h : assetOffset + (stored asset).length < 2 ^ 63) :
    (assetEntry asset assetOffset).1.size.toNat = (stored asset).length ∧
      (stored asset ≠ [] → (assetEntry asset assetOffset).1.offset.toNat = assetOffset) ∧
      (assetEntry asset assetOffset).1.offset.toNat ≤ assetOffset := by
  cases asset with
  | none => exact ⟨rfl, fun hne => absurd rfl hne, Nat.zero_le _⟩
  | some bytes =>
    change assetOffset + bytes.length < 2 ^ 63 at h
    have hoffset : (UInt64.ofNat assetOffset).toNat = assetOffset :=
      UInt64.toNat_ofNat_of_lt' (show assetOffset < 2 ^ 64 by omega)
    have hsize : (UInt64.ofNat bytes.length).toNat = bytes.length :=
      UInt64.toNat_ofNat_of_lt' (show bytes.length < 2 ^ 64 by omega)
    exact ⟨hsize, fun _ => hoffset, hoffset.le⟩

lemma writeAsset_eq {asset : Option Bytes} {buf : Bytes} {currentPos : ℕ}
    (h : currentPos + (stored asset).length ≤ buf.length) :
    (writeAsset asset buf currentPos : Outcome ε _) =
      ok (overwrite buf currentPos (stored asset), currentPos + (stored asset).length) := by
  cases asset with
  | none => exact congrArg (fun buf => ok (buf, currentPos)) (by simp [overwrite, stored])
  | some bytes =>
    change currentPos + bytes.length ≤ buf.length at h
    rw [writeAsset, copyFromSlice_overwrite h]
    rfl

lemma stored_eq_nil {asset : Option Bytes} (h : stored asset = []) :
    asset.filter (· ≠ []) = none := by
  cases asset with
  | none => rfl
  | some bytes => exact Option.filter_eq_none_iff.mpr (by simpa [stored] using h)

lemma filter_of_ne {asset : Option Bytes} (h : stored asset ≠ []) :
    asset.filter (· ≠ []) = some (stored asset) := by
  cases asset with
  | none => exact absurd rfl h
  | some bytes => exact Option.filter_some_pos (by simpa [stored] using h)

/-! ## The image -/

namespace NroBuilder
variable (b : NroBuilder) (text rodata data : Bytes)

def nroSize : ℕ := b.dataVaddr.toNat + (padded data 0x1000).length

def assetsSize : ℕ := (stored b.icon).length + (stored b.nacp).length + (stored b.romfs).length

def totalSize : ℕ := if b.hasAssets then b.nroSize data + 0x38 + b.assetsSize else b.nroSize data

/-- The text segment opens the file, and the three segments follow one another without overlap. -/
structure Laid : Prop where
  hasText : b.text = some text
  hasRodata : b.rodata = some rodata
  hasData : b.data = some data
  textVaddr : b.textVaddr = 0
  nonempty : text ≠ []
  text_le : (padded text 0x1000).length ≤ b.rodataVaddr.toNat
  rodata_le : b.rodataVaddr.toNat + (padded rodata 0x1000).length ≤ b.dataVaddr.toNat
  data_lt : b.nroSize data < 2 ^ 32
  total_lt : b.totalSize data < 2 ^ 63

def header : NroHeader where
  magic := NRO_MAGIC
  version := 0
  size := UInt32.ofNat (b.nroSize data)
  flags := b.flags
  segments :=
    ![⟨b.textVaddr, UInt32.ofNat (padded text 0x1000).length⟩,
      ⟨b.rodataVaddr, UInt32.ofNat (padded rodata 0x1000).length⟩,
      ⟨b.dataVaddr, UInt32.ofNat (padded data 0x1000).length⟩]
  bssSize := b.bssSize
  reserved := 0
  buildId := b.buildId.getD (List.Vector.replicate 0x20 0)
  reserved2 := List.Vector.replicate 0x20 0

def iconPos : ℕ := 0x38

def nacpPos : ℕ := iconPos + (stored b.icon).length

def romfsPos : ℕ := b.nacpPos + (stored b.nacp).length

def assetParts : List Part :=
  if b.hasAssets then
    [(b.nroSize data, NroAssetHeader.codec.enc b.assetHeader),
      (b.nroSize data + iconPos, stored b.icon), (b.nroSize data + b.nacpPos, stored b.nacp),
      (b.nroSize data + b.romfsPos, stored b.romfs)]
  else []

def laterParts : List Part :=
  (b.rodataVaddr.toNat, padded rodata 0x1000) :: (b.dataVaddr.toNat, padded data 0x1000) ::
    (0x10, NroHeader.codec.enc (b.header text rodata data)) :: b.assetParts data

def parts : List Part := (0, padded text 0x1000) :: b.laterParts text rodata data

def image : Bytes := written (List.replicate (b.totalSize data) 0) (b.parts text rodata data)

/-- The segments are set, each ends below `2^32`, and the file is no longer than a vector can be. -/
structure Sized : Prop where
  hasText : b.text = some text
  hasRodata : b.rodata = some rodata
  hasData : b.data = some data
  text_lt : b.textVaddr.toNat + (padded text 0x1000).length < 2 ^ 32
  rodata_lt : b.rodataVaddr.toNat + (padded rodata 0x1000).length < 2 ^ 32
  data_lt : b.nroSize data < 2 ^ 32
  total_lt : b.totalSize data < 2 ^ 63

/-- The three segments where they were linked, and the header over them. -/
def segmentParts : List Part :=
  [(b.textVaddr.toNat, padded text 0x1000), (b.rodataVaddr.toNat, padded rodata 0x1000),
    (b.dataVaddr.toNat, padded data 0x1000), (0x10, NroHeader.codec.enc (b.header text rodata data))]

variable {b text rodata data}

lemma assetHeader_icon : b.assetHeader.icon = (assetEntry b.icon iconPos).1 := rfl

lemma assetHeader_nacp : b.assetHeader.nacp = (assetEntry b.nacp b.nacpPos).1 := by
  rw [nacpPos, ← assetEntry_snd]
  rfl

lemma assetHeader_romfs : b.assetHeader.romfs = (assetEntry b.romfs b.romfsPos).1 := by
  rw [romfsPos, nacpPos, ← assetEntry_snd, ← assetEntry_snd]
  rfl

lemma stored_of_not_hasAssets (h : ¬ b.hasAssets) : b.assetsSize = 0 := by
  simp only [hasAssets, Bool.or_eq_true, not_or, Bool.not_eq_true, Option.isSome_eq_false_iff,
    Option.isNone_iff_eq_none] at h
  obtain ⟨⟨hicon, hnacp⟩, hromfs⟩ := h
  rw [assetsSize, hicon, hnacp, hromfs]
  rfl

/-! ## No part covers another, but the header the text -/

variable (b data) in
lemma nroSize_le : b.nroSize data ≤ b.totalSize data := by
  rw [totalSize]
  split_ifs <;> omega

lemma assetParts_chain : (b.assetParts data).IsChain fun p q => p.stop ≤ q.1 := by
  rw [assetParts]
  split_ifs
  · simp only [List.isChain_cons_cons, List.isChain_singleton, Part.stop, Codec.enc_length,
      NroAssetHeader.codec_size, iconPos, nacpPos, romfsPos, and_true]
    refine ⟨?_, ?_, ?_⟩ <;> omega
  · exact List.isChain_nil

variable (b data) in
lemma assetParts_bounds :
    ∀ p ∈ b.assetParts data, b.nroSize data ≤ p.1 ∧ p.stop ≤ b.totalSize data := by
  rw [assetParts, totalSize]
  split_ifs
  · simp only [List.forall_mem_cons, Part.stop, Codec.enc_length,
      NroAssetHeader.codec_size, iconPos, nacpPos, romfsPos, assetsSize]
    refine ⟨?_, ?_, ?_, ?_, List.forall_mem_nil _⟩ <;> omega
  · exact List.forall_mem_nil _

/-! ## Building -/

lemma writeAssets_eq {buf : Bytes} (hassets : b.hasAssets) (hlen : b.totalSize data ≤ buf.length) :
    (b.writeAssets buf (b.nroSize data) : Outcome ε _) = ok (written buf (b.assetParts data)) := by
  rw [totalSize, if_pos hassets, assetsSize] at hlen
  have hheader : b.nroSize data + (NroAssetHeader.codec.enc b.assetHeader).length ≤ buf.length := by
    rw [Codec.enc_length, NroAssetHeader.codec_size]
    omega
  obtain ⟨buf₁, hbuf₁⟩ : ∃ bs, overwrite buf (b.nroSize data)
    (NroAssetHeader.codec.enc b.assetHeader) = bs := ⟨_, rfl⟩
  have hlen₁ : buf₁.length = buf.length := by rw [← hbuf₁, overwrite_length hheader]
  have hicon : b.nroSize data + 0x38 + (stored b.icon).length ≤ buf₁.length := by omega
  obtain ⟨buf₂, hbuf₂⟩ : ∃ bs, overwrite buf₁ (b.nroSize data + 0x38) (stored b.icon) = bs := ⟨_, rfl⟩
  have hlen₂ : buf₂.length = buf.length := by rw [← hbuf₂, overwrite_length hicon, hlen₁]
  have hnacp : b.nroSize data + 0x38 + (stored b.icon).length + (stored b.nacp).length ≤ buf₂.length := by
    omega
  obtain ⟨buf₃, hbuf₃⟩ : ∃ bs, overwrite buf₂ (b.nroSize data + 0x38 + (stored b.icon).length)
    (stored b.nacp) = bs := ⟨_, rfl⟩
  have hlen₃ : buf₃.length = buf.length := by rw [← hbuf₃, overwrite_length hnacp, hlen₂]
  have hromfs : b.nroSize data + 0x38 + (stored b.icon).length + (stored b.nacp).length +
      (stored b.romfs).length ≤ buf₃.length := by omega
  have hwritten : written buf (b.assetParts data) =
      overwrite buf₃ (b.nroSize data + 0x38 + (stored b.icon).length + (stored b.nacp).length)
        (stored b.romfs) := by
    rw [assetParts, if_pos hassets, ← hbuf₃, ← hbuf₂, ← hbuf₁]
    simp only [written, List.foldl_cons, List.foldl_nil, iconPos, nacpPos, romfsPos, Nat.add_assoc]
  simp only [writeAssets, copyFromSlice_overwrite hheader, hbuf₁, ok_bind, writeAsset_eq hicon, hbuf₂,
    writeAsset_eq hnacp, hbuf₃, writeAsset_eq hromfs, pure_eq, hwritten]

variable (b data) in
lemma totalSize_eq : b.totalSize data =
    if b.hasAssets then
      b.nroSize data + 0x38 + (b.icon.elim 0 List.length) + (b.nacp.elim 0 List.length) +
        (b.romfs.elim 0 List.length)
    else b.nroSize data := by
  have helim : ∀ asset : Option Bytes, asset.elim 0 List.length = (stored asset).length := by
    intro asset
    cases asset <;> rfl
  rw [totalSize, assetsSize, helim, helim, helim]
  simp only [Nat.add_assoc]

section Sized
variable (h : b.Sized text rodata data)
include h

theorem build_eq_writeParts : b.build = writeParts (List.replicate (b.totalSize data) 0)
    (b.segmentParts text rodata data ++ b.assetParts data) := by
  have htextLt := h.text_lt
  have hrodataLt := h.rodata_lt
  have hdataLt := h.data_lt
  have hsize : b.dataVaddr.toNat + (padded data 0x1000).length = b.nroSize data := rfl
  have htext : (padToAlignment text 0x1000 : Outcome BuildError _) = ok (padded text 0x1000) :=
    padToAlignment_of_lt (by decide) (by omega)
  have hrodata : (padToAlignment rodata 0x1000 : Outcome BuildError _) = ok (padded rodata 0x1000) :=
    padToAlignment_of_lt (by decide) (by omega)
  have hdata : (padToAlignment data 0x1000 : Outcome BuildError _) = ok (padded data 0x1000) :=
    padToAlignment_of_lt (by decide) (by omega)
  have hmod : (padded data 0x1000).length % 2 ^ 32 = (padded data 0x1000).length :=
    Nat.mod_eq_of_lt (by omega)
  have hnroSize : (add32 b.dataVaddr.toNat (padded data 0x1000).length : Outcome BuildError _) =
      ok (b.nroSize data) := add32_of_lt hdataLt
  have hzeroed : (zeroed (b.totalSize data) : Outcome BuildError _) = ok _ := zeroed_of_lt h.total_lt
  have htotal := totalSize_eq b data
  have hrun : ∀ (buf : Bytes) (rest : Bytes → Outcome BuildError Bytes), (do
      let buf ← copyFromSlice buf b.textVaddr.toNat (padded text 0x1000)
      let buf ← copyFromSlice buf b.rodataVaddr.toNat (padded rodata 0x1000)
      let buf ← copyFromSlice buf b.dataVaddr.toNat (padded data 0x1000)
      let buf ← copyFromSlice buf 0x10 (NroHeader.codec.enc (b.header text rodata data))
      rest buf) = writeParts buf (b.segmentParts text rodata data) >>= rest := by
    intro buf rest
    simp only [segmentParts, writeParts, List.foldlM_cons, List.foldlM_nil, bind_assoc, pure_eq, ok_bind]
  simp only [build, h.hasText, h.hasRodata, h.hasData, okOr_some, ok_bind, htext, hrodata, hdata, hmod,
    hnroSize, ← htotal, hzeroed]
  refine (hrun _ _).trans ?_
  rw [writeParts_append]
  by_cases hfits : ∀ p ∈ b.segmentParts text rodata data,
      p.stop ≤ (List.replicate (b.totalSize data) (0 : UInt8)).length
  · have hlen := written_length hfits
    rw [List.length_replicate] at hlen
    rw [writeParts_eq hfits, ok_bind, ok_bind, writeParts_eq fun p hp => ?_]
    · split_ifs with hassets
      · exact writeAssets_eq hassets hlen.ge
      · rw [assetParts, if_neg hassets]
        rfl
    · rw [hlen]
      exact (assetParts_bounds b data p hp).2
  · push Not at hfits
    rw [writeParts_eq_panic hfits]
    rfl

end Sized

section Layout
variable (h : b.Laid text rodata data)
include h

lemma text_length : 0x1000 ≤ (padded text 0x1000).length := by
  have hlen : 0 < text.length := List.length_pos_iff.mpr h.nonempty
  have hle := Placement.le_alignUp (by decide : 0 < 0x1000) text.length
  obtain ⟨k, hk⟩ := Placement.dvd_alignUp 0x1000 text.length
  rw [padded_length (by decide)]
  omega

lemma totalSize_ge : 0x1000 ≤ b.totalSize data := by
  have hsize : b.dataVaddr.toNat + (padded data 0x1000).length = b.nroSize data := rfl
  have htotal := nroSize_le b data
  have htext := text_length h
  have htextLe := h.text_le
  have hrodata := h.rodata_le
  omega

lemma laterParts_bounds :
    ∀ p ∈ b.laterParts text rodata data, p.stop ≤ b.totalSize data ∧
      (p.1 = 0x10 ∧ p.stop = 0x80 ∨ (padded text 0x1000).length ≤ p.1) := by
  have hsize : b.dataVaddr.toNat + (padded data 0x1000).length = b.nroSize data := rfl
  have htotal := nroSize_le b data
  have htext := text_length h
  have htextLe := h.text_le
  have hrodata := h.rodata_le
  rw [laterParts]
  simp only [List.forall_mem_cons, Part.stop, Codec.enc_length, NroHeader.codec_size]
  refine ⟨⟨by omega, Or.inr (by omega)⟩, ⟨by omega, Or.inr (by omega)⟩, ⟨by omega, Or.inl ⟨trivial, trivial⟩⟩, ?_⟩
  intro p hp
  obtain ⟨hle, hstop⟩ := assetParts_bounds b data p hp
  exact ⟨hstop, Or.inr (by omega)⟩

lemma parts_stop : ∀ p ∈ b.parts text rodata data, p.stop ≤ b.totalSize data := by
  have htotal := nroSize_le b data
  have hsize : b.dataVaddr.toNat + (padded data 0x1000).length = b.nroSize data := rfl
  have htextLe := h.text_le
  have hrodata := h.rodata_le
  refine List.forall_mem_cons.mpr ⟨?_, fun p hp => (laterParts_bounds h p hp).1⟩
  change 0 + (padded text 0x1000).length ≤ _
  omega

lemma laterParts_apart : (b.laterParts text rodata data).Pairwise Part.Apart := by
  have hsize : b.dataVaddr.toNat + (padded data 0x1000).length = b.nroSize data := rfl
  have htext := text_length h
  have htextLe := h.text_le
  have hrodata := h.rodata_le
  have hassets := assetParts_bounds b data
  simp only [laterParts, List.pairwise_cons, List.forall_mem_cons, Part.Apart, Part.stop, Codec.enc_length,
    NroHeader.codec_size]
  refine ⟨⟨Or.inl hrodata, Or.inr (by omega), ?_⟩, ⟨Or.inr (by omega), ?_⟩, ?_,
    (pairwise_stop_le assetParts_chain).imp Or.inl⟩
  · intro p hp
    exact Or.inl (by have := (hassets p hp).1; omega)
  · intro p hp
    exact Or.inl (by have := (hassets p hp).1; omega)
  · intro p hp
    exact Or.inl (by have := (hassets p hp).1; omega)

lemma image_length : (b.image text rodata data).length = b.totalSize data := by
  rw [image, written_length (by simpa using parts_stop h), List.length_replicate]

lemma sliceAt_image {p : Part} (hp : p ∈ b.laterParts text rodata data) :
    sliceAt (b.image text rodata data) p.1 p.2.length = p.2 := by
  have hstop := parts_stop h
  obtain ⟨htext, hlater⟩ := List.forall_mem_cons.mp hstop
  have hlen : (overwrite (List.replicate (b.totalSize data) 0) 0 (padded text 0x1000)).length =
      b.totalSize data := by
    rw [overwrite_length (by simpa [Part.stop] using htext), List.length_replicate]
  exact sliceAt_written (by rwa [hlen]) (laterParts_apart h) hp

lemma image_text {i : ℕ} (hi : i < (padded text 0x1000).length) (hheader : ¬ (0x10 ≤ i ∧ i < 0x80)) :
    (b.image text rodata data)[i]? = (padded text 0x1000)[i]? := by
  have hstop : ∀ p ∈ b.parts text rodata data,
      p.stop ≤ (List.replicate (b.totalSize data) (0 : UInt8)).length := by simpa using parts_stop h
  have hrest := written_cons_getElem? hstop (i := i) (fun p hp => by
    obtain ⟨-, ⟨hstart, hstop⟩ | hle⟩ := laterParts_bounds h p hp <;> omega) hi
  rwa [Nat.zero_add] at hrest

lemma sized_of_laid : b.Sized text rodata data := by
  have hsize : b.dataVaddr.toNat + (padded data 0x1000).length = b.nroSize data := rfl
  have htextLe := h.text_le
  have hrodataLe := h.rodata_le
  have hdataLt := h.data_lt
  refine ⟨h.hasText, h.hasRodata, h.hasData, ?_, by omega, hdataLt, h.total_lt⟩
  rw [h.textVaddr]
  change 0 + _ < _
  omega

theorem build_eq : b.build = ok (b.image text rodata data) := by
  have hstop := parts_stop h
  have hsplit : b.segmentParts text rodata data ++ b.assetParts data = b.parts text rodata data := by
    rw [segmentParts, h.textVaddr]
    rfl
  rw [build_eq_writeParts (sized_of_laid h), hsplit, writeParts_eq (by simpa using hstop), image]

end Layout

/-! ## Reading back -/

variable (b text rodata data) in
/-- What the reader is to make of the image. Empty assets leave no room for an asset header. -/
def read : Nro where
  bytes := b.image text rodata data
  start := NroStart.codec.dec (b.image text rodata data)
  header := b.header text rodata data
  assetHeader := if b.assetsSize = 0 then none else some b.assetHeader

/-- An asset, where it stands behind the asset header, and the field it is recorded in. -/
structure Holds (b : NroBuilder) (data : Bytes) (f : NroAssetHeader → NroAssetSection)
    (asset : Option Bytes) (pos : ℕ) : Prop where
  entry : f b.assetHeader = (assetEntry asset pos).1
  start : 0x38 ≤ pos
  stop : pos + (stored asset).length ≤ 0x38 + b.assetsSize
  part : b.hasAssets → (b.nroSize data + pos, stored asset) ∈ b.assetParts data

lemma icon_holds : b.Holds data (·.icon) b.icon iconPos where
  entry := assetHeader_icon
  start := le_rfl
  stop := by
    rw [iconPos, assetsSize]
    omega
  part h := by simp only [assetParts, if_pos h, List.mem_cons, true_or, or_true]

lemma nacp_holds : b.Holds data (·.nacp) b.nacp b.nacpPos where
  entry := assetHeader_nacp
  start := Nat.le_add_right _ _
  stop := by
    rw [nacpPos, iconPos, assetsSize]
    omega
  part h := by simp only [assetParts, if_pos h, List.mem_cons, true_or, or_true]

lemma romfs_holds : b.Holds data (·.romfs) b.romfs b.romfsPos where
  entry := assetHeader_romfs
  start := (Nat.le_add_right _ _).trans (Nat.le_add_right _ _)
  stop := by
    rw [romfsPos, nacpPos, iconPos, assetsSize]
    omega
  part h := by simp only [assetParts, if_pos h, List.mem_cons, true_or, or_true]

section Reading
variable (h : b.Laid text rodata data)
include h

omit h in
lemma hasAssets_of_assetsSize (hsize : b.assetsSize ≠ 0) : b.hasAssets := by
  by_contra hassets
  exact hsize (stored_of_not_hasAssets hassets)

lemma size_toNat : (b.header text rodata data).size.toNat = b.nroSize data :=
  UInt32.toNat_ofNat_of_lt' h.data_lt

lemma Holds.recorded {f : NroAssetHeader → NroAssetSection} {asset : Option Bytes} {pos : ℕ}
    (hholds : b.Holds data f asset pos) (hassets : b.hasAssets) :
    (f b.assetHeader).size.toNat = (stored asset).length ∧
      (stored asset ≠ [] → (f b.assetHeader).offset.toNat = pos) ∧
      (f b.assetHeader).offset.toNat ≤ pos ∧
      b.nroSize data + pos + (stored asset).length ≤ b.totalSize data := by
  have htotal := h.total_lt
  have hstop := hholds.stop
  have hsize : b.totalSize data = b.nroSize data + 0x38 + b.assetsSize := if_pos hassets
  have hlt : pos + (stored asset).length < 2 ^ 63 := by omega
  obtain ⟨hlen, hpos, hle⟩ := assetEntry_fst hlt
  rw [hholds.entry]
  exact ⟨hlen, hpos, hle, by omega⟩

lemma Holds.inside {f : NroAssetHeader → NroAssetSection} {asset : Option Bytes} {pos : ℕ}
    (hholds : b.Holds data f asset pos) (hassets : b.hasAssets) :
    (f b.assetHeader).Inside (b.header text rodata data).size.toNat
      (b.image text rodata data).length := by
  intro hne
  have htotal := h.total_lt
  obtain ⟨hlen, hpos, -, hstop⟩ := hholds.recorded h hassets
  rw [hlen] at hne
  rw [size_toNat h, hlen, hpos (fun hnil => hne (by rw [hnil]; rfl)), image_length h]
  exact ⟨by omega, hstop⟩

lemma Holds.read {f : NroAssetHeader → NroAssetSection} {asset : Option Bytes} {pos : ℕ}
    (hholds : b.Holds data f asset pos) :
    ((b.read text rodata data).assetSection f : Outcome ε _) = ok (asset.filter (· ≠ [])) := by
  by_cases hzero : b.assetsSize = 0
  · have hstart := hholds.start
    have hstop := hholds.stop
    have hnil : stored asset = [] := List.length_eq_zero_iff.mp (by omega)
    rw [Nro.assetSection_of_none (if_pos hzero), stored_eq_nil hnil]
  · have hassets := hasAssets_of_assetsSize hzero
    have hfound : (b.read text rodata data).assetHeader = some b.assetHeader := if_neg hzero
    obtain ⟨hlen, hpos, hle, hstop⟩ := hholds.recorded h hassets
    have htotal := h.total_lt
    have hplaced : (b.read text rodata data).Placed (f b.assetHeader) := by
      intro _
      change (b.header text rodata data).size.toNat + _ < _
      rw [size_toNat h]
      omega
    rw [Nro.assetSection_of_some hfound (hholds.inside h hassets) hplaced, hlen]
    by_cases hnil : stored asset = []
    · rw [hnil, List.length_nil, if_pos rfl, stored_eq_nil hnil]
    · have hpart := sliceAt_image h (p := (b.nroSize data + pos, stored asset))
        (by simp only [laterParts, List.mem_cons, hholds.part hassets, or_true])
      have hbytes : (b.read text rodata data).assetBytes (f b.assetHeader) = stored asset := by
        change sliceAt (b.image text rodata data) ((b.header text rodata data).size.toNat + _) _ = _
        rw [size_toNat h, hpos hnil, hlen]
        exact hpart
      rw [if_neg (by rwa [List.length_eq_zero_iff]), hbytes, filter_of_ne hnil]

lemma read_header :
    NroHeader.codec.fromPrefix ((b.image text rodata data).drop 0x10) =
      some (b.header text rodata data) := by
  have hpart := sliceAt_image h (p := (0x10, NroHeader.codec.enc (b.header text rodata data)))
    (by simp only [laterParts, List.mem_cons, true_or, or_true])
  dsimp only at hpart
  rw [Codec.enc_length] at hpart
  exact Codec.fromPrefix_drop _ hpart

lemma read_segments (idx : Fin 3) :
    ((b.header text rodata data).segments idx).fileOff.toNat =
        ![0, b.rodataVaddr.toNat, b.dataVaddr.toNat] idx ∧
      ((b.header text rodata data).segments idx).size.toNat =
        (padded (![text, rodata, data] idx) 0x1000).length := by
  have hsize : b.dataVaddr.toNat + (padded data 0x1000).length = b.nroSize data := rfl
  have htextLe := h.text_le
  have hrodataLe := h.rodata_le
  have hdataLt := h.data_lt
  fin_cases idx
  · exact ⟨congrArg UInt32.toNat h.textVaddr,
      UInt32.toNat_ofNat_of_lt' (show (padded text 0x1000).length < 2 ^ 32 by omega)⟩
  · exact ⟨rfl, UInt32.toNat_ofNat_of_lt' (show (padded rodata 0x1000).length < 2 ^ 32 by omega)⟩
  · exact ⟨rfl, UInt32.toNat_ofNat_of_lt' (show (padded data 0x1000).length < 2 ^ 32 by omega)⟩

lemma segment_stop (idx : Fin 3) :
    ![0, b.rodataVaddr.toNat, b.dataVaddr.toNat] idx +
      (padded (![text, rodata, data] idx) 0x1000).length ≤ b.totalSize data := by
  have htext := List.forall_mem_cons.mp (parts_stop h)
  have hlater := htext.2
  simp only [laterParts, List.forall_mem_cons] at hlater
  fin_cases idx
  · exact htext.1
  · exact hlater.1
  · exact hlater.2.1

lemma read_assetHeader (hassets : b.hasAssets) :
    NroAssetHeader.codec.fromPrefix ((b.image text rodata data).drop (b.nroSize data)) =
      some b.assetHeader := by
  have hpart := sliceAt_image h (p := (b.nroSize data, NroAssetHeader.codec.enc b.assetHeader))
    (by simp only [laterParts, assetParts, if_pos hassets, List.mem_cons, true_or, or_true])
  dsimp only at hpart
  rw [Codec.enc_length] at hpart
  exact Codec.fromPrefix_drop _ hpart

theorem read_valid : (b.read text rodata data).Valid where
  start := by
    have hle : 0x10 ≤ (b.image text rodata data).length := by
      rw [image_length h]
      exact le_trans (by decide) (totalSize_ge h)
    exact if_pos hle
  header := read_header h
  magic := rfl
  segments idx := by
    obtain ⟨hoff, hsize⟩ := read_segments h idx
    have hstop := segment_stop h idx
    rw [← hoff, ← hsize, ← image_length h] at hstop
    exact hstop
  found := by
    change _ = findAssetHeader (b.image text rodata data) (b.header text rodata data).size.toNat
    rw [size_toNat h, findAssetHeader, image_length h]
    by_cases hzero : b.assetsSize = 0
    · have hle : b.totalSize data ≤ b.nroSize data + 0x38 := by
        rw [totalSize]
        split_ifs <;> omega
      rw [if_neg (by omega)]
      exact if_pos hzero
    · have hassets := hasAssets_of_assetsSize hzero
      have hsize : b.totalSize data = b.nroSize data + 0x38 + b.assetsSize := if_pos hassets
      rw [if_pos (by omega), read_assetHeader h hassets]
      exact if_neg hzero
  assets header hheader := by
    by_cases hzero : b.assetsSize = 0
    · exact absurd ((if_pos hzero).symm.trans hheader) (Option.some_ne_none _).symm
    · have hassets := hasAssets_of_assetsSize hzero
      obtain rfl := Option.some.inj ((if_neg hzero).symm.trans hheader)
      simp only [NroAssetHeader.sections, List.forall_mem_cons]
      exact ⟨icon_holds.inside h hassets, nacp_holds.inside h hassets, romfs_holds.inside h hassets,
        List.forall_mem_nil _⟩

lemma read_segment (idx : Fin 3) :
    ((b.read text rodata data).segment idx : Outcome ε _) =
      ok (sliceAt (b.image text rodata data) (![0, b.rodataVaddr.toNat, b.dataVaddr.toNat] idx)
        (padded (![text, rodata, data] idx) 0x1000).length) := by
  obtain ⟨hoff, hsize⟩ := read_segments h idx
  rw [Nro.segment_eq (read_valid h), Nro.segmentBytes, ← hoff, ← hsize]
  rfl

end Reading

end NroBuilder

/-- A built image is accepted. Its constants, its data and every asset that is not empty read back as they
were given; the code does so around the header, from the start stub in front of it on. -/
theorem build_segments {b : NroBuilder} {text rodata data : Bytes} (h : b.Laid text rodata data) :
    ∃ image nro textSegment, b.build = ok image ∧ Nro.tryFromBytes image = ok nro ∧
      (nro.textSegment : Outcome ε _) = ok textSegment ∧
      textSegment.length = (padded text 0x1000).length ∧
      (∀ i, ¬ (0x10 ≤ i ∧ i < 0x80) → textSegment[i]? = (padded text 0x1000)[i]?) ∧
      (nro.rodataSegment : Outcome ε _) = ok (padded rodata 0x1000) ∧
      (nro.dataSegment : Outcome ε _) = ok (padded data 0x1000) ∧
      (nro.assetIcon : Outcome ε _) = ok (b.icon.filter (· ≠ [])) ∧
      (nro.assetNacp : Outcome ε _) = ok (b.nacp.filter (· ≠ [])) ∧
      (nro.assetRomfs : Outcome ε _) = ok (b.romfs.filter (· ≠ [])) := by
  obtain ⟨image, himage⟩ : ∃ image, b.image text rodata data = image := ⟨_, rfl⟩
  have htext := NroBuilder.read_segment (ε := ε) h 0
  have hstop := NroBuilder.segment_stop h 0
  have hrodata := NroBuilder.sliceAt_image h (p := (b.rodataVaddr.toNat, padded rodata 0x1000))
    (by simp only [NroBuilder.laterParts, List.mem_cons, true_or])
  have hdata := NroBuilder.sliceAt_image h (p := (b.dataVaddr.toNat, padded data 0x1000))
    (by simp only [NroBuilder.laterParts, List.mem_cons, true_or, or_true])
  refine ⟨b.image text rodata data, b.read text rodata data, _, NroBuilder.build_eq h,
    Nro.tryFromBytes_eq_ok.mpr ⟨rfl, NroBuilder.read_valid h⟩, htext, ?_, ?_,
    (NroBuilder.read_segment h 1).trans (congrArg ok hrodata),
    (NroBuilder.read_segment h 2).trans (congrArg ok hdata),
    NroBuilder.icon_holds.read h, NroBuilder.nacp_holds.read h, NroBuilder.romfs_holds.read h⟩
  · rw [← NroBuilder.image_length h] at hstop
    exact sliceAt_length hstop
  · intro i hi
    rw [sliceAt_getElem?]
    split_ifs with hlt
    · exact (congrArg (_[·]?) (Nat.zero_add i)).trans (NroBuilder.image_text h hlt hi)
    · exact (List.getElem?_eq_none (Nat.not_lt.mp hlt)).symm

def sampleNro : NroBuilder :=
  { text := some [1]
    rodata := some [2]
    rodataVaddr := 0x1000
    data := some [3]
    dataVaddr := 0x4000
    icon := some [7, 8]
    romfs := some [] }

lemma sampleNro_laid : sampleNro.Laid [1] [2] [3] where
  hasText := rfl
  hasRodata := rfl
  hasData := rfl
  textVaddr := rfl
  nonempty := nofun
  text_le := by
    rw [padded_length (by decide)]
    decide
  rodata_le := by
    rw [padded_length (by decide)]
    decide
  data_lt := by
    rw [NroBuilder.nroSize, padded_length (by decide)]
    decide
  total_lt := by
    rw [NroBuilder.totalSize, NroBuilder.nroSize, padded_length (by decide)]
    decide

theorem build_segments_sample :
    ∃ image nro, sampleNro.build = ok image ∧ Nro.tryFromBytes image = ok nro ∧
      (nro.rodataSegment : Outcome Unit _) = ok (padded [2] 0x1000) ∧
      (nro.assetIcon : Outcome Unit _) = ok (some [7, 8]) ∧
      (nro.assetRomfs : Outcome Unit _) = ok none := by
  obtain ⟨image, nro, _, hbuild, hread, -, -, -, hrodata, -, hicon, -, hromfs⟩ :=
    build_segments (ε := Unit) sampleNro_laid
  exact ⟨image, nro, hbuild, hread, hrodata, hicon, hromfs⟩

end NxObject.Relocatable
