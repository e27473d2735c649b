import NxObject.NroRoundtrip

/-!
# The asset section of a built NRO

Assets change nothing in front of the end that the header records. The section is written whenever an
asset is supplied, while the reader looks for it only in a file that goes on behind the asset header.
-/
namespace NxObject.Relocatable
open Outcome

namespace NroBuilder
variable (b : NroBuilder)

def bare : NroBuilder := { b with icon := none, nacp := none, romfs := none }

/-- The file is the bare one up to the end of the image proper, and the reader finds an asset header in
it exactly if an asset was supplied. -/
def TellsAssets : Prop :=
  ∃ image bareImage nro, b.build = ok image ∧ b.bare.build = ok bareImage ∧
    Nro.tryFromBytes image = ok nro ∧
    image.take nro.header.size.toNat = bareImage.take nro.header.size.toNat ∧
    (nro.assetHeader.isSome ↔ b.hasAssets)

variable {b} {text rodata data : Bytes}

lemma bare_segmentParts : b.bare.segmentParts text rodata data = b.segmentParts text rodata data := rfl

lemma bare_totalSize : b.bare.totalSize data = b.nroSize data := rfl

lemma bare_assetParts : b.bare.assetParts data = [] := rfl

lemma assetsSize_ne_zero : b.assetsSize ≠ 0 ↔
    ∃ asset ∈ [b.icon, b.nacp, b.romfs], ∃ bytes, asset = some bytes ∧ bytes ≠ [] := by
  have hstored : ∀ asset : Option Bytes, (stored asset).length ≠ 0 ↔
      ∃ bytes, asset = some bytes ∧ bytes ≠ [] := by
    intro asset
    cases asset <;> simp [stored]
  simp only [List.exists_mem_cons_iff, List.not_mem_nil, false_and, exists_false, or_false, ← hstored]
  rw [assetsSize]
  omega

lemma hasAssets_eq_false : b.hasAssets = false ↔
    ∀ asset ∈ [b.icon, b.nacp, b.romfs], asset = none := by
  simp [hasAssets, and_assoc]

section Laid
variable (h : b.Laid text rodata data)
include h

lemma Laid.bare : b.bare.Laid text rodata data where
  hasText := h.hasText
  hasRodata := h.hasRodata
  hasData := h.hasData
  textVaddr := h.textVaddr
  nonempty := h.nonempty
  text_le := h.text_le
  rodata_le := h.rodata_le
  data_lt := h.data_lt
  total_lt := (nroSize_le b data).trans_lt h.total_lt

lemma parts_eq : b.parts text rodata data = b.segmentParts text rodata data ++ b.assetParts data := by
  rw [segmentParts, h.textVaddr]
  rfl

lemma segmentParts_stop : ∀ p ∈ b.segmentParts text rodata data, p.stop ≤ b.nroSize data := by
  intro p hp
  have hstop := parts_stop h.bare p
  rw [parts_eq h.bare, bare_assetParts, List.append_nil, bare_segmentParts] at hstop
  exact hstop hp

theorem take_image : (b.image text rodata data).take (b.nroSize data) = b.bare.image text rodata data := by
  have hsegments := segmentParts_stop h
  have hle := nroSize_le b data
  have hfront : (List.replicate (b.totalSize data) (0 : UInt8)).take (b.nroSize data) =
      List.replicate (b.nroSize data) 0 := by
    rw [List.take_replicate, Nat.min_eq_left hle]
  have hlen : (written (List.replicate (b.totalSize data) 0)
      (b.segmentParts text rodata data)).length = b.totalSize data := by
    rw [written_length fun p hp => (hsegments p hp).trans (by simpa using hle), List.length_replicate]
  rw [image, image, parts_eq h, parts_eq h.bare, bare_assetParts, List.append_nil, bare_segmentParts,
    bare_totalSize, written_append, take_written_of_apart, take_written (by simpa using hle) hsegments,
    hfront]
  · intro p hp
    rw [hlen]
    exact (assetParts_bounds b data p hp).2
  · exact fun p hp => (assetParts_bounds b data p hp).1

omit h in
lemma read_assetHeader_isSome : (b.read text rodata data).assetHeader.isSome ↔ b.assetsSize ≠ 0 := by
  rw [read]
  split_ifs with hzero <;> simp [hzero]

lemma tellsAssets_iff_assetsSize : b.TellsAssets ↔ (b.hasAssets → b.assetsSize ≠ 0) := by
  have hread : Nro.tryFromBytes (b.image text rodata data) = ok (b.read text rodata data) :=
    Nro.tryFromBytes_eq_ok.mpr ⟨rfl, read_valid h⟩
  constructor
  · rintro ⟨image, bareImage, nro, hbuild, -, hnro, -, hsome⟩ hassets
    obtain rfl := ok.inj ((build_eq h).symm.trans hbuild)
    obtain rfl := ok.inj (hread.symm.trans hnro)
    exact read_assetHeader_isSome.mp (hsome.mpr hassets)
  · intro hsize
    refine ⟨_, _, _, build_eq h, build_eq h.bare, hread, ?_, ?_⟩
    · have htake := take_image h
      change List.take (b.header text rodata data).size.toNat _ =
        List.take (b.header text rodata data).size.toNat _
      rw [size_toNat h, htake, ← take_image h, List.take_take, Nat.min_self]
    · rw [read_assetHeader_isSome]
      exact ⟨hasAssets_of_assetsSize, hsize⟩

end Laid
end NroBuilder

/-- The assets of a built NRO leave the bytes in front of the recorded end alone and are told by the
reader, exactly if none was supplied or one of them is not empty. -/
theorem tellsAssets_iff (b : NroBuilder) (text rodata data : Bytes) (h : b.Laid text rodata data) :
    b.TellsAssets ↔ (∀ asset ∈ [b.icon, b.nacp, b.romfs], asset = none) ∨
      ∃ asset ∈ [b.icon, b.nacp, b.romfs], ∃ bytes, asset = some bytes ∧ bytes ≠ [] := by
  rw [NroBuilder.tellsAssets_iff_assetsSize h, ← NroBuilder.hasAssets_eq_false,
    ← NroBuilder.assetsSize_ne_zero, imp_iff_not_or, Bool.not_eq_true]

theorem tellsAssets_iff_sample :
    sampleNro.TellsAssets ↔
      (∀ asset ∈ [sampleNro.icon, sampleNro.nacp, sampleNro.romfs], asset = none) ∨
        ∃ asset ∈ [sampleNro.icon, sampleNro.nacp, sampleNro.romfs],
          ∃ bytes, asset = some bytes ∧ bytes ≠ [] :=
  tellsAssets_iff sampleNro [1] [2] [3] sampleNro_laid

def emptyIconNro : NroBuilder :=
  { text := some [1]
    rodata := some [2]
    rodataVaddr := 0x1000
    data := some [3]
    dataVaddr := 0x2000
    icon := some [] }

lemma emptyIconNro_laid : emptyIconNro.Laid [1] [2] [3] where
  hasText := rfl
  hasRodata := rfl
  hasData := rfl
  textVaddr := rfl
  nonempty := nofun
  text_le := by
    rw [padded_length (by decide)]
    decide
  rodata_le := by
    rw [padded_length (by decide)]
    decide
  data_lt := by
    rw [NroBuilder.nroSize, padded_length (by decide)]
    decide
  total_lt := by
    rw [NroBuilder.totalSize, NroBuilder.nroSize, padded_length (by decide)]
    decide

/-- An icon was supplied and its section is written, yet the reader finds no asset header. -/
theorem emptyIconNro_untold : emptyIconNro.Laid [1] [2] [3] ∧ emptyIconNro.hasAssets = true ∧
    ¬ emptyIconNro.TellsAssets :=
  ⟨emptyIconNro_laid, rfl, fun h =>
    (NroBuilder.tellsAssets_iff_assetsSize emptyIconNro_laid).mp h rfl rfl⟩

end NxObject.Relocatable
