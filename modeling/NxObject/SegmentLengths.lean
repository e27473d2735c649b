import NxObject.KipRoundtrip
import NxObject.NsoRoundtrip

/-!
# Recorded and expanded lengths

The size of a segment in the file, its size in memory and its compression bit are recorded apart. Only the BLZ
decoder compares what it makes of the one with the other.
-/
namespace NxObject
open Outcome

namespace Kip

lemma decompress_length {stream v : Bytes} {n : ℕ} (h : Blz.decompress stream n = ok v) : v.length = n := by
  unfold Blz.decompress at h
  obtain ⟨extraLen, -, h⟩ := bind_eq_ok.mp h
  split_ifs at h with hextra
  · obtain ⟨stored, -, h⟩ := bind_eq_ok.mp h
    split_ifs at h with hle
    obtain rfl := ok.inj h
    exact List.length_take_of_le hle
  · obtain ⟨headerSize, -, h⟩ := bind_eq_ok.mp h
    obtain ⟨encLen, -, h⟩ := bind_eq_ok.mp h
    dsimp only at h
    split_ifs at h
    obtain ⟨finalLen, -, h⟩ := bind_eq_ok.mp h
    obtain ⟨out, -, h⟩ := bind_eq_ok.mp h
    obtain ⟨packedStart, -, h⟩ := bind_eq_ok.mp h
    obtain ⟨cmp, -, h⟩ := bind_eq_ok.mp h
    obtain ⟨s, -, h⟩ := bind_eq_ok.mp h
    split_ifs at h with hlen
    obtain rfl := ok.inj h
    exact not_not.mp hlen

lemma decompress_length_iff {kip : Kip1} (hvalid : kip.Valid) {i : Fin 6} (hi : i.val < loadedSegmentCount) :
    (∀ v, (kip.view i).decompress = ok v → v.length = (kip.header.segments i).decompSize.toNat) ↔
      isCompressed kip.header i = true ∨ storedSize kip.header i = (kip.header.segments i).decompSize.toNat := by
  have hstored : (kip.view i).stored.length = storedSize kip.header i :=
    sliceAt_length (Kip1.stored_le hvalid hi)
  have hbit : (kip.view i).compressed = isCompressed kip.header i := rfl
  rw [Kip1Segment.decompress, hbit]
  cases isCompressed kip.header i with
  | true =>
    refine iff_of_true (fun v hv => ?_) (Or.inl rfl)
    rw [if_neg (not_not_intro rfl)] at hv
    exact decompress_length (mapErr_eq_ok.mp hv)
  | false =>
    rw [if_pos Bool.false_ne_true]
    constructor
    · intro h
      exact Or.inr (hstored ▸ h _ rfl)
    · rintro (hpacked | hsize) v hv
      · cases hpacked
      · obtain rfl := ok.inj hv
        exact hstored.trans hsize

end Kip

namespace Executable
variable {δ : Type}

namespace Nso
variable (nso : Nso) (lz4 : Packer δ)

def segmentHeader : Segment → NsoSegmentHeader
  | .text => nso.header.text
  | .roData => nso.header.rodata
  | .data => nso.header.data

def fileSize : Segment → UInt32
  | .text => nso.header.textFileSize
  | .roData => nso.header.rodataFileSize
  | .data => nso.header.dataFileSize

def compressFlag : Segment → UInt32
  | .text => TEXT_COMPRESS
  | .roData => RODATA_COMPRESS
  | .data => DATA_COMPRESS

def IsPacked (segment : Segment) : Prop := nso.flags &&& compressFlag segment = compressFlag segment

def access : Segment → Outcome (DecompressError δ) Bytes
  | .text => nso.text lz4
  | .roData => nso.rodata lz4
  | .data => nso.data lz4

def block (segment : Segment) : Bytes := nso.storedBytes (nso.segmentHeader segment) (nso.fileSize segment)

variable {nso} (hvalid : nso.Valid) (segment : Segment)
include hvalid

lemma access_eq : nso.access lz4 segment = mapErr (⟨segment, ·⟩) (Outcome.ofExcept (nso.expanded lz4
    (nso.block segment) (nso.segmentHeader segment).size.toNat (compressFlag segment))) := by
  cases segment with
  | text => exact text_eq hvalid lz4
  | roData => exact rodata_eq hvalid lz4
  | data => exact data_eq hvalid lz4

lemma access_packed (hpacked : nso.IsPacked segment) : nso.access lz4 segment = mapErr (⟨segment, ·⟩)
    (Outcome.ofExcept (lz4.decompress (nso.block segment) (nso.segmentHeader segment).size.toNat)) := by
  rw [IsPacked] at hpacked
  rw [access_eq lz4 hvalid, expanded, if_pos hpacked]

lemma access_plain (hplain : ¬nso.IsPacked segment) : nso.access lz4 segment = ok (nso.block segment) := by
  rw [IsPacked] at hplain
  rw [access_eq lz4 hvalid, expanded, if_neg hplain]
  rfl

omit lz4 in
lemma block_length : (nso.block segment).length = (nso.fileSize segment).toNat := by
  cases segment with
  | text => exact sliceAt_length hvalid.text
  | roData => exact sliceAt_length hvalid.rodata
  | data => exact sliceAt_length hvalid.data

lemma access_length_iff (hlz4 : lz4.ExpandsBlocks) :
    (∀ v, nso.access lz4 segment = ok v → v.length = (nso.segmentHeader segment).size.toNat) ↔
      (nso.IsPacked segment → ∀ m, Lz4.blockLength (nso.block segment) = some m →
        (nso.segmentHeader segment).size.toNat ≤ m) ∧
      (¬nso.IsPacked segment → nso.fileSize segment = (nso.segmentHeader segment).size) := by
  by_cases hpacked : nso.IsPacked segment
  · simp only [access_packed lz4 hvalid segment hpacked, mapErr_eq_ok, ofExcept_eq_ok, hpacked, not_true_eq_false,
      true_implies, false_implies, and_true, hlz4 _ _ _, Lz4.blockLength_eq, Option.map_eq_some_iff]
    constructor
    · rintro h _ ⟨v, hv, rfl⟩
      by_contra hlt
      exact hlt (h v ⟨hv, (Nat.not_le.mp hlt).le⟩).ge
    · rintro h v ⟨hv, hle⟩
      exact hle.antisymm (h _ ⟨v, hv, rfl⟩)
  · simp only [access_plain lz4 hvalid segment hpacked, hpacked, not_false_eq_true, true_implies, false_implies,
      true_and]
    constructor
    · intro h
      exact UInt32.toNat_inj.mp ((block_length hvalid segment).symm.trans (h _ rfl))
    · intro h v hv
      obtain rfl := ok.inj hv
      rw [block_length hvalid segment, h]

end Nso
end Executable

open Kip Executable

/-- What is handed out for a segment has its recorded length exactly in these cases: a KIP1 segment is packed or
its two sizes agree, and an NSO segment is not packed and its two sizes agree, or its block does not stand for
fewer bytes than are recorded. -/
theorem expandedLength_iff {δ : Type} {lz4 : Packer δ} (hlz4 : lz4.ExpandsBlocks) (bytes : Bytes) :
    (∀ kip, Kip1.tryFromBytes bytes = ok kip → ∀ i : Fin 6, i.val < bssIndex → ∃ segment : Kip1Segment,
      (kip.segment i : Outcome Kip.DecompressError _) = ok (some segment) ∧
      ((∀ v, segment.decompress = ok v → v.length = segment.descriptor.decompSize.toNat) ↔
        isCompressed kip.header i = true ∨ segment.descriptor.compSize = segment.descriptor.decompSize)) ∧
    ∀ nso, Nso.tryFromBytes bytes = ok nso → ∀ segment : Segment,
      (∀ v, nso.access lz4 segment = ok v → v.length = (nso.segmentHeader segment).size.toNat) ↔
        (nso.IsPacked segment → ∀ m, Lz4.blockLength (nso.block segment) = some m →
          (nso.segmentHeader segment).size.toNat ≤ m) ∧
        (¬nso.IsPacked segment → nso.fileSize segment = (nso.segmentHeader segment).size) := by
  refine ⟨fun kip hkip i hi => ?_, fun nso hnso segment => ?_⟩
  · obtain ⟨-, hvalid⟩ := Kip1.tryFromBytes_eq_ok.mp hkip
    have hloaded : i.val < loadedSegmentCount := hi.trans (by decide)
    have hsize : storedSize kip.header i = (kip.header.segments i).compSize.toNat := if_neg hi.ne
    refine ⟨kip.view i, Kip1.segment_eq hvalid hloaded, ?_⟩
    refine (decompress_length_iff hvalid hloaded).trans (or_congr_right ?_)
    rw [hsize]
    exact UInt32.toNat_inj
  · obtain ⟨-, hvalid⟩ := Nso.tryFromBytes_eq_ok.mp hnso
    exact Nso.access_length_iff lz4 hvalid segment hlz4

/-! ## Images -/

def kipHeader (flags : UInt8) (text rodata data : RawSegment) : Kip1Header where
  magic := KIP1_MAGIC
  name := List.Vector.replicate 12 0
  titleId := 0
  processCategory := 0
  mainThreadPriority := 0
  defaultCpuId := 0
  reserved := 0
  flags
  segments := ![text, rodata, data, RawSegment.zeroed, RawSegment.zeroed, RawSegment.zeroed]
  capabilities := List.Vector.replicate 0x80 0

def nsoHeader (flags textSize textFileSize rodataSize rodataFileSize dataSize dataFileSize : UInt32) : NsoHeader where
  magic := NSO_MAGIC
  version := 0
  reserved := 0
  flags
  text := ⟨0x100, 0, textSize⟩
  moduleNameOffset := 0
  rodata := ⟨0x100 + textFileSize, 0, rodataSize⟩
  moduleNameSize := 0
  data := ⟨0x100 + textFileSize + rodataFileSize, 0, dataSize⟩
  bssSize := 0
  moduleId := List.Vector.replicate 0x20 0
  textFileSize
  rodataFileSize
  dataFileSize
  reserved2 := List.Vector.replicate 0x1C 0
  embeddedOffset := 0
  embeddedSize := 0
  dynstrOffset := 0
  dynstrSize := 0
  dynsymOffset := 0
  dynsymSize := 0
  textHash := List.Vector.replicate 0x20 0
  rodataHash := List.Vector.replicate 0x20 0
  dataHash := List.Vector.replicate 0x20 0

def kipOf (header : Kip1Header) (body : Bytes) : Kip1 := ⟨header, Kip1Header.codec.enc header ++ body⟩

def nsoOf (header : NsoHeader) (body : Bytes) : Nso := ⟨NsoHeader.codec.enc header ++ body, header⟩

lemma kipOf_read {header : Kip1Header} {body : Bytes} (hmagic : header.magic = KIP1_MAGIC)
    (h : storedEnd header ≤ headerSize + body.length) :
    Kip1.tryFromBytes (kipOf header body).bytes = ok (kipOf header body) := by
  refine Kip1.tryFromBytes_eq_ok.mpr ⟨rfl, Codec.fromPrefix_append _ _ _, hmagic, h.trans_eq ?_⟩
  rw [kipOf, List.length_append, Codec.enc_length, Kip1Header.codec_size]

lemma nsoOf_read {header : NsoHeader} {body : Bytes} (hmagic : header.magic = NSO_MAGIC)
    (htext : header.text.fileOffset.toNat + header.textFileSize.toNat ≤ 0x100 + body.length)
    (hrodata : header.rodata.fileOffset.toNat + header.rodataFileSize.toNat ≤ 0x100 + body.length)
    (hdata : header.data.fileOffset.toNat + header.dataFileSize.toNat ≤ 0x100 + body.length) :
    Nso.tryFromBytes (nsoOf header body).bytes = ok (nsoOf header body) := by
  have hlen : 0x100 + body.length = (nsoOf header body).bytes.length := by
    rw [nsoOf, List.length_append, Codec.enc_length, NsoHeader.codec_size]
  refine Nso.tryFromBytes_eq_ok.mpr ⟨rfl, Codec.fromPrefix_append _ _ _, hmagic, htext.trans_eq hlen,
    hrodata.trans_eq hlen, hdata.trans_eq hlen⟩

def mixedKip : Kip1 :=
  kipOf (kipHeader 1 ⟨0, 82, 52, 0⟩ ⟨0, 3, 3, 0⟩ ⟨0, 9, 2, 0⟩) (Blz.recurringStream ++ [1, 2, 3] ++ [4, 5])

def mixedNso : Nso := nsoOf (nsoHeader 3 32 12 1 1 2 2) (Lz4.tailBlock [] 32 ++ [0] ++ [4, 5])

lemma mixedKip_accepted : Kip1.tryFromBytes mixedKip.bytes = ok mixedKip := kipOf_read rfl (by decide +kernel)

lemma mixedNso_accepted : Nso.tryFromBytes mixedNso.bytes = ok mixedNso :=
  nsoOf_read rfl (by decide +kernel) (by decide +kernel) (by decide +kernel)

theorem expandedLength_iff_mixed :
    (Kip1.tryFromBytes mixedKip.bytes = ok mixedKip ∧
      (mixedKip.view 0).decompress = ok Blz.recurring ∧ (mixedKip.view 1).decompress = ok [1, 2, 3] ∧
      (∀ v, (mixedKip.view 0).decompress = ok v → v.length = 82) ∧
      (∀ v, (mixedKip.view 1).decompress = ok v → v.length = 3) ∧
      ¬∀ v, (mixedKip.view 2).decompress = ok v → v.length = 9) ∧
    Nso.tryFromBytes mixedNso.bytes = ok mixedNso ∧
      mixedNso.text runPacker = ok (List.replicate 32 0) ∧
      (∀ v, mixedNso.text runPacker = ok v → v.length = 32) ∧
      (¬∀ v, mixedNso.rodata runPacker = ok v → v.length = 1) ∧
      ∀ v, mixedNso.data runPacker = ok v → v.length = 2 := by
  obtain ⟨-, hvalid⟩ := Kip1.tryFromBytes_eq_ok.mp mixedKip_accepted
  have hview : ∀ i : Fin 6, i.val < bssIndex →
      ((∀ v, (mixedKip.view i).decompress = ok v → v.length = (mixedKip.header.segments i).decompSize.toNat) ↔
        isCompressed mixedKip.header i = true ∨
          (mixedKip.header.segments i).compSize = (mixedKip.header.segments i).decompSize) := by
    intro i hi
    obtain ⟨segment, hsegment, hiff⟩ :=
      (expandedLength_iff runPacker_expandsBlocks _).1 mixedKip mixedKip_accepted i hi
    have heq := (Kip1.segment_eq hvalid (hi.trans (by decide))).symm.trans hsegment
    obtain rfl := Option.some.inj (ok.inj heq)
    exact hiff
  have haccess := (expandedLength_iff runPacker_expandsBlocks _).2 mixedNso mixedNso_accepted
  refine ⟨⟨mixedKip_accepted, by decide +kernel, by decide +kernel, (hview 0 (by decide)).mpr (by decide +kernel),
    (hview 1 (by decide)).mpr (by decide +kernel), fun h => ?_⟩, mixedNso_accepted, by decide +kernel,
    (haccess .text).mpr ⟨fun _ m hm => ?_, fun hplain => absurd ?_ hplain⟩, fun h => ?_,
    (haccess .data).mpr ⟨fun hpacked => absurd hpacked ?_, fun _ => rfl⟩⟩
  · exact absurd ((hview 2 (by decide)).mp h) (by decide +kernel)
  · have hblock : Lz4.blockLength (mixedNso.block .text) = some 32 := by decide +kernel
    exact (Option.some.inj (hblock.symm.trans hm)).le
  · exact (by decide +kernel : mixedNso.flags &&& TEXT_COMPRESS = TEXT_COMPRESS)
  · have hblock : Lz4.blockLength (mixedNso.block .roData) = some 0 := by decide +kernel
    have hpacked : mixedNso.flags &&& RODATA_COMPRESS = RODATA_COMPRESS := by decide +kernel
    exact absurd (((haccess .roData).mp h).1 hpacked 0 hblock) (by decide +kernel)
  · exact (by decide +kernel : ¬mixedNso.flags &&& DATA_COMPRESS = DATA_COMPRESS)

def shortKip : Kip1 := kipOf (kipHeader 0 ⟨0, 1, 0, 0⟩ RawSegment.zeroed RawSegment.zeroed) []

def shortNso (flags textFileSize : UInt32) (body : Bytes) : Nso :=
  nsoOf (nsoHeader flags 1 textFileSize 0 0 0 0) body

/-- Nothing is handed out for a text of one byte: by a KIP1 and an NSO that store nothing for it, and by an NSO
whose block stands for nothing. -/
theorem short_segments :
    runPacker.ExpandsBlocks ∧
    (Kip1.tryFromBytes shortKip.bytes = ok shortKip ∧
      (shortKip.segment 0 : Outcome Kip.DecompressError _) = ok (some (shortKip.view 0)) ∧
      (shortKip.view 0).descriptor.decompSize = 1 ∧ (shortKip.view 0).decompress = ok []) ∧
    (Nso.tryFromBytes (shortNso 0 0 []).bytes = ok (shortNso 0 0 []) ∧
      (shortNso 0 0 []).header.text.size = 1 ∧ (shortNso 0 0 []).text runPacker = ok []) ∧
    Nso.tryFromBytes (shortNso 1 1 [0]).bytes = ok (shortNso 1 1 [0]) ∧
      (shortNso 1 1 [0]).header.text.size = 1 ∧ (shortNso 1 1 [0]).text runPacker = ok [] := by
  have hkip : Kip1.tryFromBytes shortKip.bytes = ok shortKip := kipOf_read rfl (by decide +kernel)
  obtain ⟨-, hvalid⟩ := Kip1.tryFromBytes_eq_ok.mp hkip
  refine ⟨runPacker_expandsBlocks, ⟨hkip, Kip1.segment_eq hvalid (i := 0) (by decide), rfl, by decide +kernel⟩,
    ⟨nsoOf_read rfl (by decide) (by decide) (by decide), rfl, by decide +kernel⟩,
    nsoOf_read rfl (by decide) (by decide) (by decide), rfl, by decide +kernel⟩

end NxObject
