import NxObject.CnmtBuilding
import NxObject.NpdmRoundtrip
import NxObject.Pfs0Roundtrip
import NxObject.SegmentLengths

/-!
# Readers that check once

What a reader accepts, its accessors slice without looking again. For each format: every accessor gives the
bytes that the image records, all of them inside the buffer.
-/
namespace NxObject
open Outcome

/-- The `size` bytes at `offset` of a buffer that holds them. -/
structure PartOf (buffer : Bytes) (offset size : ℕ) (part : Bytes) : Prop where
  inside : offset + size ≤ buffer.length
  bytes : part = sliceAt buffer offset size
  length : part.length = size

theorem partOf_sliceAt {buffer : Bytes} {offset size : ℕ} (h : offset + size ≤ buffer.length) :
    PartOf buffer offset size (sliceAt buffer offset size) :=
  ⟨h, rfl, sliceAt_length h⟩

theorem partOf_of_append {a part b : Bytes} {offset size : ℕ} (ha : a.length = offset)
    (hpart : part.length = size) : PartOf (a ++ (part ++ b)) offset size part := by
  refine ⟨?_, (sliceAt_eq_of_append rfl ha hpart).symm, hpart⟩
  rw [List.length_append, List.length_append, ha, hpart]
  omega

/-! ## PFS0 -/

namespace Pfs.Pfs0

/-- The regions fill the buffer, and the accessors stay inside the one they read. -/
structure InBounds (pfs : Pfs0) (bytes : Bytes) : Prop where
  regions : bytes = pfs.toBytes
  entries : pfs.entries.length = pfs.header.fileCount.toNat
  stringTable : pfs.stringTable.length = pfs.header.stringTableSize.toNat
  file : ∀ index, (pfs.file index : Outcome Empty _) = ok (pfs.entries[index]?.map pfs.view)
  files : (pfs.files : Outcome Empty _) = ok (pfs.entries.map pfs.view)
  fileByName : ∀ name, (pfs.fileByName name : Outcome Empty _) =
    ok ((pfs.entries.map pfs.view).find? (·.name = name))
  data : ∀ entry ∈ pfs.entries,
    PartOf pfs.data entry.offset.toNat entry.size.toNat (pfs.view entry).data
  name : ∀ entry ∈ pfs.entries, (pfs.view entry).name = (fromUtf8 (pfs.rawName entry)).getD [] ∧
    0 ∉ pfs.rawName entry ∧ ∃ pre post, pfs.stringTable = pre ++ (pfs.rawName entry ++ 0 :: post) ∧
      pre.length = entry.stringTableOffset.toNat

theorem inBounds {bytes : Bytes} {pfs : Pfs0} (h : tryFromBytes bytes = ok pfs) : pfs.InBounds bytes := by
  obtain ⟨hbytes, hvalid⟩ := tryFromBytes_eq_ok.mp h
  exact
    { regions := hbytes
      entries := hvalid.fileCount
      stringTable := hvalid.stringTable
      file := file_eq hvalid
      files := files_eq hvalid
      fileByName := fileByName_eq hvalid
      data := fun entry hentry => partOf_sliceAt (hvalid.inside entry hentry).data
      name := fun entry hentry => ⟨rfl, rawName_terminated (hvalid.inside entry hentry)⟩ }

end Pfs.Pfs0

/-! ## KIP1 -/

namespace Kip.Kip1

/-- The loaded segments are handed out as they are stored, and there are no others. -/
structure InBounds (kip : Kip1) (bytes : Bytes) : Prop where
  header : Kip1Header.codec.fromPrefix bytes = some kip.header
  segment : ∀ i : Fin 6, i.val < loadedSegmentCount →
    (kip.segment i : Outcome Empty _) = ok (some (kip.view i)) ∧
      PartOf bytes (segmentOffset kip.header i) (storedSize kip.header i) (kip.view i).stored ∧
      Settled (kip.view i).decompress
  unused : ∀ index, loadedSegmentCount ≤ index → (kip.segment index : Outcome Empty _) = ok none
  segments : (kip.segments : Outcome Empty _) = ok [kip.view 0, kip.view 1, kip.view 2, kip.view 3]

theorem inBounds {bytes : Bytes} {kip : Kip1} (h : tryFromBytes bytes = ok kip) : kip.InBounds bytes := by
  obtain ⟨rfl, hvalid⟩ := tryFromBytes_eq_ok.mp h
  exact
    { header := hvalid.header
      segment := fun i hi => ⟨segment_eq hvalid hi, partOf_sliceAt (stored_le hvalid hi),
        Kip1Segment.decompress_settled _⟩
      unused := fun index hindex => segment_eq_none hindex
      segments := segments_eq hvalid }

end Kip.Kip1

/-! ## NSO -/

namespace Executable.Nso

/-- The stored segments lie where the header says; expanding one ends. -/
structure InBounds (nso : Nso) (bytes : Bytes) : Prop where
  header : NsoHeader.codec.fromPrefix bytes = some nso.header
  text : ∃ part, (nso.textCompressed : Outcome Empty _) = ok part ∧
    PartOf bytes nso.header.text.fileOffset.toNat nso.header.textFileSize.toNat part
  rodata : ∃ part, (nso.rodataCompressed : Outcome Empty _) = ok part ∧
    PartOf bytes nso.header.rodata.fileOffset.toNat nso.header.rodataFileSize.toNat part
  data : ∃ part, (nso.dataCompressed : Outcome Empty _) = ok part ∧
    PartOf bytes nso.header.data.fileOffset.toNat nso.header.dataFileSize.toNat part
  expand : ∀ (δ : Type) (lz4 : Packer δ),
    Settled (nso.text lz4) ∧ Settled (nso.rodata lz4) ∧ Settled (nso.data lz4)

theorem inBounds {bytes : Bytes} {nso : Nso} (h : tryFromBytes bytes = ok nso) : nso.InBounds bytes := by
  obtain ⟨rfl, hvalid⟩ := tryFromBytes_eq_ok.mp h
  refine
    { header := hvalid.header
      text := ⟨_, textCompressed_eq hvalid, partOf_sliceAt hvalid.text⟩
      rodata := ⟨_, rodataCompressed_eq hvalid, partOf_sliceAt hvalid.rodata⟩
      data := ⟨_, dataCompressed_eq hvalid, partOf_sliceAt hvalid.data⟩
      expand := fun δ lz4 => ?_ }
  rw [text_eq hvalid, rodata_eq hvalid, data_eq hvalid]
  exact ⟨(settled_ofExcept _).mapErr, (settled_ofExcept _).mapErr, (settled_ofExcept _).mapErr⟩

end Executable.Nso

/-! ## NPDM -/

namespace ProgramMeta.Npdm

/-- A block of the ACI0 section: the bytes its offset and size locate, or the error that names it. -/
def Block (npdm : Npdm) (bytes : Bytes) (sect : String) (offset size : UInt32)
    (block : Outcome FromBytesError Bytes) : Prop :=
  (∃ part, block = ok part ∧ PartOf bytes (npdm.innerStart offset) size.toNat part) ∨
    bytes.length < npdm.innerStart offset + size.toNat ∧
      block = err (.aci0InnerSectionOutOfBounds sect offset.toNat size.toNat
        (npdm.innerStart offset + size.toNat) bytes.length)

/-- The headers were read at their places inside the buffer, and a block is checked when it is asked for. -/
structure InBounds (npdm : Npdm) (bytes : Bytes) : Prop where
  header : NpdmHeader.codec.fromPrefix bytes = some npdm.header
  acid : Located AcidHeader.codec bytes npdm.header.acidOffset npdm.header.acidSize npdm.acid
  aci0 : Located Aci0Header.codec bytes npdm.header.aciOffset npdm.header.aciSize npdm.aci0
  fac : npdm.Block bytes "FAC" npdm.aci0.facOffset npdm.aci0.facSize npdm.aci0FacData
  sac : npdm.Block bytes "SAC" npdm.aci0.sacOffset npdm.aci0.sacSize npdm.aci0SacData
  kc : npdm.Block bytes "KC" npdm.aci0.kcOffset npdm.aci0.kcSize npdm.aci0KcData

lemma block_aci0InnerSection (npdm : Npdm) (sect : String) (offset size : UInt32) :
    npdm.Block npdm.bytes sect offset size (npdm.aci0InnerSection sect offset size) := by
  rw [aci0InnerSection_eq, Block]
  split_ifs with h
  · exact Or.inl ⟨_, rfl, partOf_sliceAt h⟩
  · exact Or.inr ⟨Nat.lt_of_not_le h, rfl⟩

theorem inBounds {bytes : Bytes} {npdm : Npdm} (h : tryFromBytes bytes = ok npdm) : npdm.InBounds bytes := by
  obtain ⟨rfl, hvalid⟩ := tryFromBytes_eq_ok.mp h
  exact
    { header := hvalid.header
      acid := hvalid.acid
      aci0 := hvalid.aci0
      fac := block_aci0InnerSection _ _ _ _
      sac := block_aci0InnerSection _ _ _ _
      kc := block_aci0InnerSection _ _ _ _ }

end ProgramMeta.Npdm

/-! ## CNMT -/

namespace ContentMeta.Cnmt

/-- The headers and the records are bytes of the buffer, each at its place. -/
structure InBounds (cnmt : Cnmt) (bytes : Bytes) : Prop where
  header : PartOf bytes 0 0x20 (CnmtHeader.codec.enc cnmt.header)
  extended : (cnmt.extendedHeader.isSome ↔ cnmt.header.IsApplication) ∧
    ∀ header, cnmt.extendedHeader = some header →
      PartOf bytes 0x20 0x10 (CnmtApplicationExtendedHeader.codec.enc header)
  count : cnmt.recordCount = cnmt.header.contentEntryCount.toNat
  record : ∀ i record, cnmt.records[i]? = some record →
    PartOf bytes (cnmt.recordsStart + 0x38 * i) 0x38 (CnmtContentRecord.codec.enc record) ∧
      (record.sizeValue : Outcome Empty _) = ok (ofLe (record.size.toList ++ [0, 0]))

theorem inBounds {bytes : Bytes} {cnmt : Cnmt} (h : tryFromBytes bytes = ok cnmt) : cnmt.InBounds bytes := by
  obtain ⟨extended, rest, rfl, hvalid⟩ := tryFromBytes_eq_ok.mp h
  obtain ⟨hsome, hextended⟩ := extendedHeader_eq_some rest hvalid
  have hheader : PartOf (cnmt.toBytes extended rest) 0 0x20 (CnmtHeader.codec.enc cnmt.header) :=
    partOf_of_append (a := []) rfl (CnmtHeader.codec.enc_length cnmt.header)
  refine
    { header := hheader
      extended := ⟨hsome, fun header hheader => ?_⟩
      count := hvalid.records
      record := fun i record hrecord => ?_ }
  · obtain ⟨rfl, -⟩ := hextended header hheader
    exact partOf_of_append (Codec.enc_length _ _) (Codec.enc_length _ _)
  · obtain ⟨hinside, hslice⟩ := record_eq rest hvalid hrecord
    exact ⟨⟨hinside, hslice.symm, Codec.enc_length _ _⟩, record.sizeValue_eq⟩

end ContentMeta.Cnmt

/-- Whatever a reader accepts, its accessors stay inside it. -/
theorem accepted_inBounds (bytes : Bytes) :
    (∀ pfs, Pfs.Pfs0.tryFromBytes bytes = ok pfs → pfs.InBounds bytes) ∧
    (∀ kip, Kip.Kip1.tryFromBytes bytes = ok kip → kip.InBounds bytes) ∧
    (∀ nso, Executable.Nso.tryFromBytes bytes = ok nso → nso.InBounds bytes) ∧
    (∀ npdm, ProgramMeta.Npdm.tryFromBytes bytes = ok npdm → npdm.InBounds bytes) ∧
    ∀ cnmt, ContentMeta.Cnmt.tryFromBytes bytes = ok cnmt → cnmt.InBounds bytes :=
  ⟨fun _ => Pfs.Pfs0.inBounds, fun _ => Kip.Kip1.inBounds, fun _ => Executable.Nso.inBounds,
    fun _ => ProgramMeta.Npdm.inBounds, fun _ => ContentMeta.Cnmt.inBounds⟩

/-! ## Images -/

def twoFilesArchive : Pfs.Pfs0 := Pfs.archive Pfs.twoFiles

def twoContents : ContentMeta.CnmtBuilder :=
  ⟨0x0100000000001000, 1, [ContentMeta.sampleContent .control, ContentMeta.sampleContent .program]⟩

lemma twoFilesArchive_accepted : Pfs.Pfs0.tryFromBytes twoFilesArchive.toBytes = ok twoFilesArchive := by
  have hadd : Pfs.addFiles Pfs.twoFiles = ok ⟨Pfs.twoFiles⟩ := by decide
  obtain ⟨haddable, -⟩ := Pfs.addFiles_eq_ok.mp hadd
  obtain ⟨hvalid, -⟩ := Pfs.archive_valid haddable.1 (by decide) (by decide) (by decide)
  exact Pfs.tryFromBytes_eq_ok.mpr ⟨rfl, hvalid⟩

lemma sampleTitle_accepted : ProgramMeta.Npdm.tryFromBytes ProgramMeta.sampleTitle.image =
    ok ProgramMeta.sampleTitle.read :=
  ProgramMeta.Npdm.tryFromBytes_eq_ok.mpr
    ⟨rfl, ProgramMeta.NpdmBuilder.read_valid ⟨by decide +kernel, by decide +kernel⟩⟩

lemma twoContents_accepted : ContentMeta.Cnmt.tryFromBytes twoContents.build = ok twoContents.view :=
  ContentMeta.tryFromBytes_build twoContents (by decide)

lemma twoContents_recordCount : twoContents.view.recordCount = 2 := by
  rw [ContentMeta.Cnmt.recordCount, ContentMeta.CnmtBuilder.view, List.length_map]
  exact (sortOn_perm ContentMeta.ContentRecord.key twoContents.records).length_eq

theorem accepted_inBounds_samples :
    (twoFilesArchive.entries.length = 2 ∧ twoFilesArchive.InBounds twoFilesArchive.toBytes) ∧
    ((mixedKip.view 0).stored = Blz.recurringStream ∧ mixedKip.InBounds mixedKip.bytes) ∧
    ((mixedNso.dataCompressed : Outcome Empty _) = ok [4, 5] ∧ mixedNso.InBounds mixedNso.bytes) ∧
    (ProgramMeta.sampleTitle.read.aci0SacData = ok [0x82, 0x73, 0x6d, 0x3a] ∧
      ProgramMeta.sampleTitle.read.InBounds ProgramMeta.sampleTitle.image) ∧
    twoContents.view.recordCount = 2 ∧ twoContents.view.InBounds twoContents.build :=
  ⟨⟨rfl, (accepted_inBounds _).1 _ twoFilesArchive_accepted⟩,
    ⟨by decide +kernel, (accepted_inBounds _).2.1 _ mixedKip_accepted⟩,
    ⟨by decide +kernel, (accepted_inBounds _).2.2.1 _ mixedNso_accepted⟩,
    ⟨by decide +kernel, (accepted_inBounds _).2.2.2.1 _ sampleTitle_accepted⟩,
    twoContents_recordCount, (accepted_inBounds _).2.2.2.2 _ twoContents_accepted⟩

end NxObject
