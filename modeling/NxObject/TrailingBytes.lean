import NxObject.NcaReading
import NxObject.NroAssets
import NxObject.ReaderBounds
import NxObject.RomFsOpen

/-!
# Bytes behind an image

A reader finds everything by offsets that count from the start of the buffer, and checks that it ends inside. What
it accepts, it accepts as well with more bytes behind it, and its accessors give what they gave before.
-/
namespace NxObject
open Outcome

section Buffers
variable {ε α : Type}

lemma sliceAt_append {bytes : Bytes} {offset size : ℕ} (h : offset + size ≤ bytes.length) (rest : Bytes) :
    sliceAt (bytes ++ rest) offset size = sliceAt bytes offset size := by
  rw [sliceAt, sliceAt, List.drop_append_of_le_length (by omega),
    List.take_append_of_le_length (by rw [List.length_drop]; omega)]

lemma slice_append_left {xs : List α} {start stop : ℕ} (h : stop ≤ xs.length) (ys : List α) :
    (slice (xs ++ ys) start stop : Outcome ε _) = slice xs start stop := by
  rw [slice, slice, List.length_append, List.take_append_of_le_length h]
  by_cases hstart : start ≤ stop
  · rw [if_pos ⟨hstart, h.trans (Nat.le_add_right _ _)⟩, if_pos ⟨hstart, h⟩]
  · rw [if_neg fun hle => hstart hle.1, if_neg fun hle => hstart hle.1]

lemma Codec.fromPrefix_append_right {β : Type} (codec : Codec β) {bytes : Bytes} {b : β}
    (h : codec.fromPrefix bytes = some b) (rest : Bytes) : codec.fromPrefix (bytes ++ rest) = some b :=
  codec.fromPrefix_of_prefix (List.prefix_append bytes rest) h

end Buffers

/-! ## PFS0 -/

namespace Pfs.Pfs0

/-- Both archives hand out the same files. -/
structure ReadsAs (pfs pfs' : Pfs0) : Prop where
  header : pfs'.header = pfs.header
  file : ∀ index, (pfs'.file index : Outcome Empty _) = pfs.file index
  files : (pfs'.files : Outcome Empty _) = pfs.files
  fileByName : ∀ name, (pfs'.fileByName name : Outcome Empty _) = pfs.fileByName name

theorem readsAs_append {bytes : Bytes} {pfs : Pfs0} (h : tryFromBytes bytes = ok pfs) (rest : Bytes) :
    ∃ pfs', tryFromBytes (bytes ++ rest) = ok pfs' ∧ pfs.ReadsAs pfs' := by
  obtain ⟨rfl, hvalid⟩ := tryFromBytes_eq_ok.mp h
  have hinside : ∀ entry ∈ pfs.entries, Inside { pfs with data := pfs.data ++ rest } entry := by
    intro entry hentry
    obtain ⟨hbound, hdata, hname, hterminated⟩ := hvalid.inside entry hentry
    exact ⟨hbound, hdata.trans (List.prefix_append pfs.data rest).length_le, hname, hterminated⟩
  have hvalid' : Valid { pfs with data := pfs.data ++ rest } :=
    ⟨hvalid.magic, hvalid.fileCount, hvalid.stringTable, hinside⟩
  have hview : ∀ entry ∈ pfs.entries, view { pfs with data := pfs.data ++ rest } entry = pfs.view entry := by
    intro entry hentry
    rw [view, view]
    exact congrArg _ (sliceAt_append (hvalid.inside entry hentry).data rest)
  have hviews : pfs.entries.map (view { pfs with data := pfs.data ++ rest }) = pfs.entries.map pfs.view :=
    List.map_congr_left hview
  refine ⟨{ pfs with data := pfs.data ++ rest }, tryFromBytes_eq_ok.mpr ⟨?_, hvalid'⟩, ?_⟩
  · simp only [toBytes, List.append_assoc]
  · refine ⟨rfl, fun index => ?_, ?_, fun name => ?_⟩
    · rw [file_eq hvalid', file_eq hvalid, ← List.getElem?_map, ← List.getElem?_map, hviews]
    · rw [files_eq hvalid', files_eq hvalid, hviews]
    · rw [fileByName_eq hvalid', fileByName_eq hvalid, hviews]

end Pfs.Pfs0

/-! ## KIP1 -/

namespace Kip.Kip1

/-- Both images hand out the same header and the same segments. -/
structure ReadsAs (kip kip' : Kip1) : Prop where
  header : kip'.header = kip.header
  segment : ∀ index, (kip'.segment index : Outcome Empty _) = kip.segment index
  segments : (kip'.segments : Outcome Empty _) = kip.segments

theorem readsAs_append {bytes : Bytes} {kip : Kip1} (h : tryFromBytes bytes = ok kip) (rest : Bytes) :
    ∃ kip', tryFromBytes (bytes ++ rest) = ok kip' ∧ kip.ReadsAs kip' := by
  obtain ⟨rfl, hvalid⟩ := tryFromBytes_eq_ok.mp h
  have hvalid' : Valid { kip with bytes := kip.bytes ++ rest } :=
    ⟨Codec.fromPrefix_append_right _ hvalid.header rest, hvalid.magic,
      hvalid.stored.trans (List.prefix_append kip.bytes rest).length_le⟩
  have hview : ∀ i : Fin 6, i.val < loadedSegmentCount →
      view { kip with bytes := kip.bytes ++ rest } i = kip.view i := by
    intro i hi
    rw [view, view]
    exact congrArg _ (sliceAt_append (stored_le hvalid hi) rest)
  refine ⟨{ kip with bytes := kip.bytes ++ rest }, tryFromBytes_eq_ok.mpr ⟨rfl, hvalid'⟩, rfl, fun index => ?_, ?_⟩
  · by_cases hindex : index < loadedSegmentCount
    · have hlt : index < 6 := hindex.trans (by decide)
      exact (segment_eq hvalid' (i := ⟨index, hlt⟩) hindex).trans
        ((congrArg (fun view => ok (some view)) (hview ⟨index, hlt⟩ hindex)).trans
          (segment_eq hvalid (i := ⟨index, hlt⟩) hindex).symm)
    · rw [segment_eq_none (Nat.le_of_not_lt hindex), segment_eq_none (Nat.le_of_not_lt hindex)]
  · rw [segments_eq hvalid', segments_eq hvalid, hview 0 (by decide), hview 1 (by decide), hview 2 (by decide),
      hview 3 (by decide)]

end Kip.Kip1

/-! ## NSO -/

namespace Executable.Nso

/-- Both images hand out the same header and the same segments, stored and expanded. -/
structure ReadsAs (nso nso' : Nso) : Prop where
  header : nso'.header = nso.header
  textCompressed : (nso'.textCompressed : Outcome Empty _) = nso.textCompressed
  rodataCompressed : (nso'.rodataCompressed : Outcome Empty _) = nso.rodataCompressed
  dataCompressed : (nso'.dataCompressed : Outcome Empty _) = nso.dataCompressed
  text : ∀ (δ : Type) (lz4 : Packer δ), nso'.text lz4 = nso.text lz4
  rodata : ∀ (δ : Type) (lz4 : Packer δ), nso'.rodata lz4 = nso.rodata lz4
  data : ∀ (δ : Type) (lz4 : Packer δ), nso'.data lz4 = nso.data lz4

theorem readsAs_append {bytes : Bytes} {nso : Nso} (h : tryFromBytes bytes = ok nso) (rest : Bytes) :
    ∃ nso', tryFromBytes (bytes ++ rest) = ok nso' ∧ nso.ReadsAs nso' := by
  obtain ⟨rfl, hvalid⟩ := tryFromBytes_eq_ok.mp h
  have hlen : nso.bytes.length ≤ (nso.bytes ++ rest).length := (List.prefix_append nso.bytes rest).length_le
  have hvalid' : Valid { nso with bytes := nso.bytes ++ rest } :=
    ⟨Codec.fromPrefix_append_right _ hvalid.header rest, hvalid.magic, hvalid.text.trans hlen,
      hvalid.rodata.trans hlen, hvalid.data.trans hlen⟩
  have hstored : ∀ {segment : NsoSegmentHeader} {fileSize : UInt32},
      segment.fileOffset.toNat + fileSize.toNat ≤ nso.bytes.length →
        storedBytes { nso with bytes := nso.bytes ++ rest } segment fileSize = nso.storedBytes segment fileSize :=
    fun hle => sliceAt_append hle rest
  refine ⟨{ nso with bytes := nso.bytes ++ rest }, tryFromBytes_eq_ok.mpr ⟨rfl, hvalid'⟩, ?_⟩
  exact
    { header := rfl
      textCompressed := by rw [textCompressed_eq hvalid', textCompressed_eq hvalid, hstored hvalid.text]
      rodataCompressed := by rw [rodataCompressed_eq hvalid', rodataCompressed_eq hvalid, hstored hvalid.rodata]
      dataCompressed := by rw [dataCompressed_eq hvalid', dataCompressed_eq hvalid, hstored hvalid.data]
      text := fun δ lz4 => by
        rw [text_eq hvalid', text_eq hvalid, hstored hvalid.text]
        rfl
      rodata := fun δ lz4 => by
        rw [rodata_eq hvalid', rodata_eq hvalid, hstored hvalid.rodata]
        rfl
      data := fun δ lz4 => by
        rw [data_eq hvalid', data_eq hvalid, hstored hvalid.data]
        rfl }

end Executable.Nso

/-! ## NPDM -/

namespace ProgramMeta.Npdm

/-- Both images hand out the same headers, and the second one every block of the ACI0 section that the first one
hands out. A block is checked when it is asked for, so that the second may have blocks that the first lacks. -/
structure ReadsAs (npdm npdm' : Npdm) : Prop where
  header : npdm'.header = npdm.header
  acid : npdm'.acid = npdm.acid
  aci0 : npdm'.aci0 = npdm.aci0
  fac : ∀ part, npdm.aci0FacData = ok part → npdm'.aci0FacData = ok part
  sac : ∀ part, npdm.aci0SacData = ok part → npdm'.aci0SacData = ok part
  kc : ∀ part, npdm.aci0KcData = ok part → npdm'.aci0KcData = ok part

lemma located_append {α : Type} {codec : Codec α} {bytes : Bytes} {offset size : UInt32} {header : α}
    (h : Located codec bytes offset size header) (rest : Bytes) :
    Located codec (bytes ++ rest) offset size header := by
  obtain ⟨hinside, hroom, hread⟩ := h
  refine ⟨hinside.trans (List.prefix_append bytes rest).length_le, hroom, ?_⟩
  rw [List.drop_append_of_le_length (by omega)]
  exact Codec.fromPrefix_append_right _ hread rest

lemma aci0InnerSection_append {npdm : Npdm} {sect : String} {offset size : UInt32} {part : Bytes}
    (h : npdm.aci0InnerSection sect offset size = ok part) (rest : Bytes) :
    aci0InnerSection { npdm with bytes := npdm.bytes ++ rest } sect offset size = ok part := by
  rw [aci0InnerSection_eq] at h ⊢
  split_ifs at h with hle
  rw [← ok.inj h]
  exact (if_pos (hle.trans (List.prefix_append npdm.bytes rest).length_le)).trans
    (congrArg ok (sliceAt_append hle rest))

theorem readsAs_append {bytes : Bytes} {npdm : Npdm} (h : tryFromBytes bytes = ok npdm) (rest : Bytes) :
    ∃ npdm', tryFromBytes (bytes ++ rest) = ok npdm' ∧ npdm.ReadsAs npdm' := by
  obtain ⟨rfl, hvalid⟩ := tryFromBytes_eq_ok.mp h
  have hvalid' : Valid { npdm with bytes := npdm.bytes ++ rest } :=
    ⟨Codec.fromPrefix_append_right _ hvalid.header rest, hvalid.magic, located_append hvalid.acid rest,
      hvalid.acidMagic, located_append hvalid.aci0 rest, hvalid.aci0Magic⟩
  exact ⟨{ npdm with bytes := npdm.bytes ++ rest }, tryFromBytes_eq_ok.mpr ⟨rfl, hvalid'⟩, rfl, rfl, rfl,
    fun _ h => aci0InnerSection_append h rest, fun _ h => aci0InnerSection_append h rest,
    fun _ h => aci0InnerSection_append h rest⟩

end ProgramMeta.Npdm

/-! ## CNMT -/

namespace ContentMeta.Cnmt

theorem tryFromBytes_append {bytes : Bytes} {cnmt : Cnmt} (h : tryFromBytes bytes = ok cnmt) (rest : Bytes) :
    tryFromBytes (bytes ++ rest) = ok cnmt := by
  obtain ⟨extended, tail, rfl, hvalid⟩ := tryFromBytes_eq_ok.mp h
  refine tryFromBytes_eq_ok.mpr ⟨extended, tail ++ rest, ?_, hvalid⟩
  simp only [toBytes, List.append_assoc]

end ContentMeta.Cnmt

/-! ## NCA -/

namespace Archive

lemma sectionRange_of_le {index available available' : ℕ} {entry : NcaSectionEntry} {range : Option (ℕ × ℕ)}
    (h : sectionRange index entry available = .ok range) (hle : available ≤ available') :
    sectionRange index entry available' = .ok range := by
  rw [sectionRange] at h ⊢
  split_ifs at h ⊢ with hend hbounds hout hout'
  · exact h
  · omega
  · exact h

namespace Nca

/-- Both archives hand out the same header and the same sections. -/
structure ReadsAs (nca nca' : Nca) : Prop where
  header : nca'.header = nca.header
  contentType : nca'.contentType = nca.contentType
  sectionAt : ∀ index, (nca'.sectionAt index : Outcome Empty _) = nca.sectionAt index

theorem readsAs_append {bytes : Bytes} {nca : Nca} (h : tryFromBytes bytes = ok nca) (rest : Bytes) :
    ∃ nca', tryFromBytes (bytes ++ rest) = ok nca' ∧ nca.ReadsAs nca' := by
  obtain ⟨rfl, hvalid⟩ := tryFromBytes_eq_ok.mp h
  have hlen : nca.bytes.length ≤ (nca.bytes ++ rest).length := (List.prefix_append nca.bytes rest).length_le
  have hsections : ∀ i, checkSection nca.header (nca.bytes ++ rest).length i = ok () := by
    intro i
    have hcheck := hvalid.sections i
    obtain ⟨range, hrange, -⟩ := checkSection_eq_ok hcheck
    rw [checkSection, hrange] at hcheck
    rw [checkSection, sectionRange_of_le hrange hlen]
    exact hcheck
  refine ⟨{ nca with bytes := nca.bytes ++ rest },
    tryFromBytes_eq_ok.mpr ⟨rfl, Codec.fromPrefix_append_right _ hvalid.header rest, hvalid.magic,
      hvalid.contentType, hsections⟩, rfl, rfl, fun index => ?_⟩
  rw [Nca.sectionAt, Nca.sectionAt]
  split_ifs with hindex
  · obtain ⟨range, hrange, -⟩ := checkSection_eq_ok (hvalid.sections ⟨index, hindex⟩)
    have hbounds := (sectionRange_eq_ok hrange).2
    dsimp only at hrange ⊢
    rw [sectionRange_of_le hrange hlen, hrange]
    cases range with
    | none => rfl
    | some range => simp only [slice_append_left (hbounds range rfl).2.2]
  · rfl

end Nca
end Archive

/-! ## NRO -/

namespace Relocatable.Nro

/-- Both images hand out the same header, the same segments and the same assets. -/
structure ReadsAs (nro nro' : Nro) : Prop where
  start : nro'.start = nro.start
  header : nro'.header = nro.header
  assetHeader : nro'.assetHeader = nro.assetHeader
  segment : ∀ idx, (nro'.segment idx : Outcome Empty _) = nro.segment idx
  assetIcon : (nro'.assetIcon : Outcome Empty _) = nro.assetIcon
  assetNacp : (nro'.assetNacp : Outcome Empty _) = nro.assetNacp
  assetRomfs : (nro'.assetRomfs : Outcome Empty _) = nro.assetRomfs

lemma findAssetHeader_append {bytes : Bytes} {nroSize : ℕ} {header : NroAssetHeader}
    (h : findAssetHeader bytes nroSize = some header) (rest : Bytes) :
    findAssetHeader (bytes ++ rest) nroSize = some header := by
  rw [findAssetHeader] at h ⊢
  split_ifs at h with hlen
  rw [List.length_append, if_pos (hlen.trans_le (Nat.le_add_right _ _)),
    List.drop_append_of_le_length (by omega)]
  obtain ⟨hhead, hmagic⟩ := Option.filter_eq_some_iff.mp h
  exact Option.filter_eq_some_iff.mpr ⟨Codec.fromPrefix_append_right _ hhead rest, hmagic⟩

theorem readsAs_append {bytes : Bytes} {nro : Nro} (h : tryFromBytes bytes = ok nro)
    (hassets : nro.assetHeader.isSome) (rest : Bytes) :
    ∃ nro', tryFromBytes (bytes ++ rest) = ok nro' ∧ nro.ReadsAs nro' := by
  obtain ⟨rfl, hvalid⟩ := tryFromBytes_eq_ok.mp h
  obtain ⟨assetHdr, hheader⟩ := Option.isSome_iff_exists.mp hassets
  have hlen : nro.bytes.length ≤ (nro.bytes ++ rest).length := (List.prefix_append nro.bytes rest).length_le
  have hle : 0x10 ≤ nro.bytes.length := Codec.le_of_fromPrefix _ hvalid.start
  have hvalid' : Valid { nro with bytes := nro.bytes ++ rest } :=
    { start := Codec.fromPrefix_append_right _ hvalid.start rest
      header := by
        rw [List.drop_append_of_le_length hle]
        exact Codec.fromPrefix_append_right _ hvalid.header rest
      magic := hvalid.magic
      segments := fun idx => (hvalid.segments idx).trans hlen
      found := hheader.trans (findAssetHeader_append (hvalid.found.symm.trans hheader) rest).symm
      assets := fun header hheader sect hsect hsize =>
        (hvalid.assets header hheader sect hsect hsize).imp_right fun h => h.trans hlen }
  have hasset : ∀ f : NroAssetHeader → NroAssetSection, f assetHdr ∈ assetHdr.sections →
      (assetSection { nro with bytes := nro.bytes ++ rest } f : Outcome Empty _) = nro.assetSection f := by
    intro f hf
    rw [assetSection, assetSection, hheader]
    by_cases hsize : (f assetHdr).size.toNat = 0
    · simp only [if_pos hsize]
    · obtain ⟨hlt, hinside⟩ := hvalid.assets assetHdr hheader _ hf hsize
      simp only [if_neg hsize, add_of_lt (Nat.lt_of_le_of_lt (Nat.le_add_right _ _) hlt), add_of_lt hlt, ok_bind,
        slice_append_left hinside]
  refine ⟨{ nro with bytes := nro.bytes ++ rest }, tryFromBytes_eq_ok.mpr ⟨rfl, hvalid'⟩, ?_⟩
  exact
    { start := rfl
      header := rfl
      assetHeader := rfl
      segment := fun idx => slice_append_left (hvalid.segments idx) rest
      assetIcon := hasset _ (by simp [NroAssetHeader.sections])
      assetNacp := hasset _ (by simp [NroAssetHeader.sections])
      assetRomfs := hasset _ (by simp [NroAssetHeader.sections]) }

end Relocatable.Nro

/-! ## RomFS -/

namespace Romfs.RomFs

/-- Both images resolve every path and list every directory in the same way, and the second one hands out the data
that the first one hands out. The extent of a file is checked when its data is asked for. -/
structure ReadsAs (romfs romfs' : RomFs) : Prop where
  header : romfs'.header = romfs.header
  rootDir : romfs'.rootDir = romfs.rootDir
  openPath : ∀ fuel path, romfs'.openPath fuel path = romfs.openPath fuel path
  collect : ∀ fuel (it : DirIterator), it.collect romfs' fuel = it.collect romfs fuel
  data : ∀ (file : RomFsFile) bytes, file.data romfs = ok bytes → file.data romfs' = ok bytes

lemma checkTable_of_le {available available' : ℕ} {offset size : UInt64} {overflow outOfBounds} {u : Unit}
    (h : checkTable available offset size overflow outOfBounds = ok u) (hle : available ≤ available') :
    checkTable available' offset size overflow outOfBounds = ok u := by
  obtain ⟨stop, hstop, h⟩ := bind_eq_ok.mp h
  rw [checkTable, hstop, ok_bind]
  split_ifs at h ⊢ with hlt hlt'
  · omega
  · exact h

lemma tryFromBytes_append {bytes : Bytes} {romfs : RomFs} (h : tryFromBytes bytes = ok romfs) (rest : Bytes) :
    romfs.header.dirMetaTableOffset.toNat + romfs.header.dirMetaTableSize.toNat ≤ romfs.bytes.length ∧
      romfs.header.fileMetaTableOffset.toNat + romfs.header.fileMetaTableSize.toNat ≤ romfs.bytes.length ∧
      tryFromBytes (bytes ++ rest) = ok { romfs with bytes := romfs.bytes ++ rest } := by
  have hlen : bytes.length ≤ (bytes ++ rest).length := (List.prefix_append bytes rest).length_le
  obtain ⟨u, hroom, h⟩ := bind_eq_ok.mp h
  obtain ⟨header, hheader, h⟩ := bind_eq_ok.mp h
  obtain ⟨u, hsize, h⟩ := bind_eq_ok.mp h
  obtain ⟨u, hdirMeta, h⟩ := bind_eq_ok.mp h
  obtain ⟨u, hdirHash, h⟩ := bind_eq_ok.mp h
  obtain ⟨u, hfileMeta, h⟩ := bind_eq_ok.mp h
  obtain ⟨u, hfileHash, h⟩ := bind_eq_ok.mp h
  obtain ⟨u, hdata, h⟩ := bind_eq_ok.mp h
  obtain rfl := ok.inj h
  refine ⟨le_of_checkTable hdirMeta, le_of_checkTable hfileMeta, ?_⟩
  rw [tryFromBytes, ensure_true ((ensure_eq_ok.mp hroom).trans hlen), ok_bind,
    Codec.fromPrefix_append_right _ (okOr_eq_ok.mp hheader) rest, okOr_some, ok_bind, hsize, ok_bind,
    checkTable_of_le hdirMeta hlen, ok_bind, checkTable_of_le hdirHash hlen, ok_bind,
    checkTable_of_le hfileMeta hlen, ok_bind, checkTable_of_le hfileHash hlen, ok_bind,
    ensure_true ((ensure_eq_ok.mp hdata).trans hlen), ok_bind]
  rfl

lemma table_append {ε : Type} {bytes : Bytes} {offset size : ℕ} (h : offset + size ≤ bytes.length) (rest : Bytes) :
    (add offset size >>= fun stop => (slice (bytes ++ rest) offset stop : Outcome ε _)) =
      (add offset size >>= fun stop => slice bytes offset stop) := by
  cases hadd : (add offset size : Outcome ε ℕ) with
  | ok stop =>
    obtain ⟨-, rfl⟩ := add_eq_ok.mp hadd
    rw [ok_bind, ok_bind, slice_append_left h]
  | err e => rfl
  | panic => rfl
  | running => rfl

lemma data_append {romfs : RomFs} {file : RomFsFile} {bytes : Bytes} (h : file.data romfs = ok bytes) (rest : Bytes) :
    file.data { romfs with bytes := romfs.bytes ++ rest } = ok bytes := by
  rw [RomFsFile.data] at h ⊢
  obtain ⟨start, hstart, h⟩ := bind_eq_ok.mp h
  obtain ⟨stop, hstop, h⟩ := bind_eq_ok.mp h
  obtain ⟨-, rfl⟩ := checkedAdd_eq_some.mp (okOr_eq_ok.mp hstart)
  obtain ⟨-, rfl⟩ := checkedAdd_eq_some.mp (okOr_eq_ok.mp hstop)
  split_ifs at h with hout
  have hle := Nat.le_of_not_lt hout
  have hout' : ¬(romfs.bytes ++ rest).length < romfs.header.fileDataOffset.toNat + file.entry.dataOffset.toNat +
      file.entry.dataSize.toNat := Nat.not_lt.mpr (hle.trans (List.prefix_append romfs.bytes rest).length_le)
  dsimp only
  rw [hstart, ok_bind, hstop, ok_bind, if_neg hout', ← h, fileData, fileData]
  cases hadd : (add romfs.header.fileDataOffset.toNat file.entry.dataOffset.toNat : Outcome FromBytesError ℕ) with
  | ok start =>
    obtain ⟨-, rfl⟩ := add_eq_ok.mp hadd
    rw [ok_bind, ok_bind]
    exact table_append hle rest
  | err e => rfl
  | panic => rfl
  | running => rfl

theorem readsAs_append {bytes : Bytes} {romfs : RomFs} (h : tryFromBytes bytes = ok romfs) (rest : Bytes) :
    ∃ romfs', tryFromBytes (bytes ++ rest) = ok romfs' ∧ romfs.ReadsAs romfs' := by
  obtain ⟨hdirs, hfiles, haccepted⟩ := tryFromBytes_append h rest
  refine ⟨{ romfs with bytes := romfs.bytes ++ rest }, haccepted, ?_⟩
  have hdirTable : ∀ ε : Type, (dirMetaTable { romfs with bytes := romfs.bytes ++ rest } : Outcome ε _) =
      romfs.dirMetaTable := fun ε => table_append hdirs rest
  have hfileTable : ∀ ε : Type, (fileMetaTable { romfs with bytes := romfs.bytes ++ rest } : Outcome ε _) =
      romfs.fileMetaTable := fun ε => table_append hfiles rest
  have hreadDir : readDir { romfs with bytes := romfs.bytes ++ rest } = romfs.readDir := by
    funext offset
    rw [readDir, readDir, dirFromOffset, dirFromOffset, hdirTable]
  have hreadFile : readFile { romfs with bytes := romfs.bytes ++ rest } = romfs.readFile := by
    funext offset
    rw [readFile, readFile, fileFromOffset, fileFromOffset, hfileTable]
  have hroot : rootDir { romfs with bytes := romfs.bytes ++ rest } = romfs.rootDir := by
    rw [rootDir, rootDir, dirFromOffsetForRoot, dirFromOffsetForRoot, hdirTable]
  have hstep : ∀ fuel, openStep { romfs with bytes := romfs.bytes ++ rest } fuel = romfs.openStep fuel := by
    intro fuel
    funext s component
    simp only [openStep, findDir, hreadDir]
  have hcollect : ∀ fuel (it : DirIterator), it.collect { romfs with bytes := romfs.bytes ++ rest } fuel =
      it.collect romfs fuel := by
    intro fuel
    induction fuel with
    | zero => exact fun it => rfl
    | succ fuel ih =>
      intro it
      simp only [DirIterator.collect, DirIterator.next, hreadDir, hreadFile, ih]
  exact
    { header := rfl
      rootDir := hroot
      openPath := fun fuel path => by simp only [openPath, hroot, hstep, findFile, hreadFile]
      collect := hcollect
      data := fun file bytes hdata => data_append hdata rest }

end Romfs.RomFs

/-- Whatever a reader accepts, it accepts with bytes behind it, and hands out what it handed out before. -/
theorem accepted_append (bytes rest : Bytes) :
    (∀ pfs, Pfs.Pfs0.tryFromBytes bytes = ok pfs →
      ∃ pfs', Pfs.Pfs0.tryFromBytes (bytes ++ rest) = ok pfs' ∧ pfs.ReadsAs pfs') ∧
    (∀ kip, Kip.Kip1.tryFromBytes bytes = ok kip →
      ∃ kip', Kip.Kip1.tryFromBytes (bytes ++ rest) = ok kip' ∧ kip.ReadsAs kip') ∧
    (∀ nso, Executable.Nso.tryFromBytes bytes = ok nso →
      ∃ nso', Executable.Nso.tryFromBytes (bytes ++ rest) = ok nso' ∧ nso.ReadsAs nso') ∧
    (∀ npdm, ProgramMeta.Npdm.tryFromBytes bytes = ok npdm →
      ∃ npdm', ProgramMeta.Npdm.tryFromBytes (bytes ++ rest) = ok npdm' ∧ npdm.ReadsAs npdm') ∧
    (∀ cnmt, ContentMeta.Cnmt.tryFromBytes bytes = ok cnmt → ContentMeta.Cnmt.tryFromBytes (bytes ++ rest) = ok cnmt) ∧
    (∀ nca, Archive.Nca.tryFromBytes bytes = ok nca →
      ∃ nca', Archive.Nca.tryFromBytes (bytes ++ rest) = ok nca' ∧ nca.ReadsAs nca') ∧
    (∀ nro, Relocatable.Nro.tryFromBytes bytes = ok nro → nro.assetHeader.isSome →
      ∃ nro', Relocatable.Nro.tryFromBytes (bytes ++ rest) = ok nro' ∧ nro.ReadsAs nro') ∧
    ∀ romfs, Romfs.RomFs.tryFromBytes bytes = ok romfs →
      ∃ romfs', Romfs.RomFs.tryFromBytes (bytes ++ rest) = ok romfs' ∧ romfs.ReadsAs romfs' :=
  ⟨fun _ h => Pfs.Pfs0.readsAs_append h rest, fun _ h => Kip.Kip1.readsAs_append h rest,
    fun _ h => Executable.Nso.readsAs_append h rest, fun _ h => ProgramMeta.Npdm.readsAs_append h rest,
    fun _ h => ContentMeta.Cnmt.tryFromBytes_append h rest, fun _ h => Archive.Nca.readsAs_append h rest,
    fun _ h hassets => Relocatable.Nro.readsAs_append h hassets rest,
    fun _ h => Romfs.RomFs.readsAs_append h rest⟩

theorem accepted_append_samples :
    (∃ pfs, Pfs.Pfs0.tryFromBytes (twoFilesArchive.toBytes ++ [1, 2]) = ok pfs ∧ twoFilesArchive.ReadsAs pfs) ∧
    (∃ kip, Kip.Kip1.tryFromBytes (mixedKip.bytes ++ [1, 2]) = ok kip ∧ mixedKip.ReadsAs kip) ∧
    (∃ nso, Executable.Nso.tryFromBytes (mixedNso.bytes ++ [1, 2]) = ok nso ∧ mixedNso.ReadsAs nso) ∧
    (∃ npdm, ProgramMeta.Npdm.tryFromBytes (ProgramMeta.sampleTitle.image ++ [1, 2]) = ok npdm ∧
      ProgramMeta.sampleTitle.read.ReadsAs npdm) ∧
    ContentMeta.Cnmt.tryFromBytes (twoContents.build ++ [1, 2]) = ok twoContents.view ∧
    (∃ plain nca nca', Archive.pairedArchive.build Archive.cutHash = ok plain ∧
      Archive.Nca.tryFromBytes plain.toBytes = ok nca ∧
      Archive.Nca.tryFromBytes (plain.toBytes ++ [1, 2]) = ok nca' ∧ nca.ReadsAs nca') ∧
    (∃ nro, Relocatable.Nro.tryFromBytes (Relocatable.sampleNro.image [1] [2] [3] ++ [1, 2]) = ok nro ∧
      (Relocatable.sampleNro.read [1] [2] [3]).ReadsAs nro) ∧
    ∃ romfs, Romfs.RomFs.tryFromBytes (Romfs.nestedSorted.image ++ [1, 2]) = ok romfs ∧
      Romfs.nestedSorted.romfs.ReadsAs romfs := by
  obtain ⟨plain, hplain⟩ := Archive.pairedArchive_build
  obtain ⟨nca, hnca, -⟩ := Archive.build_contents (ε := Unit) hplain
  obtain ⟨nca', hnca', hreads⟩ := (accepted_append _ [1, 2]).2.2.2.2.2.1 _ hnca
  have hnro : Relocatable.Nro.tryFromBytes (Relocatable.sampleNro.image [1] [2] [3]) =
      ok (Relocatable.sampleNro.read [1] [2] [3]) :=
    Relocatable.Nro.tryFromBytes_eq_ok.mpr ⟨rfl, Relocatable.NroBuilder.read_valid Relocatable.sampleNro_laid⟩
  have hromfs : Romfs.RomFs.tryFromBytes Romfs.nestedSorted.image = ok Romfs.nestedSorted.romfs :=
    Romfs.Tree.tryFromBytes_image (by decide +kernel)
  exact ⟨(accepted_append _ _).1 _ twoFilesArchive_accepted, (accepted_append _ _).2.1 _ mixedKip_accepted,
    (accepted_append _ _).2.2.1 _ mixedNso_accepted, (accepted_append _ _).2.2.2.1 _ sampleTitle_accepted,
    (accepted_append _ _).2.2.2.2.1 _ twoContents_accepted, ⟨plain, nca, nca', hplain, hnca, hnca', hreads⟩,
    (accepted_append _ _).2.2.2.2.2.2.1 _ hnro rfl, (accepted_append _ _).2.2.2.2.2.2.2 _ hromfs⟩

end NxObject
