import NxObject.Composed
import NxObject.RomFsMirror

/-!
# Where everything stands

The offsets that are assigned, the sizes that are summed up, what the header records and where the write loop
gets to are one and the same account: the image is made up of the header, the contents of the files, the hash
tables and the entries, in this order and at these places, and of zeros.
-/
namespace NxObject.Romfs
open Outcome Placement Host

namespace RomFsBuilder
variable (laid : RomFsBuilder)

def parts (header : RomFsHeader) (dirHashTable fileHashTable : List UInt32) : List Part :=
  [(0, RomFsHeader.codec.enc header)] ++
    laid.files.map (fun file => (header.fileDataOffset.toNat + file.dataOffset.toNat, file.data)) ++
    [(header.dirHashTableOffset.toNat, hashTableBytes dirHashTable)] ++
    laid.dirs.zipIdx.map (fun entry => (header.dirMetaTableOffset.toNat + entry.1.entryOffset.toNat,
      RomFsDirEntry.codec.enc (laid.dirRecord entry.1 entry.2) ++ utf8 entry.1.name)) ++
    [(header.fileHashTableOffset.toNat, hashTableBytes fileHashTable)] ++
    laid.files.zipIdx.map (fun entry => (header.fileMetaTableOffset.toNat + entry.1.entryOffset.toNat,
      RomFsFileEntry.codec.enc (laid.fileRecord entry.1 entry.2) ++ utf8 entry.1.name))

/-- What the write loop has written before the file that stands behind these. -/
def writtenBefore (header : RomFsHeader) (before : List FileEntry) : Bytes :=
  before.foldl writeFile (resize (RomFsHeader.codec.enc header) ROMFS_FILEPARTITION_OFS.toNat 0)

/-- The places that are recorded in a header agree with one another and with what has been written. -/
structure Bookkept (dirHashTable fileHashTable : List UInt32) (image : Bytes) (header : RomFsHeader) :
    Prop where
  recorded : header = writeHeader dirHashTable laid.buildDirTable fileHashTable laid.buildFileTable
    laid.calculateFilePartitionSize
  parts : Composed image (laid.parts header dirHashTable fileHashTable)
  fileData : header.fileDataOffset.toNat + laid.calculateFilePartitionSize.toNat ≤
    header.dirHashTableOffset.toNat
  dirHash : header.dirHashTableOffset.toNat + header.dirHashTableSize.toNat =
    header.dirMetaTableOffset.toNat
  dirMeta : header.dirMetaTableOffset.toNat + header.dirMetaTableSize.toNat =
    header.fileHashTableOffset.toNat
  fileHash : header.fileHashTableOffset.toNat + header.fileHashTableSize.toNat =
    header.fileMetaTableOffset.toNat
  fileMeta : header.fileMetaTableOffset.toNat + header.fileMetaTableSize.toNat = image.length
  dirHashHeld : sliceAt image header.dirHashTableOffset.toNat header.dirHashTableSize.toNat =
    hashTableBytes dirHashTable
  dirMetaHeld : sliceAt image header.dirMetaTableOffset.toNat header.dirMetaTableSize.toNat =
    laid.buildDirTable
  fileHashHeld : sliceAt image header.fileHashTableOffset.toNat header.fileHashTableSize.toNat =
    hashTableBytes fileHashTable
  fileMetaHeld : sliceAt image header.fileMetaTableOffset.toNat header.fileMetaTableSize.toNat =
    laid.buildFileTable
  fileWritten : ∀ before file after, laid.files = before ++ file :: after →
    ∃ pre, writeFile (writtenBefore header before) file = pre ++ file.data ∧
      pre.length = header.fileDataOffset.toNat + file.dataOffset.toNat
  allWritten : (writtenBefore header laid.files).length =
    header.fileDataOffset.toNat + laid.calculateFilePartitionSize.toNat
  fileInside : ∀ file ∈ laid.files,
    file.dataOffset.toNat + file.data.length ≤ laid.calculateFilePartitionSize.toNat
  fileAligned : ∀ file ∈ laid.files, 0x10 ∣ header.fileDataOffset.toNat + file.dataOffset.toNat
  dirEntryAligned : ∀ dir ∈ laid.dirs, 4 ∣ header.dirMetaTableOffset.toNat + dir.entryOffset.toNat
  fileEntryAligned : ∀ file ∈ laid.files, 4 ∣ header.fileMetaTableOffset.toNat + file.entryOffset.toNat

end RomFsBuilder

namespace Tree
variable {t : Tree}

/-! ## What the image is made up of -/

lemma chunk_composed (header name : Bytes) : Composed (entryChunk header name) [(0, header ++ name)] := by
  rw [entryChunk, ← List.append_assoc]
  exact (composed_self _).append_zeros _

lemma dataRegion_composed {l : List (List Text)} (hl : l.Nodup) (data : List Text → Bytes) :
    Composed (dataRegion 0 (l.map data))
      (l.map fun p => (alignUp 0x10 (dataEnd 0 ((l.take (l.idxOf p)).map data)), data p)) := by
  refine composed_row (fun l => dataRegion 0 (l.map data))
    (fun l => alignUp 0x10 (dataEnd 0 (l.map data))) rfl hl fun before p _ parts h => ?_
  have hup := le_alignUp (by decide : 0 < 0x10) (dataEnd 0 (before.map data))
  have hlen := dataRegion_length 0 (before.map data)
  have hsplit : dataRegion 0 ((before ++ [p]).map data) = dataRegion 0 (before.map data) ++
      List.replicate (alignUp 0x10 (dataEnd 0 (before.map data)) - dataEnd 0 (before.map data)) 0 ++ data p := by
    rw [List.map_append, dataRegion_append, List.map_singleton, dataRegion, dataRegion, List.append_nil,
      List.append_assoc]
  have hstart : (dataRegion 0 (before.map data) ++ List.replicate
      (alignUp 0x10 (dataEnd 0 (before.map data)) - dataEnd 0 (before.map data)) 0).length =
      alignUp 0x10 (dataEnd 0 (before.map data)) := by
    rw [List.length_append, List.length_replicate]
    omega
  have hparts := (h.append_zeros
    (alignUp 0x10 (dataEnd 0 (before.map data)) - dataEnd 0 (before.map data))).append_self (data p)
  rwa [hstart, ← hsplit] at hparts

/-- The tree's image, made up of its parts. -/
theorem image_composed (h : t.Fits) : Composed t.image
    ([(0, RomFsHeader.codec.enc t.header)] ++ t.paths.map (fun p => (0x200 + t.dataOffset p, t.data p)) ++
      [(t.dirHashOffset, hashTableBytes t.dirHash.1)] ++
      t.dirs.map (fun c => (t.dirTableOffset + t.dirOffset c,
        RomFsDirEntry.codec.enc (t.dirRecord c) ++ utf8 (lastName c))) ++
      [(t.fileHashOffset, hashTableBytes t.fileHash.1)] ++
      t.paths.map (fun p => (t.fileTableOffset + t.fileOffset p,
        RomFsFileEntry.codec.enc (t.fileRecord p) ++ utf8 (lastName p)))) := by
  have hfront : Composed t.imageFront [(0, RomFsHeader.codec.enc t.header)] :=
    (composed_self _).append_zeros _
  have hdata : Composed t.imageData (t.paths.map fun p => (t.dataOffset p, t.data p)) :=
    (dataRegion_composed t.paths_nodup t.data).append_zeros _
  have hdirs := composed_flatMap (fun c _ => dirChunk_length (t := t) c)
    (fun c _ => chunk_composed (RomFsDirEntry.codec.enc (t.dirRecord c)) (utf8 (lastName c))) t.dirs_nodup
  have hfiles := composed_flatMap (fun p _ => fileChunk_length (t := t) p)
    (fun p _ => chunk_composed (RomFsFileEntry.codec.enc (t.fileRecord p)) (utf8 (lastName p))) t.paths_nodup
  have himage := ((((hfront.append hdata).append_self (hashTableBytes t.dirHash.1)).append hdirs).append_self
    (hashTableBytes t.fileHash.1)).append hfiles
  rw [← dirTable_eq h, ← fileTable_eq h] at himage
  have hdirHash : (t.imageFront ++ t.imageData).length = t.dirHashOffset := by
    rw [List.length_append, imageFront_length, imageData_length, dirHashOffset]
  have hdirTable : (t.imageFront ++ t.imageData ++ hashTableBytes t.dirHash.1).length = t.dirTableOffset := by
    rw [List.length_append, hdirHash, hashTableBytes_length, dirTableOffset]
  have hfileHash : (t.imageFront ++ t.imageData ++ hashTableBytes t.dirHash.1 ++ t.dirTable).length =
      t.fileHashOffset := by
    rw [List.length_append, hdirTable, fileHashOffset]
  have hfileTable : (t.imageFront ++ t.imageData ++ hashTableBytes t.dirHash.1 ++ t.dirTable ++
      hashTableBytes t.fileHash.1).length = t.fileTableOffset := by
    rw [List.length_append, hfileHash, hashTableBytes_length, fileTableOffset]
  have himageEq : t.image = t.imageFront ++ t.imageData ++ hashTableBytes t.dirHash.1 ++ t.dirTable ++
      hashTableBytes t.fileHash.1 ++ t.fileTable := by
    simp only [image, List.append_assoc]
  rw [imageFront_length, hdirHash, hdirTable, hfileHash, hfileTable, List.map_map, List.map_map,
    List.map_map, ← himageEq] at himage
  exact himage

/-! ## The account of a tree -/

lemma dataOffset_add_le {p : List Text} (hp : p ∈ t.paths) :
    t.dataOffset p + (t.data p).length ≤ t.dataSize := by
  obtain ⟨pre, post, hregion, hpre⟩ := dataRegion_at hp t.data 0
  have hlen := dataRegion_length 0 (t.paths.map t.data)
  rw [hregion] at hlen
  simp only [List.length_append] at hlen
  rw [dataSize, dataOffset]
  omega

lemma dvd_dirOffset (c : List Text) : 4 ∣ t.dirOffset c :=
  dvd_offsetOf (fun _ => Nat.dvd_add (by decide) (dvd_alignUp 4 _)) _ _

lemma dvd_fileOffset (p : List Text) : 4 ∣ t.fileOffset p :=
  dvd_offsetOf (fun _ => Nat.dvd_add (by decide) (dvd_alignUp 4 _)) _ _

lemma dvd_dirTableOffset : 4 ∣ t.dirTableOffset :=
  Nat.dvd_add (Nat.dvd_add (by decide) (dvd_alignUp 4 _)) (Nat.dvd_mul_left 4 _)

lemma dvd_fileTableOffset (h : t.Fits) : 4 ∣ t.fileTableOffset := by
  have htable : 4 ∣ t.dirTable.length := by
    have hlen : (t.dirs.flatMap t.dirChunk).length = total dirSize t.dirs :=
      length_flatMap_eq t.dirs fun c _ => dirChunk_length c
    rw [dirTable_eq h, hlen]
    exact dvd_total (fun _ => Nat.dvd_add (by decide) (dvd_alignUp 4 _)) _
  exact Nat.dvd_add (Nat.dvd_add dvd_dirTableOffset htable) (Nat.dvd_mul_left 4 _)

section Account
variable (h : t.Fits) (hsize : t.imageSize < 2 ^ 63)
include hsize

lemma placedFile_dataOffset {p : List Text} (hp : p ∈ t.paths) :
    (t.placedFile p).dataOffset.toNat = t.dataOffset p := by
  have hinside := dataOffset_add_le hp
  have hsmall := dataSize_lt hsize
  exact UInt64.toNat_ofNat_of_lt' (show t.dataOffset p < 2 ^ 64 by omega)

lemma partitionSize_toNat : t.laidOut.calculateFilePartitionSize.toNat = t.dataSize := by
  have hsmall := dataSize_lt hsize
  rw [laidOut_partitionSize, UInt64.toNat_ofNat_of_lt' (show t.dataSize < 2 ^ 64 by omega)]

include h in
lemma laidOut_parts : t.laidOut.parts t.header t.dirHash.1 t.fileHash.1 =
    [(0, RomFsHeader.codec.enc t.header)] ++ t.paths.map (fun p => (0x200 + t.dataOffset p, t.data p)) ++
      [(t.dirHashOffset, hashTableBytes t.dirHash.1)] ++
      t.dirs.map (fun c => (t.dirTableOffset + t.dirOffset c,
        RomFsDirEntry.codec.enc (t.dirRecord c) ++ utf8 (lastName c))) ++
      [(t.fileHashOffset, hashTableBytes t.fileHash.1)] ++
      t.paths.map (fun p => (t.fileTableOffset + t.fileOffset p,
        RomFsFileEntry.codec.enc (t.fileRecord p) ++ utf8 (lastName p))) := by
  obtain ⟨hdirHash, -, hdirMeta, -, hfileHash, -, hfileMeta, -⟩ := header_toNat hsize
  have hfiles : t.laidOut.files.map (fun file => (t.header.fileDataOffset.toNat + file.dataOffset.toNat,
      file.data)) = t.paths.map fun p => (0x200 + t.dataOffset p, t.data p) := by
    rw [laidOut, List.map_map]
    refine List.map_congr_left fun p hp => ?_
    rw [Function.comp_apply, placedFile_dataOffset hsize hp]
    rfl
  have hdirEntries : t.laidOut.dirs.zipIdx.map (fun entry =>
      (t.header.dirMetaTableOffset.toNat + entry.1.entryOffset.toNat,
        RomFsDirEntry.codec.enc (t.laidOut.dirRecord entry.1 entry.2) ++ utf8 entry.1.name)) =
      t.dirs.map fun c => (t.dirTableOffset + t.dirOffset c,
        RomFsDirEntry.codec.enc (t.dirRecord c) ++ utf8 (lastName c)) := by
    change (t.dirs.map t.placedDir).zipIdx.map _ = _
    rw [List.zipIdx_map, zipIdx_eq_map_idxOf t.dirs_nodup, List.map_map, List.map_map, hdirMeta]
    refine List.map_congr_left fun c hc => ?_
    rw [← dirPos_toNat h hc]
    rfl
  have hfileEntries : t.laidOut.files.zipIdx.map (fun entry =>
      (t.header.fileMetaTableOffset.toNat + entry.1.entryOffset.toNat,
        RomFsFileEntry.codec.enc (t.laidOut.fileRecord entry.1 entry.2) ++ utf8 entry.1.name)) =
      t.paths.map fun p => (t.fileTableOffset + t.fileOffset p,
        RomFsFileEntry.codec.enc (t.fileRecord p) ++ utf8 (lastName p)) := by
    change (t.paths.map t.placedFile).zipIdx.map _ = _
    rw [List.zipIdx_map, zipIdx_eq_map_idxOf t.paths_nodup, List.map_map, List.map_map, hfileMeta]
    refine List.map_congr_left fun p hp => ?_
    rw [← filePos_toNat h hp]
    rfl
  rw [RomFsBuilder.parts, hfiles, hdirEntries, hfileEntries, hdirHash, hfileHash]

omit hsize in
lemma writtenBefore_eq {front : List (List Text)} (hsmall : 0x200 + dataEnd 0 (front.map t.data) < 2 ^ 64) :
    RomFsBuilder.writtenBefore t.header (front.map t.placedFile) =
      t.imageFront ++ dataRegion 0 (front.map t.data) := by
  rw [RomFsBuilder.writtenBefore, resize_header, foldl_writeFile_placedFile hsmall]

lemma writeFile_at {before after : List FileEntry} {file : FileEntry}
    (hsplit : t.laidOut.files = before ++ file :: after) :
    ∃ pre, writeFile (RomFsBuilder.writtenBefore t.header before) file = pre ++ file.data ∧
      pre.length = 0x200 + file.dataOffset.toNat := by
  obtain ⟨front, rest, hpaths, rfl, hrest⟩ := List.map_eq_append_iff.mp hsplit
  obtain ⟨p, behind, rfl, rfl, -⟩ := List.map_eq_cons_iff.mp hrest
  have hnot : p ∉ front := fun hp =>
    (List.nodup_append.mp (hpaths ▸ t.paths_nodup)).2.2 p hp p List.mem_cons_self rfl
  have htake : t.paths.take (t.paths.idxOf p) = front := by
    rw [hpaths, List.idxOf_append_of_notMem hnot, List.idxOf_cons_self, Nat.add_zero, List.take_left]
  have hp : p ∈ t.paths := hpaths ▸ List.mem_append_right _ List.mem_cons_self
  have hoffset : t.dataOffset p = alignUp 0x10 (dataEnd 0 (front.map t.data)) := by rw [dataOffset, htake]
  have hinside := dataOffset_add_le hp
  have hup := le_alignUp (by decide : 0 < 0x10) (dataEnd 0 (front.map t.data))
  have hsmall := dataSize_lt hsize
  have hwritten : (t.imageFront ++ dataRegion 0 (front.map t.data)).length =
      0x200 + dataEnd 0 (front.map t.data) := by
    have hlen := dataRegion_length 0 (front.map t.data)
    rw [List.length_append, imageFront_length]
    omega
  rw [writtenBefore_eq (by omega), writeFile, hwritten, align64_sixteen, alignUp_add (by decide) _ (by decide),
    placedFile_dataOffset hsize hp, hoffset,
    UInt64.toNat_ofNat_of_lt' (show 0x200 + alignUp 0x10 (dataEnd 0 (front.map t.data)) < 2 ^ 64 by omega)]
  refine ⟨_, rfl, ?_⟩
  rw [resize_of_le (by omega), List.length_append, List.length_replicate]
  omega

include h in
theorem bookkept : t.laidOut.Bookkept t.dirHash.1 t.fileHash.1 t.image t.header := by
  obtain ⟨hdirHash, hdirHashLen, hdirMeta, hdirMetaLen, hfileHash, hfileHashLen, hfileMeta,
    hfileMetaLen⟩ := header_toNat hsize
  have hstores := stores_romfs hsize
  have hdata : t.header.fileDataOffset.toNat = 0x200 := rfl
  have hup := le_alignUp (by decide : 0 < 4) t.dataSize
  have hpartition := partitionSize_toNat hsize
  have htable : ∀ {table : Bytes} {offset size : UInt64},
      (do let stop ← add offset.toNat size.toNat; slice t.image offset.toNat stop : Outcome Empty Bytes) =
        ok table → sliceAt t.image offset.toNat size.toNat = table := by
    intro table offset size hread
    obtain ⟨stop, hstop, hslice⟩ := bind_eq_ok.mp hread
    obtain ⟨-, -, rfl⟩ := slice_eq_ok.mp hslice
    rw [sliceAt_eq_drop_take, (add_eq_ok.mp hstop).2]
  constructor
  case recorded => rw [laidOut_partitionSize]; exact writeHeader_eq.symm
  case parts => rw [laidOut_parts h hsize]; exact image_composed h
  case fileData => rw [hdata, hpartition, hdirHash, dirHashOffset]; omega
  case dirHash => rw [hdirHash, hdirHashLen, hdirMeta, dirTableOffset]
  case dirMeta => rw [hdirMeta, hdirMetaLen, hfileHash, fileHashOffset]
  case fileHash => rw [hfileHash, hfileHashLen, hfileMeta, fileTableOffset]
  case fileMeta => rw [hfileMeta, hfileMetaLen, image_length, imageSize]
  case dirHashHeld => exact hstores.dirHash
  case dirMetaHeld => exact htable hstores.dirTable
  case fileHashHeld => exact hstores.fileHash
  case fileMetaHeld => exact htable hstores.fileTable
  case fileWritten =>
    intro before file after hsplit
    rw [hdata]
    exact writeFile_at hsize hsplit
  case allWritten =>
    have hlen := dataRegion_length 0 (t.paths.map t.data)
    have hsmall := dataSize_lt hsize
    have hfiles : t.laidOut.files = t.paths.map t.placedFile := rfl
    rw [hfiles, writtenBefore_eq (show 0x200 + t.dataSize < 2 ^ 64 by omega), List.length_append,
      imageFront_length, hdata, hpartition, dataSize]
    omega
  case fileInside =>
    intro file hfile
    obtain ⟨p, hp, rfl⟩ := List.mem_map.mp hfile
    rw [placedFile_dataOffset hsize hp, hpartition]
    exact dataOffset_add_le hp
  case fileAligned =>
    intro file hfile
    obtain ⟨p, hp, rfl⟩ := List.mem_map.mp hfile
    rw [placedFile_dataOffset hsize hp, hdata]
    exact Nat.dvd_add (by decide) (dvd_alignUp _ _)
  case dirEntryAligned =>
    intro dir hdir
    obtain ⟨c, hc, rfl⟩ := List.mem_map.mp hdir
    have hoffset : (t.placedDir c).entryOffset.toNat = t.dirOffset c := dirPos_toNat h hc
    rw [hdirMeta, hoffset]
    exact Nat.dvd_add dvd_dirTableOffset (dvd_dirOffset c)
  case fileEntryAligned =>
    intro file hfile
    obtain ⟨p, hp, rfl⟩ := List.mem_map.mp hfile
    have hoffset : (t.placedFile p).entryOffset.toNat = t.fileOffset p := filePos_toNat h hp
    rw [hfileMeta, hoffset]
    exact Nat.dvd_add (dvd_fileTableOffset h) (dvd_fileOffset p)

end Account

lemma laidOut_files_perm : (t.sort.laidOut.files.map fun file => (file.path, file.data)).Perm
    (t.files.map fun f => (joinPath f.1, f.2)) := by
  have hlaid : t.sort.laidOut.files.map (fun file => (file.path, file.data)) =
      t.sort.files.map fun f => (joinPath f.1, f.2) := by
    rw [files_eq, laidOut, List.map_map, List.map_map]
    rfl
  rw [hlaid]
  exact t.sortedFiles_perm.map _

lemma bookkept_builder (hfiles : t.files ≠ []) (hfits : t.builder.Fits) :
    ∃ image header, t.builder.build = ok image ∧ RomFs.tryFromBytes image = ok ⟨image, header⟩ ∧
      t.builder.layOut.1.Bookkept t.builder.layOut.2.1 t.builder.layOut.2.2 image header ∧
      (t.builder.layOut.1.files.map fun file => (file.path, file.data)).Perm
        (t.files.map fun f => (joinPath f.1, f.2)) := by
  obtain ⟨hsort, hsize⟩ := t.fits_sort hfits
  rw [Tree.layOut_builder]
  exact ⟨t.sort.image, t.sort.header, Tree.build_builder hfiles hsize, Tree.tryFromBytes_image hsize,
    Tree.bookkept hsort hsize, laidOut_files_perm⟩

end Tree

/-- In every image, of added files or of a directory, the places that are assigned to the files and entries, summed
up, recorded in the header and reached by the write loop are the same, and nothing but zeros stands between them. -/
theorem build_bookkept :
    (∀ {added : List (Text × Bytes)} {b : RomFsBuilder}, added ≠ [] → RomFsBuilder.addFiles added = ok b → b.Fits →
      ∃ image header, b.build = ok image ∧ RomFs.tryFromBytes image = ok ⟨image, header⟩ ∧
        b.layOut.1.Bookkept b.layOut.2.1 b.layOut.2.2 image header ∧
        (b.layOut.1.files.map fun file => (file.path, file.data)).Perm
          (added.map fun e => (joinPath (pathComponents e.1), e.2))) ∧
    ∀ {ι : Type} {fuel : ℕ} {fsPath : HostPath} {listing : Listing ι} {b : RomFsBuilder}, IsHost (.dir listing) →
      RomFsBuilder.fromDirectory fuel fsPath listing = ok b → b.files ≠ [] → b.Fits →
      ∃ image header, b.build = ok image ∧ RomFs.tryFromBytes image = ok ⟨image, header⟩ ∧
        b.layOut.1.Bookkept b.layOut.2.1 b.layOut.2.2 image header ∧
        (b.layOut.1.files.map fun file => (file.path, file.data)).Perm
          (b.files.map fun file => (file.path, file.data)) := by
  constructor
  · intro added b hne hadd hfits
    obtain ⟨-, t, rfl, hholds⟩ := RomFsBuilder.addFiles_eq_ok hadd
    have hfiles : t.files ≠ [] := by
      rw [hholds.files]
      simpa using hne
    obtain ⟨image, header, hbuild, hread, hkept, hperm⟩ := Tree.bookkept_builder hfiles hfits
    rw [hholds.files, List.map_map] at hperm
    exact ⟨image, header, hbuild, hread, hkept, hperm⟩
  · intro ι fuel fsPath listing b hroot hread hne hfits
    obtain ⟨t, rfl, -⟩ := fromDirectory_eq_ok hroot hread
    have hfiles : t.files ≠ [] := fun hnil => hne (by rw [Tree.builder, hnil, List.map_nil])
    obtain ⟨image, header, hbuild, hread, hkept, hperm⟩ := Tree.bookkept_builder hfiles hfits
    refine ⟨image, header, hbuild, hread, hkept, ?_⟩
    rw [Tree.builder, List.map_map]
    exact hperm

theorem build_bookkept_nested :
    (∃ image header, nestedTree.builder.build = ok image ∧
      nestedTree.builder.layOut.1.Bookkept nestedTree.builder.layOut.2.1 nestedTree.builder.layOut.2.2 image header) ∧
    ∃ image header, RomFsBuilder.fromDirectory 4 [] (.ok twoDirectories) = ok twoTree.builder ∧
      twoTree.builder.build = ok image ∧
      twoTree.builder.layOut.1.Bookkept twoTree.builder.layOut.2.1 twoTree.builder.layOut.2.2 image header := by
  obtain ⟨image, header, hbuild, -, hkept, -⟩ := build_bookkept.1 (by decide) nestedFiles_added nestedTree_fits
  obtain ⟨image', header', hbuild', -, hkept', -⟩ := build_bookkept.2 (twoDirectories_isHost (List.Perm.refl _))
    twoDirectories_read (List.cons_ne_nil _ _) (fits_of_sort_eq twoTree_sort)
  exact ⟨⟨image, header, hbuild, hkept⟩, image', header', twoDirectories_read, hbuild', hkept'⟩

end NxObject.Romfs
