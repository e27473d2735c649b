import NxObject.RomFsTables

/-!
# The image

The image of a sorted tree is its header, the contents of the files, and the hash and metadata tables,
each at the place the header records; the reader accepts it and finds every part there.
-/
namespace NxObject.Romfs
open Outcome Placement

/-! ## File contents -/

/-- Contents one behind the other from `start`, each padded to a 16-byte boundary. -/
def dataRegion : ℕ → List Bytes → Bytes
  | _, [] => []
  | start, data :: files =>
      List.replicate (alignUp 0x10 start - start) 0 ++
        (data ++ dataRegion (alignUp 0x10 start + data.length) files)

lemma dataEnd_cons (start : ℕ) (data : Bytes) (files : List Bytes) :
    dataEnd start (data :: files) = dataEnd (alignUp 0x10 start + data.length) files := rfl

lemma le_dataEnd (start : ℕ) (files : List Bytes) : start ≤ dataEnd start files := by
  induction files generalizing start with
  | nil => exact le_rfl
  | cons data files ih =>
    have hstep := ih (alignUp 0x10 start + data.length)
    have hup := le_alignUp (k := 0x10) (by omega) start
    rw [dataEnd_cons]
    omega

lemma dataRegion_length (start : ℕ) (files : List Bytes) :
    start + (dataRegion start files).length = dataEnd start files := by
  induction files generalizing start with
  | nil => rfl
  | cons data files ih =>
    have hstep := ih (alignUp 0x10 start + data.length)
    have hup := le_alignUp (k := 0x10) (by omega) start
    rw [dataEnd_cons, ← hstep, dataRegion]
    simp only [List.length_append, List.length_replicate]
    omega

lemma dataRegion_append (start : ℕ) (files files' : List Bytes) :
    dataRegion start (files ++ files') =
      dataRegion start files ++ dataRegion (dataEnd start files) files' := by
  induction files generalizing start with
  | nil => rfl
  | cons data files ih =>
    rw [List.cons_append, dataRegion, ih, dataRegion, dataEnd_cons]
    simp only [List.append_assoc]

lemma dataEnd_add {a : ℕ} (h : 0x10 ∣ a) (start : ℕ) (files : List Bytes) :
    dataEnd (a + start) files = a + dataEnd start files := by
  induction files generalizing start with
  | nil => rfl
  | cons data files ih =>
    rw [dataEnd_cons, alignUp_add (by omega) start h, Nat.add_assoc, ih, dataEnd_cons]

lemma dataRegion_add {a : ℕ} (h : 0x10 ∣ a) (start : ℕ) (files : List Bytes) :
    dataRegion (a + start) files = dataRegion start files := by
  induction files generalizing start with
  | nil => rfl
  | cons data files ih =>
    rw [dataRegion, dataRegion, alignUp_add (by omega) start h, Nat.add_assoc, ih,
      Nat.add_sub_add_left]

lemma foldl_writeFile {buf : Bytes} {files : List FileEntry}
    (h : dataEnd buf.length (files.map (·.data)) < 2 ^ 64) :
    files.foldl writeFile buf = buf ++ dataRegion buf.length (files.map (·.data)) := by
  induction files generalizing buf with
  | nil => simp [dataRegion]
  | cons file files ih =>
    rw [List.map_cons, dataEnd_cons] at h
    have hle := le_dataEnd (alignUp 0x10 buf.length + file.data.length) (files.map (·.data))
    have hup := le_alignUp (k := 0x10) (by omega) buf.length
    have hsmall : alignUp 0x10 buf.length < 2 ^ 64 := by omega
    have hwrite : writeFile buf file =
        buf ++ (List.replicate (alignUp 0x10 buf.length - buf.length) 0 ++ file.data) := by
      rw [writeFile, align64_sixteen, UInt64.toNat_ofNat_of_lt' hsmall, resize_of_le hup,
        List.append_assoc]
    have hlen : (writeFile buf file).length = alignUp 0x10 buf.length + file.data.length := by
      rw [hwrite]
      simp only [List.length_append, List.length_replicate]
      omega
    rw [List.foldl_cons, ih (by rwa [hlen]), hlen, hwrite, List.map_cons, dataRegion]
    simp only [List.append_assoc]

lemma dataRegion_at {α : Type} [BEq α] [LawfulBEq α] {l : List α} {a : α} (ha : a ∈ l)
    (data : α → Bytes) (start : ℕ) :
    ∃ pre post, dataRegion start (l.map data) = pre ++ (data a ++ post) ∧
      start + pre.length = alignUp 0x10 (dataEnd start ((l.take (l.idxOf a)).map data)) := by
  set before := (l.take (l.idxOf a)).map data with hbefore
  have hup := le_alignUp (k := 0x10) (by omega) (dataEnd start before)
  have hlen := dataRegion_length start before
  refine ⟨dataRegion start before ++
    List.replicate (alignUp 0x10 (dataEnd start before) - dataEnd start before) 0,
    dataRegion (alignUp 0x10 (dataEnd start before) + (data a).length)
      ((l.drop (l.idxOf a + 1)).map data), ?_, ?_⟩
  · conv_lhs => rw [split_at ha]
    rw [List.map_append, List.map_cons, dataRegion_append, dataRegion, ← hbefore]
    simp only [List.append_assoc]
  · simp only [List.length_append, List.length_replicate]
    omega

/-! ## The parts of an image -/

namespace Tree
variable (t : Tree)

def dataSize : ℕ := dataEnd 0 (t.paths.map t.data)

def dirHashOffset : ℕ := 0x200 + alignUp 4 t.dataSize

def dirTableOffset : ℕ := t.dirHashOffset + t.dirHash.1.length * 4

def fileHashOffset : ℕ := t.dirTableOffset + t.dirTable.length

def fileTableOffset : ℕ := t.fileHashOffset + t.fileHash.1.length * 4

def imageSize : ℕ := t.fileTableOffset + t.fileTable.length

def header : RomFsHeader where
  headerSize := 0x50
  dirHashTableOffset := UInt64.ofNat t.dirHashOffset
  dirHashTableSize := UInt64.ofNat (t.dirHash.1.length * 4)
  dirMetaTableOffset := UInt64.ofNat t.dirTableOffset
  dirMetaTableSize := UInt64.ofNat (t.dirTable.length)
  fileHashTableOffset := UInt64.ofNat t.fileHashOffset
  fileHashTableSize := UInt64.ofNat (t.fileHash.1.length * 4)
  fileMetaTableOffset := UInt64.ofNat t.fileTableOffset
  fileMetaTableSize := UInt64.ofNat (t.fileTable.length)
  fileDataOffset := 0x200

def imageFront : Bytes := RomFsHeader.codec.enc t.header ++ List.replicate 0x1b0 0

def imageData : Bytes :=
  dataRegion 0 (t.paths.map t.data) ++ List.replicate (alignUp 4 t.dataSize - t.dataSize) 0

def image : Bytes :=
  t.imageFront ++ (t.imageData ++ (hashTableBytes t.dirHash.1 ++ (t.dirTable ++
    (hashTableBytes t.fileHash.1 ++ t.fileTable))))

variable {t}

lemma writeHeader_eq :
    writeHeader t.dirHash.1 t.dirTable t.fileHash.1 t.fileTable (UInt64.ofNat t.dataSize) =
      t.header := by
  have hstart : align64 (ROMFS_FILEPARTITION_OFS + UInt64.ofNat t.dataSize) 4 =
      UInt64.ofNat t.dirHashOffset := by
    have hsum : ROMFS_FILEPARTITION_OFS + UInt64.ofNat t.dataSize =
        UInt64.ofNat (0x200 + t.dataSize) := by
      rw [UInt64.ofNat_add]
      rfl
    rw [hsum, align64_four, alignUp_add (by omega) _ (by omega), dirHashOffset]
  simp only [writeHeader, hstart, header, dirTableOffset, fileHashOffset, fileTableOffset,
    UInt64.ofNat_add]
  rfl

lemma hashTableBytes_length (table : List UInt32) : (hashTableBytes table).length = table.length * 4 :=
  Codec.length_flatMap (fun _ => toLe_length 4 _) table

lemma imageFront_length : t.imageFront.length = 0x200 := by
  rw [imageFront, List.length_append, Codec.enc_length, List.length_replicate]
  rfl

lemma imageData_length : t.imageData.length = alignUp 4 t.dataSize := by
  have hlen := dataRegion_length 0 (t.paths.map t.data)
  have hup := le_alignUp (k := 4) (by omega) t.dataSize
  rw [imageData, List.length_append, List.length_replicate]
  change 0 + _ = t.dataSize at hlen
  omega

lemma image_length : t.image.length = t.imageSize := by
  simp only [image, List.length_append, imageFront_length, imageData_length, hashTableBytes_length,
    imageSize, fileTableOffset, fileHashOffset, dirTableOffset,
    dirHashOffset]
  omega

lemma laidOut_data : t.laidOut.files.map (·.data) = t.paths.map t.data := by
  rw [laidOut, List.map_map]
  rfl

lemma dataSize_lt (hsize : t.imageSize < 2 ^ 63) : 0x200 + t.dataSize < 2 ^ 63 := by
  have hup := le_alignUp (by decide : 0 < 4) t.dataSize
  simp only [imageSize, fileTableOffset, fileHashOffset, dirTableOffset, dirHashOffset] at hsize
  omega

lemma foldl_writeFile_placedFile {front : List (List Text)}
    (hsmall : 0x200 + dataEnd 0 (front.map t.data) < 2 ^ 64) :
    (front.map t.placedFile).foldl writeFile t.imageFront =
      t.imageFront ++ dataRegion 0 (front.map t.data) := by
  have hmap : (front.map t.placedFile).map (·.data) = front.map t.data := by
    rw [List.map_map]
    rfl
  have hend : dataEnd (0x200 + 0) (front.map t.data) < 2 ^ 64 := by rwa [dataEnd_add (by decide)]
  have hregion := dataRegion_add (a := 0x200) (by decide) 0 (front.map t.data)
  rw [foldl_writeFile, hmap, imageFront_length]
  · exact congrArg (t.imageFront ++ ·) hregion
  · rwa [hmap, imageFront_length]

lemma resize_imageData (hsize : t.imageSize < 2 ^ 63) :
    resize (t.imageFront ++ dataRegion 0 (t.paths.map t.data))
        (align64 (UInt64.ofNat (t.imageFront ++ dataRegion 0 (t.paths.map t.data)).length) 4).toNat 0 =
      t.imageFront ++ t.imageData := by
  have hregion : (dataRegion 0 (t.paths.map t.data)).length = t.dataSize := by
    rw [dataSize, ← dataRegion_length 0, Nat.zero_add]
  have hup := le_alignUp (k := 4) (by omega) t.dataSize
  simp only [imageSize, fileTableOffset, fileHashOffset, dirTableOffset, dirHashOffset] at hsize
  rw [align64_four, List.length_append, imageFront_length, hregion, alignUp_add (by omega) _ (by omega),
    UInt64.toNat_ofNat_of_lt' (show 0x200 + alignUp 4 t.dataSize < 2 ^ 64 by omega),
    resize_of_le (by simp only [List.length_append, imageFront_length, hregion]; omega), imageData,
    List.append_assoc, List.length_append, imageFront_length, hregion, Nat.add_sub_add_left]

lemma laidOut_partitionSize : t.laidOut.calculateFilePartitionSize = UInt64.ofNat t.dataSize := by
  rw [RomFsBuilder.calculateFilePartitionSize]
  exact (partitionSize_eq 0 _).trans (by rw [laidOut_data, dataSize])

lemma resize_header :
    resize (RomFsHeader.codec.enc t.header) ROMFS_FILEPARTITION_OFS.toNat 0 = t.imageFront := by
  rw [resize_of_le (by rw [Codec.enc_length]; decide), Codec.enc_length]
  rfl

theorem build_builder {t : Tree} (hne : t.files ≠ []) (hsize : t.sort.imageSize < 2 ^ 63) :
    t.builder.build = ok t.sort.image := by
  have hempty : t.builder.files.isEmpty = false := by simpa [builder] using hne
  rw [RomFsBuilder.build, hempty, layOut_builder]
  generalize t.sort = t at hsize ⊢
  have htotal : (ROMFS_FILEPARTITION_OFS + align64 (UInt64.ofNat t.dataSize) 4 +
      UInt64.ofNat (t.dirHash.1.length * 4) + UInt64.ofNat t.dirTable.length +
      UInt64.ofNat (t.fileHash.1.length * 4) + UInt64.ofNat t.fileTable.length) =
      UInt64.ofNat t.imageSize := by
    simp only [imageSize, fileTableOffset, fileHashOffset, dirTableOffset, dirHashOffset,
      UInt64.ofNat_add, align64_four]
    rfl
  have hfit : ¬2 ^ 63 ≤ (UInt64.ofNat t.imageSize).toNat := by
    rw [UInt64.toNat_ofNat_of_lt' (show t.imageSize < 2 ^ 64 by omega)]
    omega
  have hdirTable : t.laidOut.buildDirTable = t.dirTable := rfl
  have hfileTable : t.laidOut.buildFileTable = t.fileTable := rfl
  have hwritten : t.laidOut.files.foldl writeFile t.imageFront =
      t.imageFront ++ dataRegion 0 (t.paths.map t.data) :=
    foldl_writeFile_placedFile ((dataSize_lt hsize).trans (by decide))
  simp only [Bool.false_eq_true, if_false, hdirTable, hfileTable, laidOut_partitionSize,
    writeHeader_eq, resize_header, hwritten, htotal, if_neg hfit, resize_imageData hsize, image,
    List.append_assoc]

/-! ## Where the tables stand

Each table is the middle of a partition of the image whose front is as long as the recorded offset. -/

section Tables
variable (t : Tree)

lemma dirHash_start : (t.imageFront ++ t.imageData).length = t.dirHashOffset := by
  rw [List.length_append, imageFront_length, imageData_length, dirHashOffset]

lemma image_eq_dirHash : t.image = t.imageFront ++ t.imageData ++ (hashTableBytes t.dirHash.1 ++
    (t.dirTable ++ (hashTableBytes t.fileHash.1 ++ t.fileTable))) := by
  simp only [image, List.append_assoc]

lemma dirTable_start : (t.imageFront ++ t.imageData ++ hashTableBytes t.dirHash.1).length =
    t.dirTableOffset := by
  rw [List.length_append, dirHash_start, hashTableBytes_length, dirTableOffset]

lemma image_eq_dirTable : t.image = t.imageFront ++ t.imageData ++ hashTableBytes t.dirHash.1 ++
    (t.dirTable ++ (hashTableBytes t.fileHash.1 ++ t.fileTable)) := by
  simp only [image, List.append_assoc]

lemma fileHash_start : (t.imageFront ++ t.imageData ++ hashTableBytes t.dirHash.1 ++
    t.dirTable).length = t.fileHashOffset := by
  rw [List.length_append, dirTable_start, fileHashOffset]

lemma image_eq_fileHash : t.image = t.imageFront ++ t.imageData ++ hashTableBytes t.dirHash.1 ++
    t.dirTable ++ (hashTableBytes t.fileHash.1 ++ t.fileTable) := by
  simp only [image, List.append_assoc]

lemma fileTable_start : (t.imageFront ++ t.imageData ++ hashTableBytes t.dirHash.1 ++ t.dirTable ++
    hashTableBytes t.fileHash.1).length = t.fileTableOffset := by
  rw [List.length_append, fileHash_start, hashTableBytes_length, fileTableOffset]

lemma image_eq_fileTable : t.image = t.imageFront ++ t.imageData ++ hashTableBytes t.dirHash.1 ++
    t.dirTable ++ hashTableBytes t.fileHash.1 ++ (t.fileTable ++ []) := by
  simp only [image, List.append_assoc, List.append_nil]

end Tables

/-! ## The reader on the image -/

/-- The parsed image holds the tables of the tree and the contents of its files. -/
structure Stores (t : Tree) (romfs : RomFs) : Prop where
  bounded : romfs.Bounded
  dirTable : ∀ {ε : Type}, (romfs.dirMetaTable : Outcome ε Bytes) = ok t.dirTable
  fileTable : ∀ {ε : Type}, (romfs.fileMetaTable : Outcome ε Bytes) = ok t.fileTable
  dirHash : sliceAt romfs.bytes romfs.header.dirHashTableOffset.toNat
    romfs.header.dirHashTableSize.toNat = hashTableBytes t.dirHash.1
  fileHash : sliceAt romfs.bytes romfs.header.fileHashTableOffset.toNat
    romfs.header.fileHashTableSize.toNat = hashTableBytes t.fileHash.1
  data : ∀ p ∈ t.paths, ∃ pre post, romfs.bytes = pre ++ (t.data p ++ post) ∧
    romfs.header.fileDataOffset.toNat + t.dataOffset p = pre.length

def romfs (t : Tree) : RomFs := ⟨t.image, t.header⟩

section Reader
variable (hsize : t.imageSize < 2 ^ 63)
include hsize

lemma header_toNat :
    t.header.dirHashTableOffset.toNat = t.dirHashOffset ∧
    t.header.dirHashTableSize.toNat = t.dirHash.1.length * 4 ∧
    t.header.dirMetaTableOffset.toNat = t.dirTableOffset ∧
    t.header.dirMetaTableSize.toNat = t.dirTable.length ∧
    t.header.fileHashTableOffset.toNat = t.fileHashOffset ∧
    t.header.fileHashTableSize.toNat = t.fileHash.1.length * 4 ∧
    t.header.fileMetaTableOffset.toNat = t.fileTableOffset ∧
    t.header.fileMetaTableSize.toNat = t.fileTable.length := by
  have hsmall : ∀ n ≤ t.imageSize, (UInt64.ofNat n).toNat = n := fun n hn =>
    UInt64.toNat_ofNat_of_lt' (show n < 2 ^ 64 by omega)
  refine ⟨?_, ?_, ?_, ?_, ?_, ?_, ?_, ?_⟩ <;> refine hsmall _ ?_ <;>
    simp only [imageSize, fileTableOffset, fileHashOffset, dirTableOffset] <;> omega

theorem romfs_bounded : t.romfs.Bounded := by
  obtain ⟨h₁, h₂, h₃, h₄, h₅, h₆, h₇, h₈⟩ := header_toNat hsize
  have hlen := t.image_length
  have hdata : t.header.fileDataOffset.toNat = 0x200 := rfl
  simp only [imageSize, fileTableOffset, fileHashOffset, dirTableOffset, dirHashOffset] at *
  constructor <;> simp only [romfs] <;> omega

theorem tryFromBytes_image : RomFs.tryFromBytes t.image = ok t.romfs := by
  obtain ⟨haddr, hdirMeta, hdirHash, hfileMeta, hfileHash, hdata⟩ := romfs_bounded hsize
  simp only [romfs] at haddr hdirMeta hdirHash hfileMeta hfileHash hdata
  have hcheck : ∀ (offset size : UInt64) overflow outOfBounds,
      offset.toNat + size.toNat ≤ t.image.length →
      checkTable t.image.length offset size overflow outOfBounds = ok () := by
    intro offset size overflow outOfBounds hle
    rw [checkTable, checkedAdd_of_lt (hle.trans_lt (haddr.trans (by norm_num))), okOr_some, ok_bind,
      if_neg (by omega)]
    rfl
  have hlen : 0x50 ≤ t.image.length := by
    rw [image, List.length_append, imageFront_length]
    omega
  have hheader : RomFsHeader.codec.fromPrefix t.image = some t.header := by
    rw [image, imageFront, List.append_assoc, Codec.fromPrefix_append]
  rw [RomFs.tryFromBytes, ensure_true hlen, ok_bind, hheader, okOr_some, ok_bind, ensure_true (by rfl),
    ok_bind, hcheck _ _ _ _ hdirMeta, ok_bind, hcheck _ _ _ _ hdirHash, ok_bind,
    hcheck _ _ _ _ hfileMeta, ok_bind, hcheck _ _ _ _ hfileHash, ok_bind, ensure_true hdata, ok_bind]
  rfl

lemma dirMetaTable_romfs : (t.romfs.dirMetaTable : Outcome ε Bytes) = ok t.dirTable := by
  obtain ⟨-, -, hstart, hlen, -⟩ := header_toNat hsize
  have hbound := (romfs_bounded hsize).dirMeta
  have haddr := (romfs_bounded hsize).addressable
  simp only [romfs] at hbound haddr
  simp only [RomFs.dirMetaTable, romfs]
  rw [add_of_lt (by omega), ok_bind, hlen, hstart]
  exact slice_append (image_eq_dirTable t) (dirTable_start t).symm (by rw [dirTable_start])

lemma fileMetaTable_romfs : (t.romfs.fileMetaTable : Outcome ε Bytes) = ok t.fileTable := by
  obtain ⟨-, -, -, -, -, -, hstart, hlen⟩ := header_toNat hsize
  have hbound := (romfs_bounded hsize).fileMeta
  have haddr := (romfs_bounded hsize).addressable
  simp only [romfs] at hbound haddr
  simp only [RomFs.fileMetaTable, romfs]
  rw [add_of_lt (by omega), ok_bind, hlen, hstart]
  exact slice_append (image_eq_fileTable t) (fileTable_start t).symm (by rw [fileTable_start])

lemma sliceAt_dirHash : sliceAt t.image t.header.dirHashTableOffset.toNat
    t.header.dirHashTableSize.toNat = hashTableBytes t.dirHash.1 := by
  obtain ⟨hstart, hlen, -⟩ := header_toNat hsize
  rw [hstart, hlen]
  exact sliceAt_eq_of_append (image_eq_dirHash t) (dirHash_start t) (hashTableBytes_length _)

lemma sliceAt_fileHash : sliceAt t.image t.header.fileHashTableOffset.toNat
    t.header.fileHashTableSize.toNat = hashTableBytes t.fileHash.1 := by
  obtain ⟨-, -, -, -, hstart, hlen, -⟩ := header_toNat hsize
  rw [hstart, hlen]
  exact sliceAt_eq_of_append (image_eq_fileHash t) (fileHash_start t) (hashTableBytes_length _)

theorem stores_romfs : t.Stores t.romfs where
  bounded := romfs_bounded hsize
  dirTable := dirMetaTable_romfs hsize
  fileTable := fileMetaTable_romfs hsize
  dirHash := sliceAt_dirHash hsize
  fileHash := sliceAt_fileHash hsize
  data p hp := by
    obtain ⟨pre, post, hregion, hpre⟩ := dataRegion_at hp t.data 0
    refine ⟨t.imageFront ++ pre, post ++ (List.replicate (alignUp 4 t.dataSize - t.dataSize) 0 ++
      (hashTableBytes t.dirHash.1 ++ (t.dirTable ++ (hashTableBytes t.fileHash.1 ++ t.fileTable)))),
      ?_, ?_⟩
    · simp [romfs, image, imageData, hregion]
    · rw [List.length_append, imageFront_length, dataOffset, ← hpre, Nat.zero_add]
      rfl

end Reader

end Tree
end NxObject.Romfs
