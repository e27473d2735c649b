import NxObject.RomFsImage

/-!
# Opening files

In the image of a tree the reader walks the tree: a lookup in a directory finds exactly its members, so
a path opens the file whose components it has.
-/
namespace NxObject.Romfs
open Outcome Placement

namespace Tree
variable (t : Tree)

def dirHandle (c : List Text) : RomFsDir := ⟨t.dirRecord c, lastName c⟩

def fileHandle (p : List Text) : RomFsFile := ⟨t.fileRecord p, lastName p⟩

variable {t} {romfs : RomFs} (h : t.Fits) (hs : t.Stores romfs)

lemma dirTable_at (h : t.Fits) {c : List Text} (hc : c ∈ t.dirs) :
    ∃ pre post, t.dirTable = pre ++ (RomFsDirEntry.codec.enc (t.dirRecord c) ++
      (utf8 (lastName c) ++ post)) ∧ pre.length = t.dirOffset c := by
  obtain ⟨pre, post, hsplit, hpre⟩ := flatMap_at (fun c _ => dirChunk_length (t := t) c) hc
  refine ⟨pre, List.replicate (alignUp 4 (utf8 (lastName c)).length - (utf8 (lastName c)).length) 0 ++
    post, ?_, hpre⟩
  rw [dirTable_eq h, hsplit, dirChunk, entryChunk]
  simp only [List.append_assoc]

lemma fileTable_at (h : t.Fits) {p : List Text} (hp : p ∈ t.paths) :
    ∃ pre post, t.fileTable = pre ++ (RomFsFileEntry.codec.enc (t.fileRecord p) ++
      (utf8 (lastName p) ++ post)) ∧ pre.length = t.fileOffset p := by
  obtain ⟨pre, post, hsplit, hpre⟩ := flatMap_at (fun p _ => fileChunk_length (t := t) p) hp
  refine ⟨pre, List.replicate (alignUp 4 (utf8 (lastName p)).length - (utf8 (lastName p)).length) 0 ++
    post, ?_, hpre⟩
  rw [fileTable_eq h, hsplit, fileChunk, entryChunk]
  simp only [List.append_assoc]

section Reads
include h hs

theorem readDir_at {c : List Text} (hc : c ∈ t.dirs) :
    romfs.readDir (t.dirPos c) = ok (t.dirHandle c) := by
  obtain ⟨pre, post, htable, hpre⟩ := dirTable_at h hc
  obtain ⟨table, hread, hbase⟩ := dirMetaTable_ok (ε := OpenError) hs.bounded
  have hsame : table = t.dirTable := by
    rw [hs.dirTable] at hread
    exact (ok.inj hread).symm
  rw [RomFs.readDir, RomFs.dirFromOffset, hs.dirTable, ok_bind,
    readEntry_at htable ((dirPos_toNat h hc).trans hpre.symm) (dirRecord_nameLen h hc) (by decide)
      (by rw [← hsame]; omega)]
  rfl

theorem rootDir_at : romfs.rootDir = ok (t.dirHandle []) := by
  obtain ⟨pre, post, htable, hpre⟩ := dirTable_at h nil_mem
  obtain ⟨table, hread, hbase⟩ := dirMetaTable_ok (ε := OpenError) hs.bounded
  have hsame : table = t.dirTable := by
    rw [hs.dirTable] at hread
    exact (ok.inj hread).symm
  have hoffset : (0 : UInt32).toNat = pre.length := by
    rw [hpre]
    simp [dirOffset, offsetOf, idxOf_nil]
  rw [RomFs.rootDir, RomFs.dirFromOffsetForRoot, hs.dirTable, ok_bind,
    readEntry_at htable hoffset (dirRecord_nameLen h nil_mem)
      (by decide) (by rw [← hsame]; omega)]
  rfl

theorem readFile_at {p : List Text} (hp : p ∈ t.paths) :
    romfs.readFile (t.filePos p) = ok (t.fileHandle p) := by
  obtain ⟨pre, post, htable, hpre⟩ := fileTable_at h hp
  obtain ⟨table, hread, hbase⟩ := fileMetaTable_ok (ε := OpenError) hs.bounded
  have hsame : table = t.fileTable := by
    rw [hs.fileTable] at hread
    exact (ok.inj hread).symm
  rw [RomFs.readFile, RomFs.fileFromOffset, hs.fileTable, ok_bind,
    readEntry_at htable ((filePos_toNat h hp).trans hpre.symm) (fileRecord_nameLen h hp) (by decide)
      (by rw [← hsame]; omega)]
  rfl

/-! ## Lookups in a directory -/

theorem children_located (c : List Text) :
    Chain.Located romfs.readDir (·.entry.siblingOffset) NO_ENTRY (t.dirHandle c).entry.childOffset
      ((t.children c).map fun d => (t.dirPos d, t.dirHandle d)) := by
  have hmem : ∀ d ∈ t.children c, d ∈ t.dirs := fun d hd => (mem_children.mp hd).1
  rw [dirHandle, dirRecord_childOffset]
  exact Chain.located_of_links t.dirPos t.dirHandle (fun d hd => readDir_at h hs (hmem d hd))
    (fun d hd => dirPos_ne_stop h (hmem d hd)) fun _ _ _ hsplit => dirRecord_next h hsplit

theorem children_spelled (c : List Text) :
    Chain.Spells romfs.readDir (·.entry.siblingOffset) NO_ENTRY (t.dirHandle c).entry.childOffset
      ((t.children c).map t.dirHandle) := by
  have hspells := (children_located h hs c).spells
  rwa [List.map_map] at hspells

theorem files_located (c : List Text) :
    Chain.Located romfs.readFile (·.entry.siblingOffset) NO_ENTRY (t.dirHandle c).entry.fileOffset
      ((t.filesIn c).map fun p => (t.filePos p, t.fileHandle p)) := by
  have hmem : ∀ p ∈ t.filesIn c, p ∈ t.paths := fun p hp => (mem_filesIn.mp hp).1
  rw [dirHandle, dirRecord_fileOffset]
  exact Chain.located_of_links t.filePos t.fileHandle (fun p hp => readFile_at h hs (hmem p hp))
    (fun p hp => filePos_ne_stop h (hmem p hp)) fun _ _ _ hsplit => fileRecord_next h hsplit

theorem files_spelled (c : List Text) :
    Chain.Spells romfs.readFile (·.entry.siblingOffset) NO_ENTRY (t.dirHandle c).entry.fileOffset
      ((t.filesIn c).map t.fileHandle) := by
  have hspells := (files_located h hs c).spells
  rwa [List.map_map] at hspells

theorem findDir_at {fuel : ℕ} (hfuel : t.dirs.length < fuel) (c : List Text) (x : Text) :
    romfs.findDir fuel (t.dirHandle c) x =
      if c ++ [x] ∈ t.dirs then ok (t.dirHandle (c ++ [x])) else err .dirNotFound := by
  have hlen : ((t.children c).map t.dirHandle).length < fuel := by
    rw [List.length_map]
    exact (List.length_filter_le _ _).trans_lt hfuel
  rw [RomFs.findDir, Chain.search_of_spells (children_spelled h hs c) hlen, ok_bind,
    find?_map_idxOf RomFsDir.name t.dirHandle (fun d => eq_concat_of_mem_children) fun d _ => rfl]
  simp only [concat_mem_children]
  split_ifs <;> rfl

theorem findFile_at {fuel : ℕ} (hfuel : t.paths.length < fuel) (c : List Text) (x : Text) :
    romfs.findFile fuel (t.dirHandle c) x =
      if c ++ [x] ∈ t.paths then ok (t.fileHandle (c ++ [x])) else err .fileNotFound := by
  have hlen : ((t.filesIn c).map t.fileHandle).length < fuel := by
    rw [List.length_map]
    exact (List.length_filter_le _ _).trans_lt hfuel
  rw [RomFs.findFile, Chain.search_of_spells (files_spelled h hs c) hlen, ok_bind,
    find?_map_idxOf RomFsFile.name t.fileHandle (fun p => eq_concat_of_mem_filesIn) fun p _ => rfl]
  simp only [concat_mem_filesIn]
  split_ifs <;> rfl

end Reads

/-! ## Paths -/

lemma mem_of_append_mem {c d : List Text} (hmem : c ++ d ∈ t.dirs) : c ∈ t.dirs := by
  induction d using List.reverseRecOn with
  | nil => rwa [List.append_nil] at hmem
  | append_singleton d x ih =>
    refine ih ?_
    have hparent := t.parent_mem _ hmem
    rwa [← List.append_assoc, List.dropLast_concat] at hparent

section Walk
variable {fuel : ℕ}
include h hs

/-- The loop over the components enters all but the last. -/
theorem foldlM_openStep (hfuel : t.dirs.length < fuel) {c : List Text} (hc : c ∈ t.dirs) (x : Text)
    (xs : List Text) :
    xs.foldlM (romfs.openStep fuel) (t.dirHandle c, some x) =
      if c ++ (x :: xs).dropLast ∈ t.dirs then
        ok (t.dirHandle (c ++ (x :: xs).dropLast), (x :: xs).getLast?)
      else err .dirNotFound := by
  induction xs generalizing c x with
  | nil => simp [hc]
  | cons y xs ih =>
    have hsplit : c ++ (x :: y :: xs).dropLast = c ++ [x] ++ (y :: xs).dropLast := by simp
    rw [List.foldlM_cons]
    change (romfs.findDir fuel (t.dirHandle c) x >>= _) >>= _ = _
    rw [findDir_at h hs hfuel, hsplit]
    by_cases hx : c ++ [x] ∈ t.dirs
    · rw [if_pos hx, ok_bind]
      change xs.foldlM (romfs.openStep fuel) (t.dirHandle (c ++ [x]), some y) = _
      rw [ih hx, List.getLast?_cons_cons]
    · rw [if_neg hx, if_neg fun hmem => hx (mem_of_append_mem hmem)]
      rfl

end Walk

end Tree

/-- The components of a path that is opened: leading slashes are dropped, empty components in the middle
are not. -/
def queryComponents (path : Text) : List Text :=
  let path := path.dropWhile (· == '/')
  if path = [] then [] else path.splitOn '/'

namespace Tree
variable {t : Tree} {romfs : RomFs} (h : t.Fits) (hs : t.Stores romfs)
include hs

include h in
/-- Opening a path, as a walk on the tree. -/
theorem openPath_at {fuel : ℕ} (hfuel : t.dirs.length + t.paths.length < fuel) (path : Text) :
    romfs.openPath fuel path =
      if queryComponents path = [] then err .pathNotFound
      else if (queryComponents path).dropLast ∉ t.dirs then err .dirNotFound
      else if queryComponents path ∉ t.paths then err .fileNotFound
      else ok (t.fileHandle (queryComponents path)) := by
  rw [RomFs.openPath, queryComponents]
  by_cases hnil : path.dropWhile (· == '/') = []
  · simp [hnil]
  · simp only [if_neg hnil]
    cases hsplit : (path.dropWhile (· == '/')).splitOn '/' with
    | nil => exact absurd hsplit (List.splitOn_ne_nil _ _)
    | cons x xs =>
      rw [rootDir_at h hs, mapErr_ok, ok_bind, List.foldlM_cons]
      change (xs.foldlM (romfs.openStep fuel) (t.dirHandle [], some x) >>= _) = _
      rw [foldlM_openStep h hs (by omega) nil_mem, List.nil_append, if_neg (List.cons_ne_nil x xs)]
      by_cases hdir : (x :: xs).dropLast ∈ t.dirs
      · rw [if_pos hdir, ok_bind, if_neg (not_not.mpr hdir),
          List.getLast?_eq_some_getLast (List.cons_ne_nil x xs)]
        simp only
        rw [findFile_at h hs (by omega), List.dropLast_append_getLast]
        split_ifs <;> rfl
      · rw [if_neg hdir, if_pos hdir]
        rfl

theorem data_at {p : List Text} (hp : p ∈ t.paths) :
    (t.fileHandle p).data romfs = ok (t.data p) := by
  obtain ⟨pre, post, hbytes, hpre⟩ := hs.data p hp
  have haddr := hs.bounded.addressable
  have hlen : romfs.bytes.length = pre.length + ((t.data p).length + post.length) := by
    simp [hbytes]
  have hoffset : (t.fileRecord p).dataOffset.toNat = t.dataOffset p :=
    UInt64.toNat_ofNat_of_lt' (show t.dataOffset p < 2 ^ 64 by omega)
  have hdata : (t.fileRecord p).dataSize.toNat = (t.data p).length :=
    UInt64.toNat_ofNat_of_lt' (show (t.data p).length < 2 ^ 64 by omega)
  have hslice : (slice romfs.bytes (romfs.header.fileDataOffset.toNat + t.dataOffset p)
      (romfs.header.fileDataOffset.toNat + t.dataOffset p + (t.data p).length) :
        Outcome FromBytesError Bytes) = ok (t.data p) :=
    slice_append hbytes hpre (by rw [hpre])
  simp only [RomFsFile.data, fileHandle, hoffset, hdata]
  rw [checkedAdd_of_lt (by omega), okOr_some, ok_bind, checkedAdd_of_lt (by omega), okOr_some, ok_bind,
    if_neg (by omega), RomFs.fileData, add_of_lt (by omega), ok_bind, add_of_lt (by omega), ok_bind,
    hslice]

end Tree

/-! ## Builders -/

namespace RomFsBuilder
variable (b : RomFsBuilder)

/-- The bytes the directory table takes, in unbounded integers. -/
def dirTableSize : ℕ := (b.dirs.map fun dir => 0x18 + alignUp 4 (utf8 dir.name).length).sum

/-- The bytes the file table takes, in unbounded integers. -/
def fileTableSize : ℕ := (b.files.map fun file => 0x20 + alignUp 4 (utf8 file.name).length).sum

def imageSize : ℕ :=
  let (laidOut, dirHashTable, fileHashTable) := b.layOut
  0x200 + alignUp 4 (dataEnd 0 (laidOut.files.map (·.data))) + dirHashTable.length * 4 +
    laidOut.buildDirTable.length + fileHashTable.length * 4 + laidOut.buildFileTable.length

/-- The metadata tables stay below `2^32 - 1` bytes, and the image below the size of any vector. -/
structure Fits : Prop where
  dirTable : b.dirTableSize < 2 ^ 32 - 1
  fileTable : b.fileTableSize < 2 ^ 32 - 1
  image : b.imageSize < 2 ^ 63

end RomFsBuilder

namespace Tree
variable (t : Tree)

lemma builder_dirTableSize : t.builder.dirTableSize = total dirSize t.sort.dirs := by
  rw [RomFsBuilder.dirTableSize, builder, List.map_map]
  exact (t.sortedDirs_perm.map dirSize).sum_eq.symm

lemma builder_fileTableSize : t.builder.fileTableSize = total fileSize t.sort.paths := by
  have hpaths : total fileSize t.sort.paths = total fileSize t.paths :=
    (t.sort_paths_perm.map fileSize).sum_eq
  rw [hpaths, RomFsBuilder.fileTableSize, builder, total, paths, List.map_map, List.map_map]
  rfl

lemma builder_imageSize : t.builder.imageSize = t.sort.imageSize := by
  rw [RomFsBuilder.imageSize, layOut_builder]
  simp only [laidOut_data]
  rfl

lemma fits_sort (h : t.builder.Fits) : t.sort.Fits ∧ t.sort.imageSize < 2 ^ 63 :=
  ⟨⟨t.builder_dirTableSize ▸ h.dirTable, t.builder_fileTableSize ▸ h.fileTable⟩,
    t.builder_imageSize ▸ h.image⟩

lemma fits_builder (hsort : t.sort.Fits) (hsize : t.sort.imageSize < 2 ^ 63) : t.builder.Fits :=
  ⟨t.builder_dirTableSize.symm ▸ hsort.dirs, t.builder_fileTableSize.symm ▸ hsort.files,
    t.builder_imageSize.symm ▸ hsize⟩

variable {t} {added : List (Text × Bytes)} (hholds : t.Holds added)
include hholds

lemma mem_sort_paths (p : List Text) : p ∈ t.sort.paths ↔ ∃ e ∈ added, pathComponents e.1 = p := by
  rw [t.sort_paths_perm.mem_iff, Tree.paths, hholds.files, List.map_map]
  simp

lemma sort_data {e : Text × Bytes} (he : e ∈ added) : t.sort.data (pathComponents e.1) = e.2 := by
  have hfile : (pathComponents e.1, e.2) ∈ t.sort.files := by
    rw [Tree.sort, t.sortedFiles_perm.mem_iff, hholds.files]
    exact List.mem_map.mpr ⟨e, he, rfl⟩
  exact Tree.data_of_mem hfile

end Tree

lemma RomFsBuilder.exists_build {added : List (Text × Bytes)} {b : RomFsBuilder} (hne : added ≠ [])
    (hadd : RomFsBuilder.addFiles added = ok b) (hfits : b.Fits) : ∃ image, b.build = ok image := by
  obtain ⟨-, t, rfl, hholds⟩ := RomFsBuilder.addFiles_eq_ok hadd
  have hfiles : t.files ≠ [] := by
    rw [hholds.files]
    simpa using hne
  exact ⟨_, Tree.build_builder hfiles (t.fits_sort hfits).2⟩

def IsImpliedDir (added : List (Text × Bytes)) (d : List Text) : Prop :=
  d = [] ∨ ∃ e ∈ added, d <+: (pathComponents e.1).dropLast

/-- A path opens as the finite map from the components of the added files to their contents says. -/
structure OpensAsAdded (added : List (Text × Bytes)) (romfs : RomFs) (fuel : ℕ) (path : Text) : Prop where
  found : ∀ e ∈ added, pathComponents e.1 = queryComponents path →
    ∃ file, romfs.openPath fuel path = ok file ∧ file.data romfs = ok e.2
  added_of_ok : ∀ file, romfs.openPath fuel path = ok file →
    ∃ e ∈ added, pathComponents e.1 = queryComponents path
  pathNotFound : queryComponents path = [] → romfs.openPath fuel path = err .pathNotFound
  dirNotFound : queryComponents path ≠ [] →
    (∃ d, d <+: (queryComponents path).dropLast ∧ ¬IsImpliedDir added d) →
    romfs.openPath fuel path = err .dirNotFound
  fileNotFound : queryComponents path ≠ [] →
    (∀ d, d <+: (queryComponents path).dropLast → IsImpliedDir added d) →
    (∀ e ∈ added, pathComponents e.1 ≠ queryComponents path) →
    romfs.openPath fuel path = err .fileNotFound

/-- Building and opening is an exact finite map. -/
theorem open_build {added : List (Text × Bytes)} {b : RomFsBuilder} (hne : added ≠ [])
    (hadd : RomFsBuilder.addFiles added = ok b) (hfits : b.Fits) :
    ∃ image romfs, b.build = ok image ∧ RomFs.tryFromBytes image = ok romfs ∧
      ∀ path, ∃ turns, ∀ fuel ≥ turns, OpensAsAdded added romfs fuel path := by
  obtain ⟨hacc, t, rfl, hholds⟩ := RomFsBuilder.addFiles_eq_ok hadd
  obtain ⟨hsort, hsize⟩ := t.fits_sort hfits
  have hfiles : t.files ≠ [] := by
    rw [hholds.files]
    simpa using hne
  refine ⟨t.sort.image, t.sort.romfs, Tree.build_builder hfiles hsize,
    Tree.tryFromBytes_image hsize, fun path => ⟨t.sort.dirs.length + t.sort.paths.length + 1,
      fun fuel hfuel => ?_⟩⟩
  have hs := Tree.stores_romfs hsize
  have hlt : t.sort.dirs.length + t.sort.paths.length < fuel := by omega
  have hopen := Tree.openPath_at hsort hs hlt path
  have hdirs : ∀ d, d ∈ t.sort.dirs ↔ IsImpliedDir added d := fun d =>
    t.sortedDirs_perm.mem_iff.trans (hholds.dirs d)
  have hpaths := Tree.mem_sort_paths hholds
  constructor
  case found =>
    intro e he heq
    have hmem : queryComponents path ∈ t.sort.paths := (hpaths _).mpr ⟨e, he, heq⟩
    have hdata : t.sort.data (queryComponents path) = e.2 := heq ▸ Tree.sort_data hholds he
    rw [if_neg (t.sort.file_ne_root _ hmem), if_neg (not_not.mpr (t.sort.folder_mem _ hmem)),
      if_neg (not_not.mpr hmem)] at hopen
    exact ⟨_, hopen, by rw [Tree.data_at hs hmem, hdata]⟩
  case added_of_ok =>
    intro file hok
    rw [hopen] at hok
    split_ifs at hok with _ _ hmem
    exact (hpaths _).mp hmem
  case pathNotFound =>
    intro hnil
    rw [hopen, if_pos hnil]
  case dirNotFound =>
    rintro hne ⟨d, ⟨rest, hd⟩, hnot⟩
    have hdir : (queryComponents path).dropLast ∉ t.sort.dirs := by
      intro hmem
      rw [← hd] at hmem
      exact hnot ((hdirs d).mp (Tree.mem_of_append_mem hmem))
    rw [hopen, if_neg hne, if_pos hdir]
  case fileNotFound =>
    intro hne hdir hnot
    have hmem := (hdirs _).mpr (hdir _ List.prefix_rfl)
    have hnone : queryComponents path ∉ t.sort.paths := fun hp => by
      obtain ⟨e, he, heq⟩ := (hpaths _).mp hp
      exact hnot e he heq
    rw [hopen, if_neg hne, if_neg (not_not.mpr hmem), if_pos hnone]

/-- Files of several directories, one of them empty, and not in the order of their paths. -/
def nestedFiles : List (Text × Bytes) :=
  [(['/', 'e', '/', 'z'], [7]), (['/', 'b', '/', 'y'], [1, 2, 3]), (['/', 'a'], []),
    (['/', 'b', '/', 'c', '/', 'z'], [4]), (['/', 'b', '/', 'x'], [5, 6])]

def nestedTree : Tree where
  dirs := [[], [['e']], [['b']], [['b'], ['c']]]
  files := [([['e'], ['z']], [7]), ([['b'], ['y']], [1, 2, 3]), ([['a']], []), ([['b'], ['c'], ['z']], [4]),
    ([['b'], ['x']], [5, 6])]
  root := rfl
  dirs_nodup := by decide
  files_nodup := by decide
  parent_mem := by decide
  file_ne_root := by decide
  folder_mem := by decide
  dir_components := by simp [IsComponent]
  file_components := by simp [IsComponent]

def nestedSorted : Tree where
  dirs := [[], [['b']], [['b'], ['c']], [['e']]]
  files := [([['a']], []), ([['b'], ['c'], ['z']], [4]), ([['b'], ['x']], [5, 6]), ([['b'], ['y']], [1, 2, 3]),
    ([['e'], ['z']], [7])]
  root := rfl
  dirs_nodup := by decide
  files_nodup := by decide
  parent_mem := by decide
  file_ne_root := by decide
  folder_mem := by decide
  dir_components := by simp [IsComponent]
  file_components := by simp [IsComponent]

lemma nestedFiles_added : RomFsBuilder.addFiles nestedFiles = ok nestedTree.builder := rfl

lemma nestedTree_sort : nestedTree.sort = nestedSorted := by
  have hdirs : nestedTree.dirs.Perm nestedSorted.dirs := by decide
  have hfiles : nestedTree.files.Perm nestedSorted.files := by decide
  rw [Tree.sort_congr hdirs hfiles]
  exact Tree.ext (List.mergeSort_of_pairwise (by decide)) (List.mergeSort_of_pairwise (by decide))

lemma nestedTree_fits : nestedTree.builder.Fits := by
  refine Tree.fits_builder _ ?_ ?_ <;> rw [nestedTree_sort]
  · exact ⟨by decide +kernel, by decide +kernel⟩
  · decide +kernel

theorem open_build_nested : ∃ image romfs, nestedTree.builder.build = ok image ∧
    RomFs.tryFromBytes image = ok romfs ∧ ∀ path, ∃ turns, ∀ fuel ≥ turns, OpensAsAdded nestedFiles romfs fuel path :=
  open_build (by decide) nestedFiles_added nestedTree_fits

end NxObject.Romfs
