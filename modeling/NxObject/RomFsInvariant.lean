import NxObject.RomFsOrder

/-!
# The builder's invariant

The two vectors of a builder refer to each other by index. Every directory but the root, and every
file, stands exactly once among the members of its parent, and following parents leads to the root.
Sorting by path renumbers the entries and keeps all of that.
-/
namespace NxObject.Romfs
open Outcome

namespace RomFsBuilder

/-- What holds of the two vectors while files are added, and after sorting by path. -/
structure Linked (b : RomFsBuilder) : Prop where
  dirPaths_nodup : (b.dirs.map DirEntry.path).Nodup
  filePaths_nodup : (b.files.map FileEntry.path).Nodup
  root_lt : 0 < b.dirs.length
  root_path : (b.dir 0).path = []
  root_parent : (b.dir 0).parent = 0
  dir_path_ne : ∀ i < b.dirs.length, i ≠ 0 → (b.dir i).path ≠ []
  file_path_ne : ∀ i < b.files.length, (b.file i).path ≠ []
  parent_lt : ∀ i < b.dirs.length, (b.dir i).parent < b.dirs.length
  folder_lt : ∀ i < b.files.length, (b.file i).parent < b.dirs.length
  children_lt : ∀ j < b.dirs.length, ∀ i ∈ (b.dir j).children, i ≠ 0 ∧ i < b.dirs.length
  files_lt : ∀ j < b.dirs.length, ∀ i ∈ (b.dir j).files, i < b.files.length
  children_count : ∀ i < b.dirs.length, i ≠ 0 → ∀ j < b.dirs.length,
    (b.dir j).children.count i = if (b.dir i).parent = j then 1 else 0
  files_count : ∀ i < b.files.length, ∀ j < b.dirs.length,
    (b.dir j).files.count i = if (b.file i).parent = j then 1 else 0
  dir_path : ∀ i < b.dirs.length, i ≠ 0 →
    (b.dir i).path = (b.dir (b.dir i).parent).path ++ '/' :: (b.dir i).name
  file_path : ∀ i < b.files.length,
    (b.file i).path = (b.dir (b.file i).parent).path ++ '/' :: (b.file i).name
  reaches_root : ∀ i < b.dirs.length, ∃ steps, (fun j => (b.dir j).parent)^[steps] i = 0

/-- `s` holds the entries of `b` under new indices, one permutation of the directories' and one of
the files', which keeps the root in front. -/
structure Renumbered (b s : RomFsBuilder) (newDir newFile : ℕ → ℕ) : Prop where
  dirs_length : s.dirs.length = b.dirs.length
  files_length : s.files.length = b.files.length
  newDir_bijOn : Set.BijOn newDir (Set.Iio b.dirs.length) (Set.Iio b.dirs.length)
  newFile_bijOn : Set.BijOn newFile (Set.Iio b.files.length) (Set.Iio b.files.length)
  newDir_zero : newDir 0 = 0
  dir : ∀ i < b.dirs.length, s.dir (newDir i) = { b.dir i with
    parent := newDir (b.dir i).parent
    children := (b.dir i).children.map newDir
    files := (b.dir i).files.map newFile }
  file : ∀ i < b.files.length,
    s.file (newFile i) = { b.file i with parent := newDir (b.file i).parent }

def Ascending (b : RomFsBuilder) : Prop :=
  (b.dirs.Pairwise fun x y => textLe x.path y.path = true ∧ x.path ≠ y.path) ∧
  b.files.Pairwise fun x y => textLe x.path y.path = true ∧ x.path ≠ y.path

end RomFsBuilder

/-! ## Indices of the members of a list -/

section Indices
variable {α : Type} [BEq α] [LawfulBEq α] {l s : List α}

lemma exists_idxOf_eq (hs : s.Nodup) {i : ℕ} (hi : i < s.length) : ∃ a ∈ s, s.idxOf a = i :=
  ⟨s[i], List.getElem_mem hi, hs.idxOf_getElem i hi⟩

lemma count_map_idxOf [DecidableEq α] (hl : l.Nodup) (hsub : l ⊆ s) (a : α) :
    (l.map s.idxOf).count (s.idxOf a) = if a ∈ l then 1 else 0 := by
  have hinj : ∀ x ∈ l, ∀ y ∈ l, s.idxOf x = s.idxOf y → x = y :=
    fun x hx y _ h => (List.idxOf_inj (hsub hx)).mp h
  have hmem : s.idxOf a ∈ l.map s.idxOf ↔ a ∈ l := by
    constructor
    · intro h
      obtain ⟨x, hx, heq⟩ := List.mem_map.mp h
      rwa [← (List.idxOf_inj (hsub hx)).mp heq]
    · exact List.mem_map_of_mem
  rw [List.Nodup.count (hl.map_on hinj)]
  exact if_congr hmem rfl rfl

end Indices

namespace Tree

/-- Directory entries that hold a tree, the members of a directory in any order. -/
structure Arranged (t : Tree) (entry : List Text → DirEntry) : Prop where
  path : ∀ c, (entry c).path = joinPath c
  name : ∀ c, (entry c).name = lastName c
  parent : ∀ c, (entry c).parent = t.dirs.idxOf c.dropLast
  children : ∀ c, (entry c).children.Perm ((t.children c).map t.dirs.idxOf)
  files : ∀ c, (entry c).files.Perm ((t.filesIn c).map t.paths.idxOf)

def arrangement (t : Tree) (entry : List Text → DirEntry) : RomFsBuilder :=
  { dirs := t.dirs.map entry, files := t.files.map t.fileEntry }

lemma arranged_dirEntry (t : Tree) : t.Arranged t.dirEntry where
  path _ := rfl
  name _ := rfl
  parent _ := rfl
  children _ := List.Perm.refl _
  files _ := List.Perm.refl _

lemma arranged_movedEntry (t : Tree) : t.sort.Arranged t.movedEntry where
  path _ := rfl
  name _ := rfl
  parent _ := rfl
  children c := ((t.sort_children_perm c).map _).symm
  files c := ((t.sort_filesIn_perm c).map _).symm

/-! ## A tree's entries are linked -/

section Arrangement
variable {t : Tree} {entry : List Text → DirEntry}

@[simp] lemma arrangement_dirs_length : (t.arrangement entry).dirs.length = t.dirs.length := by
  simp [arrangement]

@[simp] lemma arrangement_files_length : (t.arrangement entry).files.length = t.paths.length := by
  simp [arrangement, paths]

lemma dir_arrangement {c : List Text} (h : c ∈ t.dirs) :
    (t.arrangement entry).dir (t.dirs.idxOf c) = entry c := by
  simp [RomFsBuilder.dir, arrangement, List.getD_eq_getElem?_getD, List.getElem?_idxOf h]

lemma file_arrangement {file : List Text × Bytes} (h : file ∈ t.files) :
    (t.arrangement entry).file (t.paths.idxOf file.1) = t.fileEntry file :=
  file_builder h

lemma exists_dir {i : ℕ} (hi : i < t.dirs.length) : ∃ c ∈ t.dirs, t.dirs.idxOf c = i :=
  exists_idxOf_eq t.dirs_nodup hi

lemma exists_file {i : ℕ} (hi : i < t.paths.length) :
    ∃ file ∈ t.files, t.paths.idxOf file.1 = i := by
  have hnodup : t.paths.Nodup := t.files_nodup
  obtain ⟨p, hp, rfl⟩ := exists_idxOf_eq hnodup hi
  obtain ⟨file, hfile, rfl⟩ := List.mem_map.mp hp
  exact ⟨file, hfile, rfl⟩

lemma ne_nil_of_idxOf_ne {c : List Text} (h : t.dirs.idxOf c ≠ 0) : c ≠ [] := by
  rintro rfl
  exact h t.idxOf_nil

lemma idxOf_ne_zero {c : List Text} (hc : c ∈ t.dirs) (h : c ≠ []) : t.dirs.idxOf c ≠ 0 := by
  rw [← t.idxOf_nil]
  exact fun heq => h ((List.idxOf_inj hc).mp heq)

lemma joinPath_ne_nil {c : List Text} (h : c ≠ []) : joinPath c ≠ [] := by
  rw [← dropLast_append_lastName h, joinPath_concat]
  simp

lemma joinPath_dropLast {c : List Text} (h : c ≠ []) :
    joinPath c = joinPath c.dropLast ++ '/' :: lastName c := by
  rw [← joinPath_concat, dropLast_append_lastName h]

variable (harr : t.Arranged entry)
include harr

/-- As many steps as a path has components lead to the root. -/
lemma iterate_parent (c : List Text) (hc : c ∈ t.dirs) :
    (fun j => ((t.arrangement entry).dir j).parent)^[c.length] (t.dirs.idxOf c) = 0 := by
  induction c using List.reverseRecOn with
  | nil => exact t.idxOf_nil
  | append_singleton c x ih =>
    have hparent : c ∈ t.dirs := by
      have := t.parent_mem _ hc
      rwa [List.dropLast_concat] at this
    rw [List.length_append, List.length_singleton, Function.iterate_succ_apply, dir_arrangement hc,
      harr.parent, List.dropLast_concat]
    exact ih hparent

lemma Arranged.children_count (c : List Text) {d : List Text} (hd : d ∈ t.dirs) (hne : d ≠ []) :
    (entry c).children.count (t.dirs.idxOf d) =
      if t.dirs.idxOf d.dropLast = t.dirs.idxOf c then 1 else 0 := by
  have hnodup : (t.children c).Nodup := t.dirs_nodup.filter _
  rw [(harr.children c).count_eq,
    count_map_idxOf hnodup (fun d' hd' => (mem_children.mp hd').1) d]
  refine if_congr ?_ rfl rfl
  rw [mem_children, List.idxOf_inj (t.parent_mem d hd)]
  simp [hd, hne]

lemma Arranged.files_count (c : List Text) {p : List Text} (hp : p ∈ t.paths) :
    (entry c).files.count (t.paths.idxOf p) =
      if t.dirs.idxOf p.dropLast = t.dirs.idxOf c then 1 else 0 := by
  have hnodup : (t.filesIn c).Nodup := List.Nodup.filter _ t.files_nodup
  rw [(harr.files c).count_eq, count_map_idxOf hnodup (fun q hq => (mem_filesIn.mp hq).1) p]
  refine if_congr ?_ rfl rfl
  rw [mem_filesIn, List.idxOf_inj (t.folder_mem p hp)]
  simp [hp]

/-- A builder that holds a tree satisfies the invariant. -/
theorem Arranged.linked : (t.arrangement entry).Linked where
  dirPaths_nodup := by
    rw [arrangement, List.map_map]
    refine t.dirs_nodup.map_on fun c hc d hd h => t.joinPath_injOn hc hd ?_
    simpa only [Function.comp_apply, harr.path] using h
  filePaths_nodup := by
    rw [arrangement, List.map_map]
    exact (List.Nodup.of_map _ t.files_nodup).map_on fun f hf g hg h => t.file_injOn hf hg h
  root_lt := by
    rw [arrangement_dirs_length]
    exact List.length_pos_of_mem nil_mem
  root_path := by
    rw [← t.idxOf_nil, dir_arrangement nil_mem, harr.path]
    rfl
  root_parent := by
    nth_rewrite 1 [← t.idxOf_nil]
    rw [dir_arrangement nil_mem, harr.parent]
    exact t.idxOf_nil
  dir_path_ne := by
    intro i hi hne
    obtain ⟨c, hc, rfl⟩ := exists_dir (arrangement_dirs_length ▸ hi)
    rw [dir_arrangement hc, harr.path]
    exact joinPath_ne_nil (ne_nil_of_idxOf_ne hne)
  file_path_ne := by
    intro i hi
    obtain ⟨file, hfile, rfl⟩ := exists_file (arrangement_files_length ▸ hi)
    rw [file_arrangement hfile]
    exact joinPath_ne_nil (t.file_ne_root _ (List.mem_map_of_mem hfile))
  parent_lt := by
    intro i hi
    obtain ⟨c, hc, rfl⟩ := exists_dir (arrangement_dirs_length ▸ hi)
    rw [dir_arrangement hc, harr.parent, arrangement_dirs_length]
    exact List.idxOf_lt_length_of_mem (t.parent_mem c hc)
  folder_lt := by
    intro i hi
    obtain ⟨file, hfile, rfl⟩ := exists_file (arrangement_files_length ▸ hi)
    rw [file_arrangement hfile, arrangement_dirs_length]
    exact List.idxOf_lt_length_of_mem (t.folder_mem _ (List.mem_map_of_mem hfile))
  children_lt := by
    intro j hj i hi
    obtain ⟨c, hc, rfl⟩ := exists_dir (arrangement_dirs_length ▸ hj)
    rw [dir_arrangement hc, (harr.children c).mem_iff] at hi
    obtain ⟨d, hd, rfl⟩ := List.mem_map.mp hi
    obtain ⟨hmem, hne, -⟩ := mem_children.mp hd
    rw [arrangement_dirs_length]
    exact ⟨idxOf_ne_zero hmem hne, List.idxOf_lt_length_of_mem hmem⟩
  files_lt := by
    intro j hj i hi
    obtain ⟨c, hc, rfl⟩ := exists_dir (arrangement_dirs_length ▸ hj)
    rw [dir_arrangement hc, (harr.files c).mem_iff] at hi
    obtain ⟨p, hp, rfl⟩ := List.mem_map.mp hi
    rw [arrangement_files_length]
    exact List.idxOf_lt_length_of_mem (mem_filesIn.mp hp).1
  children_count := by
    intro i hi hne j hj
    obtain ⟨d, hd, rfl⟩ := exists_dir (arrangement_dirs_length ▸ hi)
    obtain ⟨c, hc, rfl⟩ := exists_dir (arrangement_dirs_length ▸ hj)
    rw [dir_arrangement hc, dir_arrangement hd, harr.parent]
    exact harr.children_count c hd (ne_nil_of_idxOf_ne hne)
  files_count := by
    intro i hi j hj
    obtain ⟨file, hfile, rfl⟩ := exists_file (arrangement_files_length ▸ hi)
    obtain ⟨c, hc, rfl⟩ := exists_dir (arrangement_dirs_length ▸ hj)
    rw [dir_arrangement hc, file_arrangement hfile]
    exact harr.files_count c (List.mem_map_of_mem hfile)
  dir_path := by
    intro i hi hne
    obtain ⟨c, hc, rfl⟩ := exists_dir (arrangement_dirs_length ▸ hi)
    rw [dir_arrangement hc, harr.parent, dir_arrangement (t.parent_mem c hc), harr.path, harr.path,
      harr.name]
    exact joinPath_dropLast (ne_nil_of_idxOf_ne hne)
  file_path := by
    intro i hi
    obtain ⟨file, hfile, rfl⟩ := exists_file (arrangement_files_length ▸ hi)
    have hmem : file.1 ∈ t.paths := List.mem_map_of_mem hfile
    rw [file_arrangement hfile, fileEntry, dir_arrangement (t.folder_mem _ hmem), harr.path]
    exact joinPath_dropLast (t.file_ne_root _ hmem)
  reaches_root := by
    intro i hi
    obtain ⟨c, hc, rfl⟩ := exists_dir (arrangement_dirs_length ▸ hi)
    exact ⟨c.length, iterate_parent harr c hc⟩

end Arrangement

/-! ## Sorting renumbers the entries -/

section Sorting
variable (t : Tree)

lemma sortEntriesByPath_eq : t.builder.sortEntriesByPath = t.sort.arrangement t.movedEntry :=
  sortEntriesByPath_builder

lemma sort_dirs_length : t.sort.dirs.length = t.dirs.length := t.sortedDirs_perm.length_eq

lemma sort_paths_length : t.sort.paths.length = t.paths.length := t.sort_paths_perm.length_eq

lemma bijOn_newIndex {l s : List (List Text)} (hl : l.Nodup) (hperm : s.Perm l) {f : ℕ → ℕ}
    (hf : ∀ c ∈ l, f (l.idxOf c) = s.idxOf c) :
    Set.BijOn f (Set.Iio l.length) (Set.Iio l.length) := by
  have hs : s.Nodup := hperm.nodup_iff.mpr hl
  refine ⟨fun i hi => ?_, fun i hi j hj h => ?_, fun i hi => ?_⟩
  · obtain ⟨c, hc, rfl⟩ := exists_idxOf_eq hl hi
    rw [hf c hc, ← hperm.length_eq]
    exact List.idxOf_lt_length_of_mem (hperm.mem_iff.mpr hc)
  · obtain ⟨c, hc, rfl⟩ := exists_idxOf_eq hl hi
    obtain ⟨d, hd, rfl⟩ := exists_idxOf_eq hl hj
    rw [hf c hc, hf d hd] at h
    rw [(List.idxOf_inj (hperm.mem_iff.mpr hc)).mp h]
  · obtain ⟨c, hc, rfl⟩ := exists_idxOf_eq hs (hperm.length_eq.symm ▸ hi)
    have hc' := hperm.mem_iff.mp hc
    exact ⟨l.idxOf c, List.idxOf_lt_length_of_mem hc', hf c hc'⟩

lemma builder_dirs_length : t.builder.dirs.length = t.dirs.length := by simp [builder]

lemma builder_files_length : t.builder.files.length = t.paths.length := by simp [builder, paths]

lemma renumbered_sortEntriesByPath :
    t.builder.Renumbered t.builder.sortEntriesByPath ((newIndex t.builder.dirOrder).getD · 0)
      ((newIndex t.builder.fileOrder).getD · 0) where
  dirs_length := by
    rw [sortEntriesByPath_eq, arrangement_dirs_length, builder_dirs_length, sort_dirs_length]
  files_length := by
    rw [sortEntriesByPath_eq, arrangement_files_length, builder_files_length, sort_paths_length]
  newDir_bijOn := by
    rw [builder_dirs_length]
    exact bijOn_newIndex t.dirs_nodup t.sortedDirs_perm fun c hc => newDirIndex_idxOf hc
  newFile_bijOn := by
    have hpaths : t.paths.Nodup := t.files_nodup
    rw [builder_files_length]
    exact bijOn_newIndex hpaths t.sort_paths_perm fun p hp => newFileIndex_idxOf hp
  newDir_zero := by
    have hroot := newDirIndex_idxOf t.nil_mem
    rwa [idxOf_nil, idxOf_nil] at hroot
  dir := by
    intro i hi
    obtain ⟨c, hc, rfl⟩ := exists_dir (t.builder_dirs_length ▸ hi)
    rw [sortEntriesByPath_eq, newDirIndex_idxOf hc,
      dir_arrangement (t.sortedDirs_perm.mem_iff.mpr hc), dir_builder hc]
    simp only [dirEntry, movedEntry, List.map_map, newDirIndex_idxOf (t.parent_mem c hc)]
    congr 1
    · exact List.map_congr_left fun d hd => (newDirIndex_idxOf (mem_children.mp hd).1).symm
    · exact List.map_congr_left fun p hp => (newFileIndex_idxOf (mem_filesIn.mp hp).1).symm
  file := by
    intro i hi
    obtain ⟨file, hfile, rfl⟩ := exists_file (t.builder_files_length ▸ hi)
    have hmem : file.1 ∈ t.paths := List.mem_map_of_mem hfile
    rw [sortEntriesByPath_eq, newFileIndex_idxOf hmem,
      file_arrangement (t.sortedFiles_perm.mem_iff.mpr hfile), file_builder hfile]
    simp only [fileEntry, newDirIndex_idxOf (t.folder_mem _ hmem)]

lemma ascending_sortEntriesByPath : t.builder.sortEntriesByPath.Ascending := by
  have hlinked := (arranged_movedEntry t).linked
  rw [sortEntriesByPath_eq]
  constructor
  · refine List.Pairwise.and ?_ (List.pairwise_map.mp hlinked.dirPaths_nodup)
    exact List.pairwise_map.mpr (pairwise_mergeSort_textLe joinPath t.dirs)
  · refine List.Pairwise.and ?_ (List.pairwise_map.mp hlinked.filePaths_nodup)
    exact List.pairwise_map.mpr (pairwise_mergeSort_textLe
      (fun f : List Text × Bytes => joinPath f.1) t.files)

end Sorting
end Tree

/-- After any sequence of successful calls of `add_file` the two vectors satisfy the invariant, and
sorting by path keeps it: the entries are renumbered by one permutation of the directories and one
of the files, and both vectors ascend strictly. -/
theorem RomFsBuilder.addFiles_linked (added : List (Text × Bytes)) (b : RomFsBuilder)
    (h : addFiles added = ok b) :
    b.Linked ∧ b.sortEntriesByPath.Linked ∧
      (∃ newDir newFile, b.Renumbered b.sortEntriesByPath newDir newFile) ∧
      b.sortEntriesByPath.Ascending := by
  obtain ⟨-, t, rfl, -⟩ := addFiles_eq_ok h
  refine ⟨t.arranged_dirEntry.linked, ?_, ⟨_, _, t.renumbered_sortEntriesByPath⟩,
    t.ascending_sortEntriesByPath⟩
  rw [Tree.sortEntriesByPath_eq]
  exact t.arranged_movedEntry.linked

theorem RomFsBuilder.addFiles_linked_swap :
    ∃ b, addFiles [(['/', 'b', '/', 'x'], [1]), (['/', 'a', '/', 'y'], [2]), (['/', 'b'], [3])] = ok b ∧
      (b.Linked ∧ b.sortEntriesByPath.Linked ∧
        (∃ newDir newFile, b.Renumbered b.sortEntriesByPath newDir newFile) ∧
        b.sortEntriesByPath.Ascending) :=
  ⟨_, rfl, addFiles_linked [(['/', 'b', '/', 'x'], [1]), (['/', 'a', '/', 'y'], [2]), (['/', 'b'], [3])]
    _ rfl⟩

end NxObject.Romfs
