import NxObject.RomFsTree

/-!
# Sorting a builder

Sorting the state of a tree gives the state of the sorted tree, in which siblings stand in the order of
their names. Trees with the same directories and files are sorted into one tree, so the order in which
files are added does not reach the image.
-/
namespace NxObject.Romfs
open Outcome

/-! ## Where the indices go -/

lemma foldl_set_zipIdx {order : List ℕ} (hnodup : order.Nodup) (k : ℕ) (index : List ℕ) (i : ℕ) :
    ((order.zipIdx k).foldl (fun index entry => index.set entry.1 entry.2) index)[i]? =
      if i ∈ order ∧ i < index.length then some (k + order.idxOf i) else index[i]? := by
  induction order generalizing k index with
  | nil => simp
  | cons j order ih =>
    obtain ⟨hj, hnodup⟩ := List.nodup_cons.mp hnodup
    rw [List.zipIdx_cons, List.foldl_cons, ih hnodup, List.length_set]
    by_cases hij : j = i
    · subst hij
      by_cases hlt : j < index.length <;> simp [hj, hlt]
    · have hne : i ≠ j := fun h => hij h.symm
      simp only [List.mem_cons, hne, false_or, List.getElem?_set_ne hij,
        List.idxOf_cons_ne _ hij, Nat.succ_eq_add_one]
      split_ifs
      · congr 1
        omega
      · rfl

lemma newIndex_idxOf {α : Type} [BEq α] [LawfulBEq α] {l : List α} (hl : l.Nodup)
    {order : List ℕ} (horder : order.Perm (List.range l.length)) {d : α} {a : α} (ha : a ∈ l) :
    (newIndex order).getD (l.idxOf a) 0 = (order.map fun i => l.getD i d).idxOf a := by
  have hlt := List.idxOf_lt_length_of_mem ha
  have hmem : l.idxOf a ∈ order := horder.mem_iff.mpr (List.mem_range.mpr hlt)
  have hlen : order.length = l.length := by simpa using horder.length_eq
  have hnodup : order.Nodup := horder.nodup_iff.mpr List.nodup_range
  have hnew : (newIndex order).getD (l.idxOf a) 0 = order.idxOf (l.idxOf a) := by
    rw [newIndex, List.getD_eq_getElem?_getD, foldl_set_zipIdx hnodup,
      if_pos ⟨hmem, by simpa [hlen] using hlt⟩, Option.getD_some, Nat.zero_add]
  have hmap : (order.map fun i => l.getD i d).Nodup := by
    refine hnodup.map_on fun i hi j hj hij => ?_
    have hi' := List.mem_range.mp (horder.mem_iff.mp hi)
    have hj' := List.mem_range.mp (horder.mem_iff.mp hj)
    rw [List.getD_eq_getElem l d hi', List.getD_eq_getElem l d hj'] at hij
    exact (List.Nodup.getElem_inj_iff hl).mp hij
  have hpos : order.idxOf (l.idxOf a) < (order.map fun i => l.getD i d).length := by
    simpa using List.idxOf_lt_length_of_mem hmem
  have hget : (order.map fun i => l.getD i d)[order.idxOf (l.idxOf a)] = a := by
    rw [List.getElem_map, List.getElem_idxOf, List.getD_eq_getElem l d hlt, List.getElem_idxOf]
  rw [hnew, ← hmap.idxOf_getElem _ hpos, hget]

/-! ## The sorted tree -/

namespace Tree
variable (t : Tree)

lemma joinPath_injOn {c d : List Text} (hc : c ∈ t.dirs) (hd : d ∈ t.dirs)
    (h : joinPath c = joinPath d) : c = d :=
  joinPath_injective (t.dir_components c hc) (t.dir_components d hd) h

lemma file_injOn {f g : List Text × Bytes} (hf : f ∈ t.files) (hg : g ∈ t.files)
    (h : joinPath f.1 = joinPath g.1) : f = g := by
  refine List.inj_on_of_nodup_map t.files_nodup hf hg ?_
  exact joinPath_injective (t.file_components f.1 (List.mem_map_of_mem hf))
    (t.file_components g.1 (List.mem_map_of_mem hg)) h

def sortedDirs : List (List Text) := t.dirs.mergeSort fun c d => textLe (joinPath c) (joinPath d)

def sortedFiles : List (List Text × Bytes) :=
  t.files.mergeSort fun f g => textLe (joinPath f.1) (joinPath g.1)

lemma sortedDirs_perm : t.sortedDirs.Perm t.dirs := List.mergeSort_perm _ _

lemma sortedFiles_perm : t.sortedFiles.Perm t.files := List.mergeSort_perm _ _

lemma sortedDirs_head : t.sortedDirs.head? = some [] := by
  have hmem : [] ∈ t.sortedDirs := t.sortedDirs_perm.mem_iff.mpr nil_mem
  have hsorted := pairwise_mergeSort_textLe joinPath t.dirs
  change t.sortedDirs.Pairwise _ at hsorted
  have hsub := t.sortedDirs_perm.subset
  cases hs : t.sortedDirs with
  | nil => simp [hs] at hmem
  | cons c tail =>
    rw [hs] at hmem hsorted hsub
    rcases List.mem_cons.mp hmem with rfl | htail
    · rfl
    · have hle := List.rel_of_pairwise_cons hsorted htail
      rw [t.joinPath_injOn (hsub List.mem_cons_self) nil_mem (eq_nil_of_textLe_nil hle)]
      rfl

def sort : Tree where
  dirs := t.sortedDirs
  files := t.sortedFiles
  root := t.sortedDirs_head
  dirs_nodup := t.sortedDirs_perm.nodup_iff.mpr t.dirs_nodup
  files_nodup := (t.sortedFiles_perm.map _).nodup_iff.mpr t.files_nodup
  parent_mem c hc :=
    t.sortedDirs_perm.mem_iff.mpr (t.parent_mem c (t.sortedDirs_perm.mem_iff.mp hc))
  file_ne_root p hp := t.file_ne_root p ((t.sortedFiles_perm.map _).mem_iff.mp hp)
  folder_mem p hp := t.sortedDirs_perm.mem_iff.mpr
    (t.folder_mem p ((t.sortedFiles_perm.map _).mem_iff.mp hp))
  dir_components c hc := t.dir_components c (t.sortedDirs_perm.mem_iff.mp hc)
  file_components p hp := t.file_components p ((t.sortedFiles_perm.map _).mem_iff.mp hp)

lemma sort_paths_perm : t.sort.paths.Perm t.paths := t.sortedFiles_perm.map _

lemma sort_children_perm (c : List Text) : (t.sort.children c).Perm (t.children c) :=
  t.sortedDirs_perm.filter _

lemma sort_filesIn_perm (c : List Text) : (t.sort.filesIn c).Perm (t.filesIn c) :=
  t.sort_paths_perm.filter _

variable {t}

lemma textLe_lastName {c d e : List Text} (hd : d = c ++ [lastName d]) (he : e = c ++ [lastName e])
    (h : textLe (joinPath d) (joinPath e) = true) : textLe (lastName d) (lastName e) = true := by
  rw [hd, he, joinPath_concat, joinPath_concat, textLe_append_left] at h
  exact (textLe_append_left ['/'] _ _).symm.trans h

lemma sort_children_pairwise (c : List Text) :
    (t.sort.children c).Pairwise fun d e => textLe (lastName d) (lastName e) = true := by
  have hsorted := (pairwise_mergeSort_textLe joinPath t.dirs).filter fun d => d ≠ [] ∧ d.dropLast = c
  refine hsorted.imp_of_mem fun {d e} hd he h => ?_
  exact textLe_lastName (eq_concat_of_mem_children (t := t.sort) hd)
    (eq_concat_of_mem_children (t := t.sort) he) h

lemma sort_filesIn_pairwise (c : List Text) :
    (t.sort.filesIn c).Pairwise fun p q => textLe (lastName p) (lastName q) = true := by
  have hpaths : t.sort.paths.Pairwise fun p q => textLe (joinPath p) (joinPath q) = true :=
    List.pairwise_map.mpr (pairwise_mergeSort_textLe (fun f => joinPath f.1) t.files)
  refine (hpaths.filter fun p => p.dropLast = c).imp_of_mem fun {p q} hp hq h => ?_
  exact textLe_lastName (eq_concat_of_mem_filesIn (t := t.sort) hp)
    (eq_concat_of_mem_filesIn (t := t.sort) hq) h

end Tree

lemma range_map_getD {α : Type} (l : List α) (a₀ : α) :
    (List.range l.length).map (l.getD · a₀) = l := by
  apply List.ext_getElem (by simp)
  intro i _ hi
  rw [List.getElem_map, List.getElem_range, List.getD_eq_getElem l a₀ hi]

/-- The index an entry has once indices have been sorted by the paths of what they refer to. -/
lemma newIndex_mergeSort {l : List (List Text)} (hl : l.Nodup) {path : ℕ → Text}
    (hpath : ∀ i < l.length, path i = joinPath (l.getD i [])) {c : List Text} (hc : c ∈ l) :
    (newIndex ((List.range l.length).mergeSort fun i j => textLe (path i) (path j))).getD
        (l.idxOf c) 0 =
      (l.mergeSort fun c d => textLe (joinPath c) (joinPath d)).idxOf c := by
  rw [newIndex_idxOf hl (List.mergeSort_perm _ _) (d := []) hc,
    List.map_mergeSort (s := fun c d => textLe (joinPath c) (joinPath d)), range_map_getD]
  intro i hi j hj
  rw [hpath i (List.mem_range.mp hi), hpath j (List.mem_range.mp hj)]

lemma sortByName_eq (name : ℕ → Text) (indices : List ℕ) :
    sortByName name indices = indices.mergeSort fun i j => textLe (name i) (name j) := by
  rw [sortByName, ← List.map_mergeSort (r := fun i j => textLe (name i) (name j)), List.map_map]
  · exact List.map_id _
  · intro _ _ _ _
    rfl

lemma sortByName_map {l s : List (List Text)} {c : List Text} (h : l.Perm s)
    (hs : s.Pairwise fun d e => textLe (lastName d) (lastName e) = true)
    (hc : ∀ d ∈ s, d = c ++ [lastName d]) (idx : List Text → ℕ) (name : ℕ → Text)
    (hname : ∀ d ∈ s, name (idx d) = lastName d) :
    sortByName name (l.map idx) = s.map idx := by
  have hl : ∀ d ∈ l, name (idx d) = lastName d := fun d hd => hname d (h.mem_iff.mp hd)
  rw [sortByName_eq, ← List.map_mergeSort (r := fun d e => textLe (lastName d) (lastName e)),
    mergeSort_eq_of_perm lastName h hs]
  · intro d hd e he heq
    rw [hc d hd, hc e he, heq]
  · intro d hd e he
    rw [hl d hd, hl e he]

namespace Tree
variable {t : Tree}

lemma newDirIndex_idxOf {c : List Text} (hc : c ∈ t.dirs) :
    (newIndex t.builder.dirOrder).getD (t.dirs.idxOf c) 0 = t.sort.dirs.idxOf c := by
  have hpath : ∀ i < t.dirs.length, (t.builder.dir i).path = joinPath (t.dirs.getD i []) := by
    intro i hi
    simp [RomFsBuilder.dir, builder, dirEntry, List.getD_eq_getElem?_getD, List.getElem?_eq_getElem hi]
  have hlen : t.builder.dirs.length = t.dirs.length := by simp [builder]
  rw [RomFsBuilder.dirOrder, hlen, newIndex_mergeSort t.dirs_nodup hpath hc]
  rfl

lemma newFileIndex_idxOf {p : List Text} (hp : p ∈ t.paths) :
    (newIndex t.builder.fileOrder).getD (t.paths.idxOf p) 0 = t.sort.paths.idxOf p := by
  have hpath : ∀ i < t.paths.length, (t.builder.file i).path = joinPath (t.paths.getD i []) := by
    intro i hi
    have hi' : i < t.files.length := by simpa [paths] using hi
    simp [RomFsBuilder.file, builder, paths, fileEntry, List.getD_eq_getElem?_getD,
      List.getElem?_eq_getElem hi']
  have hlen : t.builder.files.length = t.paths.length := by simp [builder, paths]
  have hsort : t.sort.paths = t.paths.mergeSort fun c d => textLe (joinPath c) (joinPath d) := by
    rw [paths, paths, ← List.map_mergeSort (r := fun f g => textLe (joinPath f.1) (joinPath g.1))]
    · rfl
    · intro _ _ _ _
      rfl
  have hnodup : t.paths.Nodup := t.files_nodup
  rw [RomFsBuilder.fileOrder, hlen, newIndex_mergeSort hnodup hpath hp, hsort]

/-- What sorting by path makes of a directory's entry: its members are not in order yet. -/
def movedEntry (t : Tree) (c : List Text) : DirEntry where
  path := joinPath c
  name := lastName c
  children := (t.children c).map t.sort.dirs.idxOf
  files := (t.filesIn c).map t.sort.paths.idxOf
  parent := t.sort.dirs.idxOf c.dropLast

lemma sortEntriesByPath_builder :
    t.builder.sortEntriesByPath =
      { dirs := t.sort.dirs.map t.movedEntry, files := t.sort.builder.files } := by
  have hdirs : t.builder.dirs.mergeSort (fun x y => textLe x.path y.path) =
      t.sort.dirs.map t.dirEntry :=
    (List.map_mergeSort (r := fun c d => textLe (joinPath c) (joinPath d)) (f := t.dirEntry)
      fun _ _ _ _ => rfl).symm
  have hfiles : t.builder.files.mergeSort (fun x y => textLe x.path y.path) =
      t.sort.files.map t.fileEntry :=
    (List.map_mergeSort (f := t.fileEntry)
      (r := fun f g : List Text × Bytes => textLe (joinPath f.1) (joinPath g.1))
      fun _ _ _ _ => rfl).symm
  rw [RomFsBuilder.sortEntriesByPath]
  simp only [hdirs, hfiles, List.map_map]
  congr 1
  · refine List.map_congr_left fun c hc => ?_
    have hc' := t.sortedDirs_perm.mem_iff.mp hc
    simp only [Function.comp_apply, dirEntry, movedEntry, List.map_map,
      newDirIndex_idxOf (t.parent_mem c hc')]
    congr 1
    · exact List.map_congr_left fun d hd => newDirIndex_idxOf (mem_children.mp hd).1
    · exact List.map_congr_left fun p hp => newFileIndex_idxOf (mem_filesIn.mp hp).1
  · refine List.map_congr_left fun f hf => ?_
    have hf' := List.mem_map_of_mem (f := Prod.fst) (t.sortedFiles_perm.mem_iff.mp hf)
    simp only [Function.comp_apply, fileEntry, newDirIndex_idxOf (t.folder_mem f.1 hf')]

/-- Sorting the state of a tree gives the state of the sorted tree. -/
theorem sort_builder : t.builder.sortEntriesByPath.sortByNames = t.sort.builder := by
  rw [sortEntriesByPath_builder, RomFsBuilder.sortByNames]
  simp only [List.map_map]
  rw [builder]
  congr 1
  refine List.map_congr_left fun c hc => ?_
  simp only [Function.comp_apply, movedEntry, dirEntry]
  congr 1
  · refine sortByName_map (t.sort_children_perm c).symm (sort_children_pairwise c)
      (fun d => eq_concat_of_mem_children) _ _ fun d hd => ?_
    have hd' := List.getElem?_idxOf (mem_children.mp hd).1
    simp [RomFsBuilder.dir, List.getD_eq_getElem?_getD, hd', movedEntry]
  · exact sortByName_map (t.sort_filesIn_perm c).symm (sort_filesIn_pairwise c)
      (fun p => eq_concat_of_mem_filesIn) _ _ fun p hp => file_builder_name (mem_filesIn.mp hp).1

/-- The sorted tree does not depend on the order of the directories and files. -/
theorem sort_congr {t₁ t₂ : Tree} (hdirs : t₁.dirs.Perm t₂.dirs) (hfiles : t₁.files.Perm t₂.files) :
    t₁.sort = t₂.sort :=
  Tree.ext (mergeSort_congr_perm joinPath hdirs fun _ hc _ hd => t₂.joinPath_injOn hc hd)
    (mergeSort_congr_perm (fun f : List Text × Bytes => joinPath f.1) hfiles
      fun _ hf _ hg => t₂.file_injOn hf hg)

theorem Holds.perm {t₁ t₂ : Tree} {l₁ l₂ : List (Text × Bytes)} (h₁ : t₁.Holds l₁)
    (h₂ : t₂.Holds l₂) (h : l₁.Perm l₂) : t₁.dirs.Perm t₂.dirs ∧ t₁.files.Perm t₂.files := by
  constructor
  · refine (List.perm_ext_iff_of_nodup t₁.dirs_nodup t₂.dirs_nodup).mpr fun d => ?_
    rw [h₁.dirs, h₂.dirs]
    simp only [h.mem_iff]
  · rw [h₁.files, h₂.files]
    exact h.map _

end Tree

lemma Accepted.perm {l₁ l₂ : List (Text × Bytes)} (h : l₁.Perm l₂) (h₁ : Accepted l₁) :
    Accepted l₂ :=
  ⟨fun e he => h₁.absolute e (h.mem_iff.mpr he), (h.map _).nodup_iff.mp h₁.nodup⟩

namespace RomFsBuilder

/-- The image is determined by the sorted entries. -/
theorem build_congr {b₁ b₂ : RomFsBuilder} (hempty : b₁.files.isEmpty = b₂.files.isEmpty)
    (hsorted : b₁.sortEntriesByPath.sortByNames = b₂.sortEntriesByPath.sortByNames) :
    b₁.build = b₂.build := by
  have hlayOut : b₁.layOut = b₂.layOut := by rw [layOut, layOut, hsorted]
  rw [build, build, hempty, hlayOut]

/-- Whatever the order in which files are added, they are refused, or they are accepted and give one
image. -/
theorem build_perm {l₁ l₂ : List (Text × Bytes)} (h : l₁.Perm l₂) :
    ((∃ e, addFiles l₁ = err e) ∧ ∃ e, addFiles l₂ = err e) ∨
    ∃ b₁ b₂, addFiles l₁ = ok b₁ ∧ addFiles l₂ = ok b₂ ∧ b₁.build = b₂.build := by
  by_cases h₁ : Accepted l₁
  · obtain ⟨t₁, hadd₁, hholds₁⟩ := addFiles_of_accepted h₁
    obtain ⟨t₂, hadd₂, hholds₂⟩ := addFiles_of_accepted (h₁.perm h)
    obtain ⟨hdirs, hfiles⟩ := hholds₁.perm hholds₂ h
    refine .inr ⟨t₁.builder, t₂.builder, hadd₁, hadd₂, build_congr ?_ ?_⟩
    · have hlen := hfiles.length_eq
      simp only [Tree.builder, List.isEmpty_map]
      rw [Bool.eq_iff_iff, List.isEmpty_iff_length_eq_zero, List.isEmpty_iff_length_eq_zero, hlen]
    · rw [Tree.sort_builder, Tree.sort_builder, Tree.sort_congr hdirs hfiles]
  · exact .inl ⟨addFiles_of_not_accepted h₁,
      addFiles_of_not_accepted fun h₂ => h₁ (h₂.perm h.symm)⟩

theorem build_perm_swap :
    let one : Text × Bytes := (['/', 'a', '/', 'y'], [1])
    let two : Text × Bytes := (['/', 'b', '/', 'x'], [2])
    ((∃ e, addFiles [one, two] = err e) ∧ ∃ e, addFiles [two, one] = err e) ∨
    ∃ b₁ b₂, addFiles [one, two] = ok b₁ ∧ addFiles [two, one] = ok b₂ ∧ b₁.build = b₂.build :=
  build_perm (List.Perm.swap _ _ [])

end RomFsBuilder

end NxObject.Romfs
