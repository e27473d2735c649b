import NxObject.RomFsBuilder

/-!
# What a builder holds

A builder that `add_file` leads to is determined by the component lists of its directories and of its
files. `Tree` is that content, `Tree.builder` is the state the code keeps for it, and `add_file` on the
state is insertion into the tree.
-/
namespace NxObject.Romfs
open Outcome

/-! ## Paths and their components -/

/-- Each component behind a slash. -/
def joinPath (components : List Text) : Text := components.flatMap ('/' :: ·)

def IsComponent (component : Text) : Prop := component ≠ [] ∧ '/' ∉ component

/-- The name of what a component list leads to. The root has the empty name. -/
def lastName (components : List Text) : Text := components.getLastD []

@[simp] lemma joinPath_nil : joinPath [] = [] := rfl

lemma joinPath_concat (c : List Text) (x : Text) : joinPath (c ++ [x]) = joinPath c ++ '/' :: x := by
  simp [joinPath]

@[simp] lemma lastName_concat (c : List Text) (x : Text) : lastName (c ++ [x]) = x := by
  simp [lastName, List.getLastD_eq_getLast?]

lemma dropLast_append_lastName {c : List Text} (h : c ≠ []) : c.dropLast ++ [lastName c] = c := by
  rw [lastName, List.getLastD_eq_getLast?, List.getLast?_eq_some_getLast h]
  exact List.dropLast_append_getLast h

lemma splitOn_append_joinPath {x : Text} {c : List Text} (hx : '/' ∉ x) (hc : ∀ y ∈ c, '/' ∉ y) :
    (x ++ joinPath c).splitOn '/' = x :: c := by
  induction c generalizing x with
  | nil => simp [List.splitOn_eq_singleton hx]
  | cons y c ih =>
    have hrest := ih (hc y List.mem_cons_self) fun z hz => hc z (List.mem_cons_of_mem _ hz)
    rw [joinPath, List.flatMap_cons, List.cons_append,
      List.splitOn_append_cons_self_of_not_mem hx]
    exact congrArg (x :: ·) hrest

theorem joinPath_injective {c d : List Text} (hc : ∀ x ∈ c, IsComponent x)
    (hd : ∀ x ∈ d, IsComponent x) (h : joinPath c = joinPath d) : c = d := by
  have hc' := splitOn_append_joinPath (x := []) (by simp) fun x hx => (hc x hx).2
  have hd' := splitOn_append_joinPath (x := []) (by simp) fun x hx => (hd x hx).2
  rw [h, hd'] at hc'
  exact (List.cons.inj hc').2.symm

lemma not_mem_of_mem_splitOn {s x : Text} (h : x ∈ s.splitOn '/') : '/' ∉ x := by
  induction s generalizing x with
  | nil =>
    have hx : x = [] := by simpa using h
    simp [hx]
  | cons ch s ih =>
    rw [List.splitOn_cons_eq_if_modifyHead] at h
    split_ifs at h with hch
    · rcases List.mem_cons.mp h with rfl | h
      · exact List.not_mem_nil
      · exact ih h
    · cases hs : s.splitOn '/' with
      | nil => exact absurd hs (List.splitOn_ne_nil _ _)
      | cons y ys =>
        rw [hs] at h ih
        rcases List.mem_cons.mp h with rfl | h
        · intro hmem
          rcases List.mem_cons.mp hmem with rfl | hmem
          · exact hch (beq_self_eq_true _)
          · exact ih List.mem_cons_self hmem
        · exact ih (List.mem_cons_of_mem _ h)

theorem isComponent_of_mem_pathComponents {path x : Text} (h : x ∈ pathComponents path) :
    IsComponent x := by
  obtain ⟨hsplit, hne⟩ := List.mem_filter.mp h
  exact ⟨by simpa using hne, not_mem_of_mem_splitOn hsplit⟩

/-! ## The tree -/

/-- Directories and files in the order of their indices. -/
@[ext] structure Tree where
  dirs : List (List Text)
  files : List (List Text × Bytes)
  root : dirs.head? = some []
  dirs_nodup : dirs.Nodup
  files_nodup : (files.map Prod.fst).Nodup
  parent_mem : ∀ c ∈ dirs, c.dropLast ∈ dirs
  file_ne_root : ∀ p ∈ files.map Prod.fst, p ≠ []
  folder_mem : ∀ p ∈ files.map Prod.fst, p.dropLast ∈ dirs
  dir_components : ∀ c ∈ dirs, ∀ x ∈ c, IsComponent x
  file_components : ∀ p ∈ files.map Prod.fst, ∀ x ∈ p, IsComponent x

namespace Tree
variable (t : Tree)

def paths : List (List Text) := t.files.map Prod.fst

def children (c : List Text) : List (List Text) := t.dirs.filter fun d => d ≠ [] ∧ d.dropLast = c

def filesIn (c : List Text) : List (List Text) := t.paths.filter fun p => p.dropLast = c

def dirEntry (c : List Text) : DirEntry where
  path := joinPath c
  name := lastName c
  children := (t.children c).map t.dirs.idxOf
  files := (t.filesIn c).map t.paths.idxOf
  parent := t.dirs.idxOf c.dropLast

def fileEntry (file : List Text × Bytes) : FileEntry where
  path := joinPath file.1
  name := lastName file.1
  data := file.2
  parent := t.dirs.idxOf file.1.dropLast

def builder : RomFsBuilder := { dirs := t.dirs.map t.dirEntry, files := t.files.map t.fileEntry }

variable {t}

lemma mem_children {c d : List Text} : d ∈ t.children c ↔ d ∈ t.dirs ∧ d ≠ [] ∧ d.dropLast = c := by
  simp [children]

lemma mem_filesIn {c p : List Text} : p ∈ t.filesIn c ↔ p ∈ t.paths ∧ p.dropLast = c := by
  simp [filesIn]

lemma eq_concat_of_mem_children {c d : List Text} (h : d ∈ t.children c) : d = c ++ [lastName d] := by
  obtain ⟨-, hne, rfl⟩ := mem_children.mp h
  exact (dropLast_append_lastName hne).symm

lemma eq_concat_of_mem_filesIn {c p : List Text} (h : p ∈ t.filesIn c) : p = c ++ [lastName p] := by
  obtain ⟨hmem, rfl⟩ := mem_filesIn.mp h
  exact (dropLast_append_lastName (t.file_ne_root p hmem)).symm

lemma concat_mem_children {c : List Text} {x : Text} :
    c ++ [x] ∈ t.children c ↔ c ++ [x] ∈ t.dirs := by
  simp [mem_children]

lemma concat_mem_filesIn {c : List Text} {x : Text} :
    c ++ [x] ∈ t.filesIn c ↔ c ++ [x] ∈ t.paths := by
  simp [mem_filesIn]

lemma nil_mem : [] ∈ t.dirs := List.mem_of_mem_head? t.root

lemma idxOf_nil : t.dirs.idxOf [] = 0 := by
  obtain ⟨tail, h⟩ := List.head?_eq_some_iff.mp t.root
  rw [h, List.idxOf_cons_self]

lemma dir_builder {c : List Text} (h : c ∈ t.dirs) :
    t.builder.dir (t.dirs.idxOf c) = t.dirEntry c := by
  simp [RomFsBuilder.dir, builder, List.getD_eq_getElem?_getD, List.getElem?_idxOf h]

lemma file_builder {file : List Text × Bytes} (h : file ∈ t.files) :
    t.builder.file (t.paths.idxOf file.1) = t.fileEntry file := by
  have hmem : file.1 ∈ t.paths := List.mem_map_of_mem h
  have hget := List.getElem?_idxOf hmem
  obtain ⟨file', hfile', heq⟩ : ∃ a, t.files[t.paths.idxOf file.1]? = some a ∧ a.1 = file.1 := by
    simpa [paths] using hget
  have hsame : file' = file :=
    List.inj_on_of_nodup_map t.files_nodup (List.mem_of_getElem? hfile') h heq
  simp [RomFsBuilder.file, builder, List.getD_eq_getElem?_getD, hfile', hsame]

lemma file_builder_name {p : List Text} (h : p ∈ t.paths) :
    (t.builder.file (t.paths.idxOf p)).name = lastName p := by
  obtain ⟨file, hfile, rfl⟩ := List.mem_map.mp h
  rw [file_builder hfile, fileEntry]

/-! ## Insertion -/

lemma modify_idxOf {α β : Type} [BEq α] [LawfulBEq α] [DecidableEq α] {l : List α} (hl : l.Nodup)
    {c : α} (hc : c ∈ l) (g : α → β) (f : β → β) (r : List β) :
    (l.map g ++ r).modify (l.idxOf c) f = (l.map fun d => if d = c then f (g d) else g d) ++ r := by
  apply List.ext_getElem?
  intro i
  rw [List.getElem?_modify]
  by_cases hi : i < l.length
  · rw [List.getElem?_append_left (by simpa), List.getElem?_append_left (by simpa),
      List.getElem?_map, List.getElem?_map, List.getElem?_eq_getElem hi]
    by_cases hd : l[i] = c
    · have hidx : l.idxOf c = i := by rw [← hd, hl.idxOf_getElem]
      simp [hd, hidx]
    · have hidx : l.idxOf c ≠ i := by
        rintro rfl
        exact hd (List.getElem_idxOf hi)
      simp [hd, hidx]
  · have hidx : l.idxOf c ≠ i := by
      have := List.idxOf_lt_length_of_mem hc
      omega
    rw [List.getElem?_append_right (by simpa using hi), List.getElem?_append_right (by simpa using hi)]
    simp [hidx]

def addDir (c : List Text) (x : Text) (hc : c ∈ t.dirs) (hx : IsComponent x)
    (hnew : c ++ [x] ∉ t.dirs) : Tree where
  dirs := t.dirs ++ [c ++ [x]]
  files := t.files
  root := by rw [List.head?_append, t.root, Option.some_or]
  dirs_nodup := by
    rw [List.nodup_append]
    refine ⟨t.dirs_nodup, List.nodup_singleton _, fun a ha b hb => ?_⟩
    rw [List.mem_singleton.mp hb]
    rintro rfl
    exact hnew ha
  files_nodup := t.files_nodup
  parent_mem := by
    intro d hd
    rcases List.mem_append.mp hd with hd | hd
    · exact List.mem_append_left _ (t.parent_mem d hd)
    · rw [List.mem_singleton.mp hd, List.dropLast_concat]
      exact List.mem_append_left _ hc
  file_ne_root := t.file_ne_root
  folder_mem p hp := List.mem_append_left _ (t.folder_mem p hp)
  dir_components := by
    intro d hd y hy
    rcases List.mem_append.mp hd with hd | hd
    · exact t.dir_components d hd y hy
    · rw [List.mem_singleton.mp hd] at hy
      rcases List.mem_append.mp hy with hy | hy
      · exact t.dir_components c hc y hy
      · rwa [List.mem_singleton.mp hy]
  file_components := t.file_components

def addFile (c : List Text) (x : Text) (data : Bytes) (hc : c ∈ t.dirs) (hx : IsComponent x)
    (hnew : c ++ [x] ∉ t.paths) : Tree where
  dirs := t.dirs
  files := t.files ++ [(c ++ [x], data)]
  root := t.root
  dirs_nodup := t.dirs_nodup
  files_nodup := by
    rw [List.map_append, List.nodup_append]
    refine ⟨t.files_nodup, List.nodup_singleton _, fun a ha b hb => ?_⟩
    rw [List.mem_singleton.mp hb]
    rintro rfl
    exact hnew ha
  parent_mem := t.parent_mem
  file_ne_root := by
    intro p hp
    rw [List.map_append] at hp
    rcases List.mem_append.mp hp with hp | hp
    · exact t.file_ne_root p hp
    · rw [List.mem_singleton.mp hp]
      exact List.append_ne_nil_of_right_ne_nil c (List.cons_ne_nil x [])
  folder_mem := by
    intro p hp
    rw [List.map_append] at hp
    rcases List.mem_append.mp hp with hp | hp
    · exact t.folder_mem p hp
    · rw [List.mem_singleton.mp hp, List.dropLast_concat]
      exact hc
  dir_components := t.dir_components
  file_components := by
    intro p hp y hy
    rw [List.map_append] at hp
    rcases List.mem_append.mp hp with hp | hp
    · exact t.file_components p hp y hy
    · rw [List.mem_singleton.mp hp] at hy
      rcases List.mem_append.mp hy with hy | hy
      · exact t.dir_components c hc y hy
      · rwa [List.mem_singleton.mp hy]

section AddDir
variable {c : List Text} {x : Text} (hc : c ∈ t.dirs) (hx : IsComponent x) (hnew : c ++ [x] ∉ t.dirs)

lemma addDir_children (d : List Text) :
    (addDir c x hc hx hnew).children d = t.children d ++ if d = c then [c ++ [x]] else [] := by
  simp only [children, addDir, List.filter_append]
  congr 1
  split_ifs with h
  · simp [h]
  · have hne : ¬ c = d := fun heq => h heq.symm
    simp [hne]

lemma addDir_dirEntry {d : List Text} (hd : d ∈ t.dirs) :
    (addDir c x hc hx hnew).dirEntry d =
      if d = c then (t.dirEntry d).pushChild t.dirs.length else t.dirEntry d := by
  have hold : ∀ e ∈ t.dirs, (addDir c x hc hx hnew).dirs.idxOf e = t.dirs.idxOf e :=
    fun e he => List.idxOf_append_of_mem he
  have hnewIdx : (addDir c x hc hx hnew).dirs.idxOf (c ++ [x]) = t.dirs.length := by
    rw [addDir, List.idxOf_append_of_notMem hnew]
    simp
  have hchildren : (t.children d).map (addDir c x hc hx hnew).dirs.idxOf =
      (t.children d).map t.dirs.idxOf :=
    List.map_congr_left fun e he => hold e (mem_children.mp he).1
  rw [dirEntry, addDir_children, List.map_append, hchildren, hold _ (t.parent_mem d hd)]
  split_ifs with h
  · rw [List.map_singleton, hnewIdx]
    rfl
  · rw [List.map_nil, List.append_nil]
    rfl

lemma addDir_dirEntry_new :
    (addDir c x hc hx hnew).dirEntry (c ++ [x]) =
      { path := joinPath c ++ '/' :: x, name := x, parent := t.dirs.idxOf c } := by
  have hself : c ++ [x] ≠ c := by simp
  have hchildren : t.children (c ++ [x]) = [] := by
    rw [children, List.filter_eq_nil_iff]
    intro d hd
    simp only [decide_eq_true_eq, not_and]
    intro _ heq
    exact hnew (heq ▸ t.parent_mem d hd)
  have hfiles : (addDir c x hc hx hnew).filesIn (c ++ [x]) = [] := by
    rw [filesIn, List.filter_eq_nil_iff]
    intro p hp
    simp only [decide_eq_true_eq]
    intro heq
    exact hnew (heq ▸ t.folder_mem p hp)
  rw [dirEntry, addDir_children, hchildren, if_neg hself, hfiles, joinPath_concat, lastName_concat,
    List.dropLast_concat]
  simp [addDir, List.idxOf_append_of_mem hc]

theorem builder_addDir :
    (addDir c x hc hx hnew).builder =
      { t.builder with
        dirs := (t.builder.dirs ++
            [({ path := joinPath c ++ '/' :: x, name := x, parent := t.dirs.idxOf c } : DirEntry)]).modify
          (t.dirs.idxOf c) (·.pushChild t.dirs.length) } := by
  have hfiles : t.files.map (addDir c x hc hx hnew).fileEntry = t.files.map t.fileEntry := by
    refine List.map_congr_left fun file hfile => ?_
    rw [fileEntry, addDir, List.idxOf_append_of_mem (t.folder_mem _ (List.mem_map_of_mem hfile))]
    rfl
  have hdirs : (addDir c x hc hx hnew).builder.dirs =
      (t.dirs.map fun d =>
        if d = c then (t.dirEntry d).pushChild t.dirs.length else t.dirEntry d) ++
      [{ path := joinPath c ++ '/' :: x, name := x, parent := t.dirs.idxOf c }] := by
    rw [← addDir_dirEntry_new hc hx hnew,
      ← List.map_congr_left fun d hd => addDir_dirEntry hc hx hnew hd]
    simp [builder, addDir]
  rw [builder, builder, modify_idxOf t.dirs_nodup hc t.dirEntry, ← hdirs]
  rw [builder, ← hfiles]
  rfl

end AddDir

section AddFile
variable {c : List Text} {x : Text} {data : Bytes} (hc : c ∈ t.dirs) (hx : IsComponent x)
  (hnew : c ++ [x] ∉ t.paths)

lemma addFile_paths : (addFile c x data hc hx hnew).paths = t.paths ++ [c ++ [x]] := by
  simp [paths, addFile]

lemma addFile_dirEntry (d : List Text) :
    (addFile c x data hc hx hnew).dirEntry d =
      if d = c then (t.dirEntry d).pushFile t.files.length else t.dirEntry d := by
  have hnewIdx : (t.paths ++ [c ++ [x]]).idxOf (c ++ [x]) = t.files.length := by
    rw [List.idxOf_append_of_notMem hnew]
    simp [paths]
  have hfiles : (t.filesIn d).map (t.paths ++ [c ++ [x]]).idxOf =
      (t.filesIn d).map t.paths.idxOf :=
    List.map_congr_left fun p hp => List.idxOf_append_of_mem (mem_filesIn.mp hp).1
  have hfilesIn : (addFile c x data hc hx hnew).filesIn d =
      t.filesIn d ++ if d = c then [c ++ [x]] else [] := by
    rw [filesIn, addFile_paths, List.filter_append]
    congr 1
    split_ifs with h
    · simp [h]
    · have hne : ¬ c = d := fun heq => h heq.symm
      simp [hne]
  rw [dirEntry, hfilesIn, addFile_paths, List.map_append, hfiles]
  split_ifs with h
  · rw [List.map_singleton, hnewIdx]
    rfl
  · rw [List.map_nil, List.append_nil]
    rfl

theorem builder_addFile :
    (addFile c x data hc hx hnew).builder =
      { t.builder with
        files := t.builder.files ++
          [{ path := joinPath c ++ '/' :: x, name := x, data, parent := t.dirs.idxOf c }]
        dirs := t.builder.dirs.modify (t.dirs.idxOf c) (·.pushFile t.files.length) } := by
  have hfiles : (addFile c x data hc hx hnew).builder.files = t.files.map t.fileEntry ++
      [{ path := joinPath c ++ '/' :: x, name := x, data, parent := t.dirs.idxOf c }] := by
    simp only [builder, addFile, List.map_append, List.map_singleton, fileEntry, joinPath_concat,
      lastName_concat, List.dropLast_concat]
    rfl
  have hdirs := modify_idxOf t.dirs_nodup hc t.dirEntry (·.pushFile t.files.length) []
  rw [List.append_nil, List.append_nil,
    ← List.map_congr_left fun d _ => addFile_dirEntry hc hx hnew d] at hdirs
  rw [builder] at hfiles
  rw [builder, builder, hdirs]
  simp only at hfiles
  rw [hfiles]
  rfl

end AddFile

/-! ## The code inserts -/

lemma find?_map_idxOf {ι : Type} {l : List (List Text)} {c : List Text} {x : Text}
    (name : ι → Text) (idx : List Text → ι) (hl : ∀ d ∈ l, d = c ++ [lastName d])
    (hname : ∀ d ∈ l, name (idx d) = lastName d) :
    (l.map idx).find? (fun i => name i == x) = if c ++ [x] ∈ l then some (idx (c ++ [x])) else none := by
  have hiff : ∀ d ∈ l, ((name (idx d) == x) = true ↔ d = c ++ [x]) := by
    intro d hd
    rw [hname d hd, beq_iff_eq]
    constructor
    · rintro rfl
      exact hl d hd
    · rintro rfl
      exact lastName_concat c x
  rw [List.find?_map]
  split_ifs with hmem
  · cases hfind : l.find? ((fun i => name i == x) ∘ idx) with
    | none => exact absurd ((hiff _ hmem).mpr rfl) (List.find?_eq_none.mp hfind _ hmem)
    | some d =>
      have hp := List.find?_some hfind
      rw [(hiff d (List.mem_of_find?_eq_some hfind)).mp hp]
      rfl
  · rw [Option.map_eq_none_iff, List.find?_eq_none]
    intro d hd hp
    exact hmem ((hiff d hd).mp hp ▸ hd)

lemma find_child {c : List Text} (hc : c ∈ t.dirs) (x : Text) :
    (t.builder.dir (t.dirs.idxOf c)).children.find? (fun idx => (t.builder.dir idx).name == x) =
      if c ++ [x] ∈ t.dirs then some (t.dirs.idxOf (c ++ [x])) else none := by
  rw [dir_builder hc, dirEntry, find?_map_idxOf (fun idx => (t.builder.dir idx).name) t.dirs.idxOf
    (fun d => eq_concat_of_mem_children)]
  · simp only [concat_mem_children]
  · intro d hd
    rw [dir_builder (mem_children.mp hd).1, dirEntry]

lemma any_file {c : List Text} (hc : c ∈ t.dirs) (x : Text) :
    (t.builder.dir (t.dirs.idxOf c)).files.any (fun idx => (t.builder.file idx).name == x) =
      decide (c ++ [x] ∈ t.paths) := by
  rw [dir_builder hc, dirEntry, ← List.isSome_find?, find?_map_idxOf
    (fun idx => (t.builder.file idx).name) t.paths.idxOf (fun p => eq_concat_of_mem_filesIn)]
  · simp only [concat_mem_filesIn]
    split_ifs with h <;> simp [h]
  · intro p hp
    exact file_builder_name (mem_filesIn.mp hp).1

theorem enterDir_builder {c : List Text} (hc : c ∈ t.dirs) {x : Text} (hx : IsComponent x) :
    ∃ t' : Tree, enterDir (t.builder, t.dirs.idxOf c) x = (t'.builder, t'.dirs.idxOf (c ++ [x])) ∧
      t'.files = t.files ∧ ∀ d, d ∈ t'.dirs ↔ d ∈ t.dirs ∨ d = c ++ [x] := by
  by_cases h : c ++ [x] ∈ t.dirs
  · refine ⟨t, ?_, rfl, fun d => ⟨.inl, ?_⟩⟩
    · simp only [enterDir, find_child hc, if_pos h]
    · rintro (hd | rfl)
      · exact hd
      · exact h
  · refine ⟨addDir c x hc hx h, ?_, rfl, fun d => ?_⟩
    · simp only [enterDir, find_child hc, if_neg h]
      rw [builder_addDir, dir_builder hc]
      have hlen : t.builder.dirs.length = t.dirs.length := by simp [builder]
      have hidx : (addDir c x hc hx h).dirs.idxOf (c ++ [x]) = t.dirs.length := by
        rw [addDir, List.idxOf_append_of_notMem h]
        simp
      rw [hlen, hidx]
      rfl
    · simp [addDir]

theorem foldl_enterDir {c : List Text} (hc : c ∈ t.dirs) {xs : List Text}
    (hxs : ∀ x ∈ xs, IsComponent x) :
    ∃ t' : Tree,
      xs.foldl enterDir (t.builder, t.dirs.idxOf c) = (t'.builder, t'.dirs.idxOf (c ++ xs)) ∧
      t'.files = t.files ∧ ∀ d, d ∈ t'.dirs ↔ d ∈ t.dirs ∨ ∃ p, p <+: xs ∧ d = c ++ p := by
  induction xs generalizing t c with
  | nil =>
    refine ⟨t, by simp, rfl, fun d => ⟨.inl, ?_⟩⟩
    rintro (hd | ⟨p, hp, rfl⟩)
    · exact hd
    · rwa [List.prefix_nil.mp hp, List.append_nil]
  | cons x xs ih =>
    obtain ⟨t₁, hstep, hfiles₁, hdirs₁⟩ := enterDir_builder hc (hxs x List.mem_cons_self)
    have hc₁ : c ++ [x] ∈ t₁.dirs := (hdirs₁ _).mpr (.inr rfl)
    obtain ⟨t₂, hrest, hfiles₂, hdirs₂⟩ := ih hc₁ fun y hy => hxs y (List.mem_cons_of_mem _ hy)
    refine ⟨t₂, ?_, hfiles₂.trans hfiles₁, fun d => ?_⟩
    · rw [List.foldl_cons, hstep, hrest, List.append_assoc, List.singleton_append]
    · rw [hdirs₂, hdirs₁]
      constructor
      · rintro ((hd | rfl) | ⟨p, hp, rfl⟩)
        · exact .inl hd
        · exact .inr ⟨[x], by simp, rfl⟩
        · exact .inr ⟨x :: p, List.cons_prefix_cons.mpr ⟨rfl, hp⟩, by simp⟩
      · rintro (hd | ⟨p, hp, rfl⟩)
        · exact .inl (.inl hd)
        · cases p with
          | nil => exact .inl (.inl (by rwa [List.append_nil]))
          | cons y p =>
            obtain ⟨rfl, hp'⟩ := List.cons_prefix_cons.mp hp
            exact .inr ⟨p, hp', by simp⟩

def new : Tree where
  dirs := [[]]
  files := []
  root := rfl
  dirs_nodup := List.nodup_singleton _
  files_nodup := List.nodup_nil
  parent_mem := by simp
  file_ne_root := by simp
  folder_mem := by simp
  dir_components := by simp
  file_components := by simp

theorem builder_new : new.builder = RomFsBuilder.new := by decide

/-- What a tree holds after files have been added to an empty one. -/
structure Holds (t : Tree) (added : List (Text × Bytes)) : Prop where
  files : t.files = added.map fun e => (pathComponents e.1, e.2)
  dirs : ∀ d, d ∈ t.dirs ↔ d = [] ∨ ∃ e ∈ added, d <+: (pathComponents e.1).dropLast

end Tree

/-- The path is absolute and names something. -/
def IsAbsolute (path : Text) : Prop := path.head? = some '/' ∧ pathComponents path ≠ []

/-- The paths are valid, and no two have the same components. -/
structure Accepted (added : List (Text × Bytes)) : Prop where
  absolute : ∀ e ∈ added, IsAbsolute e.1
  nodup : (added.map fun e => pathComponents e.1).Nodup

namespace RomFsBuilder

theorem addFile_of_not_absolute (b : RomFsBuilder) {path : Text} (data : Bytes)
    (h : ¬IsAbsolute path) : b.addFile path data = err (.invalidPath path) := by
  rw [addFile]
  split_ifs with hhead
  · rfl
  · have hnil : pathComponents path = [] := by
      by_contra hne
      exact h ⟨not_not.mp hhead, hne⟩
    simp [hnil]

/-- `add_file` inserts into the tree, unless there is such a file. -/
theorem addFile_builder (t : Tree) {path : Text} (data : Bytes) (h : IsAbsolute path) :
    (pathComponents path ∈ t.paths ∧ t.builder.addFile path data = err (.duplicateEntry path)) ∨
    (pathComponents path ∉ t.paths ∧ ∃ t' : Tree, t.builder.addFile path data = ok t'.builder ∧
      t'.files = t.files ++ [(pathComponents path, data)] ∧
      ∀ d, d ∈ t'.dirs ↔ d ∈ t.dirs ∨ d <+: (pathComponents path).dropLast) := by
  obtain ⟨hhead, hne⟩ := h
  have hcomp : ∀ x ∈ pathComponents path, IsComponent x := fun x =>
    isComponent_of_mem_pathComponents
  obtain ⟨x, hx⟩ : ∃ x, (pathComponents path).getLast? = some x :=
    ⟨_, List.getLast?_eq_some_getLast hne⟩
  have hlast : (pathComponents path).dropLast ++ [x] = pathComponents path := by
    rw [List.getLast?_eq_some_getLast hne] at hx
    rw [← Option.some.inj hx, List.dropLast_append_getLast]
  set c := (pathComponents path).dropLast with hc
  have hcomp' : ∀ y ∈ c, IsComponent y := fun y hy => hcomp y (hlast ▸ List.mem_append_left _ hy)
  obtain ⟨t', hfold, hfiles, hdirs⟩ := Tree.foldl_enterDir (t := t) Tree.nil_mem hcomp'
  rw [Tree.idxOf_nil, List.nil_append] at hfold
  have hmem : c ∈ t'.dirs := (hdirs c).mpr (.inr ⟨c, List.prefix_rfl, (List.nil_append c).symm⟩)
  have hpaths : t'.paths = t.paths := congrArg (List.map Prod.fst) hfiles
  rw [addFile, if_neg (not_not.mpr hhead)]
  simp only [hx, ← hc, hfold, Tree.any_file hmem, hlast, hpaths, decide_eq_true_eq]
  by_cases hdup : pathComponents path ∈ t.paths
  · exact .inl ⟨hdup, if_pos hdup⟩
  · have hnew : c ++ [x] ∉ t'.paths := by rwa [hpaths, hlast]
    have hx' : IsComponent x := hcomp x (hlast ▸ List.mem_append_right _ (List.mem_singleton_self x))
    refine .inr ⟨hdup, Tree.addFile c x data hmem hx' hnew, ?_, ?_, fun d => ?_⟩
    · rw [if_neg hdup, Tree.builder_addFile, Tree.dir_builder hmem]
      simp [Tree.builder, Tree.dirEntry]
    · simp only [Tree.addFile, hfiles, hlast]
    · simp only [Tree.addFile, hdirs]
      simp

theorem addFiles_append (added : List (Text × Bytes)) (e : Text × Bytes) :
    addFiles (added ++ [e]) = addFiles added >>= fun b => b.addFile e.1 e.2 := by
  rw [addFiles, List.foldlM_append]
  simp only [List.foldlM_cons, List.foldlM_nil, bind_pure]
  rfl

theorem addFiles_of_accepted {added : List (Text × Bytes)} (h : Accepted added) :
    ∃ t : Tree, addFiles added = ok t.builder ∧ t.Holds added := by
  induction added using List.reverseRecOn with
  | nil => exact ⟨.new, by rw [Tree.builder_new]; rfl, rfl, fun d => by simp [Tree.new]⟩
  | append_singleton added e ih =>
    obtain ⟨habs, hnodup⟩ := h
    rw [List.map_append, List.nodup_append] at hnodup
    obtain ⟨t, hadd, hholds⟩ := ih
      ⟨fun e he => habs e (List.mem_append_left _ he), hnodup.1⟩
    have hnew : pathComponents e.1 ∉ t.paths := by
      intro hmem
      rw [Tree.paths, hholds.files, List.map_map] at hmem
      exact hnodup.2.2 _ hmem _ (by simp) rfl
    rcases addFile_builder t e.2 (habs e (by simp)) with ⟨hdup, -⟩ | ⟨-, t', hok, hfiles, hdirs⟩
    · exact absurd hdup hnew
    · refine ⟨t', ?_, ?_, fun d => ?_⟩
      · rw [addFiles_append, hadd, ok_bind, hok]
      · rw [hfiles, hholds.files, List.map_append, List.map_singleton]
      · rw [hdirs, hholds.dirs]
        simp [or_assoc, or_and_right, exists_or]

theorem addFiles_of_not_accepted {added : List (Text × Bytes)} (h : ¬Accepted added) :
    ∃ e, addFiles added = err e := by
  induction added using List.reverseRecOn with
  | nil => exact absurd ⟨by simp, by simp⟩ h
  | append_singleton added e ih =>
    rw [addFiles_append]
    by_cases hprev : Accepted added
    · obtain ⟨t, hadd, hholds⟩ := addFiles_of_accepted hprev
      rw [hadd, ok_bind]
      by_cases habs : IsAbsolute e.1
      · rcases addFile_builder t e.2 habs with ⟨-, herr⟩ | ⟨hnew, -⟩
        · exact ⟨_, herr⟩
        · refine absurd ⟨?_, ?_⟩ h
          · intro e' he'
            rcases List.mem_append.mp he' with he' | he'
            · exact hprev.absolute e' he'
            · rwa [List.mem_singleton.mp he']
          · rw [List.map_append, List.nodup_append]
            refine ⟨hprev.nodup, List.nodup_singleton _, ?_⟩
            intro p hp q hq heq
            rw [Tree.paths, hholds.files, List.map_map] at hnew
            rw [List.mem_singleton.mp hq] at heq
            subst heq
            exact hnew hp
      · exact ⟨_, addFile_of_not_absolute t.builder e.2 habs⟩
    · obtain ⟨e', herr⟩ := ih hprev
      exact ⟨e', by rw [herr]; rfl⟩

/-- A builder that files have been added to is the state of a tree. -/
theorem addFiles_eq_ok {added : List (Text × Bytes)} {b : RomFsBuilder}
    (h : addFiles added = ok b) : Accepted added ∧ ∃ t : Tree, b = t.builder ∧ t.Holds added := by
  by_cases hacc : Accepted added
  · obtain ⟨t, hadd, hholds⟩ := addFiles_of_accepted hacc
    rw [h] at hadd
    exact ⟨hacc, t, ok.inj hadd, hholds⟩
  · obtain ⟨e, herr⟩ := addFiles_of_not_accepted hacc
    rw [h] at herr
    cases herr

end RomFsBuilder
end NxObject.Romfs
