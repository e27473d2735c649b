import NxObject.RomFsOpen

/-!
# Walking an image

The recursive walk from the root lists each directory and goes on with the subdirectories it has listed. In the
image of a tree it visits the directories below one another, each once, and what it lists are the files.
-/
namespace NxObject.Romfs
open Outcome

/-! ## The walk -/

def RomFsEntry.parentOffset : RomFsEntry → UInt32
  | .file found => found.entry.parentOffset
  | .dir found => found.entry.parentOffset

/-- Everything an iterator yields, and the offsets it was read at. -/
def DirIterator.collectAt (romfs : RomFs) : ℕ → DirIterator → Outcome OpenError (List (UInt32 × RomFsEntry))
  | 0, _ => running
  | fuel + 1, it => do
      let (entry, rest) ← it.next romfs
      match entry with
      | some (.dir dir) => do
          let others ← collectAt romfs fuel rest
          pure ((it.nextDirOffset, .dir dir) :: others)
      | some (.file file) => do
          let others ← collectAt romfs fuel rest
          pure ((it.nextFileOffset, .file file) :: others)
      | none => pure []

structure Visit where
  path : List Text
  offset : UInt32
  listing : List (UInt32 × RomFsEntry)

namespace Visit
variable (visit : Visit)

def dirs : List (UInt32 × RomFsDir) := visit.listing.filterMap fun
  | (offset, .dir dir) => some (offset, dir)
  | (_, .file _) => none

def files : List RomFsFile := visit.listing.filterMap fun
  | (_, .dir _) => none
  | (_, .file file) => some file

end Visit

def RomFs.walk (romfs : RomFs) : ℕ → List Text → UInt32 → RomFsDir → Outcome OpenError (List Visit)
  | 0, _, _, _ => running
  | fuel + 1, path, offset, dir => do
      let listing ← dir.entries.collectAt romfs fuel
      let visit : Visit := ⟨path, offset, listing⟩
      let below ← visit.dirs.mapM fun child => romfs.walk fuel (path ++ [child.2.name]) child.1 child.2
      pure (visit :: below.flatten)

theorem DirIterator.collect_eq (romfs : RomFs) (fuel : ℕ) (it : DirIterator) :
    it.collect romfs fuel = (do let listing ← it.collectAt romfs fuel; pure (listing.map Prod.snd)) := by
  induction fuel generalizing it with
  | zero => rfl
  | succ fuel ih =>
    rw [collect, collectAt, bind_assoc]
    congr 1
    funext step
    obtain ⟨- | dir | file, rest⟩ := step
    · rfl
    · simp only [ih, bind_assoc, pure_eq, ok_bind, List.map_cons]
    · simp only [ih, bind_assoc, pure_eq, ok_bind, List.map_cons]

section ReadOk
variable {ε α : Type} {read : UInt32 → Outcome ε α}

lemma readOk_of_ok {offset : UInt32} {a : α} (hne : offset ≠ NO_ENTRY) (h : read offset = ok a) :
    readOk read offset = ok (some a) := by
  rw [readOk, if_neg hne, h]

lemma readOk_stop : readOk read NO_ENTRY = ok none := if_pos rfl

end ReadOk

theorem DirIterator.collectAt_of_located {romfs : RomFs} {nextDir nextFile : UInt32}
    {dirs : List (UInt32 × RomFsDir)} {files : List (UInt32 × RomFsFile)}
    (hdirs : Chain.Located romfs.readDir (·.entry.siblingOffset) NO_ENTRY nextDir dirs)
    (hfiles : Chain.Located romfs.readFile (·.entry.siblingOffset) NO_ENTRY nextFile files)
    {fuel : ℕ} (hfuel : dirs.length + files.length < fuel) :
    collectAt romfs fuel ⟨nextDir, nextFile⟩ =
      ok (dirs.map (fun dir => (dir.1, .dir dir.2)) ++ files.map fun file => (file.1, .file file.2)) := by
  induction fuel generalizing nextDir nextFile dirs files with
  | zero => exact absurd hfuel (Nat.not_lt_zero _)
  | succ fuel ih =>
    cases hdirs with
    | cons hne hread hdirs =>
      rw [List.length_cons] at hfuel
      have hrest := ih hdirs hfiles (by omega)
      simp only [collectAt, next, readOk_of_ok hne hread, ok_bind, pure_eq, hrest, List.map_cons,
        List.cons_append]
    | nil =>
      cases hfiles with
      | cons hne hread hfiles =>
        rw [List.length_cons] at hfuel
        have hrest := ih .nil hfiles (by omega)
        simp only [collectAt, next, readOk_stop, readOk_of_ok hne hread, ok_bind, pure_eq, hrest, List.map_nil,
          List.nil_append, List.map_cons]
      | nil => simp only [collectAt, next, readOk_stop, ok_bind, pure_eq, List.map_nil, List.append_nil]

/-! ## Directories below one another -/

namespace Tree
variable (t : Tree)

/-- A directory and, down to this depth, those below it, each in front of its subdirectories. -/
def below : ℕ → List Text → List (List Text)
  | 0, c => [c]
  | n + 1, c => c :: (t.children c).flatMap (below n)

/-- No directory is deeper. -/
def Depth (n : ℕ) : Prop := ∀ c ∈ t.dirs, c.length ≤ n

lemma exists_depth : ∃ n, t.Depth n :=
  ⟨(t.dirs.map List.length).sum, fun _ hc => List.single_le_sum (fun _ _ => Nat.zero_le _) _
    (List.mem_map_of_mem hc)⟩

variable {t}

lemma length_of_mem_children {c d : List Text} (h : d ∈ t.children c) : d.length = c.length + 1 := by
  rw [eq_concat_of_mem_children h, List.length_append, List.length_singleton]

lemma prefix_of_mem_below {n : ℕ} {c d : List Text} (h : d ∈ t.below n c) : c <+: d := by
  induction n generalizing c with
  | zero => exact List.mem_singleton.mp h ▸ List.prefix_rfl
  | succ n ih =>
    rcases List.mem_cons.mp h with rfl | h
    · exact List.prefix_rfl
    · obtain ⟨e, he, hd⟩ := List.mem_flatMap.mp h
      rw [eq_concat_of_mem_children he] at hd
      exact (List.prefix_append c _).trans (ih hd)

lemma mem_dirs_of_mem_below {n : ℕ} {c d : List Text} (hc : c ∈ t.dirs) (h : d ∈ t.below n c) :
    d ∈ t.dirs := by
  induction n generalizing c with
  | zero => exact List.mem_singleton.mp h ▸ hc
  | succ n ih =>
    rcases List.mem_cons.mp h with rfl | h
    · exact hc
    · obtain ⟨e, he, hd⟩ := List.mem_flatMap.mp h
      exact ih (mem_children.mp he).1 hd

lemma mem_below {n : ℕ} {c d : List Text} (hdepth : ∀ e ∈ t.dirs, e.length ≤ c.length + n)
    (hd : c ++ d ∈ t.dirs) : c ++ d ∈ t.below n c := by
  induction n generalizing c d with
  | zero =>
    have hlen := hdepth _ hd
    rw [List.length_append] at hlen
    obtain rfl := List.eq_nil_of_length_eq_zero (show d.length = 0 by omega)
    rw [List.append_nil]
    exact List.mem_singleton_self c
  | succ n ih =>
    cases d with
    | nil =>
      rw [List.append_nil]
      exact List.mem_cons_self
    | cons x d =>
      rw [List.append_cons] at hd ⊢
      have hchild : c ++ [x] ∈ t.children c := concat_mem_children.mpr (mem_of_append_mem hd)
      refine List.mem_cons_of_mem _ (List.mem_flatMap.mpr ⟨c ++ [x], hchild, ih (fun e he => ?_) hd⟩)
      have hlen := hdepth e he
      rw [List.length_append, List.length_singleton]
      omega

lemma below_nodup (n : ℕ) (c : List Text) : (t.below n c).Nodup := by
  induction n generalizing c with
  | zero => exact List.nodup_singleton c
  | succ n ih =>
    have hchildren : (t.children c).Nodup := t.dirs_nodup.filter _
    refine List.nodup_cons.mpr ⟨fun hmem => ?_, List.nodup_flatMap.mpr ⟨fun d _ => ih d, ?_⟩⟩
    · obtain ⟨d, hd, hc⟩ := List.mem_flatMap.mp hmem
      have hle := (prefix_of_mem_below hc).length_le
      rw [length_of_mem_children hd] at hle
      omega
    · refine hchildren.imp_of_mem fun {d e} hd he hne x hxd hxe => hne ?_
      have hlen : d.length = e.length := by rw [length_of_mem_children hd, length_of_mem_children he]
      exact (List.prefix_of_prefix_length_le (prefix_of_mem_below hxd) (prefix_of_mem_below hxe)
        hlen.le).eq_of_length hlen

lemma below_perm {n : ℕ} (hdepth : t.Depth n) : (t.below n []).Perm t.dirs := by
  refine (List.perm_ext_iff_of_nodup (below_nodup n []) t.dirs_nodup).mpr fun d => ?_
  constructor
  · exact mem_dirs_of_mem_below nil_mem
  · intro hd
    exact mem_below (c := []) (fun e he => (hdepth e he).trans (Nat.zero_add n).ge) hd

/-! ## The walk over an image -/

def visitAt (t : Tree) (c : List Text) : Visit where
  path := c
  offset := t.dirPos c
  listing := (t.children c).map (fun d => (t.dirPos d, .dir (t.dirHandle d))) ++
    (t.filesIn c).map fun p => (t.filePos p, .file (t.fileHandle p))

lemma visitAt_dirs (c : List Text) :
    (t.visitAt c).dirs = (t.children c).map fun d => (t.dirPos d, t.dirHandle d) := by
  simp [Visit.dirs, visitAt, List.filterMap_append, List.filterMap_map]

lemma visitAt_files (c : List Text) : (t.visitAt c).files = (t.filesIn c).map t.fileHandle := by
  simp [Visit.files, visitAt, List.filterMap_append, List.filterMap_map]

section Walk
variable {romfs : RomFs} (h : t.Fits) (hs : t.Stores romfs)
include h hs

lemma walk_succ {fuel : ℕ} (hfuel : t.dirs.length + t.paths.length < fuel) {c : List Text}
    (visits : List Text → List Visit)
    (hbelow : ∀ d ∈ t.children c, romfs.walk fuel d (t.dirPos d) (t.dirHandle d) = ok (visits d)) :
    romfs.walk (fuel + 1) c (t.dirPos c) (t.dirHandle c) =
      ok (t.visitAt c :: (t.children c).flatMap visits) := by
  have hchildren : (t.children c).length ≤ t.dirs.length := List.length_filter_le _ _
  have hfiles : (t.filesIn c).length ≤ t.paths.length := List.length_filter_le _ _
  have hlisting : DirIterator.collectAt romfs fuel ⟨_, _⟩ = _ :=
    DirIterator.collectAt_of_located (children_located h hs c) (files_located h hs c)
      (by simp only [List.length_map]; omega)
  have hmapM : ((t.visitAt c).dirs.mapM fun child =>
      romfs.walk fuel (c ++ [child.2.name]) child.1 child.2) = ok ((t.children c).map visits) := by
    rw [visitAt_dirs, List.mapM_map]
    refine mapM_eq_map fun d hd => ?_
    have hpath : c ++ [lastName d] = d := (eq_concat_of_mem_children hd).symm
    simp only [Function.comp_apply, dirHandle, hpath]
    exact hbelow d hd
  rw [RomFs.walk, RomFsDir.entries, hlisting, ok_bind, List.map_map, List.map_map]
  change ((t.visitAt c).dirs.mapM _ >>= _) = _
  rw [hmapM, ok_bind, ← List.flatMap_def]
  rfl

/-- The walk from a directory visits what is below it. -/
theorem walk_at {n fuel : ℕ} {c : List Text} (hdepth : ∀ e ∈ t.dirs, e.length ≤ c.length + n)
    (hfuel : n + t.dirs.length + t.paths.length + 1 < fuel) :
    romfs.walk fuel c (t.dirPos c) (t.dirHandle c) = ok ((t.below n c).map t.visitAt) := by
  obtain ⟨fuel, rfl⟩ : ∃ k, fuel = k + 1 := ⟨fuel - 1, by omega⟩
  induction n generalizing c fuel with
  | zero =>
    have hnone : t.children c = [] := by
      refine List.eq_nil_iff_forall_not_mem.mpr fun d hd => ?_
      have hlen := hdepth d (mem_children.mp hd).1
      rw [length_of_mem_children hd] at hlen
      omega
    rw [walk_succ h hs (by omega) (fun _ => []) (by simp [hnone]), hnone]
    rfl
  | succ n ih =>
    obtain ⟨k, rfl⟩ : ∃ k, fuel = k + 1 := ⟨fuel - 1, by omega⟩
    rw [walk_succ h hs (by omega) _ fun d hd => ih (fun e he => ?_) k (by omega), below, List.map_cons,
      List.map_flatMap]
    have hlen := hdepth e he
    rw [length_of_mem_children hd]
    omega

end Walk

end Tree

/-! ## Images of added files -/

/-- The visits are to the implied directories, each once, and list the subdirectories and the added files, each
once, in the order of their names and with the directory's offset as their parent's. -/
structure Enumerates (added : List (Text × Bytes)) (romfs : RomFs) (visits : List Visit) : Prop where
  dirs_nodup : (visits.map (·.path)).Nodup
  dirs : ∀ d, d ∈ visits.map (·.path) ↔ IsImpliedDir added d
  listed : (visits.flatMap fun visit => visit.dirs.map fun dir => visit.path ++ [dir.2.name]).Perm
    ((visits.map (·.path)).filter (· ≠ []))
  files : (visits.flatMap fun visit =>
    visit.files.map fun file => (visit.path ++ [file.name], file.data romfs)).Perm
      (added.map fun e => (pathComponents e.1, ok e.2))
  dirsFirst : ∀ visit ∈ visits, visit.listing.map Prod.snd =
    visit.dirs.map (fun dir => .dir dir.2) ++ visit.files.map .file
  dirsAscending : ∀ visit ∈ visits, visit.dirs.Pairwise fun a b => utf8 a.2.name < utf8 b.2.name
  filesAscending : ∀ visit ∈ visits, visit.files.Pairwise fun a b => utf8 a.name < utf8 b.name
  parent : ∀ visit ∈ visits, ∀ entry ∈ visit.listing, entry.2.parentOffset = visit.offset

namespace Tree
variable {t : Tree}

lemma utf8_lastName_lt {c d e : List Text} (hd : d = c ++ [lastName d]) (he : e = c ++ [lastName e])
    (hne : d ≠ e) (hle : textLe (lastName d) (lastName e) = true) :
    utf8 (lastName d) < utf8 (lastName e) := by
  by_contra hlt
  have hname := textLe_antisymm hle (textLe_iff.mpr (List.not_lt.mp hlt))
  exact hne (by rw [hd, he, hname])

lemma visitAt_dirsAscending (c : List Text) :
    (t.sort.visitAt c).dirs.Pairwise fun a b => utf8 a.2.name < utf8 b.2.name := by
  have hnodup : (t.sort.children c).Nodup := t.sort.dirs_nodup.filter _
  rw [visitAt_dirs, List.pairwise_map]
  refine (hnodup.and (sort_children_pairwise c)).imp_of_mem fun {d e} hd he hde => ?_
  exact utf8_lastName_lt (eq_concat_of_mem_children hd) (eq_concat_of_mem_children he) hde.1 hde.2

lemma visitAt_filesAscending (c : List Text) :
    (t.sort.visitAt c).files.Pairwise fun a b => utf8 a.name < utf8 b.name := by
  have hnodup : (t.sort.filesIn c).Nodup := t.sort.paths_nodup.filter _
  rw [visitAt_files, List.pairwise_map]
  refine (hnodup.and (sort_filesIn_pairwise c)).imp_of_mem fun {p q} hp hq hpq => ?_
  exact utf8_lastName_lt (eq_concat_of_mem_filesIn hp) (eq_concat_of_mem_filesIn hq) hpq.1 hpq.2

lemma visitAt_parent (c : List Text) :
    ∀ entry ∈ (t.visitAt c).listing, entry.2.parentOffset = t.dirPos c := by
  intro entry hentry
  rcases List.mem_append.mp hentry with hentry | hentry
  · obtain ⟨d, hd, rfl⟩ := List.mem_map.mp hentry
    obtain ⟨hmem, -, rfl⟩ := mem_children.mp hd
    exact dirRecord_parentOffset hmem
  · obtain ⟨p, hp, rfl⟩ := List.mem_map.mp hentry
    obtain ⟨hmem, rfl⟩ := mem_filesIn.mp hp
    exact fileRecord_parentOffset hmem

lemma flatMap_children_perm {dirs : List (List Text)} (hdirs : dirs.Perm t.dirs) :
    (dirs.flatMap t.children).Perm (dirs.filter (· ≠ [])) := by
  refine (List.perm_ext_iff_of_nodup ?_ ((hdirs.nodup_iff.mpr t.dirs_nodup).filter _)).mpr fun d => ?_
  · refine List.nodup_flatMap.mpr ⟨fun c _ => t.dirs_nodup.filter _, ?_⟩
    refine (hdirs.nodup_iff.mpr t.dirs_nodup).imp fun {c e} hne d hdc hde => hne ?_
    exact (mem_children.mp hdc).2.2.symm.trans (mem_children.mp hde).2.2
  · rw [List.mem_flatMap, List.mem_filter, decide_eq_true_iff]
    constructor
    · rintro ⟨c, -, hd⟩
      obtain ⟨hmem, hne, -⟩ := mem_children.mp hd
      exact ⟨hdirs.mem_iff.mpr hmem, hne⟩
    · rintro ⟨hmem, hne⟩
      have hd := hdirs.mem_iff.mp hmem
      exact ⟨d.dropLast, hdirs.mem_iff.mpr (t.parent_mem d hd), mem_children.mpr ⟨hd, hne, rfl⟩⟩

lemma flatMap_filesIn_perm {dirs : List (List Text)} (hdirs : dirs.Perm t.dirs) :
    (dirs.flatMap t.filesIn).Perm t.paths := by
  refine (List.perm_ext_iff_of_nodup ?_ t.paths_nodup).mpr fun p => ?_
  · refine List.nodup_flatMap.mpr ⟨fun c _ => t.paths_nodup.filter _, ?_⟩
    refine (hdirs.nodup_iff.mpr t.dirs_nodup).imp fun {c e} hne p hpc hpe => hne ?_
    exact (mem_filesIn.mp hpc).2.symm.trans (mem_filesIn.mp hpe).2
  · rw [List.mem_flatMap]
    constructor
    · rintro ⟨c, -, hp⟩
      exact (mem_filesIn.mp hp).1
    · intro hp
      exact ⟨p.dropLast, hdirs.mem_iff.mpr (t.folder_mem p hp), mem_filesIn.mpr ⟨hp, rfl⟩⟩

lemma visitAt_listed (c : List Text) :
    ((t.visitAt c).dirs.map fun dir => (t.visitAt c).path ++ [dir.2.name]) = t.children c := by
  rw [visitAt_dirs, List.map_map]
  conv_rhs => rw [← List.map_id (t.children c)]
  exact List.map_congr_left fun d hd => (eq_concat_of_mem_children hd).symm

lemma visitAt_contents (romfs : RomFs) (c : List Text) :
    ((t.visitAt c).files.map fun file => ((t.visitAt c).path ++ [file.name], file.data romfs)) =
      (t.filesIn c).map fun p => (p, (t.fileHandle p).data romfs) := by
  rw [visitAt_files, List.map_map]
  exact List.map_congr_left fun p hp => congrArg (·, _) (eq_concat_of_mem_filesIn hp).symm

lemma contents_perm {romfs : RomFs} {added : List (Text × Bytes)} (hs : t.sort.Stores romfs)
    (hholds : t.Holds added) :
    (t.sort.paths.map fun p => (p, (t.sort.fileHandle p).data romfs)).Perm
      (added.map fun e => (pathComponents e.1, ok e.2)) := by
  have hdata : (t.sort.paths.map fun p => (p, (t.sort.fileHandle p).data romfs)) =
      t.sort.files.map fun f => (f.1, ok f.2) := by
    rw [files_eq (t := t.sort), List.map_map]
    exact List.map_congr_left fun p hp => congrArg (p, ·) (data_at hs hp)
  have hadded : (added.map fun e => (pathComponents e.1, (ok e.2 : Outcome FromBytesError Bytes))) =
      t.files.map fun f => (f.1, ok f.2) := by
    rw [hholds.files, List.map_map]
    rfl
  rw [hdata, hadded]
  exact t.sortedFiles_perm.map _

theorem enumerates_below {romfs : RomFs} {added : List (Text × Bytes)} {n : ℕ} (hs : t.sort.Stores romfs)
    (hholds : t.Holds added) (hdepth : t.sort.Depth n) :
    Enumerates added romfs ((t.sort.below n []).map t.sort.visitAt) := by
  have hperm := below_perm hdepth
  have hpath : ((t.sort.below n []).map t.sort.visitAt).map (·.path) = t.sort.below n [] := by
    rw [List.map_map]
    exact List.map_id _
  constructor
  case dirs_nodup =>
    rw [hpath]
    exact below_nodup n []
  case dirs =>
    intro d
    rw [hpath, hperm.mem_iff]
    exact t.sortedDirs_perm.mem_iff.trans (hholds.dirs d)
  case listed =>
    rw [hpath, List.flatMap_map]
    simp only [visitAt_listed]
    exact flatMap_children_perm hperm
  case files =>
    rw [List.flatMap_map]
    simp only [visitAt_contents]
    rw [← List.map_flatMap]
    exact ((flatMap_filesIn_perm hperm).map _).trans (contents_perm hs hholds)
  case dirsFirst =>
    refine List.forall_mem_map.mpr fun c _ => ?_
    rw [visitAt_dirs, visitAt_files, visitAt, List.map_append, List.map_map, List.map_map, List.map_map,
      List.map_map]
    rfl
  case dirsAscending => exact List.forall_mem_map.mpr fun c _ => visitAt_dirsAscending c
  case filesAscending => exact List.forall_mem_map.mpr fun c _ => visitAt_filesAscending c
  case parent => exact List.forall_mem_map.mpr fun c _ => visitAt_parent c

end Tree

/-- The recursive walk over an image ends and enumerates the files that were added to it. -/
theorem walk_enumerates {added : List (Text × Bytes)} {b : RomFsBuilder} (hne : added ≠ [])
    (hadd : RomFsBuilder.addFiles added = ok b) (hfits : b.Fits) :
    ∃ image romfs root visits turns, b.build = ok image ∧ RomFs.tryFromBytes image = ok romfs ∧
      romfs.rootDir = ok root ∧ (∀ fuel ≥ turns, romfs.walk fuel [] 0 root = ok visits) ∧
      Enumerates added romfs visits := by
  obtain ⟨-, t, rfl, hholds⟩ := RomFsBuilder.addFiles_eq_ok hadd
  obtain ⟨hsort, hsize⟩ := t.fits_sort hfits
  have hfiles : t.files ≠ [] := by
    rw [hholds.files]
    simpa using hne
  have hs := Tree.stores_romfs hsize
  obtain ⟨n, hdepth⟩ := t.sort.exists_depth
  have hroot : t.sort.dirPos [] = 0 := by
    rw [Tree.dirPos, Tree.dirOffset, Placement.offsetOf, Tree.idxOf_nil]
    rfl
  refine ⟨t.sort.image, t.sort.romfs, t.sort.dirHandle [], (t.sort.below n []).map t.sort.visitAt,
    n + t.sort.dirs.length + t.sort.paths.length + 2, Tree.build_builder hfiles hsize,
    Tree.tryFromBytes_image hsize, Tree.rootDir_at hsort hs, fun fuel hfuel => ?_,
    Tree.enumerates_below hs hholds hdepth⟩
  rw [← hroot]
  exact Tree.walk_at hsort hs (fun e he => (hdepth e he).trans (Nat.zero_add n).ge) (by omega)

theorem walk_enumerates_nested : ∃ image romfs root visits turns, nestedTree.builder.build = ok image ∧
    RomFs.tryFromBytes image = ok romfs ∧ romfs.rootDir = ok root ∧
    (∀ fuel ≥ turns, romfs.walk fuel [] 0 root = ok visits) ∧ Enumerates nestedFiles romfs visits :=
  walk_enumerates (by decide) nestedFiles_added nestedTree_fits

end NxObject.Romfs
