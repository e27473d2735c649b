import NxObject.RomFsDirectory
import NxObject.RomFsWalk

/-!
# Images of host directories

The image built from a directory of the host has its directories, the empty ones too, and its files. It does
not depend on the order in which the host lists them.
-/
namespace NxObject.Romfs
open Outcome Host

variable {ι : Type}

/-! ## Images determine trees -/

namespace Tree
variable {t t' : Tree}

def visits (t : Tree) (n : ℕ) : List Visit := (t.below n []).map t.visitAt

lemma visits_path (n : ℕ) : (t.visits n).map (·.path) = t.below n [] := by
  rw [visits, List.map_map]
  exact List.map_id _

lemma visits_files {romfs : RomFs} (hs : t.Stores romfs) {n : ℕ} (hdepth : t.Depth n) :
    ((t.visits n).flatMap fun visit =>
      visit.files.map fun file => (visit.path ++ [file.name], file.data romfs)).Perm
        (t.files.map fun f => (f.1, ok f.2)) := by
  have hdata : (t.paths.map fun p => (p, (t.fileHandle p).data romfs)) = t.files.map fun f => (f.1, ok f.2) := by
    rw [files_eq (t := t), List.map_map]
    exact List.map_congr_left fun p hp => congrArg (p, ·) (data_at hs hp)
  rw [visits, List.flatMap_map]
  simp only [visitAt_contents]
  rw [← List.map_flatMap, ← hdata]
  exact (flatMap_filesIn_perm (below_perm hdepth)).map _

lemma walk_root {romfs : RomFs} (h : t.Fits) (hs : t.Stores romfs) {n : ℕ} (hdepth : t.Depth n) :
    ∃ turns, ∀ fuel ≥ turns, romfs.walk fuel [] 0 (t.dirHandle []) = ok (t.visits n) := by
  have hstart : t.dirPos [] = 0 := by
    rw [dirPos, dirOffset, Placement.offsetOf, idxOf_nil]
    rfl
  refine ⟨n + t.dirs.length + t.paths.length + 2, fun fuel hfuel => ?_⟩
  rw [← hstart]
  exact walk_at h hs (fun e he => (hdepth e he).trans (Nat.zero_add n).ge) (by omega)

lemma builder_isEmpty : t.builder.files.isEmpty = t.files.isEmpty := by simp [builder]

lemma build_of_files_eq_nil (h : t.files = []) : t.builder.build = err .empty := by
  rw [RomFsBuilder.build, builder_isEmpty, h]
  rfl

lemma readable_injective :
    Function.Injective fun f : List Text × Bytes => (f.1, (ok f.2 : Outcome FromBytesError Bytes)) := by
  intro f g heq
  obtain ⟨hpath, hdata⟩ := Prod.mk.inj heq
  exact Prod.ext hpath (ok.inj hdata)

lemma perm_of_image (h : t.sort.Fits) (h' : t'.sort.Fits) (hsize : t.sort.imageSize < 2 ^ 63)
    (hsize' : t'.sort.imageSize < 2 ^ 63) (himage : t.sort.image = t'.sort.image) :
    t.dirs.Perm t'.dirs ∧ t.files.Perm t'.files := by
  have hs := stores_romfs hsize
  have hs' := stores_romfs hsize'
  have hromfs : t.sort.romfs = t'.sort.romfs := by
    have hread := tryFromBytes_image hsize
    rw [himage, tryFromBytes_image hsize'] at hread
    exact (ok.inj hread).symm
  have hhandle : t.sort.dirHandle [] = t'.sort.dirHandle [] := by
    have hread := rootDir_at h hs
    rw [hromfs, rootDir_at h' hs'] at hread
    exact (ok.inj hread).symm
  obtain ⟨n, hdepth⟩ := t.sort.exists_depth
  obtain ⟨n', hdepth'⟩ := t'.sort.exists_depth
  obtain ⟨turns, hwalk⟩ := walk_root h hs hdepth
  obtain ⟨turns', hwalk'⟩ := walk_root h' hs' hdepth'
  have hvisits : t.sort.visits n = t'.sort.visits n' := by
    have hwalk := hwalk (max turns turns') (le_max_left _ _)
    rw [hromfs, hhandle, hwalk' _ (le_max_right _ _)] at hwalk
    exact (ok.inj hwalk).symm
  constructor
  · have hbelow := congrArg (List.map (·.path)) hvisits
    rw [visits_path, visits_path] at hbelow
    exact ((t.sortedDirs_perm.symm.trans (below_perm hdepth).symm).trans
      (hbelow ▸ below_perm hdepth')).trans t'.sortedDirs_perm
  · have hfiles := visits_files hs hdepth
    rw [hvisits, hromfs] at hfiles
    have hperm := hfiles.symm.trans (visits_files hs' hdepth')
    exact (t.sortedFiles_perm.symm.trans ((List.map_perm_map_iff readable_injective).mp hperm)).trans
      t'.sortedFiles_perm

lemma build_builder_congr (hdirs : t.dirs.Perm t'.dirs) (hfiles : t.files.Perm t'.files) :
    t.builder.build = t'.builder.build := by
  refine RomFsBuilder.build_congr ?_ ?_
  · rw [builder_isEmpty, builder_isEmpty, Bool.eq_iff_iff, List.isEmpty_iff_length_eq_zero,
      List.isEmpty_iff_length_eq_zero, hfiles.length_eq]
  · rw [sort_builder, sort_builder, sort_congr hdirs hfiles]

theorem build_eq_iff (hfits : t.builder.Fits) (hfits' : t'.builder.Fits) (hfiles : t.files ≠ []) :
    t.builder.build = t'.builder.build ↔ t.dirs.Perm t'.dirs ∧ t.files.Perm t'.files := by
  obtain ⟨hsort, hsize⟩ := t.fits_sort hfits
  obtain ⟨hsort', hsize'⟩ := t'.fits_sort hfits'
  constructor
  · intro hbuild
    rw [build_builder hfiles hsize] at hbuild
    have hfiles' : t'.files ≠ [] := by
      intro hnil
      rw [build_of_files_eq_nil hnil] at hbuild
      cases hbuild
    rw [build_builder hfiles' hsize'] at hbuild
    exact perm_of_image hsort hsort' hsize hsize' (ok.inj hbuild)
  · rintro ⟨hdirs, hperm⟩
    exact build_builder_congr hdirs hperm

end Tree

/-! ## The host in the image -/

/-- A path opens as the host has it. -/
structure OpensAsHost (root : Node ι) (romfs : RomFs) (fuel : ℕ) (path : Text) : Prop where
  found : ∀ data, At root (hostPath (queryComponents path)) (.file (.ok data)) →
    ∃ file, romfs.openPath fuel path = ok file ∧ file.data romfs = ok data
  pathNotFound : queryComponents path = [] → romfs.openPath fuel path = err .pathNotFound
  dirNotFound : queryComponents path ≠ [] →
    (¬∃ listing, At root (hostPath (queryComponents path).dropLast) (.dir listing)) →
    romfs.openPath fuel path = err .dirNotFound
  fileNotFound : queryComponents path ≠ [] →
    (∃ listing, At root (hostPath (queryComponents path).dropLast) (.dir listing)) →
    (¬∃ data, At root (hostPath (queryComponents path)) (.file (.ok data))) →
    romfs.openPath fuel path = err .fileNotFound

/-- The visits of a walk are to the directories of the host, each once, and list its files, each once. -/
structure WalksHost (root : Node ι) (romfs : RomFs) (visits : List Visit) : Prop where
  nodup : (visits.map (·.path)).Nodup
  dirs : ∀ c, c ∈ visits.map (·.path) ↔ ∃ listing, At root (hostPath c) (.dir listing)
  files : ∃ files : List (List Text × Bytes), (files.map Prod.fst).Nodup ∧
    (visits.flatMap fun visit => visit.files.map fun file => (visit.path ++ [file.name], file.data romfs)).Perm
      (files.map fun f => (f.1, ok f.2)) ∧
    ∀ p data, (p, data) ∈ files ↔ At root (hostPath p) (.file (.ok data))

namespace Mirrors
variable {t : Tree} {root : Node ι} (h : Mirrors t root)
include h

lemma mem_sort_dirs (c : List Text) : c ∈ t.sort.dirs ↔ ∃ listing, At root (hostPath c) (.dir listing) :=
  t.sortedDirs_perm.mem_iff.trans (h.dirs c)

lemma mem_sort_files (p : List Text) (data : Bytes) :
    (p, data) ∈ t.sort.files ↔ At root (hostPath p) (.file (.ok data)) :=
  t.sortedFiles_perm.mem_iff.trans (h.files p data)

lemma mem_sort_paths (p : List Text) : p ∈ t.sort.paths ↔ ∃ data, At root (hostPath p) (.file (.ok data)) := by
  constructor
  · intro hp
    obtain ⟨f, hf, rfl⟩ := List.mem_map.mp hp
    exact ⟨f.2, (h.mem_sort_files f.1 f.2).mp hf⟩
  · rintro ⟨data, hat⟩
    exact List.mem_map_of_mem ((h.mem_sort_files p data).mpr hat)

lemma opensAsHost (hsort : t.sort.Fits) {romfs : RomFs} (hs : t.sort.Stores romfs) {fuel : ℕ}
    (hfuel : t.sort.dirs.length + t.sort.paths.length < fuel) (path : Text) : OpensAsHost root romfs fuel path := by
  have hopen := Tree.openPath_at hsort hs hfuel path
  constructor
  case found =>
    intro data hat
    have hfile := (h.mem_sort_files _ _).mpr hat
    have hmem : queryComponents path ∈ t.sort.paths := List.mem_map_of_mem hfile
    rw [if_neg (t.sort.file_ne_root _ hmem), if_neg (not_not.mpr (t.sort.folder_mem _ hmem)),
      if_neg (not_not.mpr hmem)] at hopen
    exact ⟨_, hopen, by rw [Tree.data_at hs hmem, Tree.data_of_mem hfile]⟩
  case pathNotFound =>
    intro hnil
    rw [hopen, if_pos hnil]
  case dirNotFound =>
    intro hne hdir
    rw [hopen, if_neg hne, if_pos (mt (h.mem_sort_dirs _).mp hdir)]
  case fileNotFound =>
    intro hne hdir hfile
    rw [hopen, if_neg hne, if_neg (not_not.mpr ((h.mem_sort_dirs _).mpr hdir)),
      if_pos (mt (h.mem_sort_paths _).mp hfile)]

lemma walksHost {romfs : RomFs} (hs : t.sort.Stores romfs) {n : ℕ} (hdepth : t.sort.Depth n) :
    WalksHost root romfs (t.sort.visits n) := by
  constructor
  case nodup =>
    rw [Tree.visits_path]
    exact Tree.below_nodup n []
  case dirs =>
    intro c
    rw [Tree.visits_path, (Tree.below_perm hdepth).mem_iff, h.mem_sort_dirs]
  case files => exact ⟨t.sort.files, t.sort.files_nodup, Tree.visits_files hs hdepth, h.mem_sort_files⟩

end Mirrors

/-- What is built from a directory of the host is an image if there is a file in it, and nothing else. Opening finds
the files of the host and no others, and the walk goes through its directories. -/
theorem fromDirectory_build {fuel : ℕ} {fsPath : HostPath} {listing : Listing ι} {b : RomFsBuilder}
    (hroot : IsHost (.dir listing)) (hread : RomFsBuilder.fromDirectory fuel fsPath listing = ok b)
    (hfits : b.Fits) :
    (b.build = err .empty ∧ ¬∃ path data, At (.dir listing) path (.file data)) ∨
    (∃ path data, At (.dir listing) path (.file data)) ∧
    ∃ image romfs root visits turns, b.build = ok image ∧ RomFs.tryFromBytes image = ok romfs ∧
      romfs.rootDir = ok root ∧ (∀ fuel ≥ turns, romfs.walk fuel [] 0 root = ok visits) ∧
      WalksHost (.dir listing) romfs visits ∧ ∀ fuel ≥ turns, ∀ path, OpensAsHost (.dir listing) romfs fuel path := by
  obtain ⟨t, rfl, hreading⟩ := fromDirectory_eq_ok hroot hread
  have hmirrors := mirrors_of_reading hroot hreading
  obtain ⟨hsort, hsize⟩ := t.fits_sort hfits
  by_cases hfiles : t.files = []
  · refine Or.inl ⟨Tree.build_of_files_eq_nil hfiles, ?_⟩
    rintro ⟨path, data, hat⟩
    obtain ⟨p, rfl, bytes, rfl, hmem⟩ := stands_of_reading hroot hreading hat
    rw [hfiles] at hmem
    cases hmem
  · obtain ⟨f, hf⟩ := List.exists_mem_of_ne_nil _ hfiles
    have hs := Tree.stores_romfs hsize
    obtain ⟨n, hdepth⟩ := t.sort.exists_depth
    obtain ⟨turns, hwalk⟩ := Tree.walk_root hsort hs hdepth
    exact Or.inr ⟨⟨_, _, (hmirrors.files f.1 f.2).mp hf⟩, t.sort.image, t.sort.romfs, t.sort.dirHandle [],
      t.sort.visits n, max turns (t.sort.dirs.length + t.sort.paths.length + 1), Tree.build_builder hfiles hsize,
      Tree.tryFromBytes_image hsize, Tree.rootDir_at hsort hs,
      fun fuel hfuel => hwalk fuel ((le_max_left _ _).trans hfuel), hmirrors.walksHost hs hdepth,
      fun fuel hfuel => hmirrors.opensAsHost hsort hs ((le_max_right _ _).trans hfuel)⟩

def twoTree : Tree where
  dirs := [[], [['d']], [['e']]]
  files := [([['d'], ['f']], [1, 2, 3])]
  root := rfl
  dirs_nodup := by decide
  files_nodup := by decide
  parent_mem := by decide
  file_ne_root := by decide
  folder_mem := by decide
  dir_components := by simp [IsComponent]
  file_components := by simp [IsComponent]

lemma fits_of_sort_eq {t : Tree} (h : t.sort = twoTree) : t.builder.Fits := by
  refine t.fits_builder ?_ ?_ <;> rw [h]
  · exact ⟨by decide +kernel, by decide +kernel⟩
  · decide +kernel

lemma twoTree_sort : twoTree.sort = twoTree :=
  Tree.ext (List.mergeSort_of_pairwise (by decide)) (List.mergeSort_singleton _)

lemma twoDirectories_read :
    RomFsBuilder.fromDirectory 4 [] (.ok twoDirectories) = ok twoTree.builder := rfl

lemma twoDirectories_file : At (.dir (.ok twoDirectories)) (hostPath [['d'], ['f']]) (.file (.ok [1, 2, 3])) :=
  .there List.mem_cons_self (.there List.mem_cons_self (.here _))

lemma new_fits : Tree.new.builder.Fits := ⟨by decide +kernel, by decide +kernel, by decide +kernel⟩

theorem fromDirectory_build_two :
    (∃ image romfs root visits turns, RomFsBuilder.fromDirectory 4 [] (.ok twoDirectories) = ok twoTree.builder ∧
      twoTree.builder.build = ok image ∧ RomFs.tryFromBytes image = ok romfs ∧
      romfs.rootDir = ok root ∧ (∀ fuel ≥ turns, romfs.walk fuel [] 0 root = ok visits) ∧
      WalksHost (.dir (.ok twoDirectories)) romfs visits ∧
      ∀ fuel ≥ turns, ∀ path, OpensAsHost (.dir (.ok twoDirectories)) romfs fuel path) ∧
    RomFsBuilder.fromDirectory 4 [] (.ok [] : Listing Empty) = ok Tree.new.builder ∧
      Tree.new.builder.build = err .empty := by
  constructor
  · rcases fromDirectory_build (twoDirectories_isHost (List.Perm.refl _)) twoDirectories_read
      (fits_of_sort_eq twoTree_sort) with ⟨-, hnone⟩ | ⟨-, image, romfs, root, visits, turns, hrest⟩
    · exact absurd ⟨_, _, twoDirectories_file⟩ hnone
    · exact ⟨image, romfs, root, visits, turns, twoDirectories_read, hrest⟩
  · have hroot : IsHost (.dir (.ok []) : Node Empty) := isHost_dir (by decide) (by decide) (by simp)
    have hread : RomFsBuilder.fromDirectory 4 [] (.ok [] : Listing Empty) = ok Tree.new.builder := rfl
    rcases fromDirectory_build hroot hread new_fits with ⟨hempty, -⟩ | ⟨⟨path, data, hat⟩, -⟩
    · exact ⟨hread, hempty⟩
    · cases path with
      | nil =>
        have hdir := at_nil.mp hat
        cases hdir
      | cons name path =>
        obtain ⟨child, hmem, -⟩ := at_cons.mp hat
        cases hmem

/-! ## The order of listings -/

/-- Two directories of the host have the same directories and the same files below them. -/
structure SameContents {ι' : Type} (root : Node ι) (root' : Node ι') : Prop where
  dirs : ∀ path, (∃ listing, At root path (.dir listing)) ↔ ∃ listing, At root' path (.dir listing)
  files : ∀ path data, At root path (.file (.ok data)) ↔ At root' path (.file (.ok data))

/-- Two directories with a file are packed into the same image if and only if they have the same contents, in
whatever order the host lists them. -/
theorem fromDirectory_build_eq_iff {ι' : Type} {fuel fuel' : ℕ} {fsPath fsPath' : HostPath} {listing : Listing ι}
    {listing' : Listing ι'} {b b' : RomFsBuilder} (hroot : IsHost (.dir listing)) (hroot' : IsHost (.dir listing'))
    (hread : RomFsBuilder.fromDirectory fuel fsPath listing = ok b)
    (hread' : RomFsBuilder.fromDirectory fuel' fsPath' listing' = ok b')
    (hfile : ∃ path data, At (.dir listing) path (.file data)) (hfits : b.Fits) (hfits' : b'.Fits) :
    b.build = b'.build ↔ SameContents (.dir listing) (.dir listing') := by
  obtain ⟨t, rfl, hreading⟩ := fromDirectory_eq_ok hroot hread
  obtain ⟨t', rfl, hreading'⟩ := fromDirectory_eq_ok hroot' hread'
  have hmirrors := mirrors_of_reading hroot hreading
  have hmirrors' := mirrors_of_reading hroot' hreading'
  have hfiles : t.files ≠ [] := by
    obtain ⟨path, data, hat⟩ := hfile
    obtain ⟨p, -, bytes, -, hmem⟩ := stands_of_reading hroot hreading hat
    exact List.ne_nil_of_mem hmem
  rw [Tree.build_eq_iff hfits hfits' hfiles, List.perm_ext_iff_of_nodup t.dirs_nodup t'.dirs_nodup,
    List.perm_ext_iff_of_nodup (List.Nodup.of_map _ t.files_nodup) (List.Nodup.of_map _ t'.files_nodup)]
  constructor
  · rintro ⟨hdirs, hpaths⟩
    constructor
    case dirs =>
      intro path
      constructor
      · rintro ⟨_, hat⟩
        obtain ⟨p, rfl, hp⟩ := stands_of_reading hroot hreading hat
        exact (hmirrors'.dirs p).mp ((hdirs p).mp hp)
      · rintro ⟨_, hat⟩
        obtain ⟨p, rfl, hp⟩ := stands_of_reading hroot' hreading' hat
        exact (hmirrors.dirs p).mp ((hdirs p).mpr hp)
    case files =>
      intro path data
      constructor
      · intro hat
        obtain ⟨p, rfl, -⟩ := stands_of_reading hroot hreading hat
        exact (hmirrors'.files p data).mp ((hpaths _).mp ((hmirrors.files p data).mpr hat))
      · intro hat
        obtain ⟨p, rfl, -⟩ := stands_of_reading hroot' hreading' hat
        exact (hmirrors.files p data).mp ((hpaths _).mpr ((hmirrors'.files p data).mpr hat))
  · intro hsame
    refine ⟨fun c => ?_, fun f => ?_⟩
    · rw [hmirrors.dirs, hmirrors'.dirs, hsame.dirs]
    · rw [hmirrors.files f.1 f.2, hmirrors'.files f.1 f.2, hsame.files]

def twoTreeReversed : Tree where
  dirs := [[], [['e']], [['d']]]
  files := [([['d'], ['f']], [1, 2, 3])]
  root := rfl
  dirs_nodup := by decide
  files_nodup := by decide
  parent_mem := by decide
  file_ne_root := by decide
  folder_mem := by decide
  dir_components := by simp [IsComponent]
  file_components := by simp [IsComponent]

lemma twoTreeReversed_sort : twoTreeReversed.sort = twoTree := by
  have hdirs : twoTreeReversed.dirs.Perm twoTree.dirs := (List.Perm.swap _ _ _).cons _
  have hfiles : twoTreeReversed.files.Perm twoTree.files := List.Perm.refl _
  rw [Tree.sort_congr hdirs hfiles, twoTree_sort]

lemma twoDirectories_reverse_read :
    RomFsBuilder.fromDirectory 4 [] (.ok twoDirectories.reverse) = ok twoTreeReversed.builder := rfl

theorem fromDirectory_build_eq_iff_reverse : twoTree.builder.build = twoTreeReversed.builder.build ↔
    SameContents (.dir (.ok twoDirectories)) (.dir (.ok twoDirectories.reverse)) :=
  fromDirectory_build_eq_iff (twoDirectories_isHost (List.Perm.refl _)) (twoDirectories_isHost (List.reverse_perm _))
    twoDirectories_read twoDirectories_reverse_read ⟨_, _, twoDirectories_file⟩ (fits_of_sort_eq twoTree_sort)
    (fits_of_sort_eq twoTreeReversed_sort)

/-- No directory of the host but the first is without a file below it. -/
def Populated (root : Node ι) : Prop :=
  ∀ c ≠ [], (∃ listing, At root (hostPath c) (.dir listing)) →
    ∃ p data, p ≠ [] ∧ At root (hostPath (c ++ p)) (.file (.ok data))

/-- Adding the files of a directory one by one gives the image of the directory if and only if each of its
subdirectories has a file somewhere below it. -/
theorem fromDirectory_build_eq_addFiles {fuel : ℕ} {fsPath : HostPath} {listing : Listing ι}
    {added : List (Text × Bytes)} {b b' : RomFsBuilder} (hroot : IsHost (.dir listing))
    (hread : RomFsBuilder.fromDirectory fuel fsPath listing = ok b) (hadd : RomFsBuilder.addFiles added = ok b')
    (hadded : ∀ p data, (∃ path, (path, data) ∈ added ∧ pathComponents path = p) ↔
      At (.dir listing) (hostPath p) (.file (.ok data)))
    (hne : added ≠ []) (hfits : b.Fits) (hfits' : b'.Fits) :
    b.build = b'.build ↔ Populated (.dir listing) := by
  obtain ⟨t, rfl, hreading⟩ := fromDirectory_eq_ok hroot hread
  obtain ⟨-, t', rfl, hholds⟩ := RomFsBuilder.addFiles_eq_ok hadd
  have hmirrors := mirrors_of_reading hroot hreading
  have hmem : ∀ p data, (p, data) ∈ t'.files ↔ At (.dir listing) (hostPath p) (.file (.ok data)) := by
    intro p data
    rw [← hadded, hholds.files, List.mem_map]
    constructor
    · rintro ⟨e, he, heq⟩
      obtain ⟨hp, rfl⟩ := Prod.mk.inj heq
      exact ⟨e.1, he, hp⟩
    · rintro ⟨path, he, rfl⟩
      exact ⟨_, he, rfl⟩
  have hperm : t'.files.Perm t.files := by
    refine (List.perm_ext_iff_of_nodup (List.Nodup.of_map _ t'.files_nodup)
      (List.Nodup.of_map _ t.files_nodup)).mpr fun f => ?_
    rw [hmem f.1 f.2, hmirrors.files f.1 f.2]
  have hfiles' : t'.files ≠ [] := by
    rw [hholds.files]
    simpa using hne
  have hfiles : t.files ≠ [] := fun hnil => hfiles' (by simpa [hnil] using hperm)
  -- an implied directory has the file that implies it below itself
  have himplied : ∀ c, (∃ e ∈ added, c <+: (pathComponents e.1).dropLast) ↔
      ∃ p data, p ≠ [] ∧ (c ++ p, data) ∈ t'.files := by
    intro c
    constructor
    · rintro ⟨e, he, rest, hrest⟩
      have hfile : (pathComponents e.1, e.2) ∈ t'.files := by
        rw [hholds.files]
        exact List.mem_map_of_mem he
      have hroot' := t'.file_ne_root _ (List.mem_map_of_mem hfile)
      refine ⟨rest ++ [lastName (pathComponents e.1)], e.2, by simp, ?_⟩
      rwa [← List.append_assoc, hrest, dropLast_append_lastName hroot']
    · rintro ⟨p, data, hp, hfile⟩
      rw [hholds.files] at hfile
      obtain ⟨e, he, heq⟩ := List.mem_map.mp hfile
      obtain ⟨hpath, -⟩ := Prod.mk.inj heq
      exact ⟨e, he, p.dropLast, by rw [hpath, List.dropLast_append_of_ne_nil hp]⟩
  rw [Tree.build_eq_iff hfits hfits' hfiles, List.perm_ext_iff_of_nodup t.dirs_nodup t'.dirs_nodup]
  constructor
  · rintro ⟨hdirs, -⟩ c hc hdir
    rcases (hholds.dirs c).mp ((hdirs c).mp ((hmirrors.dirs c).mpr hdir)) with rfl | himplies
    · exact absurd rfl hc
    · obtain ⟨p, data, hp, hfile⟩ := (himplied c).mp himplies
      exact ⟨p, data, hp, (hmem _ _).mp hfile⟩
  · intro hpopulated
    refine ⟨fun c => ?_, hperm.symm⟩
    rw [hholds.dirs]
    constructor
    · intro hc
      by_cases hnil : c = []
      · exact Or.inl hnil
      · obtain ⟨p, data, hp, hat⟩ := hpopulated c hnil ((hmirrors.dirs c).mp hc)
        exact Or.inr ((himplied c).mpr ⟨p, data, hp, (hmem _ _).mpr hat⟩)
    · rintro (rfl | himplies)
      · exact Tree.nil_mem
      · obtain ⟨p, data, hp, hfile⟩ := (himplied c).mp himplies
        have hdir := t.folder_mem _ (List.mem_map_of_mem (hperm.mem_iff.mp hfile))
        rw [List.dropLast_append_of_ne_nil hp] at hdir
        exact Tree.mem_of_append_mem hdir

def populatedDirectory : List (Except Empty (Bytes × Except Empty (Node Empty))) :=
  [.ok (utf8 ['d'], .ok (.dir (.ok oneFile))), .ok (utf8 ['a'], .ok (.file (.ok [4])))]

def unpopulatedDirectory : List (Except Empty (Bytes × Except Empty (Node Empty))) :=
  populatedDirectory ++ [.ok (utf8 ['e'], .ok (.dir (.ok [])))]

lemma mem_unpopulatedDirectory {name : Bytes} {child : Node Empty} :
    .ok (name, .ok child) ∈ unpopulatedDirectory ↔ name = utf8 ['d'] ∧ child = .dir (.ok oneFile) ∨
      name = utf8 ['a'] ∧ child = .file (.ok [4]) ∨ name = utf8 ['e'] ∧ child = .dir (.ok []) := by
  simp only [unpopulatedDirectory, populatedDirectory, List.cons_append, List.nil_append, List.mem_cons,
    Except.ok.injEq, Prod.mk.injEq, List.not_mem_nil, or_false]

lemma isHost_of_sublist {entries : List (Except Empty (Bytes × Except Empty (Node Empty)))}
    (h : entries.Sublist unpopulatedDirectory) : IsHost (.dir (.ok entries)) := by
  have hnames : (names entries).Sublist (names unpopulatedDirectory) := h.filterMap _
  have hcomponents : ∀ name ∈ names unpopulatedDirectory, name ≠ [] ∧ 0x2f ∉ name := by decide
  refine isHost_dir (hnames.nodup (by decide)) (fun name hname => hcomponents name (hnames.subset hname))
    fun name child hmem => ?_
  rcases mem_unpopulatedDirectory.mp (h.subset hmem) with ⟨-, rfl⟩ | ⟨-, rfl⟩ | ⟨-, rfl⟩
  · exact oneFile_isHost
  · exact isHost_file _
  · exact isHost_dir (by decide) (by decide) (by simp)

lemma at_oneFile {p : List Text} {node : Node Empty} (h : At (.dir (.ok oneFile)) (hostPath p) node) :
    p = [] ∧ node = .dir (.ok oneFile) ∨ p = [['f']] ∧ node = .file (.ok [1, 2, 3]) := by
  cases p with
  | nil => exact Or.inl ⟨rfl, at_nil.mp h⟩
  | cons x p =>
    obtain ⟨child, hmem, hchild⟩ := at_cons.mp h
    simp only [oneFile, List.mem_singleton, Except.ok.injEq, Prod.mk.injEq] at hmem
    obtain ⟨hx, rfl⟩ := hmem
    obtain rfl := utf8_injective hx
    cases p with
    | nil => exact Or.inr ⟨rfl, at_nil.mp hchild⟩
    | cons y p => cases hchild

/-- The files of the two directories, added in another order than they are read. -/
def populatedFiles : List (Text × Bytes) := [(['/', 'd', '/', 'f'], [1, 2, 3]), (['/', 'a'], [4])]

lemma populatedFiles_at {entries : List (Except Empty (Bytes × Except Empty (Node Empty)))}
    (hsub : populatedDirectory ⊆ entries) (hsup : entries ⊆ unpopulatedDirectory) (p : List Text) (data : Bytes) :
    (∃ path, (path, data) ∈ populatedFiles ∧ pathComponents path = p) ↔
      At (.dir (.ok entries)) (hostPath p) (.file (.ok data)) := by
  have hnested : pathComponents ['/', 'd', '/', 'f'] = [['d'], ['f']] := by decide +kernel
  have hbeside : pathComponents ['/', 'a'] = [['a']] := by decide +kernel
  constructor
  · rintro ⟨path, hmem, rfl⟩
    simp only [populatedFiles, List.mem_cons, Prod.mk.injEq, List.not_mem_nil, or_false] at hmem
    rcases hmem with ⟨rfl, rfl⟩ | ⟨rfl, rfl⟩
    · rw [hnested]
      exact .there (hsub List.mem_cons_self) (.there List.mem_cons_self (.here _))
    · rw [hbeside]
      exact .there (hsub (List.mem_cons_of_mem _ List.mem_cons_self)) (.here _)
  · intro hat
    cases p with
    | nil =>
      have hroot := at_nil.mp hat
      cases hroot
    | cons x p =>
      obtain ⟨child, hmem, hchild⟩ := at_cons.mp hat
      rcases mem_unpopulatedDirectory.mp (hsup hmem) with ⟨hx, rfl⟩ | ⟨hx, rfl⟩ | ⟨-, rfl⟩
      · obtain rfl := utf8_injective hx
        rcases at_oneFile hchild with ⟨-, hfile⟩ | ⟨rfl, hfile⟩
        · cases hfile
        · cases hfile
          exact ⟨_, List.mem_cons_self, hnested⟩
      · obtain rfl := utf8_injective hx
        cases p with
        | nil =>
          have hfile := at_nil.mp hchild
          cases hfile
          exact ⟨_, List.mem_cons_of_mem _ List.mem_cons_self, hbeside⟩
        | cons y p => cases hchild
      · cases p with
        | nil =>
          have hdir := at_nil.mp hchild
          cases hdir
        | cons y p =>
          obtain ⟨grandchild, hnone, -⟩ := at_cons.mp hchild
          cases hnone

lemma populatedDirectory_populated : Populated (.dir (.ok populatedDirectory)) := by
  rintro c hc ⟨listing, hat⟩
  cases c with
  | nil => exact absurd rfl hc
  | cons x c =>
    obtain ⟨child, hmem, hchild⟩ := at_cons.mp hat
    simp only [populatedDirectory, List.mem_cons, Except.ok.injEq, Prod.mk.injEq, List.not_mem_nil, or_false] at hmem
    rcases hmem with ⟨hx, rfl⟩ | ⟨-, rfl⟩
    · obtain rfl := utf8_injective hx
      rcases at_oneFile hchild with ⟨rfl, -⟩ | ⟨-, hdir⟩
      · exact ⟨[['f']], [1, 2, 3], by simp, .there List.mem_cons_self (.there List.mem_cons_self (.here _))⟩
      · cases hdir
    · cases c with
      | nil =>
        have hdir := at_nil.mp hchild
        cases hdir
      | cons y c => cases hchild

lemma unpopulatedDirectory_not_populated : ¬Populated (.dir (.ok unpopulatedDirectory)) := by
  intro h
  have hdir : At (.dir (.ok unpopulatedDirectory)) (hostPath [['e']]) (.dir (.ok [])) :=
    .there (mem_unpopulatedDirectory.mpr (Or.inr (Or.inr ⟨rfl, rfl⟩))) (.here _)
  obtain ⟨p, data, -, hat⟩ := h [['e']] (by simp) ⟨_, hdir⟩
  obtain ⟨path, hmem, hpath⟩ := (populatedFiles_at (List.subset_append_left _ _) (List.Subset.refl _) _ data).mpr hat
  have hnone : ∀ e ∈ populatedFiles, (pathComponents e.1).head? ≠ some ['e'] := by decide +kernel
  exact hnone _ hmem (by rw [hpath]; rfl)

def populatedTree : Tree where
  dirs := [[], [['d']]]
  files := [([['a']], [4]), ([['d'], ['f']], [1, 2, 3])]
  root := rfl
  dirs_nodup := by decide
  files_nodup := by decide
  parent_mem := by decide
  file_ne_root := by decide
  folder_mem := by decide
  dir_components := by simp [IsComponent]
  file_components := by simp [IsComponent]

def unpopulatedTree : Tree where
  dirs := [[], [['d']], [['e']]]
  files := [([['a']], [4]), ([['d'], ['f']], [1, 2, 3])]
  root := rfl
  dirs_nodup := by decide
  files_nodup := by decide
  parent_mem := by decide
  file_ne_root := by decide
  folder_mem := by decide
  dir_components := by simp [IsComponent]
  file_components := by simp [IsComponent]

def addedTree : Tree where
  dirs := [[], [['d']]]
  files := [([['d'], ['f']], [1, 2, 3]), ([['a']], [4])]
  root := rfl
  dirs_nodup := by decide
  files_nodup := by decide
  parent_mem := by decide
  file_ne_root := by decide
  folder_mem := by decide
  dir_components := by simp [IsComponent]
  file_components := by simp [IsComponent]

lemma populatedTree_fits : populatedTree.builder.Fits := by
  have hsort : populatedTree.sort = populatedTree :=
    Tree.ext (List.mergeSort_of_pairwise (by decide)) (List.mergeSort_of_pairwise (by decide))
  refine populatedTree.fits_builder ?_ ?_ <;> rw [hsort]
  · exact ⟨by decide +kernel, by decide +kernel⟩
  · decide +kernel

lemma unpopulatedTree_fits : unpopulatedTree.builder.Fits := by
  have hsort : unpopulatedTree.sort = unpopulatedTree :=
    Tree.ext (List.mergeSort_of_pairwise (by decide)) (List.mergeSort_of_pairwise (by decide))
  refine unpopulatedTree.fits_builder ?_ ?_ <;> rw [hsort]
  · exact ⟨by decide +kernel, by decide +kernel⟩
  · decide +kernel

lemma addedTree_fits : addedTree.builder.Fits := by
  have hsort : addedTree.sort = populatedTree.sort := Tree.sort_congr (List.Perm.refl _) (List.Perm.swap _ _ _)
  obtain ⟨hfits, hsize⟩ := populatedTree.fits_sort populatedTree_fits
  exact addedTree.fits_builder (hsort ▸ hfits) (hsort ▸ hsize)

theorem fromDirectory_build_eq_addFiles_populated :
    RomFsBuilder.addFiles populatedFiles = ok addedTree.builder ∧
      RomFsBuilder.fromDirectory 4 [] (.ok populatedDirectory) = ok populatedTree.builder ∧
      populatedTree.builder.build = addedTree.builder.build ∧
      RomFsBuilder.fromDirectory 4 [] (.ok unpopulatedDirectory) = ok unpopulatedTree.builder ∧
      unpopulatedTree.builder.build ≠ addedTree.builder.build := by
  have hadd : RomFsBuilder.addFiles populatedFiles = ok addedTree.builder := rfl
  have hread : RomFsBuilder.fromDirectory 4 [] (.ok populatedDirectory) = ok populatedTree.builder := rfl
  have hread' : RomFsBuilder.fromDirectory 4 [] (.ok unpopulatedDirectory) = ok unpopulatedTree.builder := rfl
  have hsublist : populatedDirectory.Sublist unpopulatedDirectory := List.sublist_append_left _ _
  refine ⟨hadd, hread, ?_, hread', ?_⟩
  · exact (fromDirectory_build_eq_addFiles (isHost_of_sublist hsublist) hread hadd
      (populatedFiles_at (List.Subset.refl _) hsublist.subset) (List.cons_ne_nil _ _) populatedTree_fits
      addedTree_fits).mpr populatedDirectory_populated
  · exact mt (fromDirectory_build_eq_addFiles (isHost_of_sublist (List.Sublist.refl _)) hread' hadd
      (populatedFiles_at hsublist.subset (List.Subset.refl _)) (List.cons_ne_nil _ _) unpopulatedTree_fits
      addedTree_fits).mp unpopulatedDirectory_not_populated

end NxObject.Romfs
