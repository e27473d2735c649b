import NxObject.RomFsLookup
import NxObject.RomFsMirror

/-!
# Unpacking and packing again

A walk over an image lists its files. Packing what was listed gives an image that opens every path as before, and
from an image of this crate the same bytes.
-/
namespace NxObject

lemma Outcome.mapM_eq_ok {ε α β : Type} [Inhabited β] {l : List α} {f : α → Outcome ε β} {bs : List β}
    (h : l.mapM f = ok bs) : ∃ g : α → β, (∀ a ∈ l, f a = ok (g a)) ∧ bs = l.map g := by
  have hresults : ∀ a ∈ l, ∃ b, f a = ok b := by
    induction l generalizing bs with
    | nil => simp
    | cons a l ih =>
      rw [List.mapM_cons] at h
      obtain ⟨b, hb, h⟩ := bind_eq_ok.mp h
      obtain ⟨rest, hrest, -⟩ := bind_eq_ok.mp h
      exact List.forall_mem_cons.mpr ⟨⟨b, hb⟩, ih hrest⟩
  choose! g hg using hresults
  exact ⟨g, hg, ok.inj (h.symm.trans (mapM_eq_map hg))⟩

namespace Romfs
open Outcome

/-! ## Walks over any image -/

def listedFiles (visits : List Visit) : List (List Text × RomFsFile) :=
  visits.flatMap fun visit => visit.files.map fun file => (visit.path ++ [file.name], file)

lemma mem_listedFiles {visits : List Visit} {p : List Text} {file : RomFsFile} :
    (p, file) ∈ listedFiles visits ↔ ∃ visit ∈ visits, file ∈ visit.files ∧ visit.path ++ [file.name] = p := by
  simp only [listedFiles, List.mem_flatMap, List.mem_map, Prod.mk.injEq]
  constructor
  · rintro ⟨visit, hvisit, f, hf, hp, rfl⟩
    exact ⟨visit, hvisit, hf, hp⟩
  · rintro ⟨visit, hvisit, hf, hp⟩
    exact ⟨visit, hvisit, file, hf, hp, rfl⟩

lemma map_listedFiles (romfs : RomFs) (visits : List Visit) :
    ((listedFiles visits).map fun listed => (listed.1, listed.2.data romfs)) = visits.flatMap fun visit =>
      visit.files.map fun file => (visit.path ++ [file.name], file.data romfs) := by
  simp only [listedFiles, List.map_flatMap, List.map_map]
  rfl

namespace Visit
variable (visit : Visit)

lemma filterMap_asDir : (visit.listing.map Prod.snd).filterMap RomFsEntry.asDir = visit.dirs.map Prod.snd := by
  rw [Visit.dirs, List.filterMap_map, List.map_filterMap]
  refine List.filterMap_congr fun entry _ => ?_
  obtain ⟨offset, dir | file⟩ := entry <;> rfl

lemma filterMap_asFile : (visit.listing.map Prod.snd).filterMap RomFsEntry.asFile = visit.files := by
  rw [Visit.files, List.filterMap_map]
  refine List.filterMap_congr fun entry _ => ?_
  obtain ⟨offset, dir | file⟩ := entry <;> rfl

end Visit

namespace RomFs
variable {romfs : RomFs} {fuel : ℕ} {path : List Text} {offset : UInt32} {dir : RomFsDir} {visits : List Visit}

lemma walk_succ_eq_ok (h : romfs.walk (fuel + 1) path offset dir = ok visits) :
    ∃ (listing : List (UInt32 × RomFsEntry)) (walked : UInt32 × RomFsDir → List Visit),
      dir.entries.collect romfs fuel = ok (listing.map Prod.snd) ∧
      (∀ child ∈ (Visit.mk path offset listing).dirs,
        romfs.walk fuel (path ++ [child.2.name]) child.1 child.2 = ok (walked child)) ∧
      visits = ⟨path, offset, listing⟩ :: (Visit.mk path offset listing).dirs.flatMap walked := by
  rw [walk] at h
  obtain ⟨listing, hlisting, h⟩ := bind_eq_ok.mp h
  obtain ⟨below, hbelow, h⟩ := bind_eq_ok.mp h
  obtain ⟨walked, hwalked, rfl⟩ := mapM_eq_ok hbelow
  refine ⟨listing, walked, ?_, hwalked, (ok.inj h).symm⟩
  rw [DirIterator.collect_eq, hlisting]
  rfl

lemma paths_of_walk (h : romfs.walk fuel path offset dir = ok visits) :
    path ∈ visits.map (·.path) ∧ ∀ visit ∈ visits, path <+: visit.path := by
  induction fuel generalizing path offset dir visits with
  | zero => cases h
  | succ fuel ih =>
    obtain ⟨listing, walked, -, hwalked, rfl⟩ := walk_succ_eq_ok h
    refine ⟨by simp, fun visit hvisit => ?_⟩
    rcases List.mem_cons.mp hvisit with rfl | hvisit
    · exact List.prefix_rfl
    · obtain ⟨child, hchild, hmem⟩ := List.mem_flatMap.mp hvisit
      exact (List.prefix_append _ _).trans ((ih (hwalked child hchild)).2 visit hmem)

end RomFs

section Below
variable {visit : Visit} {walked : UInt32 × RomFsDir → List Visit} {name : Text} {file : RomFsFile}

/-- What is visited below a directory has the path of one of its subdirectories in front. -/
def Below (visit : Visit) (walked : UInt32 × RomFsDir → List Visit) : Prop :=
  ∀ child ∈ visit.dirs, ∀ v ∈ walked child, visit.path ++ [child.2.name] <+: v.path

lemma mem_listedFiles_concat (hbelow : Below visit walked) :
    (visit.path ++ [name], file) ∈ listedFiles (visit :: visit.dirs.flatMap walked) ↔
      file ∈ visit.files ∧ file.name = name := by
  rw [mem_listedFiles]
  constructor
  · rintro ⟨v, hv, hfile, hpath⟩
    obtain ⟨hparent, hname⟩ := List.append_inj' hpath rfl
    rcases List.mem_cons.mp hv with rfl | hv
    · exact ⟨hfile, List.singleton_inj.mp hname⟩
    · obtain ⟨child, hchild, hv⟩ := List.mem_flatMap.mp hv
      have hle := (hbelow child hchild v hv).length_le
      rw [hparent, List.length_append, List.length_singleton] at hle
      omega
  · rintro ⟨hfile, rfl⟩
    exact ⟨visit, List.mem_cons_self, hfile, rfl⟩

lemma mem_listedFiles_cons (hbelow : Below visit walked) {component : Text} {components : List Text} :
    (visit.path ++ name :: component :: components, file) ∈ listedFiles (visit :: visit.dirs.flatMap walked) ↔
      ∃ child ∈ visit.dirs, child.2.name = name ∧
        (visit.path ++ [name] ++ component :: components, file) ∈ listedFiles (walked child) := by
  have happend : visit.path ++ [name] ++ component :: components = visit.path ++ name :: component :: components := by
    simp
  simp only [mem_listedFiles, happend]
  constructor
  · rintro ⟨v, hv, hfile, hpath⟩
    rcases List.mem_cons.mp hv with rfl | hv
    · have hlen := congrArg List.length hpath
      simp only [List.length_append, List.length_cons, List.length_nil] at hlen
      omega
    · obtain ⟨child, hchild, hv⟩ := List.mem_flatMap.mp hv
      have hfront : visit.path ++ [child.2.name] <+: visit.path ++ name :: component :: components :=
        (hbelow child hchild v hv).trans (hpath ▸ List.prefix_append _ _)
      rw [List.prefix_append_right_inj, List.cons_prefix_cons] at hfront
      exact ⟨child, hchild, hfront.1, v, hv, hfile, hpath⟩
  · rintro ⟨child, hchild, -, v, hv, hfile, hpath⟩
    exact ⟨v, List.mem_cons_of_mem _ (List.mem_flatMap.mpr ⟨child, hchild, hv⟩), hfile, hpath⟩

lemma child_unique (hvisited : ∀ child ∈ visit.dirs, visit.path ++ [child.2.name] ∈ (walked child).map (·.path))
    (hnodup : ((visit :: visit.dirs.flatMap walked).map (·.path)).Nodup) {a b : UInt32 × RomFsDir} (ha : a ∈ visit.dirs)
    (hb : b ∈ visit.dirs) (hname : a.2.name = b.2.name) : a = b := by
  rw [List.map_cons, List.map_flatMap, List.nodup_cons, List.nodup_flatMap] at hnodup
  by_contra hne
  have hsymm : Std.Symm (Function.onFun List.Disjoint fun child => (walked child).map (·.path)) :=
    ⟨fun _ _ h => List.Disjoint.symm h⟩
  exact hnodup.2.2.forall ha hb hne (hvisited a ha) (hname ▸ hvisited b hb)

lemma nodup_walked (hdirs : ((visit :: visit.dirs.flatMap walked).map (·.path)).Nodup)
    (hfiles : ((listedFiles (visit :: visit.dirs.flatMap walked)).map Prod.fst).Nodup) {child : UInt32 × RomFsDir}
    (hchild : child ∈ visit.dirs) :
    ((walked child).map (·.path)).Nodup ∧ ((listedFiles (walked child)).map Prod.fst).Nodup := by
  rw [List.map_cons, List.map_flatMap, List.nodup_cons, List.nodup_flatMap] at hdirs
  rw [listedFiles, List.flatMap_cons, List.flatMap_assoc, List.map_append, List.map_flatMap, List.nodup_append,
    List.nodup_flatMap] at hfiles
  exact ⟨hdirs.2.1 child hchild, hfiles.2.1.1 child hchild⟩

lemma firstFile_eq_some (h : firstFile name (visit.listing.map Prod.snd) = some file) :
    file ∈ visit.files ∧ file.name = name := by
  rw [firstFile, visit.filterMap_asFile] at h
  exact ⟨List.mem_of_find?_eq_some h, beq_iff_eq.mp (List.find?_some h :)⟩

lemma firstFile_eq_none (h : firstFile name (visit.listing.map Prod.snd) = none) :
    ¬(file ∈ visit.files ∧ file.name = name) := by
  rw [firstFile, visit.filterMap_asFile] at h
  rintro ⟨hfile, rfl⟩
  simpa using List.find?_eq_none.mp h file hfile

lemma firstDir_eq_some {dir : RomFsDir} (h : firstDir name (visit.listing.map Prod.snd) = some dir) :
    ∃ child ∈ visit.dirs, child.2 = dir ∧ child.2.name = name := by
  rw [firstDir, visit.filterMap_asDir] at h
  obtain ⟨child, hchild, rfl⟩ := List.mem_map.mp (List.mem_of_find?_eq_some h)
  exact ⟨child, hchild, rfl, beq_iff_eq.mp (List.find?_some h :)⟩

lemma firstDir_eq_none (h : firstDir name (visit.listing.map Prod.snd) = none) {child : UInt32 × RomFsDir}
    (hchild : child ∈ visit.dirs) : child.2.name ≠ name := by
  rw [firstDir, visit.filterMap_asDir] at h
  simpa using List.find?_eq_none.mp h child.2 (List.mem_map_of_mem hchild)

end Below

namespace RomFs
variable {romfs : RomFs} {fuel : ℕ} {path : List Text} {offset : UInt32} {dir : RomFsDir} {visits : List Visit}

lemma descend_eq_ok_iff (hb : romfs.Bounded) (hwalk : romfs.walk fuel path offset dir = ok visits)
    (hdirs : (visits.map (·.path)).Nodup) (hfiles : ((listedFiles visits).map Prod.fst).Nodup) {turns : ℕ}
    (hle : fuel ≤ turns) {components : List Text} (hne : components ≠ []) (file : RomFsFile) :
    romfs.descend turns dir components = ok file ↔ (path ++ components, file) ∈ listedFiles visits := by
  induction fuel generalizing path offset dir visits components with
  | zero => cases hwalk
  | succ fuel ih =>
    obtain ⟨listing, walked, hcollect, hwalked, rfl⟩ := walk_succ_eq_ok hwalk
    generalize hvisit : Visit.mk path offset listing = visit at hdirs hfiles hwalked
    obtain rfl : visit.path = path := by rw [← hvisit]
    have hlisting : visit.listing = listing := by rw [← hvisit]
    rw [← hlisting] at hcollect
    have hbelow : Below visit walked := fun child hchild => (paths_of_walk (hwalked child hchild)).2
    obtain ⟨hltDirs, hltFiles, -⟩ := collect_eq_ok hb hcollect
    cases components with
    | nil => exact absurd rfl hne
    | cons name components =>
      cases components with
      | nil =>
        rw [mem_listedFiles_concat hbelow, descend]
        cases hfirst : firstFile name (visit.listing.map Prod.snd) with
        | some found =>
          have hfound := firstFile_eq_some hfirst
          rw [findFile_of_firstFile hb hcollect hfirst (by omega)]
          constructor
          · intro hfile
            rwa [← ok.inj hfile]
          · intro hfile
            have hsame := List.inj_on_of_nodup_map hfiles ((mem_listedFiles_concat hbelow).mpr hfound)
              ((mem_listedFiles_concat hbelow).mpr hfile) rfl
            rw [(Prod.mk.inj hsame).2]
        | none =>
          obtain ⟨e, he⟩ := exists_reports .fileNotFound (readFile_settled hb) hltFiles
          rw [findFile_of_missing hb hcollect hfirst he (by omega)]
          exact iff_of_false (fun hfile => by cases hfile) (firstFile_eq_none hfirst)
      | cons component components =>
        rw [mem_listedFiles_cons hbelow, descend]
        cases hfirst : firstDir name (visit.listing.map Prod.snd) with
        | some found =>
          obtain ⟨child, hchild, rfl, hname⟩ := firstDir_eq_some hfirst
          obtain ⟨hdirs', hfiles'⟩ := nodup_walked hdirs hfiles hchild
          rw [findDir_of_firstDir hb hcollect hfirst (by omega), ok_bind,
            ih (hwalked child hchild) hdirs' hfiles' (by omega) (List.cons_ne_nil _ _), hname]
          constructor
          · intro hfile
            exact ⟨child, hchild, hname, hfile⟩
          · rintro ⟨other, hother, hname', hfile⟩
            have hvisited := fun child hchild => (paths_of_walk (hwalked child hchild)).1
            rwa [child_unique hvisited hdirs hchild hother (hname.trans hname'.symm)]
        | none =>
          obtain ⟨e, he⟩ := exists_reports .dirNotFound (readDir_settled hb) hltDirs
          rw [findDir_of_missing hb hcollect hfirst he (by omega)]
          refine iff_of_false (fun hfile => by cases hfile) ?_
          rintro ⟨child, hchild, hname, -⟩
          exact firstDir_eq_none hfirst hchild hname

lemma openPath_eq_ok_iff (hb : romfs.Bounded) {root : RomFsDir} (hroot : romfs.rootDir = ok root)
    (hwalk : romfs.walk fuel [] offset root = ok visits) (hdirs : (visits.map (·.path)).Nodup)
    (hfiles : ((listedFiles visits).map Prod.fst).Nodup) {turns : ℕ} (hle : fuel ≤ turns) (query : Text)
    (file : RomFsFile) :
    romfs.openPath turns query = ok file ↔ (queryComponents query, file) ∈ listedFiles visits := by
  unfold queryComponents
  by_cases hquery : query.dropWhile (· == '/') = []
  · rw [if_pos hquery, openPath, if_pos hquery, mem_listedFiles]
    refine iff_of_false (fun hfile => by cases hfile) ?_
    rintro ⟨visit, -, -, hpath⟩
    simp at hpath
  · rw [if_neg hquery, romfs.openPath_eq_descend turns hroot hquery]
    exact descend_eq_ok_iff hb hwalk hdirs hfiles hle (List.splitOn_ne_nil _ _) file

/-- The path opens a file of these bytes. -/
def Opens (romfs : RomFs) (fuel : ℕ) (path : Text) (data : Bytes) : Prop :=
  ∃ file, romfs.openPath fuel path = ok file ∧ file.data romfs = ok data

end RomFs

/-- The files are those that the visits list, in any order and by paths of any spelling, with the data that is read
for them. -/
def Unpacks (romfs : RomFs) (visits : List Visit) (files : List (Text × Bytes)) : Prop :=
  (files.map fun e => (pathComponents e.1, ok e.2)).Perm
    ((listedFiles visits).map fun listed => (listed.1, listed.2.data romfs))

/-! ## Packing what was listed -/

namespace Tree
variable {t t' : Tree} {romfs : RomFs} {files : List (Text × Bytes)}

lemma opens_iff (h : t.Fits) (hs : t.Stores romfs) {fuel : ℕ} (hfuel : t.dirs.length + t.paths.length < fuel)
    (path : Text) (data : Bytes) : romfs.Opens fuel path data ↔ (queryComponents path, data) ∈ t.files := by
  unfold RomFs.Opens
  rw [openPath_at h hs hfuel path]
  constructor
  · rintro ⟨file, hfile, hdata⟩
    split_ifs at hfile with hroot hdir hpath
    obtain rfl := ok.inj hfile
    obtain ⟨f, hf, hfst⟩ := List.mem_map.mp hpath
    have hmem : (queryComponents path, f.2) ∈ t.files := by
      rw [← hfst]
      exact hf
    rw [data_at hs hpath, data_of_mem hmem] at hdata
    rwa [← ok.inj hdata]
  · intro hfile
    have hmem : queryComponents path ∈ t.paths := List.mem_map_of_mem hfile
    rw [if_neg (t.file_ne_root _ hmem), if_neg (not_not.mpr (t.folder_mem _ hmem)), if_neg (not_not.mpr hmem)]
    exact ⟨_, rfl, by rw [data_at hs hmem, data_of_mem hfile]⟩

section Listed
variable (hs : t.Stores romfs) {n : ℕ} (hdepth : t.Depth n)
include hs hdepth

lemma listedFiles_perm : ((listedFiles (t.visits n)).map fun listed => (listed.1, listed.2.data romfs)).Perm
    (t.files.map fun f => (f.1, ok f.2)) := by
  rw [map_listedFiles]
  exact visits_files hs hdepth

lemma listedFiles_nodup : ((listedFiles (t.visits n)).map Prod.fst).Nodup := by
  have hpaths := (listedFiles_perm hs hdepth).map Prod.fst
  rw [List.map_map, List.map_map] at hpaths
  exact hpaths.nodup_iff.mpr t.paths_nodup

end Listed

/-- A tree that files were added to has the directories that lead to its files, and no others. -/
lemma Holds.dirs_perm {added added' : List (Text × Bytes)} (h : t.Holds added) (h' : t'.Holds added')
    (hfiles : t.files.Perm t'.files) : t.dirs.Perm t'.dirs := by
  have himplied : ∀ {t : Tree} {added : List (Text × Bytes)}, t.Holds added →
      ∀ d, d ∈ t.dirs ↔ d = [] ∨ ∃ f ∈ t.files, d <+: f.1.dropLast := by
    intro t added h d
    rw [h.dirs, h.files]
    simp only [List.mem_map, exists_exists_and_eq_and]
  refine (List.perm_ext_iff_of_nodup t.dirs_nodup t'.dirs_nodup).mpr fun d => ?_
  rw [himplied h, himplied h']
  simp only [hfiles.mem_iff]

end Tree

lemma Unpacks.accepted {romfs : RomFs} {visits : List Visit} {files : List (Text × Bytes)}
    (h : Unpacks romfs visits files) (habsolute : ∀ e ∈ files, e.1.head? = some '/')
    (hnodup : ((listedFiles visits).map Prod.fst).Nodup) : Accepted files := by
  have hpaths := h.map Prod.fst
  rw [List.map_map, List.map_map] at hpaths
  refine ⟨fun e he => ⟨habsolute e he, ?_⟩, hpaths.nodup_iff.mpr hnodup⟩
  obtain ⟨listed, hlisted, hpath⟩ := List.mem_map.mp (hpaths.mem_iff.mp (List.mem_map_of_mem he))
  obtain ⟨visit, -, -, hname⟩ := mem_listedFiles.mp hlisted
  have hlast : visit.path ++ [listed.2.name] = pathComponents e.1 := hname.trans hpath
  exact hlast ▸ List.concat_ne_nil _ _

/-- Packing the files of any accepted image that a walk can list, if it visits no two directories and lists no two
files of one path, gives an image that opens the same paths with the same data. -/
theorem repack_opens {bytes : Bytes} {romfs : RomFs} (hread : RomFs.tryFromBytes bytes = ok romfs)
    (hlen : bytes.length < 2 ^ 63) {root : RomFsDir} (hroot : romfs.rootDir = ok root) {fuel : ℕ}
    {visits : List Visit} (hwalk : romfs.walk fuel [] 0 root = ok visits) (hdirs : (visits.map (·.path)).Nodup)
    (hpaths : ((listedFiles visits).map Prod.fst).Nodup) {files : List (Text × Bytes)}
    (hunpacks : Unpacks romfs visits files) (habsolute : ∀ e ∈ files, e.1.head? = some '/') (hne : files ≠ []) :
    ∃ b, RomFsBuilder.addFiles files = ok b ∧ (b.Fits →
      ∃ image romfs' turns, b.build = ok image ∧ RomFs.tryFromBytes image = ok romfs' ∧
        ∀ fuel ≥ turns, ∀ path data, romfs'.Opens fuel path data ↔ romfs.Opens fuel path data) := by
  have hb := bounded_of_tryFromBytes hread hlen
  obtain ⟨t, hadd, hholds⟩ := RomFsBuilder.addFiles_of_accepted (hunpacks.accepted habsolute hpaths)
  refine ⟨t.builder, hadd, fun hfits => ?_⟩
  obtain ⟨hsort, hsize⟩ := t.fits_sort hfits
  have hfiles : t.files ≠ [] := by
    rw [hholds.files]
    simpa using hne
  refine ⟨t.sort.image, t.sort.romfs, max fuel (t.sort.dirs.length + t.sort.paths.length + 1),
    Tree.build_builder hfiles hsize, Tree.tryFromBytes_image hsize, fun turns hturns path data => ?_⟩
  rw [Tree.opens_iff hsort (Tree.stores_romfs hsize) (le_of_max_le_right hturns)]
  calc (queryComponents path, data) ∈ t.sort.files
      ↔ (queryComponents path, data) ∈ t.files := t.sortedFiles_perm.mem_iff
    _ ↔ (queryComponents path, (ok data : Outcome FromBytesError Bytes)) ∈
          files.map fun e => (pathComponents e.1, ok e.2) := by simp [hholds.files]
    _ ↔ (queryComponents path, ok data) ∈ (listedFiles visits).map fun listed => (listed.1, listed.2.data romfs) :=
      hunpacks.mem_iff
    _ ↔ romfs.Opens turns path data := by
      simp only [RomFs.Opens, RomFs.openPath_eq_ok_iff hb hroot hwalk hdirs hpaths (le_of_max_le_left hturns),
        List.mem_map, Prod.exists, Prod.mk.injEq]
      constructor
      · rintro ⟨_, file, hfile, rfl, hdata⟩
        exact ⟨file, hfile, hdata⟩
      · rintro ⟨file, hfile, hdata⟩
        exact ⟨_, file, hfile, rfl, hdata⟩

/-- The files of several directories in the order of an image, and a directory with nothing in it. -/
def emptyDirTree : Tree where
  dirs := [[], [['b']], [['b'], ['c']], [['d']], [['e']]]
  files := nestedSorted.files
  root := rfl
  dirs_nodup := by decide
  files_nodup := nestedSorted.files_nodup
  parent_mem := by decide
  file_ne_root := nestedSorted.file_ne_root
  folder_mem := by decide
  dir_components := by simp [IsComponent]
  file_components := nestedSorted.file_components

theorem repack_opens_emptyDir : ∃ visits image romfs' turns,
    Unpacks emptyDirTree.romfs visits nestedFiles ∧ nestedTree.builder.build = ok image ∧
      RomFs.tryFromBytes image = ok romfs' ∧
      ∀ fuel ≥ turns, ∀ path data, romfs'.Opens fuel path data ↔ emptyDirTree.romfs.Opens fuel path data := by
  have hfits : emptyDirTree.Fits := ⟨by decide +kernel, by decide +kernel⟩
  have hsize : emptyDirTree.imageSize < 2 ^ 63 := by decide +kernel
  have hs := Tree.stores_romfs hsize
  obtain ⟨n, hdepth⟩ := emptyDirTree.exists_depth
  obtain ⟨turns, hwalk⟩ := Tree.walk_root hfits hs hdepth
  have hunpacks : Unpacks emptyDirTree.romfs (emptyDirTree.visits n) nestedFiles := by
    have hnested : (nestedFiles.map fun e => (pathComponents e.1, e.2)).Perm emptyDirTree.files := by decide
    have hreadable := hnested.map fun f => (f.1, (ok f.2 : Outcome FromBytesError Bytes))
    rw [List.map_map] at hreadable
    exact hreadable.trans (Tree.listedFiles_perm hs hdepth).symm
  have hdirs : ((emptyDirTree.visits n).map (·.path)).Nodup := by
    rw [Tree.visits_path]
    exact Tree.below_nodup n []
  have hlen : emptyDirTree.image.length < 2 ^ 63 := by rwa [Tree.image_length]
  obtain ⟨b, hadd, hrest⟩ := repack_opens (Tree.tryFromBytes_image hsize) hlen (Tree.rootDir_at hfits hs)
    (hwalk turns le_rfl) hdirs (Tree.listedFiles_nodup hs hdepth) hunpacks (by decide) (by decide)
  obtain rfl := ok.inj (nestedFiles_added.symm.trans hadd)
  obtain ⟨image, romfs', turns', hrest⟩ := hrest nestedTree_fits
  exact ⟨emptyDirTree.visits n, image, romfs', turns', hunpacks, hrest⟩

/-- Packing what a walk lists in the image of added files gives the image again. -/
theorem repack_build {added : List (Text × Bytes)} {b : RomFsBuilder} (hne : added ≠ [])
    (hadd : RomFsBuilder.addFiles added = ok b) (hfits : b.Fits) :
    ∃ image romfs root visits turns, b.build = ok image ∧ RomFs.tryFromBytes image = ok romfs ∧
      romfs.rootDir = ok root ∧ (∀ fuel ≥ turns, romfs.walk fuel [] 0 root = ok visits) ∧
      ∀ files, Unpacks romfs visits files → (∀ e ∈ files, e.1.head? = some '/') →
        ∃ b', RomFsBuilder.addFiles files = ok b' ∧ b'.build = ok image := by
  obtain ⟨haccepted, t, rfl, hholds⟩ := RomFsBuilder.addFiles_eq_ok hadd
  obtain ⟨hsort, hsize⟩ := t.fits_sort hfits
  have hfiles : t.files ≠ [] := by
    rw [hholds.files]
    simpa using hne
  have hs := Tree.stores_romfs hsize
  obtain ⟨n, hdepth⟩ := t.sort.exists_depth
  obtain ⟨turns, hwalk⟩ := Tree.walk_root hsort hs hdepth
  refine ⟨t.sort.image, t.sort.romfs, t.sort.dirHandle [], t.sort.visits n, turns, Tree.build_builder hfiles hsize,
    Tree.tryFromBytes_image hsize, Tree.rootDir_at hsort hs, hwalk, fun files hunpacks habsolute => ?_⟩
  have hlisted := (Tree.listedFiles_perm hs hdepth).trans (t.sortedFiles_perm.map _)
  have hreadable : (files.map fun e => (pathComponents e.1, (ok e.2 : Outcome FromBytesError Bytes))) =
      (files.map fun e => (pathComponents e.1, e.2)).map fun f => (f.1, ok f.2) := by
    rw [List.map_map]
    rfl
  have hperm : (files.map fun e => (pathComponents e.1, e.2)).Perm t.files :=
    (List.map_perm_map_iff Tree.readable_injective).mp (hreadable ▸ hunpacks.trans hlisted)
  obtain ⟨t', hadd', hholds'⟩ := RomFsBuilder.addFiles_of_accepted (hunpacks.accepted habsolute (Tree.listedFiles_nodup hs hdepth))
  have hfiles' : t'.files.Perm t.files := hholds'.files ▸ hperm
  refine ⟨t'.builder, hadd', ?_⟩
  rw [Tree.build_builder_congr (hholds'.dirs_perm hholds hfiles') hfiles', Tree.build_builder hfiles hsize]

theorem repack_build_nested : ∃ image romfs root visits turns, nestedTree.builder.build = ok image ∧
    RomFs.tryFromBytes image = ok romfs ∧ romfs.rootDir = ok root ∧
    (∀ fuel ≥ turns, romfs.walk fuel [] 0 root = ok visits) ∧
    ∀ files, Unpacks romfs visits files → (∀ e ∈ files, e.1.head? = some '/') →
      ∃ b', RomFsBuilder.addFiles files = ok b' ∧ b'.build = ok image :=
  repack_build (by decide) nestedFiles_added nestedTree_fits

end Romfs
end NxObject
