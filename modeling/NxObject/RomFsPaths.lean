import NxObject.RomFsOpen

/-!
# The paths of the writer and of the reader

Adding a file drops every empty component of its path, opening one drops those in front only. A path is
opened as it was added exactly if nothing else is left to drop.
-/
namespace NxObject.Romfs
open Outcome

/-- Behind its leading slashes a path has an empty component: a repeated or a trailing slash. -/
def HasEmptyComponent (path : Text) : Prop := [] ∈ queryComponents path

instance (path : Text) : Decidable (HasEmptyComponent path) := inferInstanceAs (Decidable (_ ∈ _))

lemma filter_splitOn_dropWhile (path : Text) :
    (path.splitOn '/').filter (· ≠ []) = ((path.dropWhile (· == '/')).splitOn '/').filter (· ≠ []) := by
  induction path with
  | nil => rfl
  | cons c path ih =>
    by_cases hc : c = '/'
    · subst hc
      have hsplit : (('/' :: path).splitOn '/') = [] :: path.splitOn '/' :=
        List.splitOnP_cons_eq_if_modifyHead '/' path
      rw [hsplit, List.filter_cons_of_neg (by simp), ih, List.dropWhile_cons_of_pos (by simp)]
    · rw [List.dropWhile_cons_of_neg (by simpa using hc)]

lemma pathComponents_eq_filter {path : Text} (h : path.head? = some '/') :
    pathComponents path = (queryComponents path).filter (· ≠ []) := by
  obtain ⟨rest, rfl⟩ := List.head?_eq_some_iff.mp h
  rw [pathComponents, List.tail_cons, filter_splitOn_dropWhile, queryComponents,
    List.dropWhile_cons_of_pos (by simp)]
  split_ifs with hnil
  · rw [hnil]
    rfl
  · rfl

lemma pathComponents_eq_iff {path : Text} (h : path.head? = some '/') :
    pathComponents path = queryComponents path ↔ ¬HasEmptyComponent path := by
  rw [pathComponents_eq_filter h, List.filter_eq_self, HasEmptyComponent]
  constructor
  · intro hall hmem
    simpa using hall [] hmem
  · intro hnot x hx
    rw [decide_eq_true_iff]
    rintro rfl
    exact hnot hx

/-- The image is accepted, and opening the path in it finds a file of these bytes. -/
def OpensTo (image : Bytes) (path : Text) (data : Bytes) : Prop :=
  ∃ romfs, RomFs.tryFromBytes image = ok romfs ∧
    ∃ turns, ∀ fuel ≥ turns, ∃ file, romfs.openPath fuel path = ok file ∧ file.data romfs = ok data

section Built
variable {added : List (Text × Bytes)} {b : RomFsBuilder} {image : Bytes} {path : Text} {data : Bytes}
  (hadd : RomFsBuilder.addFiles added = ok b) (hfits : b.Fits) (hbuild : b.build = ok image)
include hadd hfits hbuild

lemma exists_tree : ∃ t : Tree, t.Holds added ∧ t.sort.Fits ∧ t.sort.imageSize < 2 ^ 63 ∧ image = t.sort.image := by
  obtain ⟨-, t, rfl, hholds⟩ := RomFsBuilder.addFiles_eq_ok hadd
  obtain ⟨hsort, hsize⟩ := t.fits_sort hfits
  have hfiles : t.files ≠ [] := by
    intro hnil
    rw [RomFsBuilder.build, show t.builder.files.isEmpty = true by simp [Tree.builder, hnil]] at hbuild
    cases hbuild
  rw [Tree.build_builder hfiles hsize] at hbuild
  exact ⟨t, hholds, hsort, hsize, (ok.inj hbuild).symm⟩

lemma opensTo_of_eq (hmem : (path, data) ∈ added) (heq : pathComponents path = queryComponents path) :
    OpensTo image path data := by
  obtain ⟨t, hholds, hsort, hsize, rfl⟩ := exists_tree hadd hfits hbuild
  have hs := Tree.stores_romfs hsize
  have hpath : queryComponents path ∈ t.sort.paths :=
    (Tree.mem_sort_paths hholds _).mpr ⟨_, hmem, heq⟩
  have hdata : t.sort.data (queryComponents path) = data := heq ▸ Tree.sort_data hholds hmem
  refine ⟨t.sort.romfs, Tree.tryFromBytes_image hsize, t.sort.dirs.length + t.sort.paths.length + 1,
    fun fuel hfuel => ?_⟩
  have hopen := Tree.openPath_at hsort hs (show _ < fuel by omega) path
  rw [if_neg (t.sort.file_ne_root _ hpath), if_neg (not_not.mpr (t.sort.folder_mem _ hpath)),
    if_neg (not_not.mpr hpath)] at hopen
  exact ⟨_, hopen, by rw [Tree.data_at hs hpath, hdata]⟩

lemma not_opensTo_of_hasEmptyComponent (hempty : HasEmptyComponent path) : ¬OpensTo image path data := by
  obtain ⟨t, hholds, hsort, hsize, rfl⟩ := exists_tree hadd hfits hbuild
  rintro ⟨romfs, hread, turns, hopens⟩
  obtain rfl := ok.inj ((Tree.tryFromBytes_image hsize).symm.trans hread)
  have hpath : queryComponents path ∉ t.sort.paths := by
    intro hmem
    obtain ⟨e, -, heq⟩ := (Tree.mem_sort_paths hholds _).mp hmem
    rw [HasEmptyComponent, ← heq, pathComponents] at hempty
    simpa using List.of_mem_filter hempty
  obtain ⟨file, hok, -⟩ := hopens (max turns (t.sort.dirs.length + t.sort.paths.length + 1)) (le_max_left _ _)
  rw [Tree.openPath_at hsort (Tree.stores_romfs hsize)
    (lt_of_lt_of_le (Nat.lt_succ_self _) (le_max_right _ _)), if_pos hpath] at hok
  split_ifs at hok

end Built

/-- In the image built after any further files, a path opens to the bytes it was added with if and only if
it has no empty component. -/
theorem opensTo_iff {before after : List (Text × Bytes)} {path : Text} {data : Bytes} {b : RomFsBuilder}
    {image : Bytes} (hadd : RomFsBuilder.addFiles (before ++ (path, data) :: after) = ok b) (hfits : b.Fits)
    (hbuild : b.build = ok image) : OpensTo image path data ↔ ¬HasEmptyComponent path := by
  have hmem : (path, data) ∈ before ++ (path, data) :: after :=
    List.mem_append_right _ List.mem_cons_self
  obtain ⟨hacc, -⟩ := RomFsBuilder.addFiles_eq_ok hadd
  constructor
  · exact fun hopens hempty => not_opensTo_of_hasEmptyComponent hadd hfits hbuild hempty hopens
  · intro hempty
    exact opensTo_of_eq hadd hfits hbuild hmem
      ((pathComponents_eq_iff (hacc.absolute _ hmem).1).mpr hempty)

theorem opensTo_iff_single : ∃ b image, RomFsBuilder.addFiles [(['/', '/', 'a'], [7])] = ok b ∧
    b.build = ok image ∧ (OpensTo image ['/', '/', 'a'] [7] ↔ ¬HasEmptyComponent ['/', '/', 'a']) := by
  obtain ⟨b, hadd, hfits⟩ : ∃ b, RomFsBuilder.addFiles [(['/', '/', 'a'], [7])] = ok b ∧ b.Fits := by
    refine ⟨_, rfl, ?_, ?_, ?_⟩ <;> decide +kernel
  obtain ⟨image, hbuild⟩ := RomFsBuilder.exists_build (List.cons_ne_nil _ _) hadd hfits
  have hadd' : RomFsBuilder.addFiles ([] ++ (['/', '/', 'a'], [7]) :: []) = ok b := hadd
  exact ⟨b, image, hadd, hbuild, opensTo_iff hadd' hfits hbuild⟩

/-- A path with a trailing slash is added, and does not open. -/
theorem trailingSlash_not_opensTo : ∃ b image, RomFsBuilder.addFiles [(['/', 'a', '/'], [7])] = ok b ∧
    b.build = ok image ∧ ¬OpensTo image ['/', 'a', '/'] [7] := by
  obtain ⟨b, hadd, hfits⟩ : ∃ b, RomFsBuilder.addFiles [(['/', 'a', '/'], [7])] = ok b ∧ b.Fits := by
    refine ⟨_, rfl, ?_, ?_, ?_⟩ <;> decide +kernel
  obtain ⟨image, hbuild⟩ := RomFsBuilder.exists_build (List.cons_ne_nil _ _) hadd hfits
  exact ⟨b, image, hadd, hbuild, not_opensTo_of_hasEmptyComponent hadd hfits hbuild (by decide)⟩

end NxObject.Romfs
