import NxObject.HostTree
import NxObject.Pfs0Roundtrip

/-!
# PFS0 archives of host directories

`from_directory` adds the regular files of one directory of the host. Subdirectories, symbolic links and what
else the directory lists are skipped, and files whose names an archive cannot hold are refused.
-/
namespace NxObject.Pfs
open Outcome Host

variable {ι ε : Type}

inductive FromDirectoryError (ι : Type) where
  | io (path : HostPath) (source : ι)
  | invalidFileName (path : HostPath)
  | addFile (source : AddFileError)

/-- One entry of the directory: the files that have been read, with the one it stands for. -/
def readEntry (fsPath : HostPath) (files : List FileEntry) (entry : Except ι (Bytes × Except ι (Node ι))) :
    Outcome (FromDirectoryError ι) (List FileEntry) :=
  match entry with
  | .error source => err (.io fsPath source)
  | .ok (fileName, .error source) => err (.io (fsPath ++ [fileName]) source)
  | .ok (fileName, .ok (.file data)) =>
      match fromUtf8 fileName with
      | none => err (.invalidFileName (fsPath ++ [fileName]))
      | some name =>
          match data with
          | .error source => err (.io (fsPath ++ [fileName]) source)
          | .ok data => ok (files ++ [⟨name, data⟩])
  | .ok (_, .ok _) => ok files

/-- Add every file directly inside a directory, where reading `path` yields `listing`. -/
def Pfs0Builder.fromDirectory (path : HostPath) (listing : Listing ι) :
    Outcome (FromDirectoryError ι) Pfs0Builder :=
  match listing with
  | .error source => err (.io path source)
  | .ok entries => do
      let files ← entries.foldlM (readEntry path) []
      let files := files.mergeSort fun f g => textLe f.name g.name
      files.foldlM (fun (b : Pfs0Builder) f => mapErr .addFile (b.addFile f.name f.data)) {}

/-! ## What is refused -/

/-- An entry that cannot be packed, and the error that says so. The name of a file is rejected as it would be
in an empty archive. -/
inductive RefusedEntry (fsPath : HostPath) :
    Except ι (Bytes × Except ι (Node ι)) → FromDirectoryError ι → Prop where
  | unread (source : ι) : RefusedEntry fsPath (.error source) (.io fsPath source)
  | untyped (name : Bytes) (source : ι) :
      RefusedEntry fsPath (.ok (name, .error source)) (.io (fsPath ++ [name]) source)
  | undecoded (name : Bytes) (data : Except ι Bytes) (h : fromUtf8 name = none) :
      RefusedEntry fsPath (.ok (name, .ok (.file data))) (.invalidFileName (fsPath ++ [name]))
  | file (name : Bytes) (source : ι) :
      RefusedEntry fsPath (.ok (name, .ok (.file (.error source)))) (.io (fsPath ++ [name]) source)
  | rejected (fileName : Bytes) (name : Text) (data : Bytes) (e : AddFileError) (hname : fromUtf8 fileName = some name)
      (h : Pfs0Builder.addFile {} name data = err e) :
      RefusedEntry fsPath (.ok (fileName, .ok (.file (.ok data)))) (.addFile e)

def Lists (entries : List (Except ι (Bytes × Except ι (Node ι)))) (f : FileEntry) : Prop :=
  Except.ok (utf8 f.name, Except.ok (.file (.ok f.data))) ∈ entries

/-! ## Reading -/

def filesOf : Except ι (Bytes × Except ι (Node ι)) → List FileEntry
  | .ok (name, .ok (.file (.ok data))) => ((fromUtf8 name).map fun name => ⟨name, data⟩).toList
  | _ => []

lemma mem_filesOf {entry : Except ι (Bytes × Except ι (Node ι))} {f : FileEntry} :
    f ∈ filesOf entry ↔ entry = .ok (utf8 f.name, .ok (.file (.ok f.data))) := by
  constructor
  · intro h
    unfold filesOf at h
    split at h
    · obtain ⟨x, hx, rfl⟩ := Option.map_eq_some_iff.mp (Option.mem_toList.mp h)
      rw [utf8_of_fromUtf8 hx]
    · cases h
  · rintro rfl
    rw [filesOf, fromUtf8_utf8]
    exact List.mem_singleton_self _

/-- An entry is refused, or what it stands for is read. Then only its name may still be rejected. -/
lemma readEntry_cases (fsPath : HostPath) (files : List FileEntry) (entry : Except ι (Bytes × Except ι (Node ι))) :
    (∃ e, readEntry fsPath files entry = err e ∧ RefusedEntry fsPath entry e) ∨
    (readEntry fsPath files entry = ok (files ++ filesOf entry) ∧ ∀ e, RefusedEntry fsPath entry e →
      ∃ f ∈ filesOf entry, ∃ e', Pfs0Builder.addFile {} f.name f.data = err e') := by
  cases entry with
  | error source => exact Or.inl ⟨_, rfl, .unread source⟩
  | ok entry =>
    obtain ⟨name, node⟩ := entry
    cases node with
    | error source => exact Or.inl ⟨_, rfl, .untyped name source⟩
    | ok node =>
      cases node with
      | file data =>
        cases hdecode : fromUtf8 name with
        | none => exact Or.inl ⟨_, by simp only [readEntry, hdecode], .undecoded name data hdecode⟩
        | some x =>
          obtain rfl := utf8_of_fromUtf8 hdecode
          cases data with
          | error source => exact Or.inl ⟨_, by simp only [readEntry, hdecode], .file (utf8 x) source⟩
          | ok data =>
            refine Or.inr ⟨by simp only [readEntry, filesOf, hdecode, Option.map_some, Option.toList_some], ?_⟩
            intro e he
            cases he with
            | undecoded _ _ hnone =>
              rw [hdecode] at hnone
              cases hnone
            | rejected _ y data e hname h =>
              exact ⟨⟨y, data⟩, mem_filesOf.mpr (by rw [utf8_of_fromUtf8 hname]), e, h⟩
      | dir listing => exact Or.inr ⟨by simp only [readEntry, filesOf, List.append_nil], by rintro e ⟨⟩⟩
      | symlink => exact Or.inr ⟨by simp only [readEntry, filesOf, List.append_nil], by rintro e ⟨⟩⟩
      | other => exact Or.inr ⟨by simp only [readEntry, filesOf, List.append_nil], by rintro e ⟨⟩⟩

lemma foldlM_readEntry (fsPath : HostPath) (files : List FileEntry)
    (entries : List (Except ι (Bytes × Except ι (Node ι)))) :
    (∃ e, entries.foldlM (readEntry fsPath) files = err e ∧ ∃ entry ∈ entries, RefusedEntry fsPath entry e) ∨
    (entries.foldlM (readEntry fsPath) files = ok (files ++ entries.flatMap filesOf) ∧
      ∀ entry ∈ entries, ∀ e, RefusedEntry fsPath entry e →
        ∃ f ∈ entries.flatMap filesOf, ∃ e', Pfs0Builder.addFile {} f.name f.data = err e') := by
  induction entries generalizing files with
  | nil => exact Or.inr ⟨by simp, by simp⟩
  | cons entry entries ih =>
    rw [List.foldlM_cons]
    rcases readEntry_cases fsPath files entry with ⟨e, herr, he⟩ | ⟨hok, hrejected⟩
    · rw [herr]
      exact Or.inl ⟨e, rfl, entry, List.mem_cons_self, he⟩
    · rw [hok, ok_bind]
      rcases ih (files ++ filesOf entry) with ⟨e, herr, entry', hmem, he⟩ | ⟨hok, hrejected'⟩
      · exact Or.inl ⟨e, herr, entry', List.mem_cons_of_mem _ hmem, he⟩
      · refine Or.inr ⟨by rw [hok, List.flatMap_cons, List.append_assoc], fun entry' hmem e he => ?_⟩
        rw [List.flatMap_cons]
        rcases List.mem_cons.mp hmem with rfl | hmem
        · obtain ⟨f, hf, hadd⟩ := hrejected e he
          exact ⟨f, List.mem_append_left _ hf, hadd⟩
        · obtain ⟨f, hf, hadd⟩ := hrejected' entry' hmem e he
          exact ⟨f, List.mem_append_right _ hf, hadd⟩

/-! ## Adding -/

lemma addFile_cases (b : Pfs0Builder) (f : FileEntry) (hnew : f.name ∉ b.files.map FileEntry.name) :
    (ValidName f.name ∧ b.addFile f.name f.data = ok ⟨b.files ++ [f]⟩) ∨
    ∃ e, b.addFile f.name f.data = err e ∧ Pfs0Builder.addFile {} f.name f.data = err e := by
  have hany : (b.files.any fun g => g.name = f.name) = false := by
    rw [List.any_eq_false]
    intro g hg
    rw [decide_eq_true_eq]
    intro hname
    exact hnew (hname ▸ List.mem_map_of_mem hg)
  by_cases hvalid : ValidName f.name
  · exact Or.inl ⟨hvalid, addFile_eq_ok.mpr ⟨hvalid, hnew, rfl⟩⟩
  · refine Or.inr ?_
    rw [Pfs0Builder.addFile, Pfs0Builder.addFile, hany]
    split_ifs with hempty hnull hsep
    · exact ⟨_, rfl, rfl⟩
    · exact ⟨_, rfl, rfl⟩
    · exact ⟨_, rfl, rfl⟩
    all_goals exact absurd ⟨hempty, hnull, not_or.mp hsep⟩ hvalid

lemma foldlM_addFile {files : List FileEntry} (before : List FileEntry)
    (hnodup : ((before ++ files).map FileEntry.name).Nodup) :
    (files.foldlM (fun (b : Pfs0Builder) f => mapErr FromDirectoryError.addFile (b.addFile f.name f.data)) ⟨before⟩ =
        (ok ⟨before ++ files⟩ : Outcome (FromDirectoryError ι) _) ∧ ∀ f ∈ files, ValidName f.name) ∨
    ∃ f ∈ files, ∃ e, Pfs0Builder.addFile {} f.name f.data = err e ∧
      files.foldlM (fun (b : Pfs0Builder) f => mapErr FromDirectoryError.addFile (b.addFile f.name f.data)) ⟨before⟩ =
        (err (.addFile e) : Outcome (FromDirectoryError ι) _) := by
  induction files generalizing before with
  | nil => exact Or.inl ⟨by simp, by simp⟩
  | cons f files ih =>
    have hnew : f.name ∉ before.map FileEntry.name := by
      rw [List.map_append, List.map_cons, List.nodup_append] at hnodup
      exact fun hmem => hnodup.2.2 _ hmem _ List.mem_cons_self rfl
    rw [List.foldlM_cons]
    rcases addFile_cases ⟨before⟩ f hnew with ⟨hvalid, hok⟩ | ⟨e, herr, hreject⟩
    · rw [hok, mapErr_ok, ok_bind]
      rw [List.append_cons] at hnodup
      rcases ih (before ++ [f]) hnodup with ⟨hok, hvalids⟩ | ⟨g, hg, e, hreject, herr⟩
      · exact Or.inl ⟨by rw [hok, ← List.append_cons], List.forall_mem_cons.mpr ⟨hvalid, hvalids⟩⟩
      · exact Or.inr ⟨g, List.mem_cons_of_mem _ hg, e, hreject, herr⟩
    · exact Or.inr ⟨f, List.mem_cons_self, e, hreject, by rw [herr]; rfl⟩

lemma filesOf_sublist (entries : List (Except ι (Bytes × Except ι (Node ι)))) :
    ((entries.flatMap filesOf).map fun f => utf8 f.name).Sublist (names entries) := by
  induction entries with
  | nil => exact List.Sublist.slnil
  | cons entry entries ih =>
    rw [List.flatMap_cons, List.map_append, names_cons]
    refine List.Sublist.append ?_ ih
    cases hfiles : filesOf entry with
    | nil => exact List.nil_sublist _
    | cons f rest =>
      have hf : f ∈ filesOf entry := hfiles ▸ List.mem_cons_self
      obtain rfl := mem_filesOf.mp hf
      rw [filesOf, fromUtf8_utf8] at hfiles
      cases hfiles
      exact List.Sublist.refl _

/-! ## The archive of a directory -/

section Directory
variable {fsPath : HostPath} {entries : List (Except ι (Bytes × Except ι (Node ι)))}

lemma mem_flatMap_filesOf {f : FileEntry} : f ∈ entries.flatMap filesOf ↔ Lists entries f := by
  rw [List.mem_flatMap, Lists]
  constructor
  · rintro ⟨entry, hentry, hf⟩
    exact mem_filesOf.mp hf ▸ hentry
  · intro h
    exact ⟨_, h, mem_filesOf.mpr rfl⟩

/-- The builder has the regular files that a directory lists, in the order of their names. -/
structure Mirrors (b : Pfs0Builder) (entries : List (Except ι (Bytes × Except ι (Node ι)))) : Prop where
  files : ∀ f, f ∈ b.files ↔ Lists entries f
  addable : Addable b.files
  sorted : b.files.Pairwise fun f g => textLe f.name g.name = true

lemma fromDirectory_cases (fsPath : HostPath) (hroot : IsHost (.dir (.ok entries))) :
    (∃ e, Pfs0Builder.fromDirectory fsPath (.ok entries) = err e ∧
      ∃ entry ∈ entries, RefusedEntry fsPath entry e) ∨
    ∃ b, Pfs0Builder.fromDirectory fsPath (.ok entries) = ok b ∧ Mirrors b entries ∧
      ∀ entry ∈ entries, ∀ e, RefusedEntry fsPath entry e →
        ∃ f ∈ b.files, ∃ e', Pfs0Builder.addFile {} f.name f.data = err e' := by
  rcases foldlM_readEntry fsPath [] entries with ⟨e, herr, hentry⟩ | ⟨hok, hrejected⟩
  · exact Or.inl ⟨e, by rw [Pfs0Builder.fromDirectory, herr]; rfl, hentry⟩
  · set read := entries.flatMap filesOf with hread
    have hperm : (read.mergeSort fun f g => textLe f.name g.name).Perm read := List.mergeSort_perm _ _
    have hnodup : (read.map FileEntry.name).Nodup := by
      have hnames := (filesOf_sublist entries).nodup (hroot.nodup [] entries (.here _))
      rw [← hread, ← Function.comp_def utf8 FileEntry.name, ← List.map_map] at hnames
      exact List.Nodup.of_map _ hnames
    have hnodup := (hperm.map FileEntry.name).nodup_iff.mpr hnodup
    have hrun : Pfs0Builder.fromDirectory fsPath (.ok entries) =
        (read.mergeSort fun f g => textLe f.name g.name).foldlM
          (fun (b : Pfs0Builder) f => mapErr .addFile (b.addFile f.name f.data)) {} := by
      rw [Pfs0Builder.fromDirectory, hok, ok_bind, List.nil_append]
    rw [hrun]
    rcases foldlM_addFile [] hnodup with ⟨hok, hvalid⟩ | ⟨f, hf, e, hreject, herr⟩
    · refine Or.inr ⟨_, hok, ⟨fun f => ?_, ⟨hvalid, hnodup⟩, pairwise_mergeSort_textLe FileEntry.name read⟩,
        fun entry hentry e he => ?_⟩
      · rw [List.nil_append, hperm.mem_iff, mem_flatMap_filesOf]
      · obtain ⟨f, hf, hreject⟩ := hrejected entry hentry e he
        exact ⟨f, hperm.mem_iff.mpr hf, hreject⟩
    · have hlists := mem_flatMap_filesOf.mp (hperm.mem_iff.mp hf)
      exact Or.inl ⟨_, herr, _, hlists, .rejected _ f.name f.data e (fromUtf8_utf8 _) hreject⟩

/-- The directory is read into an archive of its regular files, in the order of their names, and nothing in it
is refused; or something is, and the error names it. -/
theorem fromDirectory_mirrors (hroot : IsHost (.dir (.ok entries))) :
    (∃ b, Pfs0Builder.fromDirectory fsPath (.ok entries) = ok b ∧ Mirrors b entries ∧
      ∀ entry ∈ entries, ∀ e, ¬RefusedEntry fsPath entry e) ∨
    ∃ e, Pfs0Builder.fromDirectory fsPath (.ok entries) = err e ∧
      ∃ entry ∈ entries, RefusedEntry fsPath entry e := by
  rcases fromDirectory_cases fsPath hroot with herr | ⟨b, hok, hmirrors, hrejected⟩
  · exact Or.inr herr
  · refine Or.inl ⟨b, hok, hmirrors, fun entry hentry e he => ?_⟩
    obtain ⟨f, hf, e', hreject⟩ := hrejected entry hentry e he
    have hadd : Pfs0Builder.addFile {} f.name f.data = ok ⟨[f]⟩ :=
      addFile_eq_ok.mpr ⟨hmirrors.addable.1 f hf, List.not_mem_nil, rfl⟩
    rw [hreject] at hadd
    cases hadd

lemma mirrors_of_eq_ok {b : Pfs0Builder} (hroot : IsHost (.dir (.ok entries)))
    (h : Pfs0Builder.fromDirectory fsPath (.ok entries) = ok b) : Mirrors b entries := by
  rcases fromDirectory_cases fsPath hroot with ⟨e, herr, -⟩ | ⟨b', hok, hmirrors, -⟩
  · rw [h] at herr
    cases herr
  · rw [h] at hok
    cases hok
    exact hmirrors

end Directory

def twoFilesListed : List (Except Empty (Bytes × Except Empty (Node Empty))) :=
  [.ok (utf8 ['b'], .ok (.file (.ok [1]))), .ok (utf8 ['c'], .ok .symlink),
    .ok (utf8 ['a'], .ok (.file (.ok [2, 3])))]

lemma twoFilesListed_isHost : IsHost (.dir (.ok twoFilesListed)) := by
  refine isHost_dir (by decide) (by decide) fun name child hmem => ?_
  simp only [twoFilesListed, List.mem_cons, Except.ok.injEq, Prod.mk.injEq, List.not_mem_nil, or_false] at hmem
  rcases hmem with ⟨-, rfl⟩ | ⟨-, rfl⟩ | ⟨-, rfl⟩
  · exact isHost_file _
  · exact isHost_symlink
  · exact isHost_file _

theorem fromDirectory_mirrors_two :
    (∃ b, Pfs0Builder.fromDirectory [] (.ok twoFilesListed) = ok b ∧ Mirrors b twoFilesListed ∧
      ∀ entry ∈ twoFilesListed, ∀ e, ¬RefusedEntry [] entry e) ∨
    ∃ e, Pfs0Builder.fromDirectory [] (.ok twoFilesListed) = err e ∧
      ∃ entry ∈ twoFilesListed, RefusedEntry [] entry e :=
  fromDirectory_mirrors twoFilesListed_isHost

/-- The counts of the archive fit their fields, and the archive a vector. -/
structure Pfs0Builder.Fits (b : Pfs0Builder) : Prop where
  count : b.files.length < 2 ^ 32
  names : stringTableSize b.files < 2 ^ 32
  size : archiveSize b.files < 2 ^ 63

lemma build_sorted {δ : Type} {b : Pfs0Builder} (h : Addable b.files)
    (hsorted : b.files.Pairwise fun f g => textLe f.name g.name = true) (hfits : b.Fits) :
    ∃ image pfs, (b.build : Outcome ε _) = ok image ∧ Pfs0.tryFromBytes image = ok pfs ∧
      (pfs.files : Outcome δ _) = ok (b.files.map FileEntry.toFile) := by
  obtain ⟨hvalid, hviews⟩ := archive_valid h.1 hfits.count hfits.names hfits.size
  refine ⟨_, _, ?_, tryFromBytes_eq_ok.mpr ⟨rfl, hvalid⟩, by rw [Pfs0.files_eq hvalid, hviews]⟩
  rw [build_eq hfits.count hfits.names hfits.size, show b.sorted = b.files from List.mergeSort_of_pairwise hsorted]

lemma toFile_injective : Function.Injective FileEntry.toFile := by
  rintro ⟨name, data⟩ ⟨name', data'⟩ h
  cases h
  rfl

lemma Mirrors.eq {entries entries' : List (Except ι (Bytes × Except ι (Node ι)))} {b b' : Pfs0Builder}
    (h : Mirrors b entries) (h' : Mirrors b' entries') (hsame : ∀ f, Lists entries' f ↔ Lists entries f) :
    b' = b := by
  have hperm : b'.files.Perm b.files := by
    refine (List.perm_ext_iff_of_nodup (List.Nodup.of_map _ h'.addable.2) (List.Nodup.of_map _ h.addable.2)).mpr
      fun f => ?_
    rw [h'.files, h.files, hsame]
  have hsorted := sorted_perm h.addable hperm
  rw [Pfs0Builder.sorted, Pfs0Builder.sorted, List.mergeSort_of_pairwise h'.sorted,
    List.mergeSort_of_pairwise h.sorted] at hsorted
  cases b
  cases b'
  exact congrArg Pfs0Builder.mk hsorted

/-- The archive of a directory is read back as the regular files of the directory, in the order of their names.
Another directory is packed into the same archive if and only if it has the same regular files. -/
theorem fromDirectory_archive {fsPath : HostPath} {entries : List (Except ι (Bytes × Except ι (Node ι)))}
    {b : Pfs0Builder} (hroot : IsHost (.dir (.ok entries)))
    (hread : Pfs0Builder.fromDirectory fsPath (.ok entries) = ok b) (hfits : b.Fits) :
    ∃ (image : Bytes) (pfs : Pfs0) (listed : List FileEntry), (b.build : Outcome ε _) = ok image ∧
      Pfs0.tryFromBytes image = ok pfs ∧ (pfs.files : Outcome ε _) = ok (listed.map FileEntry.toFile) ∧
      (∀ f, f ∈ listed ↔ Lists entries f) ∧
      (listed.Pairwise fun f g => textLe f.name g.name = true ∧ f.name ≠ g.name) ∧
      ∀ (fsPath' : HostPath) (entries' : List (Except ι (Bytes × Except ι (Node ι)))) (b' : Pfs0Builder),
        IsHost (.dir (.ok entries')) → Pfs0Builder.fromDirectory fsPath' (.ok entries') = ok b' → b'.Fits →
        ((b'.build : Outcome ε _) = ok image ↔ ∀ f, Lists entries' f ↔ Lists entries f) := by
  have hmirrors := mirrors_of_eq_ok hroot hread
  obtain ⟨image, pfs, hbuild, hpfs, hfiles⟩ := build_sorted (ε := ε) hmirrors.addable hmirrors.sorted hfits
  refine ⟨image, pfs, b.files, hbuild, hpfs, hfiles, hmirrors.files,
    hmirrors.sorted.imp₂ (fun _ _ => And.intro) (List.pairwise_map.mp hmirrors.addable.2), ?_⟩
  intro fsPath' entries' b' hroot' hread' hfits'
  have hmirrors' := mirrors_of_eq_ok hroot' hread'
  constructor
  · intro hbuild'
    obtain ⟨image', pfs', hbuild'', hpfs', hfiles'⟩ := build_sorted (ε := ε) hmirrors'.addable hmirrors'.sorted hfits'
    obtain rfl := ok.inj (hbuild'.symm.trans hbuild'')
    obtain rfl := ok.inj (hpfs.symm.trans hpfs')
    have hsame := List.map_injective_iff.mpr toFile_injective (ok.inj (hfiles.symm.trans hfiles'))
    intro f
    rw [← hmirrors'.files, ← hmirrors.files, hsame]
  · intro hsame
    rw [hmirrors.eq hmirrors' hsame, hbuild]

lemma twoFilesListed_read :
    Pfs0Builder.fromDirectory [] (.ok twoFilesListed) = ok ⟨[⟨['a'], [2, 3]⟩, ⟨['b'], [1]⟩]⟩ := by
  have hsorted : ([⟨['b'], [1]⟩, ⟨['a'], [2, 3]⟩] : List FileEntry).mergeSort (fun f g => textLe f.name g.name) =
      [⟨['a'], [2, 3]⟩, ⟨['b'], [1]⟩] :=
    mergeSort_eq_of_perm FileEntry.name (List.Perm.swap _ _ _) (by decide) (by decide)
  simp only [Pfs0Builder.fromDirectory, twoFilesListed, List.foldlM_cons, List.foldlM_nil, readEntry,
    fromUtf8_utf8, ok_bind, pure_eq, List.nil_append, List.cons_append, hsorted]
  rfl

theorem fromDirectory_archive_two : ∃ (b : Pfs0Builder) (image : Bytes) (pfs : Pfs0) (listed : List FileEntry),
    Pfs0Builder.fromDirectory [] (.ok twoFilesListed) = ok b ∧ (b.build : Outcome Unit _) = ok image ∧
      Pfs0.tryFromBytes image = ok pfs ∧ (pfs.files : Outcome Unit _) = ok (listed.map FileEntry.toFile) ∧
      ∀ f, f ∈ listed ↔ Lists twoFilesListed f := by
  obtain ⟨image, pfs, listed, hbuild, hpfs, hfiles, hlisted, -⟩ :=
    fromDirectory_archive (ε := Unit) twoFilesListed_isHost twoFilesListed_read ⟨by decide, by decide, by decide⟩
  exact ⟨_, image, pfs, listed, twoFilesListed_read, hbuild, hpfs, hfiles, hlisted⟩

end NxObject.Pfs
