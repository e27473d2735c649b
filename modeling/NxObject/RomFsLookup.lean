import NxObject.RomFsIteration

/-!
# Opening and listing agree

Opening a path searches the chains of an image itself; it does not go through the iterator that lists a directory.
Whatever the accepted image, the two agree: what a path opens is determined by the listings alone, and by the entry
at which a chain stops being readable where a name is not listed.
-/
namespace NxObject.Romfs
open Outcome

def RomFsEntry.asDir : RomFsEntry → Option RomFsDir
  | .dir d => some d
  | .file _ => none

def RomFsEntry.asFile : RomFsEntry → Option RomFsFile
  | .dir _ => none
  | .file f => some f

def firstDir (name : Text) (entries : List RomFsEntry) : Option RomFsDir :=
  (entries.filterMap RomFsEntry.asDir).find? (·.name == name)

def firstFile (name : Text) (entries : List RomFsEntry) : Option RomFsFile :=
  (entries.filterMap RomFsEntry.asFile).find? (·.name == name)

/-- What a search through a chain reports when it finds nothing: that the name is missing, or the error of reading
the entry at which the chain stops. -/
def Reports {α : Type} (read : UInt32 → Outcome OpenError α) (next : α → UInt32) (missing : OpenError) (o : UInt32)
    (e : OpenError) : Prop :=
  ∃ n, (Chain.readAlong read next NO_ENTRY n o).1.length < n ∧
    if (Chain.readAlong read next NO_ENTRY n o).2 = NO_ENTRY then e = missing
    else read (Chain.readAlong read next NO_ENTRY n o).2 = err e

namespace RomFs
variable (romfs : RomFs)

def Lists (dir : RomFsDir) (entries : List RomFsEntry) : Prop :=
  ∃ fuel, dir.entries.collect romfs fuel = ok entries

def DirMissing (dir : RomFsDir) : OpenError → Prop :=
  Reports romfs.readDir (·.entry.siblingOffset) .dirNotFound dir.entry.childOffset

def FileMissing (dir : RomFsDir) : OpenError → Prop :=
  Reports romfs.readFile (·.entry.siblingOffset) .fileNotFound dir.entry.fileOffset

/-- What the components of a path lead to from a directory, going by the listings: the first subdirectory of its
name for each component but the last, and the first file of its name for the last. -/
inductive Resolves : RomFsDir → List Text → Outcome OpenError RomFsFile → Prop
  | found {dir : RomFsDir} {name : Text} {entries : List RomFsEntry} {file : RomFsFile} :
      romfs.Lists dir entries → firstFile name entries = some file → Resolves dir [name] (ok file)
  | missing {dir : RomFsDir} {name : Text} {entries : List RomFsEntry} {e : OpenError} :
      romfs.Lists dir entries → firstFile name entries = none → romfs.FileMissing dir e →
        Resolves dir [name] (err e)
  | enter {dir child : RomFsDir} {name component : Text} {components : List Text} {entries : List RomFsEntry}
      {r : Outcome OpenError RomFsFile} : romfs.Lists dir entries → firstDir name entries = some child →
        Resolves child (component :: components) r → Resolves dir (name :: component :: components) r
  | stuck {dir : RomFsDir} {name component : Text} {components : List Text} {entries : List RomFsEntry}
      {e : OpenError} : romfs.Lists dir entries → firstDir name entries = none → romfs.DirMissing dir e →
        Resolves dir (name :: component :: components) (err e)

/-- The walk of `open` over the components of a path. -/
def descend (fuel : ℕ) : RomFsDir → List Text → Outcome OpenError RomFsFile
  | _, [] => err .pathNotFound
  | dir, [name] => romfs.findFile fuel dir name
  | dir, name :: component :: components => do
      let child ← romfs.findDir fuel dir name
      descend fuel child (component :: components)

lemma openStep_some (fuel : ℕ) (dir : RomFsDir) (name component : Text) :
    romfs.openStep fuel (dir, some name) component =
      (romfs.findDir fuel dir name >>= fun child => ok (child, some component)) := rfl

lemma foldlM_openStep_eq (fuel : ℕ) (components : List Text) (dir : RomFsDir) (name : Text) :
    (components.foldlM (romfs.openStep fuel) (dir, some name) >>= fun s =>
      match s.2 with
      | some filename => romfs.findFile fuel s.1 filename
      | none => err .pathNotFound) = romfs.descend fuel dir (name :: components) := by
  induction components generalizing dir name with
  | nil => rfl
  | cons component components ih =>
    rw [List.foldlM_cons, openStep_some, descend, bind_assoc, bind_assoc]
    refine congrArg _ (funext fun child => ?_)
    rw [ok_bind]
    exact ih child component

lemma openPath_eq_descend (fuel : ℕ) {path : Text} {root : RomFsDir} (hroot : romfs.rootDir = ok root)
    (hpath : path.dropWhile (· == '/') ≠ []) :
    romfs.openPath fuel path = romfs.descend fuel root ((path.dropWhile (· == '/')).splitOn '/') := by
  rw [openPath, if_neg hpath, hroot, mapErr_ok, ok_bind]
  cases hsplit : (path.dropWhile (· == '/')).splitOn '/' with
  | nil => exact absurd hsplit (List.splitOn_ne_nil _ _)
  | cons name components =>
    rw [← foldlM_openStep_eq]
    rfl

end RomFs

section Listing
variable {romfs : RomFs}

lemma firstDir_append (name : Text) (dirs : List RomFsDir) (files : List RomFsFile) :
    firstDir name (dirs.map .dir ++ files.map .file) = dirs.find? (·.name == name) := by
  have hdirs : (dirs.map RomFsEntry.dir).filterMap RomFsEntry.asDir = dirs := by
    rw [List.filterMap_map]
    exact List.filterMap_some
  have hfiles : (files.map RomFsEntry.file).filterMap RomFsEntry.asDir = [] := by
    rw [List.filterMap_map]
    exact List.filterMap_none _
  rw [firstDir, List.filterMap_append, hdirs, hfiles, List.append_nil]

lemma firstFile_append (name : Text) (dirs : List RomFsDir) (files : List RomFsFile) :
    firstFile name (dirs.map .dir ++ files.map .file) = files.find? (·.name == name) := by
  have hdirs : (dirs.map RomFsEntry.dir).filterMap RomFsEntry.asFile = [] := by
    rw [List.filterMap_map]
    exact List.filterMap_none _
  have hfiles : (files.map RomFsEntry.file).filterMap RomFsEntry.asFile = files := by
    rw [List.filterMap_map]
    exact List.filterMap_some
  rw [firstFile, List.filterMap_append, hdirs, hfiles, List.nil_append]

variable (hb : romfs.Bounded)
include hb

lemma collect_eq_ok {k : ℕ} {it : DirIterator} {entries : List RomFsEntry} (h : it.collect romfs k = ok entries) :
    (romfs.readDirs k it.nextDirOffset).1.length < k ∧ (romfs.readFiles k it.nextFileOffset).1.length < k ∧
      entries = (romfs.readDirs k it.nextDirOffset).1.map .dir ++
        (romfs.readFiles k it.nextFileOffset).1.map .file := by
  induction k generalizing it entries with
  | zero => cases h
  | succ k ih =>
    rw [DirIterator.collect, DirIterator.next] at h
    rcases readOk_readAlong (·.entry.siblingOffset) (readDir_settled hb) it.nextDirOffset with
      ⟨dir, hdir, hstop, hread⟩ | ⟨hdir, hnone⟩
    · simp only [hdir, ok_bind, pure_eq] at h
      obtain ⟨rest, hrest, h⟩ := bind_eq_ok.mp h
      obtain rfl := ok.inj h
      obtain ⟨hdirs, hfiles, rfl⟩ := ih hrest
      rw [RomFs.readFiles] at hfiles
      rw [RomFs.readDirs, RomFs.readFiles, Chain.readAlong_succ hstop hread,
        Chain.readAlong_of_le hfiles (Nat.le_succ k)]
      exact ⟨Nat.succ_lt_succ hdirs, Nat.lt_succ_of_lt hfiles, rfl⟩
    · have hdirs : ∀ n, romfs.readDirs n it.nextDirOffset = ([], it.nextDirOffset) := hnone
      rw [hdirs]
      refine ⟨Nat.succ_pos k, ?_⟩
      rcases readOk_readAlong (·.entry.siblingOffset) (readFile_settled hb) it.nextFileOffset with
        ⟨file, hfile, hstop, hread⟩ | ⟨hfile, hnone'⟩
      · simp only [hdir, hfile, ok_bind, pure_eq] at h
        obtain ⟨rest, hrest, h⟩ := bind_eq_ok.mp h
        obtain rfl := ok.inj h
        obtain ⟨-, hfiles, rfl⟩ := ih hrest
        rw [RomFs.readFiles] at hfiles ⊢
        rw [Chain.readAlong_succ hstop hread, hdirs]
        exact ⟨Nat.succ_lt_succ hfiles, rfl⟩
      · simp only [hdir, hfile, ok_bind, pure_eq] at h
        obtain rfl := ok.inj h
        have hfiles : ∀ n, romfs.readFiles n it.nextFileOffset = ([], it.nextFileOffset) := hnone'
        rw [hfiles]
        exact ⟨Nat.succ_pos k, rfl⟩

lemma collect_ne_err (k : ℕ) (it : DirIterator) (e : OpenError) : it.collect romfs k ≠ err e := by
  induction k generalizing it with
  | zero =>
    intro h
    cases h
  | succ k ih =>
    have hcons : ∀ (entry : RomFsEntry) (it : DirIterator),
        (it.collect romfs k >>= fun rest => ok (entry :: rest)) ≠ err e := by
      intro entry it h
      cases hcollect : it.collect romfs k with
      | ok rest => rw [hcollect] at h; cases h
      | err e' =>
        rw [hcollect] at h
        obtain rfl := err.inj h
        exact ih it hcollect
      | panic => rw [hcollect] at h; cases h
      | running => rw [hcollect] at h; cases h
    rw [DirIterator.collect, DirIterator.next]
    rcases readOk_cases (·.entry.siblingOffset) (readDir_settled hb) it.nextDirOffset with
      ⟨dir, hdir, -⟩ | ⟨hdir, -⟩
    · simp only [hdir, ok_bind, pure_eq]
      exact hcons _ _
    · rcases readOk_cases (·.entry.siblingOffset) (readFile_settled hb) it.nextFileOffset with
        ⟨file, hfile, -⟩ | ⟨hfile, -⟩
      · simp only [hdir, hfile, ok_bind, pure_eq]
        exact hcons _ _
      · simp only [hdir, hfile, ok_bind, pure_eq]
        intro h
        cases h

lemma exists_lists (hacyclic : AcyclicChains romfs) {dir : RomFsDir} (h : Reachable romfs dir) :
    ∃ entries, romfs.Lists dir entries := by
  obtain ⟨hdirs, hfiles⟩ := hacyclic dir h
  obtain ⟨m, hm⟩ := (Chain.ends_iff_acyclic _ _).mpr hdirs
  obtain ⟨n, hn⟩ := (Chain.ends_iff_acyclic _ _).mpr hfiles
  rcases collect_settled hb (m + n) dir.entries le_rfl hm hn with ⟨entries, hentries⟩ | ⟨e, he⟩
  · exact ⟨entries, _, hentries⟩
  · exact absurd he (collect_ne_err hb _ _ e)

end Listing

section Chains
variable {α : Type} {read : UInt32 → Outcome OpenError α} {next : α → UInt32} {p : α → Bool} {n : ℕ} {o : UInt32}
variable {missing : OpenError}

lemma exists_reports (missing : OpenError) (hread : ∀ o, Settled (read o))
    (hlt : (Chain.readAlong read next NO_ENTRY n o).1.length < n) : ∃ e, Reports read next missing o e := by
  by_cases hstop : (Chain.readAlong read next NO_ENTRY n o).2 = NO_ENTRY
  · exact ⟨missing, n, hlt, by rw [if_pos hstop]⟩
  · obtain ⟨m, -, hlink⟩ := Chain.orbit_of_readAlong_lt hlt
    rcases hread (Chain.readAlong read next NO_ENTRY n o).2 with ⟨a, ha⟩ | ⟨e, he⟩
    · rw [Chain.link_of_read hstop ha] at hlink
      cases hlink
    · exact ⟨e, n, hlt, by rw [if_neg hstop, he]⟩

lemma search_of_found {a : α} (hfirst : (Chain.readAlong read next NO_ENTRY n o).1.find? p = some a) {fuel : ℕ}
    (hle : n ≤ fuel) : (Chain.search read next NO_ENTRY p fuel o >>= fun found => okOr found missing) = ok a := by
  rw [Chain.search_of_find hfirst hle]
  rfl

lemma search_of_reports (hlt : (Chain.readAlong read next NO_ENTRY n o).1.length < n)
    (hnone : (Chain.readAlong read next NO_ENTRY n o).1.find? p = none) {e : OpenError}
    (h : Reports read next missing o e) {fuel : ℕ} (hle : n ≤ fuel) :
    (Chain.search read next NO_ENTRY p fuel o >>= fun found => okOr found missing) = err e := by
  obtain ⟨m, hlt', hreport⟩ := h
  have hsame : Chain.readAlong read next NO_ENTRY m o = Chain.readAlong read next NO_ENTRY n o :=
    (Chain.readAlong_of_le hlt' (Nat.le_max_left m n)).symm.trans
      (Chain.readAlong_of_le hlt (Nat.le_max_right m n))
  rw [hsame] at hreport
  rw [Chain.search_of_find_none hlt hnone hle]
  split_ifs at hreport ⊢ with hstop
  · rw [hreport]
    rfl
  · rw [hreport]
    rfl

end Chains

namespace RomFs
variable {romfs : RomFs} {dir : RomFsDir} {entries : List RomFsEntry} {name : Text} {k fuel : ℕ}

variable (hb : romfs.Bounded)
include hb

lemma findDir_of_firstDir {child : RomFsDir} (h : dir.entries.collect romfs k = ok entries)
    (hfirst : firstDir name entries = some child) (hle : k ≤ fuel) : romfs.findDir fuel dir name = ok child := by
  obtain ⟨-, -, rfl⟩ := collect_eq_ok hb h
  rw [firstDir_append] at hfirst
  exact search_of_found hfirst hle

lemma findDir_of_missing {e : OpenError} (h : dir.entries.collect romfs k = ok entries)
    (hfirst : firstDir name entries = none) (he : romfs.DirMissing dir e) (hle : k ≤ fuel) :
    romfs.findDir fuel dir name = err e := by
  obtain ⟨hlt, -, rfl⟩ := collect_eq_ok hb h
  rw [firstDir_append] at hfirst
  exact search_of_reports hlt hfirst he hle

lemma findFile_of_firstFile {file : RomFsFile} (h : dir.entries.collect romfs k = ok entries)
    (hfirst : firstFile name entries = some file) (hle : k ≤ fuel) : romfs.findFile fuel dir name = ok file := by
  obtain ⟨-, -, rfl⟩ := collect_eq_ok hb h
  rw [firstFile_append] at hfirst
  exact search_of_found hfirst hle

lemma findFile_of_missing {e : OpenError} (h : dir.entries.collect romfs k = ok entries)
    (hfirst : firstFile name entries = none) (he : romfs.FileMissing dir e) (hle : k ≤ fuel) :
    romfs.findFile fuel dir name = err e := by
  obtain ⟨-, hlt, rfl⟩ := collect_eq_ok hb h
  rw [firstFile_append] at hfirst
  exact search_of_reports hlt hfirst he hle

lemma descend_of_resolves {components : List Text} {r : Outcome OpenError RomFsFile}
    (h : romfs.Resolves dir components r) : ∃ turns, ∀ fuel ≥ turns, romfs.descend fuel dir components = r := by
  induction h with
  | found hlists hfirst =>
    obtain ⟨k, hk⟩ := hlists
    exact ⟨k, fun fuel hle => findFile_of_firstFile hb hk hfirst hle⟩
  | missing hlists hfirst he =>
    obtain ⟨k, hk⟩ := hlists
    exact ⟨k, fun fuel hle => findFile_of_missing hb hk hfirst he hle⟩
  | enter hlists hfirst hrest ih =>
    obtain ⟨k, hk⟩ := hlists
    obtain ⟨turns, hturns⟩ := ih
    refine ⟨max k turns, fun fuel hle => ?_⟩
    rw [descend, findDir_of_firstDir hb hk hfirst (le_of_max_le_left hle), ok_bind]
    exact hturns fuel (le_of_max_le_right hle)
  | stuck hlists hfirst he =>
    obtain ⟨k, hk⟩ := hlists
    refine ⟨k, fun fuel hle => ?_⟩
    rw [descend, findDir_of_missing hb hk hfirst he hle, err_bind]

lemma exists_resolves (hends : ∀ dir, Reachable romfs dir → ∃ entries, romfs.Lists dir entries)
    (components : List Text) (name : Text) {dir : RomFsDir} (hreach : Reachable romfs dir) :
    ∃ r, romfs.Resolves dir (name :: components) r := by
  induction components generalizing dir name with
  | nil =>
    obtain ⟨entries, k, hk⟩ := hends dir hreach
    cases hfirst : firstFile name entries with
    | some file => exact ⟨_, .found ⟨k, hk⟩ hfirst⟩
    | none =>
      obtain ⟨-, hlt, -⟩ := collect_eq_ok hb hk
      obtain ⟨e, he⟩ := exists_reports .fileNotFound (readFile_settled hb) hlt
      exact ⟨_, .missing ⟨k, hk⟩ hfirst he⟩
  | cons component components ih =>
    obtain ⟨entries, k, hk⟩ := hends dir hreach
    cases hfirst : firstDir name entries with
    | some child =>
      obtain ⟨r, hr⟩ := ih component (reachable_of_findDir hreach (findDir_of_firstDir hb hk hfirst le_rfl))
      exact ⟨r, .enter ⟨k, hk⟩ hfirst hr⟩
    | none =>
      obtain ⟨hlt, -, -⟩ := collect_eq_ok hb hk
      obtain ⟨e, he⟩ := exists_reports .dirNotFound (readDir_settled hb) hlt
      exact ⟨_, .stuck ⟨k, hk⟩ hfirst he⟩

end RomFs

/-- What a path opens in an accepted image is what the listings of its directories lead to, errors included. -/
theorem openPath_eq_iff {bytes : Bytes} {romfs : RomFs} (h : RomFs.tryFromBytes bytes = ok romfs)
    (hlen : bytes.length < 2 ^ 63) (hacyclic : AcyclicChains romfs) {root : RomFsDir}
    (hroot : romfs.rootDir = ok root) {path : Text} (hpath : path.dropWhile (· == '/') ≠ []) :
    ∃ turns, ∀ fuel ≥ turns, ∀ r, romfs.openPath fuel path = r ↔
      romfs.Resolves root ((path.dropWhile (· == '/')).splitOn '/') r := by
  have hb := bounded_of_tryFromBytes h hlen
  obtain ⟨name, components, hsplit⟩ := List.exists_cons_of_ne_nil (List.splitOn_ne_nil '/' (path.dropWhile (· == '/')))
  obtain ⟨r, hr⟩ := RomFs.exists_resolves hb (fun dir => exists_lists hb hacyclic) components name (.root hroot)
  obtain ⟨turns, hturns⟩ := RomFs.descend_of_resolves hb hr
  refine ⟨turns, fun fuel hle r' => ?_⟩
  rw [romfs.openPath_eq_descend fuel hroot hpath, hsplit, hturns fuel hle]
  constructor
  · rintro rfl
    exact hr
  · intro hr'
    obtain ⟨turns', hturns'⟩ := RomFs.descend_of_resolves hb hr'
    rw [← hturns (max turns turns') (Nat.le_max_left _ _), hturns' _ (Nat.le_max_right _ _)]

lemma brokenChain_rootDir : brokenChainRomFs.rootDir = ok ⟨⟨0, NO_ENTRY, 0x1000, 0, NO_ENTRY, 0⟩, []⟩ := by
  decide +kernel

lemma brokenChain_dirLink : brokenChainRomFs.dirLink 0x1000 = none := by
  have hread : brokenChainRomFs.readDir 0x1000 = err (.bufferTooSmall 0x1018 0x68) := by decide +kernel
  rw [RomFs.dirLink, Chain.link, hread]
  exact ite_self _

lemma brokenChain_fileLink : brokenChainRomFs.fileLink 0 = some NO_ENTRY := by
  have hread : brokenChainRomFs.readFile 0 = ok ⟨⟨0, NO_ENTRY, 0, 0, NO_ENTRY, 0⟩, []⟩ := by decide +kernel
  rw [RomFs.fileLink, Chain.link, hread]
  rfl

lemma brokenChain_acyclic : AcyclicChains brokenChainRomFs := by
  have hroot : ∀ dir, Reachable brokenChainRomFs dir → dir = ⟨⟨0, NO_ENTRY, 0x1000, 0, NO_ENTRY, 0⟩, []⟩ := by
    intro dir h
    induction h with
    | root hroot => exact ok.inj (hroot.symm.trans brokenChain_rootDir)
    | @child parent child n o _ horbit hne hread ih =>
      obtain rfl := ih
      have hlink : brokenChainRomFs.dirLink o = some child.entry.siblingOffset := Chain.link_of_read hne hread
      cases n with
      | zero =>
        obtain rfl := Option.some.inj horbit
        rw [brokenChain_dirLink] at hlink
        cases hlink
      | succ n =>
        rw [Chain.orbit, brokenChain_dirLink] at horbit
        cases horbit
  intro dir h
  obtain rfl := hroot dir h
  have hdirs : Chain.orbit brokenChainRomFs.dirLink 1 0x1000 = none := by
    rw [Chain.orbit, brokenChain_dirLink]
    rfl
  have hfiles : Chain.orbit brokenChainRomFs.fileLink 2 0 = none := by
    rw [Chain.orbit, brokenChain_fileLink, Option.bind_some, Chain.orbit, RomFs.fileLink, Chain.link, if_pos rfl]
    rfl
  exact ⟨Chain.Ends.acyclic _ ⟨1, hdirs⟩, Chain.Ends.acyclic _ ⟨2, hfiles⟩⟩

theorem openPath_eq_iff_brokenChain : ∃ turns, ∀ fuel ≥ turns, ∀ r,
    brokenChainRomFs.openPath fuel ['x', '/', 'y'] = r ↔
      brokenChainRomFs.Resolves ⟨⟨0, NO_ENTRY, 0x1000, 0, NO_ENTRY, 0⟩, []⟩ (['x', '/', 'y'].splitOn '/') r :=
  openPath_eq_iff brokenChain_accepted (by decide +kernel) brokenChain_acyclic brokenChain_rootDir (by decide)

end NxObject.Romfs
