import NxObject.HostTree
import NxObject.RomFsOpen
import NxObject.Worklist

/-!
# RomFS builders of host directories

`from_directory` reads a directory of the host and puts what it finds into a builder. Subdirectories wait on
a stack; what cannot be packed ends the reading.
-/
namespace NxObject.Romfs
open Outcome Host

variable {ι : Type}

inductive FromDirectoryError (ι : Type) where
  | io (path : HostPath) (source : ι)
  | symlink (path : HostPath)
  | invalidFileName (path : HostPath)

abbrev Pending (ι : Type) := ℕ × HostPath × Listing ι

/-- One entry of the directory that is read. Neither directory, file nor link, it is skipped. -/
def addEntry (dirIdx : ℕ) (fsPath : HostPath) (s : RomFsBuilder × List (Pending ι))
    (entry : Except ι (Bytes × Except ι (Node ι))) :
    Outcome (FromDirectoryError ι) (RomFsBuilder × List (Pending ι)) :=
  match entry with
  | .error source => err (.io fsPath source)
  | .ok (fileName, .error source) => err (.io (fsPath ++ [fileName]) source)
  | .ok (fileName, .ok node) =>
      match fromUtf8 fileName with
      | none => err (.invalidFileName (fsPath ++ [fileName]))
      | some name =>
          let entryPath := (s.1.dir dirIdx).path ++ '/' :: name
          match node with
          | .dir listing =>
              let newIdx := s.1.dirs.length
              let entry : DirEntry := { path := entryPath, name, parent := dirIdx }
              ok ({ s.1 with dirs := (s.1.dirs ++ [entry]).modify dirIdx (·.pushChild newIdx) },
                s.2 ++ [(newIdx, fsPath ++ [fileName], listing)])
          | .file (.error source) => err (.io (fsPath ++ [fileName]) source)
          | .file (.ok data) =>
              let fileIdx := s.1.files.length
              let entry : FileEntry := { path := entryPath, name, data, parent := dirIdx }
              ok ({ s.1 with
                files := s.1.files ++ [entry]
                dirs := s.1.dirs.modify dirIdx (·.pushFile fileIdx) }, s.2)
          | .symlink => err (.symlink (fsPath ++ [fileName]))
          | .other => ok s

def readDirectory (b : RomFsBuilder) (pending : Pending ι) :
    Outcome (FromDirectoryError ι) (RomFsBuilder × List (Pending ι)) :=
  match pending.2.2 with
  | .error source => err (.io pending.2.1 source)
  | .ok entries => entries.foldlM (addEntry pending.1 pending.2.1) (b, [])

/-- Build from a directory on the filesystem, where reading `path` yields `listing`. -/
def RomFsBuilder.fromDirectory (fuel : ℕ) (path : HostPath) (listing : Listing ι) :
    Outcome (FromDirectoryError ι) RomFsBuilder :=
  Worklist.run readDirectory fuel .new [(0, path, listing)]

/-! ## What is refused -/

/-- An entry that cannot be packed, and the error that says so. -/
inductive RefusedEntry (fsPath : HostPath) :
    Except ι (Bytes × Except ι (Node ι)) → FromDirectoryError ι → Prop where
  | unread (source : ι) : RefusedEntry fsPath (.error source) (.io fsPath source)
  | untyped (name : Bytes) (source : ι) :
      RefusedEntry fsPath (.ok (name, .error source)) (.io (fsPath ++ [name]) source)
  | undecoded (name : Bytes) (node : Node ι) (h : fromUtf8 name = none) :
      RefusedEntry fsPath (.ok (name, .ok node)) (.invalidFileName (fsPath ++ [name]))
  | file (name : Bytes) (source : ι) :
      RefusedEntry fsPath (.ok (name, .ok (.file (.error source)))) (.io (fsPath ++ [name]) source)
  | symlink (name : Bytes) :
      RefusedEntry fsPath (.ok (name, .ok .symlink)) (.symlink (fsPath ++ [name]))

/-- Somewhere below a directory of the host is what cannot be packed. -/
inductive Refused (fsPath : HostPath) (root : Node ι) : FromDirectoryError ι → Prop where
  | listing {path : HostPath} {source : ι} (h : At root path (.dir (.error source))) :
      Refused fsPath root (.io (fsPath ++ path) source)
  | entry {path : HostPath} {entries : List (Except ι (Bytes × Except ι (Node ι)))}
      {entry : Except ι (Bytes × Except ι (Node ι))} {e : FromDirectoryError ι}
      (h : At root path (.dir (.ok entries))) (hmem : entry ∈ entries)
      (he : RefusedEntry (fsPath ++ path) entry e) : Refused fsPath root e

def hostPath (c : List Text) : HostPath := c.map utf8

@[simp] lemma hostPath_nil : hostPath [] = [] := rfl

lemma hostPath_concat (c : List Text) (x : Text) : hostPath (c ++ [x]) = hostPath c ++ [utf8 x] :=
  List.map_append

lemma slash_mem_utf8 {x : Text} (h : '/' ∈ x) : 0x2f ∈ utf8 x :=
  List.mem_flatMap.mpr ⟨'/', h, by decide⟩

lemma isComponent_of_host {name : Bytes} {x : Text} (hname : name ≠ [] ∧ 0x2f ∉ name)
    (h : fromUtf8 name = some x) : IsComponent x := by
  have hutf8 := utf8_of_fromUtf8 h
  constructor
  · rintro rfl
    exact hname.1 hutf8.symm
  · intro hslash
    exact hname.2 (hutf8 ▸ slash_mem_utf8 hslash)

/-! ## One directory -/

/-- The tree has at `p` what the host has there, which is no symbolic link. -/
def Stands (t : Tree) (p : List Text) : Node ι → Prop
  | .dir _ => p ∈ t.dirs
  | .file data => ∃ bytes, data = .ok bytes ∧ (p, bytes) ∈ t.files
  | .symlink => False
  | .other => True

/-- The tree has what an entry of the directory with components `c` stands for. -/
def Entered (t : Tree) (c : List Text) (entry : Except ι (Bytes × Except ι (Node ι))) : Prop :=
  ∃ x node, entry = .ok (utf8 x, .ok node) ∧ Stands t (c ++ [x]) node

lemma Stands.mono {t t' : Tree} {p : List Text} {node : Node ι} (hdirs : t.dirs ⊆ t'.dirs)
    (hfiles : t.files ⊆ t'.files) (h : Stands t p node) : Stands t' p node := by
  cases node with
  | dir listing => exact hdirs h
  | file data =>
    obtain ⟨bytes, hdata, h⟩ := h
    exact ⟨bytes, hdata, hfiles h⟩
  | symlink => exact h
  | other => exact h

lemma Entered.mono {t t' : Tree} {c : List Text} {entry : Except ι (Bytes × Except ι (Node ι))}
    (hdirs : t.dirs ⊆ t'.dirs) (hfiles : t.files ⊆ t'.files) (h : Entered t c entry) : Entered t' c entry := by
  obtain ⟨x, node, rfl, h⟩ := h
  exact ⟨x, node, rfl, h.mono hdirs hfiles⟩

lemma Entered.not_refused {t : Tree} {c : List Text} {entry : Except ι (Bytes × Except ι (Node ι))}
    {fsPath : HostPath} {e : FromDirectoryError ι} (h : Entered t c entry) : ¬RefusedEntry fsPath entry e := by
  obtain ⟨x, node, rfl, h⟩ := h
  intro he
  cases he with
  | undecoded _ _ hnone =>
    rw [fromUtf8_utf8] at hnone
    cases hnone
  | file _ source =>
    obtain ⟨bytes, hdata, -⟩ := h
    cases hdata
  | symlink _ => exact h

/-- From `t` to `t'` the directory `c` gains its entries, and `subdirs` are the directories among them. -/
structure Grows (t t' : Tree) (c : List Text) (entries : List (Except ι (Bytes × Except ι (Node ι))))
    (subdirs : List (List Text × Listing ι)) : Prop where
  dirs : t'.dirs = t.dirs ++ subdirs.map Prod.fst
  files : ∃ files, t'.files = t.files ++ files ∧
    ∀ f ∈ files, ∃ x, f.1 = c ++ [x] ∧ Except.ok (utf8 x, Except.ok (.file (.ok f.2))) ∈ entries
  listed : ∀ d ∈ subdirs, ∃ x, d.1 = c ++ [x] ∧ Except.ok (utf8 x, Except.ok (.dir d.2)) ∈ entries
  entered : ∀ entry ∈ entries, Entered t' c entry
  weight : (subdirs.map fun d => sizeOf (Node.dir d.2)).sum < sizeOf entries

def pendingIn (t : Tree) (fsPath : HostPath) (d : List Text × Listing ι) : Pending ι :=
  (t.dirs.idxOf d.1, fsPath ++ hostPath d.1, d.2)

lemma pendingIn_append {t t' : Tree} {dirs : List (List Text)} (h : t'.dirs = t.dirs ++ dirs) (fsPath : HostPath)
    {items : List (List Text × Listing ι)} (hitems : ∀ d ∈ items, d.1 ∈ t.dirs) :
    items.map (pendingIn t' fsPath) = items.map (pendingIn t fsPath) := by
  refine List.map_congr_left fun d hd => ?_
  rw [pendingIn, pendingIn, h, List.idxOf_append_of_mem (hitems d hd)]

namespace Grows
variable {t t' t'' : Tree} {c : List Text} {entries : List (Except ι (Bytes × Except ι (Node ι)))}
  {subdirs : List (List Text × Listing ι)} (h : Grows t t' c entries subdirs)
include h

lemma dirs_subset : t.dirs ⊆ t'.dirs := by
  rw [h.dirs]
  exact List.subset_append_left _ _

lemma files_subset : t.files ⊆ t'.files := by
  obtain ⟨files, hfiles, -⟩ := h.files
  rw [hfiles]
  exact List.subset_append_left _ _

lemma mem_dirs {d : List Text} (hd : d ∈ t'.dirs) :
    d ∈ t.dirs ∨ ∃ sub ∈ subdirs, sub.1 = d := by
  rw [h.dirs] at hd
  rcases List.mem_append.mp hd with hd | hd
  · exact Or.inl hd
  · exact Or.inr (List.mem_map.mp hd)

lemma mem_files {f : List Text × Bytes} (hf : f ∈ t'.files) :
    f ∈ t.files ∨ ∃ x, f.1 = c ++ [x] ∧ Except.ok (utf8 x, Except.ok (.file (.ok f.2))) ∈ entries := by
  obtain ⟨files, hfiles, hlisted⟩ := h.files
  rw [hfiles] at hf
  rcases List.mem_append.mp hf with hf | hf
  · exact Or.inl hf
  · exact Or.inr (hlisted f hf)

lemma fresh {d : List Text} (hdir : d ∉ t.dirs) (hpath : d ∉ t.paths)
    (hd : ∀ x, d = c ++ [x] → utf8 x ∉ names entries) : d ∉ t'.dirs ∧ d ∉ t'.paths := by
  constructor
  · intro hmem
    rcases h.mem_dirs hmem with hmem | ⟨sub, hsub, rfl⟩
    · exact hdir hmem
    · obtain ⟨x, hx, hlisted⟩ := h.listed sub hsub
      exact hd x hx (mem_names hlisted)
  · intro hmem
    obtain ⟨f, hf, rfl⟩ := List.mem_map.mp hmem
    rcases h.mem_files hf with hf | ⟨x, hx, hlisted⟩
    · exact hpath (List.mem_map_of_mem hf)
    · exact hd x hx (mem_names hlisted)

lemma trans {entry : Except ι (Bytes × Except ι (Node ι))} {first : List (List Text × Listing ι)}
    (hfirst : Grows t'' t c [entry] first) : Grows t'' t' c (entry :: entries) (first ++ subdirs) where
  dirs := by rw [h.dirs, hfirst.dirs, List.append_assoc, List.map_append]
  files := by
    obtain ⟨files, hfiles, hlisted⟩ := h.files
    obtain ⟨files', hfiles', hlisted'⟩ := hfirst.files
    refine ⟨files' ++ files, by rw [hfiles, hfiles', List.append_assoc], fun f hf => ?_⟩
    rcases List.mem_append.mp hf with hf | hf
    · obtain ⟨x, hx, hmem⟩ := hlisted' f hf
      exact ⟨x, hx, List.mem_cons.mpr (Or.inl (List.mem_singleton.mp hmem))⟩
    · obtain ⟨x, hx, hmem⟩ := hlisted f hf
      exact ⟨x, hx, List.mem_cons_of_mem _ hmem⟩
  listed := by
    intro d hd
    rcases List.mem_append.mp hd with hd | hd
    · obtain ⟨x, hx, hmem⟩ := hfirst.listed d hd
      exact ⟨x, hx, List.mem_cons.mpr (Or.inl (List.mem_singleton.mp hmem))⟩
    · obtain ⟨x, hx, hmem⟩ := h.listed d hd
      exact ⟨x, hx, List.mem_cons_of_mem _ hmem⟩
  entered := by
    intro entry' hentry
    rcases List.mem_cons.mp hentry with rfl | hentry
    · exact (hfirst.entered _ List.mem_cons_self).mono h.dirs_subset h.files_subset
    · exact h.entered _ hentry
  weight := by
    have hlt := hfirst.weight
    have hlt' := h.weight
    rw [List.map_append, List.sum_append]
    simp only [List.cons.sizeOf_spec, List.nil.sizeOf_spec] at hlt ⊢
    omega

end Grows

lemma Grows.refl (t : Tree) (c : List Text) : Grows t t c ([] : List (Except ι (Bytes × Except ι (Node ι)))) [] where
  dirs := by simp
  files := ⟨[], by simp⟩
  listed := by simp
  entered := by simp
  weight := by simp

/-- One entry of a directory that neither a directory nor a file of the tree stands in for is refused, or the
tree grows by it. -/
lemma addEntry_cases {t : Tree} {c : List Text} (hc : c ∈ t.dirs) {fsPath : HostPath}
    {entry : Except ι (Bytes × Except ι (Node ι))} (hname : ∀ name ∈ names [entry], name ≠ [] ∧ 0x2f ∉ name)
    (hfresh : ∀ x, utf8 x ∈ names [entry] → c ++ [x] ∉ t.dirs ∧ c ++ [x] ∉ t.paths)
    (pushed : List (Pending ι)) :
    (∃ e, addEntry (t.dirs.idxOf c) (fsPath ++ hostPath c) (t.builder, pushed) entry = err e ∧
      RefusedEntry (fsPath ++ hostPath c) entry e) ∨
    ∃ t' subdirs, addEntry (t.dirs.idxOf c) (fsPath ++ hostPath c) (t.builder, pushed) entry =
        ok (t'.builder, pushed ++ subdirs.map (pendingIn t' fsPath)) ∧ Grows t t' c [entry] subdirs := by
  cases entry with
  | error source => exact Or.inl ⟨_, rfl, .unread source⟩
  | ok entry =>
    obtain ⟨name, node⟩ := entry
    cases node with
    | error source => exact Or.inl ⟨_, rfl, .untyped name source⟩
    | ok node =>
      cases hdecode : fromUtf8 name with
      | none => exact Or.inl ⟨_, by simp only [addEntry, hdecode], .undecoded name node hdecode⟩
      | some x =>
        obtain rfl := utf8_of_fromUtf8 hdecode
        have hx : IsComponent x := isComponent_of_host (hname (utf8 x) (by simp)) hdecode
        obtain ⟨hdir, hpath⟩ := hfresh x (by simp)
        cases node with
        | dir listing =>
          have hlen : t.builder.dirs.length = t.dirs.length := by simp [Tree.builder]
          have hidx : (Tree.addDir c x hc hx hdir).dirs.idxOf (c ++ [x]) = t.dirs.length := by
            rw [Tree.addDir, List.idxOf_append_of_notMem hdir]
            simp
          refine Or.inr ⟨Tree.addDir c x hc hx hdir, [(c ++ [x], listing)], ?_, ?_⟩
          · rw [Tree.builder_addDir, List.map_singleton, pendingIn, hidx, hostPath_concat]
            simp only [addEntry, hdecode, Tree.dir_builder hc, hlen, List.append_assoc]
            rfl
          · exact {
              dirs := rfl
              files := ⟨[], (List.append_nil _).symm, by simp⟩
              listed := by simp
              entered := by
                intro entry hentry
                obtain rfl := List.mem_singleton.mp hentry
                exact ⟨x, _, rfl, List.mem_append_right _ (List.mem_singleton_self _)⟩
              weight := by simp; omega }
        | file data =>
          cases data with
          | error source => exact Or.inl ⟨_, by simp only [addEntry, hdecode], .file (utf8 x) source⟩
          | ok data =>
            have hlen : t.builder.files.length = t.files.length := by simp [Tree.builder]
            refine Or.inr ⟨Tree.addFile c x data hc hx hpath, [], ?_, ?_⟩
            · rw [Tree.builder_addFile]
              simp only [addEntry, hdecode, Tree.dir_builder hc, hlen, List.map_nil, List.append_nil]
              rfl
            · exact {
                dirs := (List.append_nil _).symm
                files := ⟨[(c ++ [x], data)], rfl, by simp⟩
                listed := by simp
                entered := by
                  intro entry hentry
                  obtain rfl := List.mem_singleton.mp hentry
                  exact ⟨x, _, rfl, data, rfl, List.mem_append_right _ (List.mem_singleton_self _)⟩
                weight := by simp }
        | symlink => exact Or.inl ⟨_, by simp only [addEntry, hdecode], .symlink (utf8 x)⟩
        | other =>
          refine Or.inr ⟨t, [], by simp only [addEntry, hdecode, List.map_nil, List.append_nil], ?_⟩
          exact {
            dirs := (List.append_nil _).symm
            files := ⟨[], (List.append_nil _).symm, by simp⟩
            listed := by simp
            entered := by
              intro entry hentry
              obtain rfl := List.mem_singleton.mp hentry
              exact ⟨x, _, rfl, trivial⟩
            weight := by simp }

lemma foldlM_addEntry {t : Tree} {c : List Text} (hc : c ∈ t.dirs) (fsPath : HostPath)
    {entries : List (Except ι (Bytes × Except ι (Node ι)))} (hnodup : (names entries).Nodup)
    (hname : ∀ name ∈ names entries, name ≠ [] ∧ 0x2f ∉ name)
    (hfresh : ∀ x, utf8 x ∈ names entries → c ++ [x] ∉ t.dirs ∧ c ++ [x] ∉ t.paths)
    (pushed : List (Pending ι)) :
    (∃ e, entries.foldlM (addEntry (t.dirs.idxOf c) (fsPath ++ hostPath c)) (t.builder, pushed) = err e ∧
      ∃ entry ∈ entries, RefusedEntry (fsPath ++ hostPath c) entry e) ∨
    ∃ t' subdirs, entries.foldlM (addEntry (t.dirs.idxOf c) (fsPath ++ hostPath c)) (t.builder, pushed) =
        ok (t'.builder, pushed ++ subdirs.map (pendingIn t' fsPath)) ∧ Grows t t' c entries subdirs := by
  induction entries generalizing t pushed with
  | nil => exact Or.inr ⟨t, [], by simp, Grows.refl t c⟩
  | cons entry entries ih =>
    rw [names_cons] at hnodup hname hfresh
    obtain ⟨-, hnodup, hdisjoint⟩ := List.nodup_append.mp hnodup
    rw [List.foldlM_cons]
    rcases addEntry_cases hc (fun name h => hname name (List.mem_append_left _ h))
      (fun x h => hfresh x (List.mem_append_left _ h)) pushed with ⟨e, herr, he⟩ | ⟨t₁, first, hok, hfirst⟩
    · rw [herr]
      exact Or.inl ⟨e, rfl, entry, List.mem_cons_self, he⟩
    · have hidx : t₁.dirs.idxOf c = t.dirs.idxOf c := by
        rw [hfirst.dirs, List.idxOf_append_of_mem hc]
      have hfresh₁ : ∀ x, utf8 x ∈ names entries → c ++ [x] ∉ t₁.dirs ∧ c ++ [x] ∉ t₁.paths := by
        intro x hx
        obtain ⟨hdir, hpath⟩ := hfresh x (List.mem_append_right _ hx)
        refine hfirst.fresh hdir hpath fun y hy hmem => ?_
        obtain rfl := List.singleton_inj.mp (List.append_cancel_left hy)
        exact hdisjoint _ hmem _ hx rfl
      rw [hok, ok_bind, ← hidx]
      rcases ih (hfirst.dirs_subset hc) hnodup (fun name h => hname name (List.mem_append_right _ h)) hfresh₁
        (pushed ++ first.map (pendingIn t₁ fsPath)) with ⟨e, herr, entry', hmem, he⟩ | ⟨t', rest, hok, hrest⟩
      · exact Or.inl ⟨e, herr, entry', List.mem_cons_of_mem _ hmem, he⟩
      · refine Or.inr ⟨t', first ++ rest, ?_, hrest.trans hfirst⟩
        have hstay := pendingIn_append hrest.dirs fsPath fun d (hd : d ∈ first) => by
          rw [hfirst.dirs]
          exact List.mem_append_right _ (List.mem_map_of_mem hd)
        rw [hok, List.map_append, hstay, List.append_assoc]

/-! ## The stack -/

/-- Between two directories: the builder is that of a tree whose directories and files the host has, and what
its directories list has been entered, but for those that wait on the stack, which are empty as yet. -/
structure Reading (fsPath : HostPath) (root : Node ι) (t : Tree) (waiting : List (List Text × Listing ι)) :
    Prop where
  dirs : ∀ c ∈ t.dirs, (∃ listing, (c, listing) ∈ waiting) ∨
    ∃ entries, At root (hostPath c) (.dir (.ok entries)) ∧ ∀ entry ∈ entries, Entered t c entry
  files : ∀ f ∈ t.files, At root (hostPath f.1) (.file (.ok f.2))
  pending : ∀ d ∈ waiting, d.1 ∈ t.dirs ∧ At root (hostPath d.1) (.dir d.2) ∧
    ∀ x, d.1 ++ [x] ∉ t.dirs ∧ d.1 ++ [x] ∉ t.paths
  nodup : (waiting.map Prod.fst).Nodup

/-- The state of the loop that reads `root`. -/
def ReadingState (fsPath : HostPath) (root : Node ι) (b : RomFsBuilder) (stack : List (Pending ι)) : Prop :=
  ∃ t waiting, b = t.builder ∧ stack = waiting.map (pendingIn t fsPath) ∧ Reading fsPath root t waiting

lemma reading_new (fsPath : HostPath) (listing : Listing ι) :
    Reading fsPath (.dir listing) .new [([], listing)] where
  dirs := by simp [Tree.new]
  files := by simp [Tree.new]
  pending := by
    intro d hd
    obtain rfl := List.mem_singleton.mp hd
    exact ⟨List.mem_singleton_self _, .here _, by simp [Tree.new, Tree.paths]⟩
  nodup := List.nodup_singleton _

lemma Reading.step {fsPath : HostPath} {root : Node ι} {t t' : Tree} {c : List Text}
    {entries : List (Except ι (Bytes × Except ι (Node ι)))} {waiting subdirs : List (List Text × Listing ι)}
    (h : Reading fsPath root t ((c, .ok entries) :: waiting)) (hgrows : Grows t t' c entries subdirs) :
    Reading fsPath root t' (subdirs.reverse ++ waiting) := by
  obtain ⟨hc, hat, hfresh⟩ := h.pending _ List.mem_cons_self
  obtain ⟨hnotin, hnodup⟩ := List.nodup_cons.mp h.nodup
  have hbelow : ∀ {x node}, Except.ok (utf8 x, Except.ok node) ∈ entries → At root (hostPath (c ++ [x])) node := by
    intro x node hmem
    rw [hostPath_concat]
    exact hat.append (.there hmem (.here _))
  constructor
  case dirs =>
    intro d hd
    rcases hgrows.mem_dirs hd with hd | ⟨sub, hsub, rfl⟩
    · rcases h.dirs d hd with ⟨listing, hwait⟩ | ⟨entries', hat', hentered⟩
      · rcases List.mem_cons.mp hwait with heq | hwait
        · obtain ⟨rfl, rfl⟩ := Prod.mk.inj heq
          exact Or.inr ⟨entries, hat, hgrows.entered⟩
        · exact Or.inl ⟨listing, List.mem_append_right _ hwait⟩
      · exact Or.inr ⟨entries', hat', fun entry hentry =>
          (hentered entry hentry).mono hgrows.dirs_subset hgrows.files_subset⟩
    · exact Or.inl ⟨sub.2, List.mem_append_left _ (List.mem_reverse.mpr hsub)⟩
  case files =>
    intro f hf
    rcases hgrows.mem_files hf with hf | ⟨x, hx, hlisted⟩
    · exact h.files f hf
    · rw [hx]
      exact hbelow hlisted
  case pending =>
    intro d hd
    rcases List.mem_append.mp hd with hd | hd
    · have hsub := List.mem_reverse.mp hd
      obtain ⟨x, hx, hlisted⟩ := hgrows.listed d hsub
      refine ⟨?_, hx ▸ hbelow hlisted, fun y => ?_⟩
      · rw [hgrows.dirs]
        exact List.mem_append_right _ (List.mem_map_of_mem hsub)
      · rw [hx]
        -- the subdirectory is new, and so is all that will be below it
        have hdir : c ++ [x] ++ [y] ∉ t.dirs := fun hmem => by
          have hparent := t.parent_mem _ hmem
          rw [List.dropLast_concat] at hparent
          exact (hfresh x).1 hparent
        have hpath : c ++ [x] ++ [y] ∉ t.paths := fun hmem => by
          have hparent := t.folder_mem _ hmem
          rw [List.dropLast_concat] at hparent
          exact (hfresh x).1 hparent
        exact hgrows.fresh hdir hpath fun z hz => by simpa using congrArg List.length hz
    · obtain ⟨hd', hat', hfresh'⟩ := h.pending d (List.mem_cons_of_mem _ hd)
      refine ⟨hgrows.dirs_subset hd', hat', fun y => hgrows.fresh (hfresh' y).1 (hfresh' y).2 fun z hz => ?_⟩
      obtain ⟨rfl, -⟩ := List.append_inj' hz rfl
      exact absurd (List.mem_map_of_mem hd) hnotin
  case nodup =>
    have hdirs := t'.dirs_nodup
    rw [hgrows.dirs, List.nodup_append] at hdirs
    obtain ⟨-, hsubdirs, hdisjoint⟩ := hdirs
    rw [List.map_append, List.map_reverse, List.nodup_append]
    refine ⟨List.nodup_reverse.mpr hsubdirs, hnodup, fun a ha b hb hab => ?_⟩
    obtain ⟨d, hd, rfl⟩ := List.mem_map.mp hb
    exact hdisjoint _ (h.pending d (List.mem_cons_of_mem _ hd)).1 a (List.mem_reverse.mp ha) hab.symm

/-- Reading a directory keeps the invariant, or what cannot be packed is named. -/
lemma readDirectory_keeps {fsPath : HostPath} {root : Node ι} (hroot : IsHost root) :
    Worklist.Keeps readDirectory (ReadingState fsPath root) (Refused fsPath root)
      fun pending => sizeOf (Node.dir pending.2.2) := by
  rintro b item stack ⟨t, waiting, rfl, hstack, h⟩
  cases waiting with
  | nil => cases hstack
  | cons d waiting =>
    obtain ⟨c, listing⟩ := d
    obtain ⟨rfl, rfl⟩ := List.cons.inj hstack
    obtain ⟨hc, hat, hfresh⟩ := h.pending _ List.mem_cons_self
    cases listing with
    | error source => exact Or.inr ⟨_, rfl, .listing hat⟩
    | ok entries =>
      rcases foldlM_addEntry hc fsPath (hroot.nodup _ _ hat) (hroot.component _ _ hat)
        (fun x _ => hfresh x) [] with ⟨e, herr, entry, hmem, he⟩ | ⟨t', subdirs, hok, hgrows⟩
      · exact Or.inr ⟨e, herr, .entry hat hmem he⟩
      · refine Or.inl ⟨t'.builder, subdirs.map (pendingIn t' fsPath), hok,
          ⟨t', subdirs.reverse ++ waiting, rfl, ?_, h.step hgrows⟩, ?_⟩
        · have hwaiting : ∀ d ∈ waiting, d.1 ∈ t.dirs := fun d hd => (h.pending d (List.mem_cons_of_mem _ hd)).1
          rw [List.map_append, List.map_reverse, pendingIn_append hgrows.dirs fsPath hwaiting]
        · have hlt := hgrows.weight
          simp only [List.map_map, Function.comp_def, pendingIn, Node.dir.sizeOf_spec, Except.ok.sizeOf_spec] at hlt ⊢
          omega

/-! ## The whole directory -/

/-- The tree has the directories and the files that the host has below a directory. -/
structure Mirrors (t : Tree) (root : Node ι) : Prop where
  dirs : ∀ c, c ∈ t.dirs ↔ ∃ listing, At root (hostPath c) (.dir listing)
  files : ∀ p data, (p, data) ∈ t.files ↔ At root (hostPath p) (.file (.ok data))

namespace Reading
variable {fsPath : HostPath} {root : Node ι} {t : Tree} (hroot : IsHost root) (h : Reading fsPath root t [])
include hroot h

lemma entered {c : List Text} (hc : c ∈ t.dirs) {listing : Listing ι} (hat : At root (hostPath c) (.dir listing)) :
    ∃ entries, listing = .ok entries ∧ ∀ entry ∈ entries, Entered t c entry := by
  rcases h.dirs c hc with ⟨listing, hwait⟩ | ⟨entries, hat', hentered⟩
  · cases hwait
  · cases hat.unique hroot hat'
    exact ⟨entries, rfl, hentered⟩

lemma stands {c : List Text} {start node : Node ι} {path : HostPath} (hc : Stands t c start)
    (hstart : At root (hostPath c) start) (hnode : At start path node) :
    ∃ p, path = hostPath p ∧ Stands t (c ++ p) node := by
  induction hnode generalizing c with
  | here => exact ⟨[], rfl, by rwa [List.append_nil]⟩
  | @there entries name child node path hentry _ ih =>
    obtain ⟨entries', hok, hentered⟩ := h.entered hroot hc hstart
    cases hok
    obtain ⟨x, child', heq, hchild⟩ := hentered _ hentry
    cases heq
    have hat : At root (hostPath (c ++ [x])) child := by
      rw [hostPath_concat]
      exact hstart.append (.there hentry (.here _))
    obtain ⟨p, rfl, hp⟩ := ih hchild hat
    exact ⟨x :: p, rfl, by rwa [List.append_cons]⟩

end Reading

section Read
variable {fsPath : HostPath} {listing : Listing ι} {t : Tree} (hroot : IsHost (.dir listing))
  (h : Reading fsPath (.dir listing) t [])
include hroot h

lemma stands_of_reading {path : HostPath} {node : Node ι} (hat : At (.dir listing) path node) :
    ∃ p, path = hostPath p ∧ Stands t p node :=
  h.stands hroot (show Stands t [] (.dir listing) from Tree.nil_mem) (.here _) hat

lemma mirrors_of_reading : Mirrors t (.dir listing) := by
  have hstands : ∀ {p node}, At (.dir listing) (hostPath p) node → Stands t p node := by
    intro p node hat
    obtain ⟨q, hq, hstands⟩ := stands_of_reading hroot h hat
    rw [List.map_injective_iff.mpr utf8_injective hq]
    exact hstands
  constructor
  case dirs =>
    intro c
    constructor
    · intro hc
      rcases h.dirs c hc with ⟨listing, hwait⟩ | ⟨entries, hat, -⟩
      · cases hwait
      · exact ⟨_, hat⟩
    · rintro ⟨listing, hat⟩
      exact hstands hat
  case files =>
    intro p data
    constructor
    · exact h.files (p, data)
    · intro hat
      obtain ⟨bytes, hdata, hmem⟩ := hstands hat
      cases hdata
      exact hmem

lemma not_refused_of_reading {e : FromDirectoryError ι} : ¬Refused fsPath (.dir listing) e := by
  rintro (⟨hat⟩ | ⟨hat, hmem, he⟩) <;>
    obtain ⟨p, rfl, hp⟩ := stands_of_reading hroot h hat <;>
    obtain ⟨entries, hok, hentered⟩ := h.entered hroot hp hat
  · cases hok
  · cases hok
    exact (hentered _ hmem).not_refused he

end Read

lemma readingState_new (fsPath : HostPath) (listing : Listing ι) :
    ReadingState fsPath (.dir listing) .new [(0, fsPath, listing)] :=
  ⟨.new, [([], listing)], Tree.builder_new.symm, by simp [pendingIn, Tree.new], reading_new fsPath listing⟩

lemma fromDirectory_eq_ok {fuel : ℕ} {fsPath : HostPath} {listing : Listing ι} {b : RomFsBuilder}
    (hroot : IsHost (.dir listing)) (h : RomFsBuilder.fromDirectory fuel fsPath listing = ok b) :
    ∃ t, b = t.builder ∧ Reading fsPath (.dir listing) t [] := by
  obtain ⟨t, waiting, rfl, hstack, hreading⟩ :=
    Worklist.run_eq_ok (readDirectory_keeps hroot) (readingState_new fsPath listing) h
  obtain rfl := List.map_eq_nil_iff.mp hstack.symm
  exact ⟨t, rfl, hreading⟩

/-- A directory of the host is read completely. There is nothing in it that cannot be packed, and the builder
is that of its directories and files; or there is, and the error names one such thing. -/
theorem fromDirectory_reads {fsPath : HostPath} {listing : Listing ι} (hroot : IsHost (.dir listing)) :
    ∃ turns, ∀ fuel ≥ turns,
      (∃ t, RomFsBuilder.fromDirectory fuel fsPath listing = ok t.builder ∧ Mirrors t (.dir listing) ∧
        ∀ e, ¬Refused fsPath (.dir listing) e) ∨
      ∃ e, RomFsBuilder.fromDirectory fuel fsPath listing = err e ∧ Refused fsPath (.dir listing) e := by
  refine ⟨sizeOf (Node.dir listing) + 1, fun fuel hfuel => ?_⟩
  rcases Worklist.run_of_keeps (readDirectory_keeps hroot) (show _ < fuel by simpa using hfuel)
    (readingState_new fsPath listing) with ⟨b, hok, -⟩ | ⟨e, herr, he⟩
  · obtain ⟨t, rfl, h⟩ := fromDirectory_eq_ok hroot hok
    exact Or.inl ⟨t, hok, mirrors_of_reading hroot h, fun e => not_refused_of_reading hroot h⟩
  · exact Or.inr ⟨e, herr, he⟩

def oneFile : List (Except Empty (Bytes × Except Empty (Node Empty))) :=
  [.ok (utf8 ['f'], .ok (.file (.ok [1, 2, 3])))]

lemma oneFile_isHost : IsHost (.dir (.ok oneFile)) := by
  refine isHost_dir (by decide) (by decide) fun name child hmem => ?_
  simp only [oneFile, List.mem_singleton, Except.ok.injEq, Prod.mk.injEq] at hmem
  obtain ⟨rfl, rfl⟩ := hmem
  exact isHost_file _

def twoDirectories : List (Except Empty (Bytes × Except Empty (Node Empty))) :=
  [.ok (utf8 ['d'], .ok (.dir (.ok oneFile))), .ok (utf8 ['e'], .ok (.dir (.ok [])))]

lemma twoDirectories_isHost {entries : List (Except Empty (Bytes × Except Empty (Node Empty)))}
    (h : entries.Perm twoDirectories) : IsHost (.dir (.ok entries)) := by
  have hnames : (names entries).Perm (names twoDirectories) := h.filterMap _
  refine isHost_dir (hnames.nodup_iff.mpr (by decide)) (fun name hname => ?_) fun name child hmem => ?_
  · have hboth : ∀ name ∈ names twoDirectories, name ≠ [] ∧ 0x2f ∉ name := by decide
    exact hboth name (hnames.mem_iff.mp hname)
  · have hmem := h.mem_iff.mp hmem
    simp only [twoDirectories, List.mem_cons, Except.ok.injEq, Prod.mk.injEq, List.not_mem_nil, or_false] at hmem
    rcases hmem with ⟨rfl, rfl⟩ | ⟨rfl, rfl⟩
    · exact oneFile_isHost
    · exact isHost_dir (by decide) (by decide) (by simp)

theorem fromDirectory_reads_two : ∃ turns, ∀ fuel ≥ turns,
    (∃ t, RomFsBuilder.fromDirectory fuel [] (.ok twoDirectories) = ok t.builder ∧
      Mirrors t (.dir (.ok twoDirectories)) ∧ ∀ e, ¬Refused [] (.dir (.ok twoDirectories)) e) ∨
    ∃ e, RomFsBuilder.fromDirectory fuel [] (.ok twoDirectories) = err e ∧
      Refused [] (.dir (.ok twoDirectories)) e :=
  fromDirectory_reads (twoDirectories_isHost (List.Perm.refl _))

end NxObject.Romfs
