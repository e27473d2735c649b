import NxObject.RomFsReader

/-!
# Whether a traversal ends

The reader checks the bounds of every entry it walks to, but not that a sibling chain leads on: lookups
and listings settle exactly when no chain of a reachable directory comes back to an offset it has
visited.
-/
namespace NxObject.Romfs
open Outcome

/-- What construction has checked, of a buffer no longer than a slice can be. -/
structure RomFs.Bounded (romfs : RomFs) : Prop where
  addressable : romfs.bytes.length < 2 ^ 63
  dirMeta : romfs.header.dirMetaTableOffset.toNat + romfs.header.dirMetaTableSize.toNat ≤
    romfs.bytes.length
  dirHash : romfs.header.dirHashTableOffset.toNat + romfs.header.dirHashTableSize.toNat ≤
    romfs.bytes.length
  fileMeta : romfs.header.fileMetaTableOffset.toNat + romfs.header.fileMetaTableSize.toNat ≤
    romfs.bytes.length
  fileHash : romfs.header.fileHashTableOffset.toNat + romfs.header.fileHashTableSize.toNat ≤
    romfs.bytes.length
  fileData : romfs.header.fileDataOffset.toNat ≤ romfs.bytes.length

lemma le_of_checkTable {available : ℕ} {offset size : UInt64} {overflow outOfBounds} {u : Unit}
    (h : checkTable available offset size overflow outOfBounds = ok u) :
    offset.toNat + size.toNat ≤ available := by
  unfold checkTable at h
  obtain ⟨stop, hstop, h⟩ := bind_eq_ok.mp h
  rw [okOr_eq_ok, checkedAdd] at hstop
  split_ifs at hstop
  cases hstop
  split_ifs at h with hlt
  exact Nat.le_of_not_lt hlt

theorem bounded_of_tryFromBytes {bytes : Bytes} {romfs : RomFs}
    (h : RomFs.tryFromBytes bytes = ok romfs) (hlen : bytes.length < 2 ^ 63) : romfs.Bounded := by
  unfold RomFs.tryFromBytes at h
  obtain ⟨_, _, h⟩ := bind_eq_ok.mp h
  obtain ⟨header, _, h⟩ := bind_eq_ok.mp h
  obtain ⟨_, _, h⟩ := bind_eq_ok.mp h
  obtain ⟨_, hdirMeta, h⟩ := bind_eq_ok.mp h
  obtain ⟨_, hdirHash, h⟩ := bind_eq_ok.mp h
  obtain ⟨_, hfileMeta, h⟩ := bind_eq_ok.mp h
  obtain ⟨_, hfileHash, h⟩ := bind_eq_ok.mp h
  obtain ⟨_, hdata, h⟩ := bind_eq_ok.mp h
  cases h
  exact ⟨hlen, le_of_checkTable hdirMeta, le_of_checkTable hdirHash, le_of_checkTable hfileMeta,
    le_of_checkTable hfileHash, ensure_eq_ok.mp hdata⟩

section Reads
variable {romfs : RomFs} (hb : romfs.Bounded)

lemma readEntry_settled {ε H : Type} {codec : Codec H} {nameLen : H → UInt32}
    {tooSmall : ℕ → ℕ → ε} {table : Bytes} {tableBase : ℕ} {offset : UInt32}
    (hsize : codec.size ≤ 0x20) (hbase : tableBase + table.length < 2 ^ 63) :
    Settled (readEntry codec nameLen tooSmall table tableBase offset) := by
  have hoffset := offset.toNat_lt
  have hsum : offset.toNat + codec.size < 2 ^ 64 := by omega
  simp only [readEntry, add_of_lt (show tableBase + table.length < 2 ^ 64 by omega), ok_bind,
    add_of_lt hsum]
  split_ifs with hout
  · exact settled_err _
  · rw [slice_of_le (by omega) le_rfl, ok_bind]
    cases hentry : codec.fromPrefix (List.drop offset.toNat (List.take table.length table)) with
    | none => exact settled_err _
    | some entry =>
      have hname := (nameLen entry).toNat_lt
      simp only [checkedAdd_of_lt (show offset.toNat + codec.size + (nameLen entry).toNat < 2 ^ 64 by
        omega), okOr_some, ok_bind]
      split_ifs with hlong
      · rw [add_of_lt (by omega), ok_bind]
        exact settled_err _
      · rw [slice_of_le (Nat.le_add_right _ _) (by omega), ok_bind]
        exact settled_ok _

include hb

lemma dirMetaTable_ok {ε : Type} : ∃ table, (romfs.dirMetaTable : Outcome ε Bytes) = ok table ∧
    romfs.header.dirMetaTableOffset.toNat + table.length < 2 ^ 63 := by
  have h₁ := hb.addressable
  have h₂ := hb.dirMeta
  simp only [RomFs.dirMetaTable, add_of_lt (show romfs.header.dirMetaTableOffset.toNat +
    romfs.header.dirMetaTableSize.toNat < 2 ^ 64 by omega), ok_bind,
    slice_of_le (Nat.le_add_right _ _) h₂]
  refine ⟨_, rfl, ?_⟩
  rw [List.length_drop, List.length_take]
  omega

lemma fileMetaTable_ok {ε : Type} : ∃ table, (romfs.fileMetaTable : Outcome ε Bytes) = ok table ∧
    romfs.header.fileMetaTableOffset.toNat + table.length < 2 ^ 63 := by
  have h₁ := hb.addressable
  have h₂ := hb.fileMeta
  simp only [RomFs.fileMetaTable, add_of_lt (show romfs.header.fileMetaTableOffset.toNat +
    romfs.header.fileMetaTableSize.toNat < 2 ^ 64 by omega), ok_bind,
    slice_of_le (Nat.le_add_right _ _) h₂]
  refine ⟨_, rfl, ?_⟩
  rw [List.length_drop, List.length_take]
  omega

lemma readDir_settled (offset : UInt32) : Settled (romfs.readDir offset) := by
  obtain ⟨table, htable, hlen⟩ := dirMetaTable_ok (ε := OpenError) hb
  rw [RomFs.readDir, RomFs.dirFromOffset, htable, ok_bind]
  exact (readEntry_settled (by decide) hlen).bind fun _ _ => settled_ok _

lemma readFile_settled (offset : UInt32) : Settled (romfs.readFile offset) := by
  obtain ⟨table, htable, hlen⟩ := fileMetaTable_ok (ε := OpenError) hb
  rw [RomFs.readFile, RomFs.fileFromOffset, htable, ok_bind]
  exact (readEntry_settled (by decide) hlen).bind fun _ _ => settled_ok _

lemma rootDir_settled : Settled romfs.rootDir := by
  obtain ⟨table, htable, hlen⟩ := dirMetaTable_ok (ε := RootDirError) hb
  rw [RomFs.rootDir, RomFs.dirFromOffsetForRoot, htable, ok_bind]
  exact (readEntry_settled (by decide) hlen).bind fun _ _ => settled_ok _

end Reads

def RomFs.dirLink (romfs : RomFs) : UInt32 → Option UInt32 :=
  Chain.link romfs.readDir (·.entry.siblingOffset) NO_ENTRY

def RomFs.fileLink (romfs : RomFs) : UInt32 → Option UInt32 :=
  Chain.link romfs.readFile (·.entry.siblingOffset) NO_ENTRY

/-- The directories that steps of `entries` and `find_dir` lead to from the root. -/
inductive Reachable (romfs : RomFs) : RomFsDir → Prop
  | root {dir : RomFsDir} : romfs.rootDir = ok dir → Reachable romfs dir
  | child {dir child : RomFsDir} {n : ℕ} {o : UInt32} : Reachable romfs dir →
      Chain.orbit romfs.dirLink n dir.entry.childOffset = some o → o ≠ NO_ENTRY →
      romfs.readDir o = ok child → Reachable romfs child

/-- Every lookup and every listing settles after finitely many steps. -/
structure Terminates (romfs : RomFs) : Prop where
  openPath : ∀ path, ∃ fuel, Settled (romfs.openPath fuel path)
  entries : ∀ dir, Reachable romfs dir → ∃ fuel, Settled (dir.entries.collect romfs fuel)

/-- No chain of a reachable directory comes back to an offset it has visited. -/
def AcyclicChains (romfs : RomFs) : Prop :=
  ∀ dir, Reachable romfs dir → Chain.Acyclic romfs.dirLink dir.entry.childOffset ∧
    Chain.Acyclic romfs.fileLink dir.entry.fileOffset

section Lookup
variable {romfs : RomFs} (hb : romfs.Bounded)
include hb

lemma findDir_settled {dir : RomFsDir} (hends : Chain.Ends romfs.dirLink dir.entry.childOffset)
    (name : Text) : ∃ n, Settled (romfs.findDir n dir name) ∧
      ∀ fuel, n ≤ fuel → romfs.findDir fuel dir name = romfs.findDir n dir name := by
  obtain ⟨n, hn⟩ := hends
  have hsearch : Settled (Chain.search romfs.readDir (·.entry.siblingOffset) NO_ENTRY (·.name == name)
      n dir.entry.childOffset) := Chain.search_settled (readDir_settled hb) hn
  refine ⟨n, hsearch.bind fun _ _ => settled_okOr _ _, fun fuel hle => ?_⟩
  rw [RomFs.findDir, Chain.search_mono hsearch.ne_running hle, RomFs.findDir]

lemma findFile_settled {dir : RomFsDir} (hends : Chain.Ends romfs.fileLink dir.entry.fileOffset)
    (name : Text) : ∃ n, ∀ fuel, n ≤ fuel → Settled (romfs.findFile fuel dir name) := by
  obtain ⟨n, hn⟩ := hends
  refine ⟨n, fun fuel hle => ?_⟩
  have hfuel := Chain.orbit_none_of_le _ hn hle
  exact (Chain.search_settled (readFile_settled hb) hfuel).bind fun _ _ => settled_okOr _ _

omit hb in
lemma reachable_of_findDir {fuel : ℕ} {dir child : RomFsDir} {name : Text}
    (hr : Reachable romfs dir) (h : romfs.findDir fuel dir name = ok child) :
    Reachable romfs child := by
  obtain ⟨found, hsearch, hfound⟩ := bind_eq_ok.mp h
  rw [okOr_eq_ok] at hfound
  subst hfound
  obtain ⟨_, n, o, horbit, hne, hread⟩ := Chain.mem_of_search hsearch
  exact hr.child horbit hne hread

lemma openSteps_settled
    (hends : ∀ dir, Reachable romfs dir → Chain.Ends romfs.dirLink dir.entry.childOffset)
    (components : List Text) (s : RomFsDir × Option Text) (hr : Reachable romfs s.1) :
    ∃ n, ∀ fuel, n ≤ fuel → Settled (components.foldlM (romfs.openStep fuel) s) ∧
      components.foldlM (romfs.openStep fuel) s = components.foldlM (romfs.openStep n) s ∧
      ∀ t, components.foldlM (romfs.openStep fuel) s = ok t → Reachable romfs t.1 := by
  induction components generalizing s with
  | nil =>
    refine ⟨0, fun fuel _ => ⟨settled_ok s, rfl, fun t ht => ?_⟩⟩
    cases ht
    exact hr
  | cons c cs ih =>
    obtain ⟨dir, last⟩ := s
    cases last with
    | none =>
      obtain ⟨n, hn⟩ := ih (dir, some c) hr
      exact ⟨n, fun fuel hle => hn fuel hle⟩
    | some prev =>
      obtain ⟨m, hsettled, hmono⟩ := findDir_settled hb (hends dir hr) prev
      have hstep : ∀ fuel, m ≤ fuel → (c :: cs).foldlM (romfs.openStep fuel) (dir, some prev) =
          (romfs.findDir m dir prev >>= fun dir => cs.foldlM (romfs.openStep fuel) (dir, some c)) := by
        intro fuel hle
        have hopen : romfs.openStep fuel (dir, some prev) c =
            (romfs.findDir fuel dir prev >>= fun dir => ok (dir, some c)) := rfl
        rw [List.foldlM_cons, hopen, hmono fuel hle, bind_assoc]
        rfl
      rcases hsettled with ⟨child, hchild⟩ | ⟨e, he⟩
      · obtain ⟨n, hn⟩ := ih (child, some c) (reachable_of_findDir hr hchild)
        refine ⟨max m n, fun fuel hle => ?_⟩
        rw [hstep fuel (by omega), hstep (max m n) (by omega), hchild, ok_bind, ok_bind]
        obtain ⟨h₁, h₂, h₃⟩ := hn fuel (by omega)
        exact ⟨h₁, h₂.trans (hn (max m n) (by omega)).2.1.symm, h₃⟩
      · refine ⟨m, fun fuel hle => ?_⟩
        rw [hstep fuel hle, hstep m le_rfl, he]
        exact ⟨settled_err e, rfl, fun t ht => by cases ht⟩

lemma openPath_settled
    (hends : ∀ dir, Reachable romfs dir → Chain.Ends romfs.dirLink dir.entry.childOffset ∧
      Chain.Ends romfs.fileLink dir.entry.fileOffset)
    (path : Text) : ∃ fuel, Settled (romfs.openPath fuel path) := by
  by_cases hempty : path.dropWhile (· == '/') = []
  · exact ⟨0, by simp only [RomFs.openPath, if_pos hempty]; exact settled_err _⟩
  rcases rootDir_settled hb with ⟨root, hroot⟩ | ⟨e, he⟩
  · obtain ⟨m, hm⟩ := openSteps_settled hb (fun dir hr => (hends dir hr).1)
      ((path.dropWhile (· == '/')).splitOn '/') (root, none) (.root hroot)
    obtain ⟨hsettled, -, hreach⟩ := hm m le_rfl
    rcases hsettled with ⟨⟨dir, last⟩, hsteps⟩ | ⟨e, he⟩
    · cases last with
      | none =>
        refine ⟨m, ?_⟩
        simp only [RomFs.openPath, if_neg hempty, hroot, mapErr_ok, ok_bind, hsteps]
        exact settled_err _
      | some filename =>
        obtain ⟨n, hn⟩ := findFile_settled hb (hends dir (hreach _ hsteps)).2 filename
        refine ⟨max m n, ?_⟩
        obtain ⟨_, heq, _⟩ := hm (max m n) (by omega)
        simp only [RomFs.openPath, if_neg hempty, hroot, mapErr_ok, ok_bind, heq, hsteps]
        exact hn _ (by omega)
    · refine ⟨m, ?_⟩
      simp only [RomFs.openPath, if_neg hempty, hroot, mapErr_ok, ok_bind, he, err_bind]
      exact settled_err _
  · refine ⟨0, ?_⟩
    simp only [RomFs.openPath, if_neg hempty, he]
    exact settled_err _

end Lookup

section Listing
variable {romfs : RomFs} (hb : romfs.Bounded)

lemma readOk_cases {α : Type} {read : UInt32 → Outcome OpenError α} (next : α → UInt32)
    (hread : ∀ o, Settled (read o)) (o : UInt32) :
    (∃ a, readOk read o = ok (some a) ∧ Chain.link read next NO_ENTRY o = some (next a)) ∨
      (readOk read o = ok none ∧ Chain.link read next NO_ENTRY o = none) := by
  by_cases hstop : o = NO_ENTRY
  · exact Or.inr ⟨by rw [readOk, if_pos hstop], by rw [Chain.link, if_pos hstop]⟩
  · rcases hread o with ⟨a, ha⟩ | ⟨e, he⟩
    · exact Or.inl ⟨a, by rw [readOk, if_neg hstop, ha], by rw [Chain.link, if_neg hstop, ha]⟩
    · exact Or.inr ⟨by rw [readOk, if_neg hstop, he], by rw [Chain.link, if_neg hstop, he]⟩

include hb

lemma collect_settled (k : ℕ) (it : DirIterator) {m n : ℕ} (hk : m + n ≤ k)
    (hdirs : Chain.orbit romfs.dirLink m it.nextDirOffset = none)
    (hfiles : Chain.orbit romfs.fileLink n it.nextFileOffset = none) :
    Settled (it.collect romfs k) := by
  induction k generalizing it m n with
  | zero =>
    obtain rfl : m = 0 := by omega
    cases hdirs
  | succ k ih =>
    obtain ⟨m, rfl⟩ : ∃ j, m = j + 1 := Nat.exists_eq_succ_of_ne_zero (by rintro rfl; cases hdirs)
    obtain ⟨n, rfl⟩ : ∃ j, n = j + 1 := Nat.exists_eq_succ_of_ne_zero (by rintro rfl; cases hfiles)
    rw [Chain.orbit] at hdirs hfiles
    rcases readOk_cases (·.entry.siblingOffset) (readDir_settled hb) it.nextDirOffset with
      ⟨dir, hdir, hlink⟩ | ⟨hdir, hlink⟩
    · rw [RomFs.dirLink, hlink, Option.bind_some] at hdirs
      rw [← Chain.orbit] at hfiles
      simp only [DirIterator.collect, DirIterator.next, hdir, ok_bind, pure_eq]
      exact (ih { it with nextDirOffset := dir.entry.siblingOffset }
        (show m + (n + 1) ≤ k by omega) hdirs hfiles).bind fun _ _ => settled_ok _
    · rcases readOk_cases (·.entry.siblingOffset) (readFile_settled hb)
        it.nextFileOffset with ⟨file, hfile, hlink'⟩ | ⟨hfile, -⟩
      · rw [RomFs.fileLink, hlink', Option.bind_some] at hfiles
        rw [← Chain.orbit] at hdirs
        simp only [DirIterator.collect, DirIterator.next, hdir, hfile, ok_bind, pure_eq]
        exact (ih { it with nextFileOffset := file.entry.siblingOffset }
          (show m + 1 + n ≤ k by omega) hdirs hfiles).bind fun _ _ => settled_ok _
      · simp only [DirIterator.collect, DirIterator.next, hdir, hfile, ok_bind, pure_eq]
        exact settled_ok _

lemma ends_of_collect (k : ℕ) (it : DirIterator) (h : Settled (it.collect romfs k)) :
    Chain.orbit romfs.dirLink k it.nextDirOffset = none ∧
      Chain.orbit romfs.fileLink k it.nextFileOffset = none := by
  induction k generalizing it with
  | zero => exact absurd rfl h.ne_running
  | succ k ih =>
    rcases readOk_cases (·.entry.siblingOffset) (readDir_settled hb) it.nextDirOffset with
      ⟨dir, hdir, hlink⟩ | ⟨hdir, hlink⟩
    · simp only [DirIterator.collect, DirIterator.next, hdir, ok_bind, pure_eq] at h
      obtain ⟨hdirs, hfiles⟩ := ih _ h.of_bind
      refine ⟨?_, Chain.orbit_none_of_le _ hfiles (Nat.le_succ k)⟩
      rw [Chain.orbit, RomFs.dirLink, hlink]
      exact hdirs
    · have hdirs : Chain.orbit romfs.dirLink 1 it.nextDirOffset = none := by
        rw [Chain.orbit, RomFs.dirLink, hlink]
        rfl
      refine ⟨Chain.orbit_none_of_le _ hdirs (by omega), ?_⟩
      rcases readOk_cases (·.entry.siblingOffset) (readFile_settled hb)
        it.nextFileOffset with ⟨file, hfile, hlink'⟩ | ⟨hfile, hlink'⟩
      · simp only [DirIterator.collect, DirIterator.next, hdir, hfile, ok_bind, pure_eq] at h
        obtain ⟨-, hfiles⟩ := ih _ h.of_bind
        rw [Chain.orbit, RomFs.fileLink, hlink']
        exact hfiles
      · rw [Chain.orbit, RomFs.fileLink, hlink']
        rfl

end Listing

/-- Traversals of an accepted image settle if and only if its chains are acyclic. -/
theorem terminates_iff {bytes : Bytes} {romfs : RomFs} (h : RomFs.tryFromBytes bytes = ok romfs)
    (hlen : bytes.length < 2 ^ 63) : Terminates romfs ↔ AcyclicChains romfs := by
  have hb := bounded_of_tryFromBytes h hlen
  constructor
  · intro hterm dir hr
    obtain ⟨k, hk⟩ := hterm.entries dir hr
    obtain ⟨hdirs, hfiles⟩ := ends_of_collect hb k dir.entries hk
    exact ⟨Chain.Ends.acyclic _ ⟨k, hdirs⟩, Chain.Ends.acyclic _ ⟨k, hfiles⟩⟩
  · intro hacyclic
    have hends : ∀ dir, Reachable romfs dir → Chain.Ends romfs.dirLink dir.entry.childOffset ∧
        Chain.Ends romfs.fileLink dir.entry.fileOffset := fun dir hr =>
      ⟨(Chain.ends_iff_acyclic _ _).mpr (hacyclic dir hr).1,
        (Chain.ends_iff_acyclic _ _).mpr (hacyclic dir hr).2⟩
    refine ⟨openPath_settled hb hends, fun dir hr => ?_⟩
    obtain ⟨⟨m, hm⟩, n, hn⟩ := hends dir hr
    exact ⟨m + n, collect_settled hb (m + n) dir.entries le_rfl hm hn⟩

/-- An image whose root names itself as its first child and as its own sibling. -/
def selfLinkedImage : Bytes :=
  RomFsHeader.codec.enc ⟨0x50, 0x50, 0, 0x50, 0x18, 0x50, 0, 0x50, 0, 0x50⟩ ++
    RomFsDirEntry.codec.enc ⟨0, 0, 0, NO_ENTRY, NO_ENTRY, 0⟩

def selfLinkedRomFs : RomFs :=
  ⟨selfLinkedImage, ⟨0x50, 0x50, 0, 0x50, 0x18, 0x50, 0, 0x50, 0, 0x50⟩⟩

lemma selfLinked_accepted : RomFs.tryFromBytes selfLinkedImage = ok selfLinkedRomFs := by
  decide +kernel

lemma selfLinked_readDir : selfLinkedRomFs.readDir 0 = ok ⟨⟨0, 0, 0, NO_ENTRY, NO_ENTRY, 0⟩, []⟩ := by
  decide +kernel

lemma selfLinked_rootDir : selfLinkedRomFs.rootDir = ok ⟨⟨0, 0, 0, NO_ENTRY, NO_ENTRY, 0⟩, []⟩ := by
  decide +kernel

theorem terminates_iff_selfLinked : Terminates selfLinkedRomFs ↔ AcyclicChains selfLinkedRomFs :=
  terminates_iff selfLinked_accepted (by decide)

/-- Listing the root of an accepted image need not end. -/
theorem selfLinked_runs_on :
    ∃ romfs, RomFs.tryFromBytes selfLinkedImage = ok romfs ∧ ¬ Terminates romfs := by
  refine ⟨selfLinkedRomFs, selfLinked_accepted, fun hterm => ?_⟩
  have hb := bounded_of_tryFromBytes selfLinked_accepted (by decide)
  obtain ⟨k, hk⟩ := hterm.entries _ (.root selfLinked_rootDir)
  have hlink : selfLinkedRomFs.dirLink 0 = some 0 := by
    rw [RomFs.dirLink, Chain.link, if_neg (by decide), selfLinked_readDir]
  have horbit : ∀ n, Chain.orbit selfLinkedRomFs.dirLink n 0 = some 0 := by
    intro n
    induction n with
    | zero => rfl
    | succ n ih => rw [Chain.orbit, hlink, Option.bind_some, ih]
  have hend := (ends_of_collect hb k _ hk).1
  rw [RomFsDir.entries, horbit] at hend
  cases hend

end NxObject.Romfs
