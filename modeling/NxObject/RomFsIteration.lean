import NxObject.RomFsBounds

/-!
# What a listing yields

The iterator over a directory walks the subdirectories' chain and then the files'. It is meant to stop
for good at the first entry that it cannot read; a subdirectory that cannot be read only moves it on to
the files.
-/
namespace NxObject.Romfs
open Outcome

/-- The results of successive calls of `next`, and the state behind them. -/
def DirIterator.calls (romfs : RomFs) : ℕ → DirIterator →
    Outcome OpenError (List (Option RomFsEntry) × DirIterator)
  | 0, it => ok ([], it)
  | n + 1, it => do
      let (entry, it) ← it.next romfs
      let (entries, it) ← calls romfs n it
      pure (entry :: entries, it)

namespace RomFs
variable (romfs : RomFs)

/-- The subdirectories that `n` steps along their chain read, and where they stop. -/
def readDirs (n : ℕ) (offset : UInt32) : List RomFsDir × UInt32 :=
  Chain.readAlong romfs.readDir (·.entry.siblingOffset) NO_ENTRY n offset

def readFiles (n : ℕ) (offset : UInt32) : List RomFsFile × UInt32 :=
  Chain.readAlong romfs.readFile (·.entry.siblingOffset) NO_ENTRY n offset

/-- The first `n` entries of a directory, subdirectories first, up to the first entry of either chain
that cannot be read. -/
def listing (dir : RomFsDir) (n : ℕ) : List RomFsEntry :=
  let (dirs, stoppedAt) := romfs.readDirs n dir.entry.childOffset
  if stoppedAt = NO_ENTRY then
    dirs.map .dir ++ (romfs.readFiles (n - dirs.length) dir.entry.fileOffset).1.map .file
  else dirs.map .dir

/-- Any number of calls of `next` yields the listing, and `None` from its end on. -/
def StopsAtCorruption (dir : RomFsDir) : Prop :=
  ∀ n, ∃ it, dir.entries.calls romfs n =
    ok ((romfs.listing dir n).map some ++ List.replicate (n - (romfs.listing dir n).length) none, it)

/-- What `n` calls yield: the files follow also where a subdirectory could not be read. -/
def yielded (it : DirIterator) (n : ℕ) : List RomFsEntry :=
  let dirs := (romfs.readDirs n it.nextDirOffset).1
  dirs.map .dir ++ (romfs.readFiles (n - dirs.length) it.nextFileOffset).1.map .file

def FirstFileReadable (dir : RomFsDir) : Prop :=
  dir.entry.fileOffset ≠ NO_ENTRY ∧ ∃ file, romfs.readFile dir.entry.fileOffset = ok file

/-- The chain of subdirectories comes to an entry that cannot be read. -/
def DirChainBreaks (dir : RomFsDir) : Prop :=
  Chain.Breaks romfs.readDir (·.entry.siblingOffset) NO_ENTRY dir.entry.childOffset

end RomFs

section Calls
variable {romfs : RomFs}

lemma readOk_readAlong {α : Type} {read : UInt32 → Outcome OpenError α} (next : α → UInt32)
    (hread : ∀ o, Settled (read o)) (o : UInt32) :
    (∃ a, readOk read o = ok (some a) ∧ o ≠ NO_ENTRY ∧ read o = ok a) ∨
      (readOk read o = ok none ∧ ∀ n, Chain.readAlong read next NO_ENTRY n o = ([], o)) := by
  rcases readOk_cases next hread o with ⟨a, hok, hlink⟩ | ⟨hnone, hlink⟩
  · obtain ⟨hstop, -⟩ := Chain.exists_of_link hlink
    exact Or.inl ⟨a, hok, hstop, readOk_eq_some hok⟩
  · exact Or.inr ⟨hnone, Chain.readAlong_of_link_none hlink⟩

variable (hb : romfs.Bounded)
include hb

/-- Successive calls yield the chain of subdirectories and then that of files, whether the first has
come to its end or cannot be read any further. -/
theorem calls_eq (n : ℕ) (it : DirIterator) :
    ∃ it', it.calls romfs n =
      ok ((romfs.yielded it n).map some ++ List.replicate (n - (romfs.yielded it n).length) none, it') := by
  induction n generalizing it with
  | zero => exact ⟨it, rfl⟩
  | succ n ih =>
    rcases readOk_readAlong (·.entry.siblingOffset) (readDir_settled hb) it.nextDirOffset with
      ⟨dir, hdir, hstop, hread⟩ | ⟨hdir, hnone⟩
    · obtain ⟨it', hcalls⟩ := ih { it with nextDirOffset := dir.entry.siblingOffset }
      have hyielded : romfs.yielded it (n + 1) =
          .dir dir :: romfs.yielded { it with nextDirOffset := dir.entry.siblingOffset } n := by
        simp only [RomFs.yielded, RomFs.readDirs, Chain.readAlong_succ hstop hread, List.map_cons,
          List.length_cons, Nat.add_sub_add_right, List.cons_append]
      refine ⟨it', ?_⟩
      simp only [DirIterator.calls, DirIterator.next, hdir, ok_bind, pure_eq, hcalls, hyielded,
        List.map_cons, List.length_cons, Nat.add_sub_add_right, List.cons_append]
    · have hdirs : ∀ n, romfs.readDirs n it.nextDirOffset = ([], it.nextDirOffset) := hnone
      rcases readOk_readAlong (·.entry.siblingOffset) (readFile_settled hb) it.nextFileOffset with
        ⟨file, hfile, hstop, hread⟩ | ⟨hfile, hnone'⟩
      · obtain ⟨it', hcalls⟩ := ih { it with nextFileOffset := file.entry.siblingOffset }
        have hyielded : romfs.yielded it (n + 1) =
            .file file :: romfs.yielded { it with nextFileOffset := file.entry.siblingOffset } n := by
          simp only [RomFs.yielded, hdirs, RomFs.readFiles, List.map_nil, List.nil_append,
            List.length_nil, Nat.sub_zero, Chain.readAlong_succ hstop hread, List.map_cons]
        refine ⟨it', ?_⟩
        simp only [DirIterator.calls, DirIterator.next, hdir, hfile, ok_bind, pure_eq, hcalls, hyielded,
          List.map_cons, List.length_cons, Nat.add_sub_add_right, List.cons_append]
      · have hfiles : ∀ n, romfs.readFiles n it.nextFileOffset = ([], it.nextFileOffset) := hnone'
        obtain ⟨it', hcalls⟩ := ih it
        have hyielded : ∀ n, romfs.yielded it n = [] := fun n => by
          simp only [RomFs.yielded, hdirs, hfiles, List.map_nil, List.append_nil]
        refine ⟨it', ?_⟩
        simp only [DirIterator.calls, DirIterator.next, hdir, hfile, ok_bind, pure_eq, hcalls, hyielded,
          List.map_nil, List.nil_append, List.length_nil, Nat.sub_zero, List.replicate_succ]

omit hb in
lemma padded_inj {α : Type} {as bs : List α} {m n : ℕ}
    (h : as.map some ++ List.replicate m none = bs.map some ++ List.replicate n none) : as = bs := by
  have hentries := congrArg (List.filterMap id) h
  simpa [List.filterMap_append, List.filterMap_map] using hentries

lemma stopsAtCorruption_iff (dir : RomFsDir) :
    romfs.StopsAtCorruption dir ↔ ∀ n, romfs.yielded dir.entries n = romfs.listing dir n := by
  refine forall_congr' fun n => ?_
  obtain ⟨it, hcalls⟩ := calls_eq hb n dir.entries
  constructor
  · rintro ⟨it', hlisting⟩
    rw [hcalls] at hlisting
    exact padded_inj (Prod.mk.inj (ok.inj hlisting)).1
  · intro heq
    rw [← heq]
    exact ⟨it, hcalls⟩

omit hb in
/-- The two differ by the files behind a subdirectory that cannot be read. -/
lemma yielded_eq_listing (dir : RomFsDir) (n : ℕ) :
    romfs.yielded dir.entries n = romfs.listing dir n ↔
      ((romfs.readDirs n dir.entry.childOffset).2 = NO_ENTRY ∨
        (romfs.readFiles (n - (romfs.readDirs n dir.entry.childOffset).1.length)
          dir.entry.fileOffset).1 = []) := by
  simp only [RomFs.yielded, RomFs.listing, RomFsDir.entries]
  split_ifs with hstop
  · simp [hstop]
  · simp [hstop]

omit hb in
lemma readFiles_ne_nil {dir : RomFsDir} (h : romfs.FirstFileReadable dir) {n : ℕ} (hn : 0 < n) :
    (romfs.readFiles n dir.entry.fileOffset).1 ≠ [] := by
  obtain ⟨hstop, file, hread⟩ := h
  obtain ⟨n, rfl⟩ := Nat.exists_eq_succ_of_ne_zero hn.ne'
  rw [RomFs.readFiles, Chain.readAlong_succ hstop hread]
  exact List.cons_ne_nil _ _

lemma readFiles_eq_nil {dir : RomFsDir} (h : ¬ romfs.FirstFileReadable dir) (n : ℕ) :
    (romfs.readFiles n dir.entry.fileOffset).1 = [] := by
  rcases readOk_readAlong (·.entry.siblingOffset) (readFile_settled hb) dir.entry.fileOffset with
    ⟨file, -, hstop, hread⟩ | ⟨-, hnone⟩
  · exact absurd ⟨hstop, file, hread⟩ h
  · rw [RomFs.readFiles, hnone]

end Calls

/-- Whatever the directory of an accepted image, its listing stops at the first entry that cannot be
read exactly if the chain of subdirectories has no such entry, or no file that can be read comes next. -/
theorem stopsAtCorruption_iff_of_accepted {bytes : Bytes} {romfs : RomFs}
    (h : RomFs.tryFromBytes bytes = ok romfs) (hlen : bytes.length < 2 ^ 63) (dir : RomFsDir) :
    romfs.StopsAtCorruption dir ↔ ¬ romfs.DirChainBreaks dir ∨ ¬ romfs.FirstFileReadable dir := by
  have hb := bounded_of_tryFromBytes h hlen
  simp only [stopsAtCorruption_iff hb, yielded_eq_listing, RomFs.DirChainBreaks, Chain.breaks_iff]
  constructor
  · intro hstops
    by_contra hboth
    push Not at hboth
    obtain ⟨⟨n, hlt, hstop⟩, hfile⟩ := hboth
    rcases hstops n with hend | hnil
    · exact hstop hend
    · exact readFiles_ne_nil hfile (Nat.sub_pos_of_lt hlt) hnil
  · rintro (hunbroken | hfile) n
    · push Not at hunbroken
      rcases Nat.lt_or_ge (romfs.readDirs n dir.entry.childOffset).1.length n with hlt | hge
      · exact Or.inl (hunbroken n hlt)
      · rw [Nat.sub_eq_zero_of_le hge]
        exact Or.inr rfl
    · exact Or.inr (readFiles_eq_nil hb hfile _)

/-- An image whose root names a subdirectory outside its table, and one file. -/
def brokenChainImage : Bytes :=
  RomFsHeader.codec.enc ⟨0x50, 0x50, 0, 0x50, 0x18, 0x68, 0, 0x68, 0x20, 0x88⟩ ++
    RomFsDirEntry.codec.enc ⟨0, NO_ENTRY, 0x1000, 0, NO_ENTRY, 0⟩ ++
    RomFsFileEntry.codec.enc ⟨0, NO_ENTRY, 0, 0, NO_ENTRY, 0⟩

def brokenChainRomFs : RomFs :=
  ⟨brokenChainImage, ⟨0x50, 0x50, 0, 0x50, 0x18, 0x68, 0, 0x68, 0x20, 0x88⟩⟩

lemma brokenChain_accepted : RomFs.tryFromBytes brokenChainImage = ok brokenChainRomFs := by
  decide +kernel

theorem stopsAtCorruption_iff_brokenChain :
    brokenChainRomFs.StopsAtCorruption ⟨⟨0, NO_ENTRY, 0x1000, 0, NO_ENTRY, 0⟩, []⟩ ↔
      ¬ brokenChainRomFs.DirChainBreaks ⟨⟨0, NO_ENTRY, 0x1000, 0, NO_ENTRY, 0⟩, []⟩ ∨
        ¬ brokenChainRomFs.FirstFileReadable ⟨⟨0, NO_ENTRY, 0x1000, 0, NO_ENTRY, 0⟩, []⟩ :=
  stopsAtCorruption_iff_of_accepted brokenChain_accepted (by decide +kernel) _

/-- The first call on the root yields the file, although the subdirectory before it cannot be read. -/
theorem brokenChain_yields_file :
    ∃ romfs root, RomFs.tryFromBytes brokenChainImage = ok romfs ∧ romfs.rootDir = ok root ∧
      Reached romfs (.dir root) ∧ ¬ romfs.StopsAtCorruption root := by
  have hroot : brokenChainRomFs.rootDir = ok ⟨⟨0, NO_ENTRY, 0x1000, 0, NO_ENTRY, 0⟩, []⟩ := by
    decide +kernel
  refine ⟨brokenChainRomFs, _, brokenChain_accepted, hroot, .root hroot, fun hstops => ?_⟩
  obtain ⟨it, hcalls⟩ := hstops 1
  have hfirst : (RomFsDir.entries ⟨⟨0, NO_ENTRY, 0x1000, 0, NO_ENTRY, 0⟩, []⟩).calls
      brokenChainRomFs 1 =
        ok ([some (.file ⟨⟨0, NO_ENTRY, 0, 0, NO_ENTRY, 0⟩, []⟩)], ⟨0x1000, NO_ENTRY⟩) := by
    decide +kernel
  have hlisting : brokenChainRomFs.listing ⟨⟨0, NO_ENTRY, 0x1000, 0, NO_ENTRY, 0⟩, []⟩ 1 = [] := by
    decide +kernel
  rw [hfirst, hlisting] at hcalls
  cases (Prod.mk.inj (ok.inj hcalls)).1

end NxObject.Romfs
