import NxObject.Buffer
import NxObject.RomFsTermination

/-!
# What a traversal may touch

Whatever the entries of an accepted image say, each step from a handle stays inside the tables and the
buffer. A lookup that follows a chain which leads back to itself never comes back.
-/
namespace NxObject.Romfs
open Outcome

/-! ## Entries and their names -/

/-- An entry of a metadata table, its name behind it and inside the table. -/
structure EntryAt {H : Type} (codec : Codec H) (nameLen : H → UInt32) (table : Bytes) (offset : UInt32)
    (entry : H) (nameBytes : Bytes) : Prop where
  read : codec.fromPrefix (table.drop offset.toNat) = some entry
  inside : offset.toNat + codec.size + (nameLen entry).toNat ≤ table.length
  name : nameBytes = sliceAt table (offset.toNat + codec.size) (nameLen entry).toNat

/-- A name as it is shown: empty when its bytes are not UTF-8. -/
def shownName (nameBytes : Bytes) : Text := (fromUtf8 nameBytes).getD []

lemma entryAt_of_readEntry {ε H : Type} {codec : Codec H} {nameLen : H → UInt32}
    {tooSmall : ℕ → ℕ → ε} {table : Bytes} {tableBase : ℕ} {offset : UInt32} {entry : H} {name : Text}
    (h : readEntry codec nameLen tooSmall table tableBase offset = ok (entry, name)) :
    ∃ nameBytes, EntryAt codec nameLen table offset entry nameBytes ∧ name = shownName nameBytes := by
  rw [readEntry] at h
  obtain ⟨available, -, h⟩ := bind_eq_ok.mp h
  split_ifs at h with hout
  · obtain ⟨required, -, h⟩ := bind_eq_ok.mp h
    cases h
  · obtain ⟨entryBytes, hbytes, h⟩ := bind_eq_ok.mp h
    obtain ⟨-, -, rfl⟩ := slice_eq_ok.mp hbytes
    rw [List.take_length] at h
    cases hentry : codec.fromPrefix (table.drop offset.toNat) with
    | none =>
      simp only [hentry] at h
      obtain ⟨required, -, h⟩ := bind_eq_ok.mp h
      cases h
    | some found =>
      simp only [hentry] at h
      obtain ⟨nameOffset, hoffset, h⟩ := bind_eq_ok.mp h
      obtain ⟨-, rfl⟩ := add_eq_ok.mp hoffset
      obtain ⟨nameEnd, hend, h⟩ := bind_eq_ok.mp h
      obtain ⟨-, rfl⟩ := checkedAdd_eq_some.mp (okOr_eq_ok.mp hend)
      split_ifs at h with hlong
      · obtain ⟨required, -, h⟩ := bind_eq_ok.mp h
        cases h
      · obtain ⟨nameBytes, hname, h⟩ := bind_eq_ok.mp h
        obtain ⟨-, -, rfl⟩ := slice_eq_ok.mp hname
        cases h
        refine ⟨_, ⟨hentry, Nat.le_of_not_lt hlong, rfl⟩, ?_⟩
        rw [sliceAt_eq_drop_take]
        rfl

namespace RomFs
variable (romfs : RomFs)

def dirTable : Bytes :=
  sliceAt romfs.bytes romfs.header.dirMetaTableOffset.toNat romfs.header.dirMetaTableSize.toNat

def fileTable : Bytes :=
  sliceAt romfs.bytes romfs.header.fileMetaTableOffset.toNat romfs.header.fileMetaTableSize.toNat

/-- The directory that stands at an offset of its table, under the name stored there. -/
def DirAt (offset : UInt32) (dir : RomFsDir) (nameBytes : Bytes) : Prop :=
  EntryAt RomFsDirEntry.codec (·.nameLen) romfs.dirTable offset dir.entry nameBytes ∧
    dir.name = shownName nameBytes

def FileAt (offset : UInt32) (file : RomFsFile) (nameBytes : Bytes) : Prop :=
  EntryAt RomFsFileEntry.codec (·.nameLen) romfs.fileTable offset file.entry nameBytes ∧
    file.name = shownName nameBytes

variable {romfs}

lemma dirTable_eq {ε : Type} {table : Bytes} (h : (romfs.dirMetaTable : Outcome ε _) = ok table) :
    table = romfs.dirTable := by
  obtain ⟨stop, hstop, h⟩ := bind_eq_ok.mp h
  obtain ⟨-, rfl⟩ := add_eq_ok.mp hstop
  obtain ⟨-, -, rfl⟩ := slice_eq_ok.mp h
  rw [dirTable, sliceAt_eq_drop_take]

lemma fileTable_eq {ε : Type} {table : Bytes} (h : (romfs.fileMetaTable : Outcome ε _) = ok table) :
    table = romfs.fileTable := by
  obtain ⟨stop, hstop, h⟩ := bind_eq_ok.mp h
  obtain ⟨-, rfl⟩ := add_eq_ok.mp hstop
  obtain ⟨-, -, rfl⟩ := slice_eq_ok.mp h
  rw [fileTable, sliceAt_eq_drop_take]

theorem dirAt_of_readDir {offset : UInt32} {dir : RomFsDir} (h : romfs.readDir offset = ok dir) :
    ∃ nameBytes, romfs.DirAt offset dir nameBytes := by
  obtain ⟨table, htable, h⟩ := bind_eq_ok.mp h
  obtain rfl := dirTable_eq htable
  obtain ⟨⟨entry, name⟩, hread, h⟩ := bind_eq_ok.mp h
  cases h
  obtain ⟨nameBytes, hat, hname⟩ := entryAt_of_readEntry hread
  exact ⟨nameBytes, hat, hname⟩

theorem dirAt_of_rootDir {dir : RomFsDir} (h : romfs.rootDir = ok dir) :
    ∃ nameBytes, romfs.DirAt 0 dir nameBytes := by
  obtain ⟨table, htable, h⟩ := bind_eq_ok.mp h
  obtain rfl := dirTable_eq htable
  obtain ⟨⟨entry, name⟩, hread, h⟩ := bind_eq_ok.mp h
  cases h
  obtain ⟨nameBytes, hat, hname⟩ := entryAt_of_readEntry hread
  exact ⟨nameBytes, hat, hname⟩

theorem fileAt_of_readFile {offset : UInt32} {file : RomFsFile} (h : romfs.readFile offset = ok file) :
    ∃ nameBytes, romfs.FileAt offset file nameBytes := by
  obtain ⟨table, htable, h⟩ := bind_eq_ok.mp h
  obtain rfl := fileTable_eq htable
  obtain ⟨⟨entry, name⟩, hread, h⟩ := bind_eq_ok.mp h
  cases h
  obtain ⟨nameBytes, hat, hname⟩ := entryAt_of_readEntry hread
  exact ⟨nameBytes, hat, hname⟩

end RomFs

/-! ## Handles -/

/-- The states an iterator over a directory passes through. -/
inductive Iterating (romfs : RomFs) (dir : RomFsDir) : DirIterator → Prop
  | start : Iterating romfs dir dir.entries
  | next {it it' : DirIterator} {entry : Option RomFsEntry} : Iterating romfs dir it →
      it.next romfs = ok (entry, it') → Iterating romfs dir it'

/-- The handles that steps of `entries`, `find_dir` and `find_file` lead to from the root. -/
inductive Reached (romfs : RomFs) : RomFsEntry → Prop
  | root {dir : RomFsDir} : romfs.rootDir = ok dir → Reached romfs (.dir dir)
  | findDir {dir child : RomFsDir} {fuel : ℕ} {name : Text} : Reached romfs (.dir dir) →
      romfs.findDir fuel dir name = ok child → Reached romfs (.dir child)
  | findFile {dir : RomFsDir} {file : RomFsFile} {fuel : ℕ} {name : Text} : Reached romfs (.dir dir) →
      romfs.findFile fuel dir name = ok file → Reached romfs (.file file)
  | entries {dir : RomFsDir} {it it' : DirIterator} {entry : RomFsEntry} : Reached romfs (.dir dir) →
      Iterating romfs dir it → it.next romfs = ok (some entry, it') → Reached romfs entry

def RomFs.Holds (romfs : RomFs) : RomFsEntry → Prop
  | .dir dir => ∃ offset nameBytes, romfs.DirAt offset dir nameBytes
  | .file file => ∃ offset nameBytes, romfs.FileAt offset file nameBytes

section Handles
variable {romfs : RomFs}

lemma holds_of_findDir {fuel : ℕ} {dir child : RomFsDir} {name : Text}
    (h : romfs.findDir fuel dir name = ok child) : romfs.Holds (.dir child) := by
  obtain ⟨found, hsearch, hfound⟩ := bind_eq_ok.mp h
  obtain rfl := okOr_eq_ok.mp hfound
  obtain ⟨-, n, offset, -, -, hread⟩ := Chain.mem_of_search hsearch
  exact ⟨offset, RomFs.dirAt_of_readDir hread⟩

lemma holds_of_findFile {fuel : ℕ} {dir : RomFsDir} {file : RomFsFile} {name : Text}
    (h : romfs.findFile fuel dir name = ok file) : romfs.Holds (.file file) := by
  obtain ⟨found, hsearch, hfound⟩ := bind_eq_ok.mp h
  obtain rfl := okOr_eq_ok.mp hfound
  obtain ⟨-, n, offset, -, -, hread⟩ := Chain.mem_of_search hsearch
  exact ⟨offset, RomFs.fileAt_of_readFile hread⟩

lemma readOk_eq_some {ε α : Type} {read : UInt32 → Outcome ε α} {offset : UInt32} {a : α}
    (h : readOk read offset = ok (some a)) : read offset = ok a := by
  rw [readOk] at h
  split_ifs at h
  · cases h
  · cases hread : read offset with
    | ok b =>
      simp only [hread] at h
      obtain rfl := Option.some.inj (ok.inj h)
      rfl
    | err e => simp only [hread] at h; cases h
    | panic => simp only [hread] at h; cases h
    | running => simp only [hread] at h; cases h

lemma holds_of_next {it it' : DirIterator} {entry : RomFsEntry}
    (h : it.next romfs = ok (some entry, it')) : romfs.Holds entry := by
  obtain ⟨found, hdir, h⟩ := bind_eq_ok.mp h
  cases found with
  | some dir =>
    cases h
    exact ⟨it.nextDirOffset, RomFs.dirAt_of_readDir (readOk_eq_some hdir)⟩
  | none =>
    obtain ⟨found, hfile, h⟩ := bind_eq_ok.mp h
    cases found with
    | some file =>
      cases h
      exact ⟨it.nextFileOffset, RomFs.fileAt_of_readFile (readOk_eq_some hfile)⟩
    | none => cases h

/-- Every handle that is reached stands in its table. -/
theorem holds_of_reached {entry : RomFsEntry} (h : Reached romfs entry) : romfs.Holds entry := by
  induction h with
  | root hroot => exact ⟨0, RomFs.dirAt_of_rootDir hroot⟩
  | findDir _ hfind _ => exact holds_of_findDir hfind
  | findFile _ hfind _ => exact holds_of_findFile hfind
  | entries _ _ hnext _ => exact holds_of_next hnext

/-! ## Steps from a handle -/

variable (hb : romfs.Bounded)
include hb

lemma next_settled (it : DirIterator) : Settled (it.next romfs) := by
  rcases readOk_cases (·.entry.siblingOffset) (readDir_settled hb) it.nextDirOffset with
    ⟨dir, hdir, -⟩ | ⟨hdir, -⟩
  · simp only [DirIterator.next, hdir, ok_bind, pure_eq]
    exact settled_ok _
  · rcases readOk_cases (·.entry.siblingOffset) (readFile_settled hb) it.nextFileOffset with
      ⟨file, hfile, -⟩ | ⟨hfile, -⟩
    · simp only [DirIterator.next, hdir, hfile, ok_bind, pure_eq]
      exact settled_ok _
    · simp only [DirIterator.next, hdir, hfile, ok_bind, pure_eq]
      exact settled_ok _

lemma find_ne_panic (fuel : ℕ) (dir : RomFsDir) (name : Text) :
    romfs.findDir fuel dir name ≠ panic ∧ romfs.findFile fuel dir name ≠ panic := by
  constructor
  · intro h
    rcases bind_eq_panic.mp h with hsearch | ⟨found, -, hfound⟩
    · exact Chain.search_ne_panic (readDir_settled hb) _ _ hsearch
    · exact (settled_okOr found _).ne_panic hfound
  · intro h
    rcases bind_eq_panic.mp h with hsearch | ⟨found, -, hfound⟩
    · exact Chain.search_ne_panic (readFile_settled hb) _ _ hsearch
    · exact (settled_okOr found _).ne_panic hfound

omit hb in
theorem data_eq (file : RomFsFile) :
    (∃ e, file.data romfs = err e) ∨
      romfs.header.fileDataOffset.toNat + file.entry.dataOffset.toNat + file.entry.dataSize.toNat ≤
          romfs.bytes.length ∧
        file.data romfs = ok (sliceAt romfs.bytes
          (romfs.header.fileDataOffset.toNat + file.entry.dataOffset.toNat)
          file.entry.dataSize.toNat) := by
  rw [RomFsFile.data]
  by_cases hstart : romfs.header.fileDataOffset.toNat + file.entry.dataOffset.toNat < 2 ^ 64
  · rw [checkedAdd_of_lt hstart, okOr_some, ok_bind]
    by_cases hstop : romfs.header.fileDataOffset.toNat + file.entry.dataOffset.toNat +
        file.entry.dataSize.toNat < 2 ^ 64
    · rw [checkedAdd_of_lt hstop, okOr_some, ok_bind]
      split_ifs with hout
      · exact Or.inl ⟨_, rfl⟩
      · refine Or.inr ⟨Nat.le_of_not_lt hout, ?_⟩
        rw [RomFs.fileData, add_of_lt hstart, ok_bind, add_of_lt hstop, ok_bind,
          slice_sliceAt (Nat.le_of_not_lt hout)]
    · rw [checkedAdd, if_neg hstop]
      exact Or.inl ⟨_, rfl⟩
  · rw [checkedAdd, if_neg hstart]
    exact Or.inl ⟨_, rfl⟩

end Handles

/-- What a step from a handle does: its name lies inside its table, no step panics, listing settles at
every turn, and the bytes of a file are a part of the buffer or an error. -/
def StaysInside (romfs : RomFs) : RomFsEntry → Prop
  | .dir dir => romfs.Holds (.dir dir) ∧
      (∀ it, Iterating romfs dir it → Settled (it.next romfs)) ∧
      ∀ fuel name, romfs.findDir fuel dir name ≠ panic ∧ romfs.findFile fuel dir name ≠ panic
  | .file file => romfs.Holds (.file file) ∧
      ((∃ e, file.data romfs = err e) ∨
        romfs.header.fileDataOffset.toNat + file.entry.dataOffset.toNat + file.entry.dataSize.toNat ≤
            romfs.bytes.length ∧
          file.data romfs = ok (sliceAt romfs.bytes
            (romfs.header.fileDataOffset.toNat + file.entry.dataOffset.toNat)
            file.entry.dataSize.toNat))

/-- Every lookup in a directory comes back with a handle or an error. -/
def Answers (romfs : RomFs) (dir : RomFsDir) : Prop :=
  ∀ name, (∃ fuel, Settled (romfs.findDir fuel dir name)) ∧ ∃ fuel, Settled (romfs.findFile fuel dir name)

section Answers
variable {romfs : RomFs}

def missingName (table : Bytes) : Text := List.replicate (table.length + 1) 'x'

lemma shownName_ne {H : Type} {codec : Codec H} {nameLen : H → UInt32} {table : Bytes} {offset : UInt32}
    {entry : H} {nameBytes : Bytes} (h : EntryAt codec nameLen table offset entry nameBytes) :
    (shownName nameBytes == missingName table) = false := by
  rw [beq_eq_false_iff_ne]
  intro heq
  cases hname : fromUtf8 nameBytes with
  | none =>
    rw [shownName, hname, Option.getD_none] at heq
    exact absurd heq.symm List.replicate_succ_ne_nil
  | some name =>
    rw [shownName, hname, Option.getD_some] at heq
    have hlong := length_le_utf8 name
    rw [utf8_of_fromUtf8 hname, heq, missingName, List.length_replicate] at hlong
    have hlen : nameBytes.length = (nameLen entry).toNat := by
      rw [h.name]
      exact sliceAt_length h.inside
    have hinside := h.inside
    omega

variable (hb : romfs.Bounded)
include hb

/-- The lookups in a directory come back exactly if its chains end. -/
theorem answers_iff (dir : RomFsDir) :
    Answers romfs dir ↔ Chain.Ends romfs.dirLink dir.entry.childOffset ∧
      Chain.Ends romfs.fileLink dir.entry.fileOffset := by
  constructor
  · intro h
    constructor
    · obtain ⟨fuel, hfuel⟩ := (h (missingName romfs.dirTable)).1
      refine ⟨fuel, Chain.ends_of_search (readDir_settled hb) (fun offset child hread => ?_) hfuel.of_bind⟩
      obtain ⟨nameBytes, hat, hname⟩ := RomFs.dirAt_of_readDir hread
      rw [hname]
      exact shownName_ne hat
    · obtain ⟨fuel, hfuel⟩ := (h (missingName romfs.fileTable)).2
      refine ⟨fuel, Chain.ends_of_search (readFile_settled hb) (fun offset child hread => ?_) hfuel.of_bind⟩
      obtain ⟨nameBytes, hat, hname⟩ := RomFs.fileAt_of_readFile hread
      rw [hname]
      exact shownName_ne hat
  · rintro ⟨hdirs, hfiles⟩ name
    obtain ⟨n, hn, -⟩ := findDir_settled hb hdirs name
    obtain ⟨m, hm⟩ := findFile_settled hb hfiles name
    exact ⟨⟨n, hn⟩, m, hm m le_rfl⟩

end Answers

/-- From an accepted image, no step from a handle that is reached leaves the tables or the buffer, and the
lookups all come back if and only if no chain of a directory that is reached comes back to an offset it
has visited. -/
theorem traversal_inside {bytes : Bytes} {romfs : RomFs} (h : RomFs.tryFromBytes bytes = ok romfs)
    (hlen : bytes.length < 2 ^ 63) :
    (∀ entry, Reached romfs entry → StaysInside romfs entry) ∧
      ((∀ dir, Reached romfs (.dir dir) → Answers romfs dir) ↔
        ∀ dir, Reached romfs (.dir dir) → Chain.Acyclic romfs.dirLink dir.entry.childOffset ∧
          Chain.Acyclic romfs.fileLink dir.entry.fileOffset) := by
  have hb := bounded_of_tryFromBytes h hlen
  constructor
  · intro entry hentry
    cases entry with
    | dir dir =>
      exact ⟨holds_of_reached hentry, fun it _ => next_settled hb it,
        fun fuel name => find_ne_panic hb fuel dir name⟩
    | file file => exact ⟨holds_of_reached hentry, data_eq file⟩
  · refine forall₂_congr fun dir _ => ?_
    rw [answers_iff hb, Chain.ends_iff_acyclic, Chain.ends_iff_acyclic]

theorem traversal_inside_selfLinked :
    (∀ entry, Reached selfLinkedRomFs entry → StaysInside selfLinkedRomFs entry) ∧
      ((∀ dir, Reached selfLinkedRomFs (.dir dir) → Answers selfLinkedRomFs dir) ↔
        ∀ dir, Reached selfLinkedRomFs (.dir dir) →
          Chain.Acyclic selfLinkedRomFs.dirLink dir.entry.childOffset ∧
            Chain.Acyclic selfLinkedRomFs.fileLink dir.entry.fileOffset) :=
  traversal_inside selfLinked_accepted (by decide)

/-- A lookup in the root of an accepted image need not come back. -/
theorem selfLinked_never_answers :
    ∃ romfs root, RomFs.tryFromBytes selfLinkedImage = ok romfs ∧ romfs.rootDir = ok root ∧
      ∀ fuel, ¬ Settled (romfs.findDir fuel root ['x']) := by
  refine ⟨selfLinkedRomFs, _, selfLinked_accepted, selfLinked_rootDir, fun fuel hsettled => ?_⟩
  have hsearch : ∀ n, Chain.search selfLinkedRomFs.readDir (·.entry.siblingOffset) NO_ENTRY
      (·.name == ['x']) n 0 = running := by
    intro n
    induction n with
    | zero => rfl
    | succ n ih =>
      rw [Chain.search, if_neg (by decide), selfLinked_readDir, ok_bind]
      exact ih
  exact hsettled.of_bind.ne_running (hsearch fuel)

end NxObject.Romfs
