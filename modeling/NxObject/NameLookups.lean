import NxObject.Pfs0Reading
import NxObject.RomFsBounds
import NxObject.RomFsOpen

/-!
# What a name lookup may find

A name that is not UTF-8 is shown as the empty one. A lookup of any other name finds an entry stored under
exactly that name, and a lookup of the empty name does so if the first entry that is shown without a name is
stored without one.
-/
namespace NxObject
open Outcome

/-! ## Shown names -/

section Names
open Romfs

/-- The bytes spell exactly the name, and so are UTF-8. -/
structure Spell (bytes : Bytes) (name : Text) : Prop where
  exact : bytes = utf8 name
  valid : fromUtf8 bytes = some name

/-- The bytes are shown as the empty name: there are none, or they are not UTF-8. -/
def Blank (bytes : Bytes) : Prop := bytes = [] ∨ fromUtf8 bytes = none

instance (bytes : Bytes) : Decidable (Blank bytes) := inferInstanceAs (Decidable (_ ∨ _))

lemma shownName_eq_nil {bytes : Bytes} : shownName bytes = [] ↔ Blank bytes := by
  rw [shownName, Blank]
  cases hname : fromUtf8 bytes with
  | none => simp
  | some name =>
    have hbytes := utf8_of_fromUtf8 hname
    rw [Option.getD_some, ← hbytes]
    refine ⟨fun hnil => Or.inl (by rw [hnil]; rfl), ?_⟩
    rintro (hnil | hnone)
    · exact utf8_injective hnil
    · cases hnone

lemma spell_of_shownName {bytes : Bytes} {name : Text} (h : shownName bytes = name)
    (hblank : Blank bytes → bytes = []) : Spell bytes name := by
  cases hdecoded : fromUtf8 bytes with
  | none =>
    have hnil := hblank (Or.inr hdecoded)
    subst hnil
    exact absurd hdecoded (by decide)
  | some decoded =>
    rw [shownName, hdecoded, Option.getD_some] at h
    subst h
    exact ⟨(utf8_of_fromUtf8 hdecoded).symm, hdecoded⟩

lemma not_blank_of_shownName {bytes : Bytes} {name : Text} (h : shownName bytes = name) (hname : name ≠ []) :
    ¬Blank bytes := fun hblank => hname (h.symm.trans (shownName_eq_nil.mpr hblank))

end Names

/-! ## PFS0 -/

namespace Pfs.Pfs0
variable (pfs : Pfs0)

/-- The lookup of a name hands out this entry: none before it has the name, and its file is returned. -/
structure Finds (name : Text) (entry : Pfs0FileEntry) : Prop where
  first : ∃ before after, pfs.entries = before ++ entry :: after ∧
    (pfs.findByName name before : Outcome Unit _) = ok none
  found : ∃ file, (pfs.resolve entry : Outcome Unit _) = ok file ∧
    (pfs.fileByName name : Outcome Unit _) = ok (some file)

/-- Whatever the lookup of a name hands out is stored under that name. -/
def LookupSound (name : Text) : Prop := ∀ entry, pfs.Finds name entry → Spell (pfs.rawName entry) name

/-- The first entry that is shown without a name is stored without one. -/
def FirstBlankEmpty : Prop := ∀ bytes ∈ (pfs.entries.map pfs.rawName).find? fun bytes => Blank bytes, bytes = []

variable {pfs}

lemma view_name (entry : Pfs0FileEntry) : (pfs.view entry).name = Romfs.shownName (pfs.rawName entry) := rfl

lemma findByName_eq {ε : Type} {entries : List Pfs0FileEntry} (h : ∀ entry ∈ entries, pfs.Inside entry)
    (name : Text) : (pfs.findByName name entries : Outcome ε _) =
      ok ((entries.map pfs.view).find? (·.name = name)) := by
  induction entries with
  | nil => rfl
  | cons entry entries ih =>
    obtain ⟨hentry, hentries⟩ := List.forall_mem_cons.mp h
    rw [findByName, resolve_eq hentry, ok_bind, List.map_cons, List.find?_cons]
    split_ifs with hname
    · simp [hname]
    · simpa [hname] using ih hentries

lemma finds_iff (h : pfs.Valid) {name : Text} {entry : Pfs0FileEntry} :
    pfs.Finds name entry ↔ ∃ before after, pfs.entries = before ++ entry :: after ∧
      (∀ e ∈ before, Romfs.shownName (pfs.rawName e) ≠ name) ∧ Romfs.shownName (pfs.rawName entry) = name := by
  have hfind : ∀ {before after : List Pfs0FileEntry}, pfs.entries = before ++ entry :: after →
      ((pfs.findByName name before : Outcome Unit _) = ok none ↔
        ∀ e ∈ before, Romfs.shownName (pfs.rawName e) ≠ name) := by
    intro before after hsplit
    have hinside : ∀ e ∈ before, pfs.Inside e := fun e he => h.inside e (hsplit ▸ List.mem_append_left _ he)
    rw [findByName_eq hinside, ok.injEq, List.find?_eq_none]
    simp [view_name]
  have hlookup : ∀ {before after : List Pfs0FileEntry}, pfs.entries = before ++ entry :: after →
      (∀ e ∈ before, Romfs.shownName (pfs.rawName e) ≠ name) →
      (pfs.fileByName name : Outcome Unit _) =
        ok (((entry :: after).map pfs.view).find? (·.name = name)) := by
    intro before after hsplit hbefore
    rw [fileByName, findByName_eq h.inside, hsplit, List.map_append, List.find?_append,
      List.find?_eq_none.mpr (by simpa [view_name] using hbefore), Option.none_or]
  constructor
  · rintro ⟨⟨before, after, hsplit, hnone⟩, file, hresolve, hfile⟩
    have hbefore := (hfind hsplit).mp hnone
    have hinside := h.inside entry (hsplit ▸ List.mem_append_right _ List.mem_cons_self)
    rw [resolve_eq hinside] at hresolve
    obtain rfl := ok.inj hresolve
    rw [hlookup hsplit hbefore, ok.injEq] at hfile
    have hname := List.find?_some hfile
    exact ⟨before, after, hsplit, hbefore, of_decide_eq_true hname⟩
  · rintro ⟨before, after, hsplit, hbefore, hname⟩
    have hinside := h.inside entry (hsplit ▸ List.mem_append_right _ List.mem_cons_self)
    have hpos : decide ((pfs.view entry).name = name) = true := decide_eq_true hname
    refine ⟨⟨before, after, hsplit, (hfind hsplit).mpr hbefore⟩, _, resolve_eq hinside, ?_⟩
    rw [hlookup hsplit hbefore, List.map_cons]
    exact congrArg ok (List.find?_cons_of_pos hpos)

lemma lookupSound_iff (h : pfs.Valid) (name : Text) :
    pfs.LookupSound name ↔ (name = [] → pfs.FirstBlankEmpty) := by
  constructor
  · rintro hsound rfl bytes hbytes
    obtain ⟨hblank, before, after, hsplit, hbefore⟩ := List.find?_eq_some_iff_append.mp hbytes
    obtain ⟨first, rest, hentries, hfirst, hrest⟩ := List.map_eq_append_iff.mp hsplit
    obtain ⟨entry, last, rfl, rfl, -⟩ := List.map_eq_cons_iff.mp hrest
    refine (hsound entry ((finds_iff h).mpr ⟨first, last, hentries, fun e he => ?_, ?_⟩)).exact
    · rw [ne_eq, shownName_eq_nil]
      have hmem := List.mem_map_of_mem (f := pfs.rawName) he
      rw [hfirst] at hmem
      simpa using hbefore _ hmem
    · exact shownName_eq_nil.mpr (by simpa using hblank)
  · intro hempty entry hfinds
    obtain ⟨before, after, hsplit, hbefore, hname⟩ := (finds_iff h).mp hfinds
    refine spell_of_shownName hname fun hblank => ?_
    by_cases hnil : name = []
    · subst hnil
      refine hempty rfl _ ?_
      rw [Option.mem_def, hsplit, List.map_append, List.find?_append, List.find?_eq_none.mpr, Option.none_or,
        List.map_cons, List.find?_cons_of_pos (by simpa using hblank)]
      simpa [shownName_eq_nil] using hbefore
    · exact absurd hblank (not_blank_of_shownName hname hnil)

end Pfs.Pfs0

/-! ## RomFS -/

namespace Romfs

section Chains
variable {H : Type} (read : UInt32 → Outcome OpenError H) (next : H → UInt32) (name : H → Text)
  (stands : UInt32 → H → Bytes → Prop)

/-- An entry can be read at the position, and stands there under the bytes. -/
def Stored (offset : UInt32) (bytes : Bytes) : Prop :=
  offset ≠ NO_ENTRY ∧ ∃ a, read offset = ok a ∧ stands offset a bytes

/-- The first entry of the chain that is shown without a name is stored without one. -/
def FirstBlankEmpty (start : UInt32) : Prop :=
  ∀ offset bytes, Chain.FirstOn (Chain.link read next NO_ENTRY)
    (fun offset => ∃ bytes, Stored read stands offset bytes ∧ Blank bytes) start offset →
    Stored read stands offset bytes → bytes = []

/-- Whatever a search of the chain for a name returns is the first entry of that name, and stored under it. -/
def SearchSound (start : UInt32) (x : Text) : Prop :=
  ∀ fuel a, Chain.search read next NO_ENTRY (name · == x) fuel start = ok (some a) →
    ∃ offset bytes, Chain.FirstOn (Chain.link read next NO_ENTRY)
      (Chain.Hit read NO_ENTRY (name · == x)) start offset ∧ read offset = ok a ∧
      stands offset a bytes ∧ Spell bytes x

variable {read next name stands}
  (hstands : ∀ {offset a}, read offset = ok a → ∃ bytes, stands offset a bytes)
  (hname : ∀ {offset a bytes}, stands offset a bytes → name a = shownName bytes)
  (hunique : ∀ {offset a bytes bytes'}, stands offset a bytes → stands offset a bytes' → bytes = bytes')
include hstands hname

lemma hit_nil_iff (offset : UInt32) : Chain.Hit read NO_ENTRY (name · == []) offset ↔
    ∃ bytes, Stored read stands offset bytes ∧ Blank bytes := by
  constructor
  · rintro ⟨hstop, a, hread, hnil⟩
    obtain ⟨bytes, hbytes⟩ := hstands hread
    refine ⟨bytes, ⟨hstop, a, hread, hbytes⟩, shownName_eq_nil.mp ?_⟩
    rw [← hname hbytes]
    exact beq_iff_eq.mp hnil
  · rintro ⟨bytes, ⟨hstop, a, hread, hbytes⟩, hblank⟩
    refine ⟨hstop, a, hread, beq_iff_eq.mpr ?_⟩
    rw [hname hbytes, shownName_eq_nil.mpr hblank]

include hunique

variable (name stands) in
theorem searchSound_iff (start : UInt32) (x : Text) :
    SearchSound read next name stands start x ↔ (x = [] → FirstBlankEmpty read next stands start) := by
  have hhit : Chain.Hit read NO_ENTRY (name · == []) =
      fun offset => ∃ bytes, Stored read stands offset bytes ∧ Blank bytes :=
    funext fun offset => propext (hit_nil_iff hstands hname offset)
  constructor
  · rintro hsound rfl offset bytes hfirst ⟨-, a, hread, hbytes⟩
    rw [← hhit] at hfirst
    obtain ⟨fuel, hsearch⟩ := Chain.search_of_firstOn hfirst hread
    obtain ⟨offset', bytes', hfirst', -, hbytes', hspell⟩ := hsound fuel a hsearch
    obtain rfl := hfirst.unique hfirst'
    rw [hunique hbytes hbytes', hspell.exact]
    rfl
  · intro hempty fuel a hsearch
    obtain ⟨offset, hfirst, hread⟩ := Chain.firstOn_of_search hsearch
    obtain ⟨bytes, hbytes⟩ := hstands hread
    have hshown : shownName bytes = x := by
      rw [← hname hbytes]
      exact beq_iff_eq.mp (Chain.mem_of_search hsearch).1
    refine ⟨offset, bytes, hfirst, hread, hbytes, spell_of_shownName hshown fun hblank => ?_⟩
    by_cases hnil : x = []
    · subst hnil
      have hstop : offset ≠ NO_ENTRY := by
        obtain ⟨-, -, hhit, -⟩ := hfirst
        exact hhit.1
      exact hempty rfl offset bytes (hhit ▸ hfirst) ⟨hstop, a, hread, hbytes⟩
    · exact absurd hblank (not_blank_of_shownName hshown hnil)

end Chains

lemma EntryAt.unique {H : Type} {codec : Codec H} {nameLen : H → UInt32} {table : Bytes} {offset : UInt32}
    {entry : H} {bytes bytes' : Bytes} (h : EntryAt codec nameLen table offset entry bytes)
    (h' : EntryAt codec nameLen table offset entry bytes') : bytes = bytes' := h.name.trans h'.name.symm

namespace RomFs
variable (romfs : RomFs)

def DirLookupSound (dir : RomFsDir) (name : Text) : Prop :=
  ∀ fuel child, romfs.findDir fuel dir name = ok child →
    ∃ offset bytes, Chain.FirstOn romfs.dirLink
      (Chain.Hit romfs.readDir NO_ENTRY (·.name == name)) dir.entry.childOffset offset ∧
      romfs.readDir offset = ok child ∧ romfs.DirAt offset child bytes ∧ Spell bytes name

def FileLookupSound (dir : RomFsDir) (name : Text) : Prop :=
  ∀ fuel file, romfs.findFile fuel dir name = ok file →
    ∃ offset bytes, Chain.FirstOn romfs.fileLink
      (Chain.Hit romfs.readFile NO_ENTRY (·.name == name)) dir.entry.fileOffset offset ∧
      romfs.readFile offset = ok file ∧ romfs.FileAt offset file bytes ∧ Spell bytes name

def FirstBlankDirEmpty (dir : RomFsDir) : Prop :=
  FirstBlankEmpty romfs.readDir (·.entry.siblingOffset) romfs.DirAt dir.entry.childOffset

def FirstBlankFileEmpty (dir : RomFsDir) : Prop :=
  FirstBlankEmpty romfs.readFile (·.entry.siblingOffset) romfs.FileAt dir.entry.fileOffset

variable {romfs}

lemma dirLookupSound_iff (dir : RomFsDir) (name : Text) :
    romfs.DirLookupSound dir name ↔ (name = [] → romfs.FirstBlankDirEmpty dir) := by
  have hfind : ∀ fuel child, romfs.findDir fuel dir name = ok child ↔ Chain.search romfs.readDir
      (·.entry.siblingOffset) NO_ENTRY (·.name == name) fuel dir.entry.childOffset = ok (some child) := by
    intro fuel child
    rw [findDir, bind_eq_ok]
    simp only [okOr_eq_ok, exists_eq_right]
  rw [DirLookupSound, FirstBlankDirEmpty, ← searchSound_iff RomFsDir.name romfs.DirAt
    dirAt_of_readDir (fun h => h.2) fun h h' => h.1.unique h'.1]
  simp only [hfind]
  rfl

lemma fileLookupSound_iff (dir : RomFsDir) (name : Text) :
    romfs.FileLookupSound dir name ↔ (name = [] → romfs.FirstBlankFileEmpty dir) := by
  have hfind : ∀ fuel file, romfs.findFile fuel dir name = ok file ↔ Chain.search romfs.readFile
      (·.entry.siblingOffset) NO_ENTRY (·.name == name) fuel dir.entry.fileOffset = ok (some file) := by
    intro fuel file
    rw [findFile, bind_eq_ok]
    simp only [okOr_eq_ok, exists_eq_right]
  rw [FileLookupSound, FirstBlankFileEmpty, ← searchSound_iff RomFsFile.name romfs.FileAt
    fileAt_of_readFile (fun h => h.2) fun h h' => h.1.unique h'.1]
  simp only [hfind]
  rfl

/-- What holds of every lookup that opening a path makes: of a child directory for each component but the
last, and of a child file for the last. -/
def EveryLookup (romfs : RomFs) (path : Text) (dirs files : RomFsDir → Text → Prop) : Prop :=
  ∀ fuel root before rest dir x, romfs.rootDir = ok root → queryComponents path = before ++ rest →
    before.foldlM (romfs.openStep fuel) (root, none) = ok (dir, some x) →
    (rest ≠ [] → dirs dir x) ∧ (rest = [] → files dir x)

/-- Every entry that opening a path looks up is stored under the component it was looked up by. -/
def OpenSound (romfs : RomFs) (path : Text) : Prop :=
  romfs.EveryLookup path romfs.DirLookupSound romfs.FileLookupSound

/-- Where a component of the path is empty, the first entry of the chain it is looked up in that is shown
without a name is stored without one. -/
def EmptyComponentsSound (romfs : RomFs) (path : Text) : Prop :=
  romfs.EveryLookup path (fun dir x => x = [] → romfs.FirstBlankDirEmpty dir)
    fun dir x => x = [] → romfs.FirstBlankFileEmpty dir

lemma openSound_iff (path : Text) : romfs.OpenSound path ↔ romfs.EmptyComponentsSound path := by
  rw [OpenSound, EmptyComponentsSound, EveryLookup, EveryLookup]
  simp only [dirLookupSound_iff, fileLookupSound_iff]

end RomFs

end Romfs

/-! ## Both readers -/

section Lookups
open Pfs Romfs

/-- In an accepted image the lookup of a name by itself, and every lookup that opening a path makes, finds
entries stored under exactly the name, if and only if the empty name meets no name that is not UTF-8 first. -/
theorem lookups_sound_iff (bytes : Bytes) :
    (∀ pfs, Pfs0.tryFromBytes bytes = ok pfs →
      ∀ name, pfs.LookupSound name ↔ (name = [] → pfs.FirstBlankEmpty)) ∧
    ∀ romfs, RomFs.tryFromBytes bytes = ok romfs →
      ∀ path, romfs.OpenSound path ↔ romfs.EmptyComponentsSound path :=
  ⟨fun _ h => Pfs0.lookupSound_iff (tryFromBytes_eq_ok.mp h).2, fun _ _ => RomFs.openSound_iff⟩

def malformedArchive : Pfs0 where
  header := ⟨PFS0_MAGIC, 1, 2, 0⟩
  entries := [⟨0, 0, 0, 0⟩]
  stringTable := [0xFF, 0]
  data := []

lemma malformedArchive_accepted : Pfs0.tryFromBytes malformedArchive.toBytes = ok malformedArchive := by
  decide +kernel

def malformedRomFs : RomFs where
  bytes := RomFsHeader.codec.enc ⟨0x50, 0x50, 0, 0x50, 0x34, 0x84, 0, 0x84, 0x24, 0x50⟩ ++
    (RomFsDirEntry.codec.enc ⟨0, NO_ENTRY, 0x18, NO_ENTRY, NO_ENTRY, 0⟩ ++
      (RomFsDirEntry.codec.enc ⟨0, NO_ENTRY, NO_ENTRY, 0, NO_ENTRY, 1⟩ ++ [0x64, 0, 0, 0]) ++
      (RomFsFileEntry.codec.enc ⟨0x18, NO_ENTRY, 0, 0, NO_ENTRY, 1⟩ ++ [0xFF, 0, 0, 0]))
  header := ⟨0x50, 0x50, 0, 0x50, 0x34, 0x84, 0, 0x84, 0x24, 0x50⟩

lemma malformedRomFs_accepted : RomFs.tryFromBytes malformedRomFs.bytes = ok malformedRomFs := by
  decide +kernel

lemma malformedRomFs_emptyComponent : ¬malformedRomFs.EmptyComponentsSound ['d', '/'] := by
  intro hsound
  have hroot : malformedRomFs.rootDir = ok ⟨⟨0, NO_ENTRY, 0x18, NO_ENTRY, NO_ENTRY, 0⟩, []⟩ := by
    decide +kernel
  have hwalk : [['d'], []].foldlM (malformedRomFs.openStep 2)
      (⟨⟨0, NO_ENTRY, 0x18, NO_ENTRY, NO_ENTRY, 0⟩, []⟩, none) =
        ok (⟨⟨0, NO_ENTRY, NO_ENTRY, 0, NO_ENTRY, 1⟩, ['d']⟩, some []) := by
    decide +kernel
  have hread : malformedRomFs.readFile 0 = ok ⟨⟨0x18, NO_ENTRY, 0, 0, NO_ENTRY, 1⟩, []⟩ := by
    decide +kernel
  have hstands : malformedRomFs.FileAt 0 ⟨⟨0x18, NO_ENTRY, 0, 0, NO_ENTRY, 1⟩, []⟩ [0xFF] :=
    ⟨⟨by decide +kernel, by decide +kernel, by decide +kernel⟩, by decide⟩
  have hstored : Stored malformedRomFs.readFile malformedRomFs.FileAt 0 [0xFF] :=
    ⟨by decide, _, hread, hstands⟩
  have hempty := (hsound 2 _ [['d'], []] [] _ _ hroot (by decide) hwalk).2 rfl rfl 0 [0xFF]
    (Chain.firstOn_self ⟨_, hstored, Or.inr (by decide)⟩) hstored
  cases hempty

lemma malformedRomFs_component : malformedRomFs.EmptyComponentsSound ['d'] := by
  intro fuel root before rest dir x hroot hsplit hwalk
  have hname : x = ['d'] := by
    have hquery : queryComponents ['d'] = [['d']] := by decide
    rw [hquery] at hsplit
    rcases List.append_eq_singleton_iff.mp hsplit.symm with ⟨rfl, -⟩ | ⟨rfl, -⟩
    · cases hwalk
    · cases hwalk
      rfl
  subst hname
  exact ⟨nofun, nofun⟩

def namelessArchive : Pfs0 where
  header := ⟨PFS0_MAGIC, 1, 1, 0⟩
  entries := [⟨0, 0, 0, 0⟩]
  stringTable := [0]
  data := []

lemma namelessArchive_accepted : Pfs0.tryFromBytes namelessArchive.toBytes = ok namelessArchive := by
  decide +kernel

theorem lookups_sound_iff_blank :
    (malformedArchive.LookupSound ['a'] ∧ ¬malformedArchive.LookupSound [] ∧ namelessArchive.LookupSound []) ∧
      malformedRomFs.OpenSound ['d'] ∧ ¬malformedRomFs.OpenSound ['d', '/'] := by
  obtain ⟨hmalformed, -⟩ := lookups_sound_iff malformedArchive.toBytes
  obtain ⟨hnameless, -⟩ := lookups_sound_iff namelessArchive.toBytes
  obtain ⟨-, hromfs⟩ := lookups_sound_iff malformedRomFs.bytes
  refine ⟨⟨(hmalformed _ malformedArchive_accepted _).mpr nofun, fun hsound => ?_,
    (hnameless _ namelessArchive_accepted _).mpr fun _ => ?_⟩,
    (hromfs _ malformedRomFs_accepted _).mpr malformedRomFs_component,
    fun hsound => malformedRomFs_emptyComponent ((hromfs _ malformedRomFs_accepted _).mp hsound)⟩
  · have hempty := (hmalformed _ malformedArchive_accepted _).mp hsound rfl
    exact absurd (hempty [0xFF] (by decide)) (by decide)
  · intro bytes hbytes
    exact (Option.some.inj ((by decide : some [] = _).trans hbytes)).symm

/-- The empty name finds an entry whose stored name is not UTF-8, in either kind of image. -/
theorem malformed_lookup_unsound :
    (Pfs0.tryFromBytes malformedArchive.toBytes = ok malformedArchive ∧ ¬malformedArchive.LookupSound []) ∧
      RomFs.tryFromBytes malformedRomFs.bytes = ok malformedRomFs ∧ ¬malformedRomFs.OpenSound ['d', '/'] := by
  refine ⟨⟨malformedArchive_accepted, fun hsound => ?_⟩, malformedRomFs_accepted, fun hsound => ?_⟩
  · have hempty := (Pfs0.lookupSound_iff (tryFromBytes_eq_ok.mp malformedArchive_accepted).2 []).mp hsound rfl
    exact absurd (hempty [0xFF] (by decide)) (by decide)
  · exact malformedRomFs_emptyComponent ((RomFs.openSound_iff _).mp hsound)

end Lookups
end NxObject
