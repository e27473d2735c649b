import NxObject.Elf

/-!
# Notes and build IDs

A note section is a row of notes, each with a name and a descriptor that are padded to four bytes. Only the first
note of a section is looked at.
-/
namespace NxObject.Elf
open Outcome

/-! ## Notes -/

/-- A note. Its name is stored with the byte that ends it. -/
structure Note where
  noteType : UInt32
  name : Bytes
  desc : Bytes
  name_lt : name.length < 2 ^ 32
  desc_lt : desc.length < 2 ^ 32
  deriving DecidableEq

namespace Note
variable (note : Note)

def enc : Bytes :=
  toLe 4 note.name.length ++ (toLe 4 note.desc.length ++ (toLe 4 note.noteType.toNat ++
    (padded note.name 4 ++ padded note.desc 4)))

/-- `"GNU\0"`. -/
def gnuName : Bytes := [0x47, 0x4E, 0x55, 0x00]

def IsBuildId : Prop := note.noteType.toNat = NT_GNU_BUILD_ID ∧ note.name = gnuName

instance : DecidablePred IsBuildId := fun _ => inferInstanceAs (Decidable (_ ∧ _))

/-- The descriptor, truncated or padded with zeros. -/
def buildId : BuildId := (Codec.bytes 0x20).dec note.desc

end Note

def firstBuildId (notes : List Note) : Option Note := notes.find? (·.IsBuildId)

def leading (contents : List (List Note)) : List Note := contents.filterMap List.head?

/-- The note sections, among others, are these rows of notes. -/
def HoldNotes (sections : List Section) (contents : List (List Note)) : Prop :=
  (sections.filter (·.isNote)).map (·.data) = contents.map fun notes => some (notes.flatMap Note.enc)

/-! ## One section -/

def BeginsWithBuildId (data : Bytes) : Prop :=
  16 ≤ data.length ∧ ofLe (sliceAt data 8 4) = NT_GNU_BUILD_ID ∧ ofLe (sliceAt data 0 4) = 4 ∧
    sliceAt data 12 4 = Note.gnuName

instance : DecidablePred BeginsWithBuildId := fun _ => inferInstanceAs (Decidable (_ ∧ _))

lemma bytes_dec_fit (n size : ℕ) (bytes : Bytes) :
    (Codec.bytes n).dec (bytes.take (min (min size n) bytes.length) ++
        (List.replicate n 0).drop (bytes.take (min (min size n) bytes.length)).length) =
      (Codec.bytes n).dec (bytes.take size) := by
  apply Subtype.ext
  change ((bytes.take _ ++ (List.replicate n 0).drop _) ++ List.replicate n 0).take n =
    (bytes.take size ++ List.replicate n 0).take n
  apply List.ext_getElem?
  intro i
  simp only [List.getElem?_take, List.getElem?_append, List.length_append, List.length_take, List.length_drop,
    List.length_replicate, List.getElem?_drop, List.getElem?_replicate]
  split_ifs <;> first | rfl | omega

section NoteBuildId
variable {ε : Type}

theorem noteBuildId_eq (data : Bytes) :
    (noteBuildId data : Outcome ε _) =
      ok (if BeginsWithBuildId data then
        some ((Codec.bytes 0x20).dec (sliceAt data 16 (ofLe (sliceAt data 4 4)))) else none) := by
  rw [noteBuildId]
  by_cases hlen : data.length < 12
  · rw [if_pos hlen, if_neg fun h => absurd h.1 (by omega)]
    rfl
  have hslice : ∀ start len, start + len ≤ data.length →
      (slice data start (start + len) : Outcome ε _) = ok (sliceAt data start len) := fun _ _ => slice_sliceAt
  have hnamesz : (slice data 0 4 : Outcome ε _) = ok (sliceAt data 0 4) := hslice 0 4 (by omega)
  have hdescsz : (slice data 4 8 : Outcome ε _) = ok (sliceAt data 4 4) := hslice 4 4 (by omega)
  have htype : (slice data 8 12 : Outcome ε _) = ok (sliceAt data 8 4) := hslice 8 4 (by omega)
  rw [if_neg hlen, hnamesz, ok_bind, hdescsz, ok_bind, htype, ok_bind]
  by_cases hheader : ofLe (sliceAt data 8 4) = NT_GNU_BUILD_ID ∧ ofLe (sliceAt data 0 4) = 4
  swap
  · rw [if_neg hheader, if_neg fun h => hheader ⟨h.2.1, h.2.2.1⟩]
    rfl
  have hnameEnd : (add 12 4 : Outcome ε _) = ok 16 := rfl
  rw [if_pos hheader, hheader.2, hnameEnd, ok_bind]
  by_cases hshort : data.length < 16
  · rw [if_pos hshort, if_neg fun h => absurd h.1 (by omega)]
    rfl
  have hname : (slice data 12 16 : Outcome ε _) = ok (sliceAt data 12 4) := hslice 12 4 (by omega)
  rw [if_neg hshort, hname, ok_bind]
  by_cases hgnu : sliceAt data 12 4 = [0x47, 0x4E, 0x55, 0x00]
  swap
  · rw [if_pos hgnu, if_neg fun h => hgnu h.2.2.2]
    rfl
  have hdescOffset : (add 12 ((4 + 3) &&& (2 ^ 64 - 1 - 3)) : Outcome ε _) = ok 16 := rfl
  rw [if_neg (not_not.mpr hgnu), hdescOffset, ok_bind, if_neg hshort,
    if_pos ⟨by omega, hheader.1, hheader.2, hgnu⟩]
  dsimp only
  rw [hslice 16 _ (by omega), ok_bind]
  have hdesc : sliceAt data 16 (min (min (ofLe (sliceAt data 4 4)) 0x20) (data.length - 16)) =
      (data.drop 16).take (min (min (ofLe (sliceAt data 4 4)) 0x20) (data.drop 16).length) := by
    rw [sliceAt, List.length_drop]
  have hcopy := bytes_dec_fit 0x20 (ofLe (sliceAt data 4 4)) (data.drop 16)
  rw [← hdesc] at hcopy
  rw [copyFromSlice_of_le, ok_bind, List.take_zero, List.nil_append, Nat.zero_add, hcopy]
  · rfl
  · have hle := List.length_take_le (min (min (ofLe (sliceAt data 4 4)) 0x20) (data.length - 16)) (data.drop 16)
    rw [sliceAt, List.length_replicate]
    omega

lemma parts_of_enc (note : Note) (rest : Bytes) :
    sliceAt (note.enc ++ rest) 0 4 = toLe 4 note.name.length ∧
      sliceAt (note.enc ++ rest) 4 4 = toLe 4 note.desc.length ∧
      sliceAt (note.enc ++ rest) 8 4 = toLe 4 note.noteType.toNat ∧
      sliceAt (note.enc ++ rest) 12 note.name.length = note.name := by
  obtain ⟨tail, htail⟩ : ∃ tail, padded note.name 4 ++ padded note.desc 4 ++ rest = note.name ++ tail := by
    rw [padded, List.append_assoc, List.append_assoc]
    exact ⟨_, rfl⟩
  have henc : note.enc ++ rest = toLe 4 note.name.length ++ (toLe 4 note.desc.length ++
      (toLe 4 note.noteType.toNat ++ (note.name ++ tail))) := by
    rw [Note.enc, ← htail]
    simp only [List.append_assoc]
  rw [henc]
  exact ⟨sliceAt_eq_of_append (a := []) rfl rfl (toLe_length _ _),
    sliceAt_eq_of_append rfl (toLe_length _ _) (toLe_length _ _),
    sliceAt_eq_of_append (List.append_assoc _ _ _).symm (by simp) (toLe_length _ _),
    sliceAt_eq_of_append (a := toLe 4 note.name.length ++ (toLe 4 note.desc.length ++
      toLe 4 note.noteType.toNat)) (c := tail) (by simp only [List.append_assoc]) (by simp) rfl⟩

lemma desc_of_enc {note : Note} (hname : note.name.length = 4) (rest : Bytes) :
    sliceAt (note.enc ++ rest) 16 note.desc.length = note.desc := by
  have hpadded : padded note.name 4 = note.name := by
    rw [padded, hname]
    exact List.append_nil _
  obtain ⟨tail, htail⟩ : ∃ tail, padded note.desc 4 ++ rest = note.desc ++ tail :=
    ⟨_, List.append_assoc _ _ _⟩
  refine sliceAt_eq_of_append (a := toLe 4 note.name.length ++ (toLe 4 note.desc.length ++
    (toLe 4 note.noteType.toNat ++ note.name))) (c := tail) ?_ (by simp [hname]) rfl
  rw [Note.enc, hpadded, ← htail]
  simp only [List.append_assoc]

lemma beginsWithBuildId_enc (note : Note) (rest : Bytes) :
    BeginsWithBuildId (note.enc ++ rest) ↔ note.IsBuildId := by
  obtain ⟨hnamesz, -, htype, hname⟩ := parts_of_enc note rest
  have hlen : 12 + note.name.length ≤ (note.enc ++ rest).length := by
    have hpad := Placement.le_alignUp (by decide : 0 < 4) note.name.length
    simp only [Note.enc, List.length_append, toLe_length, padded_length (by decide : 0 < 4)]
    omega
  have hnameLen : ofLe (toLe 4 note.name.length) = note.name.length := ofLe_toLe_of_lt note.name_lt
  have hnoteType : ofLe (toLe 4 note.noteType.toNat) = note.noteType.toNat :=
    ofLe_toLe_of_lt note.noteType.toNat_lt
  rw [BeginsWithBuildId, hnamesz, htype, hnameLen, hnoteType]
  constructor
  · rintro ⟨-, hid, hfour, hgnu⟩
    rw [hfour] at hname
    exact ⟨hid, hname.symm.trans hgnu⟩
  · rintro ⟨hid, hgnu⟩
    have hfour : note.name.length = 4 := by rw [hgnu, Note.gnuName, List.length_cons]; rfl
    rw [hfour] at hname hlen
    exact ⟨hlen, hid, hfour, hname.trans hgnu⟩

theorem noteBuildId_enc (note : Note) (rest : Bytes) :
    (noteBuildId (note.enc ++ rest) : Outcome ε _) =
      ok (if note.IsBuildId then some note.buildId else none) := by
  rw [noteBuildId_eq]
  simp only [beginsWithBuildId_enc]
  split_ifs with h
  · have hfour : note.name.length = 4 := by rw [h.2, Note.gnuName, List.length_cons]; rfl
    rw [(parts_of_enc note rest).2.1, ofLe_toLe_of_lt note.desc_lt, desc_of_enc hfour, Note.buildId]
  · rfl

/-! ## All sections -/

lemma extractBuildId_settled (sections : List Section) : Settled (extractBuildId sections : Outcome ε _) := by
  induction sections with
  | nil => exact settled_ok none
  | cons sect sections ih =>
    rw [extractBuildId]
    split
    · rw [noteBuildId_eq, ok_bind]
      split
      · exact settled_ok _
      · exact ih
    · exact ih

/-- Only the notes that stand first count. -/
theorem extractBuildId_eq {sections : List Section} {contents : List (List Note)}
    (h : HoldNotes sections contents) :
    (extractBuildId sections : Outcome ε _) = ok ((firstBuildId (leading contents)).map Note.buildId) := by
  induction sections generalizing contents with
  | nil =>
    obtain rfl : contents = [] := List.map_eq_nil_iff.mp h.symm
    rfl
  | cons sect sections ih =>
    rw [HoldNotes, List.filter_cons] at h
    rw [extractBuildId]
    cases hnote : sect.isNote with
    | false =>
      rw [if_neg (by rw [hnote]; decide)] at h
      exact ih h
    | true =>
      rw [if_pos hnote, List.map_cons] at h
      obtain ⟨notes, contents, rfl, hdata, hrest⟩ := List.map_eq_cons_iff.mp h.symm
      have hrest := ih hrest.symm
      rw [← hdata]
      cases notes with
      | nil =>
        have hnone : (noteBuildId [] : Outcome ε _) = ok none := rfl
        simp only [List.flatMap_nil, hnone, ok_bind]
        exact hrest
      | cons note notes =>
        simp only [List.flatMap_cons, noteBuildId_enc, ok_bind]
        have hleading : leading ((note :: notes) :: contents) = note :: leading contents := rfl
        rw [hleading, firstBuildId, List.find?_cons]
        by_cases hid : note.IsBuildId
        · rw [if_pos hid, decide_eq_true hid]
          rfl
        · rw [if_neg hid, decide_eq_false hid]
          exact hrest

/-- The first note with a build ID is found, in whichever section and wherever in it. -/
def FindsBuildId (sections : List Section) (contents : List (List Note)) : Prop :=
  (extractBuildId sections : Outcome Empty _) = ok ((firstBuildId contents.flatten).map Note.buildId)

/-- Nothing is read past the end of a section, and the first build ID is found if and only if the first section
that begins with a build ID, if there is any build ID at all, begins with the same one. -/
theorem findsBuildId_iff (sections : List Section) :
    Settled (extractBuildId sections : Outcome Empty _) ∧
      ∀ contents, HoldNotes sections contents → (FindsBuildId sections contents ↔
        ∀ note, firstBuildId contents.flatten = some note →
          ∃ first, firstBuildId (leading contents) = some first ∧ first.buildId = note.buildId) := by
  refine ⟨extractBuildId_settled sections, fun contents h => ?_⟩
  rw [FindsBuildId, extractBuildId_eq h, ok.injEq]
  cases hany : firstBuildId contents.flatten with
  | none =>
    -- a section that begins with a build ID holds one
    have hnone : firstBuildId (leading contents) = none := by
      refine List.find?_eq_none.mpr fun note hnote => ?_
      obtain ⟨notes, hnotes, hhead⟩ := List.mem_filterMap.mp hnote
      exact List.find?_eq_none.mp hany note (List.mem_flatten.mpr ⟨notes, hnotes, List.mem_of_head? hhead⟩)
    rw [hnone]
    exact ⟨fun _ _ hnote => absurd hnote nofun, fun _ => rfl⟩
  | some note =>
    rw [Option.map_some, Option.map_eq_some_iff]
    constructor
    · rintro ⟨first, hfirst, hsame⟩ _ ⟨⟩
      exact ⟨first, hfirst, hsame⟩
    · intro h
      exact h note rfl

def abiTag : Note := ⟨1, Note.gnuName, List.replicate 16 0, by decide, by decide⟩

def buildIdNote : Note := ⟨3, Note.gnuName, [1, 2, 3, 4], by decide, by decide⟩

def noteSection (notes : List Note) : Section := ⟨some ".note".toList, true, some (notes.flatMap Note.enc), 0, 0⟩

/-- A build ID behind another note is not found. -/
theorem laterNote_not_found :
    HoldNotes [noteSection [abiTag, buildIdNote]] [[abiTag, buildIdNote]] ∧
      ¬FindsBuildId [noteSection [abiTag, buildIdNote]] [[abiTag, buildIdNote]] :=
  ⟨rfl, by unfold FindsBuildId; decide⟩

theorem findsBuildId_iff_leading :
    FindsBuildId [noteSection [abiTag], noteSection [buildIdNote, abiTag]] [[abiTag], [buildIdNote, abiTag]] := by
  have hholds : HoldNotes [noteSection [abiTag], noteSection [buildIdNote, abiTag]]
      [[abiTag], [buildIdNote, abiTag]] := rfl
  refine ((findsBuildId_iff _).2 _ hholds).mpr ?_
  rintro _ ⟨⟩
  exact ⟨buildIdNote, rfl, rfl⟩

end NoteBuildId
end NxObject.Elf
