import NxObject.Pfs0

/-!
# What an accepted PFS0 hands out

A buffer is accepted if it is the header, the entries, the string table and the data in a row, and every
entry stays inside the last two. From there on every accessor succeeds.
-/
namespace NxObject.Pfs
open Outcome

variable {ε : Type} {bytes : Bytes} {pfs : Pfs0}

namespace Pfs0

/-- An entry locates its data inside the data region and a terminated name inside the string table. -/
structure Inside (pfs : Pfs0) (entry : Pfs0FileEntry) : Prop where
  bound : entry.offset.toNat + entry.size.toNat < 2 ^ 64
  data : entry.offset.toNat + entry.size.toNat ≤ pfs.data.length
  name : entry.stringTableOffset.toNat ≤ pfs.stringTable.length
  terminated : 0 ∈ pfs.stringTable.drop entry.stringTableOffset.toNat

/-- The regions follow one another as the header counts them, and every entry stays inside. -/
structure Valid (pfs : Pfs0) : Prop where
  magic : pfs.header.magic = PFS0_MAGIC
  fileCount : pfs.entries.length = pfs.header.fileCount.toNat
  stringTable : pfs.stringTable.length = pfs.header.stringTableSize.toNat
  inside : ∀ entry ∈ pfs.entries, pfs.Inside entry

def toBytes (pfs : Pfs0) : Bytes :=
  Pfs0Header.codec.enc pfs.header ++ (pfs.entries.flatMap Pfs0FileEntry.codec.enc ++
    (pfs.stringTable ++ pfs.data))

end Pfs0

lemma checkFileBounds_eq_ok {index available : ℕ} {entry : Pfs0FileEntry} :
    checkFileBounds index entry available = ok () ↔
      entry.offset.toNat + entry.size.toNat < 2 ^ 64 ∧
        entry.offset.toNat + entry.size.toNat ≤ available := by
  constructor
  · intro h
    obtain ⟨stop, hstop, h⟩ := bind_eq_ok.mp h
    obtain ⟨hlt, rfl⟩ := checkedAdd_eq_some.mp (okOr_eq_ok.mp hstop)
    exact ⟨hlt, ensure_eq_ok.mp h⟩
  · rintro ⟨hlt, hle⟩
    rw [checkFileBounds, checkedAdd_of_lt hlt]
    exact ensure_true hle _

lemma checkNameBounds_eq_ok {index : ℕ} {entry : Pfs0FileEntry} {stringTable : Bytes} :
    checkNameBounds index entry stringTable = ok () ↔
      entry.stringTableOffset.toNat ≤ stringTable.length ∧
        0 ∈ stringTable.drop entry.stringTableOffset.toNat := by
  constructor
  · intro h
    obtain ⟨u, hle, h⟩ := bind_eq_ok.mp h
    exact ⟨ensure_eq_ok.mp hle, ensure_eq_ok.mp h⟩
  · rintro ⟨hle, hmem⟩
    rw [checkNameBounds, ensure_true hle]
    exact ensure_true hmem _

lemma checkEntries_eq_ok (pfs : Pfs0) :
    (pfs.entries.zipIdx.forM fun (entry, index) => do
      checkFileBounds index entry pfs.data.length
      checkNameBounds index entry pfs.stringTable) = ok () ↔
    ∀ entry ∈ pfs.entries, pfs.Inside entry := by
  rw [forM_eq_ok, List.forall_mem_zipIdx, List.forall_mem_iff_getElem]
  refine forall₂_congr fun i hi => ?_
  rw [bind_eq_ok]
  constructor
  · rintro ⟨u, hfile, hname⟩
    obtain ⟨hbound, hdata⟩ := checkFileBounds_eq_ok.mp hfile
    obtain ⟨hle, hmem⟩ := checkNameBounds_eq_ok.mp hname
    exact ⟨hbound, hdata, hle, hmem⟩
  · intro h
    exact ⟨(), checkFileBounds_eq_ok.mpr ⟨h.bound, h.data⟩,
      checkNameBounds_eq_ok.mpr ⟨h.name, h.terminated⟩⟩

/-- The archives that are accepted, and what they are read as. -/
theorem tryFromBytes_eq_ok : Pfs0.tryFromBytes bytes = ok pfs ↔ bytes = pfs.toBytes ∧ pfs.Valid := by
  constructor
  · intro h
    obtain ⟨header, hheader, h⟩ := bind_eq_ok.mp h
    obtain ⟨rest, rfl⟩ := (Codec.fromPrefix_eq_some _).mp (okOr_eq_ok.mp hheader)
    obtain ⟨u, hmagic, h⟩ := bind_eq_ok.mp h
    obtain ⟨entries, hentries, h⟩ := bind_eq_ok.mp h
    have hrest : (Pfs0Header.codec.enc header ++ rest).drop 0x10 = rest :=
      List.drop_left' (Codec.enc_length _ _)
    rw [hrest] at hentries h
    obtain ⟨hcount, rest, rfl⟩ := (Codec.prefixElems_eq_some _).mp (okOr_eq_ok.mp hentries)
    have hrest : (entries.flatMap Pfs0FileEntry.codec.enc ++ rest).drop
        (header.fileCount.toNat * 0x18) = rest :=
      List.drop_left' (by rw [Codec.length_flatMap (Codec.enc_length _), hcount]; rfl)
    rw [hrest] at h
    obtain ⟨u, hsize, h⟩ := bind_eq_ok.mp h
    have hsize := ensure_eq_ok.mp hsize
    obtain ⟨data, hdata, h⟩ := bind_eq_ok.mp h
    obtain ⟨-, -, rfl⟩ := slice_eq_ok.mp hdata
    rw [List.take_length] at h
    obtain ⟨u, hchecks, h⟩ := bind_eq_ok.mp h
    obtain rfl := ok.inj h
    refine ⟨?_, ensure_eq_ok.mp hmagic, hcount, List.length_take_of_le hsize,
      (checkEntries_eq_ok _).mp hchecks⟩
    rw [Pfs0.toBytes, List.take_append_drop]
  · rintro ⟨rfl, h⟩
    have hheader : Pfs0Header.codec.fromPrefix pfs.toBytes = some pfs.header :=
      Codec.fromPrefix_append _ _ _
    have hrest : pfs.toBytes.drop 0x10 = pfs.entries.flatMap Pfs0FileEntry.codec.enc ++
        (pfs.stringTable ++ pfs.data) := List.drop_left' (Codec.enc_length _ _)
    have hentries : Pfs0FileEntry.codec.prefixElems pfs.header.fileCount.toNat
        (pfs.entries.flatMap Pfs0FileEntry.codec.enc ++ (pfs.stringTable ++ pfs.data)) =
          some pfs.entries := Codec.prefixElems_append _ h.fileCount _
    have htables : (pfs.entries.flatMap Pfs0FileEntry.codec.enc ++
        (pfs.stringTable ++ pfs.data)).drop (pfs.header.fileCount.toNat * 0x18) =
          pfs.stringTable ++ pfs.data :=
      List.drop_left' (by rw [Codec.length_flatMap (Codec.enc_length _), h.fileCount]; rfl)
    have hsize : pfs.header.stringTableSize.toNat ≤ (pfs.stringTable ++ pfs.data).length := by
      rw [List.length_append, h.stringTable]
      exact Nat.le_add_right _ _
    have hdata : (slice (pfs.stringTable ++ pfs.data) pfs.header.stringTableSize.toNat
        (pfs.stringTable ++ pfs.data).length : Outcome FromBytesError _) = ok pfs.data := by
      rw [slice_of_le hsize le_rfl, List.take_length, List.drop_left' h.stringTable]
    have hchecks := (checkEntries_eq_ok pfs).mpr h.inside
    simp only [Pfs0.tryFromBytes, hheader, okOr_some, ok_bind, hrest, ensure_true h.magic, hentries,
      htables, ensure_true hsize, hdata, List.take_left' h.stringTable, hchecks, pure_eq]

/-! ## The accessors -/

namespace Pfs0
variable (pfs)

/-- The bytes of a name, up to its terminator. -/
def rawName (entry : Pfs0FileEntry) : Bytes :=
  (pfs.stringTable.drop entry.stringTableOffset.toNat).takeWhile fun byte => !(byte == 0)

def view (entry : Pfs0FileEntry) : Pfs0File where
  name := (fromUtf8 (pfs.rawName entry)).getD []
  data := sliceAt pfs.data entry.offset.toNat entry.size.toNat

variable {pfs} {entry : Pfs0FileEntry}

theorem resolve_eq (h : pfs.Inside entry) : (pfs.resolve entry : Outcome ε _) = ok (pfs.view entry) := by
  have htable : (slice pfs.stringTable entry.stringTableOffset.toNat pfs.stringTable.length :
      Outcome ε _) = ok (pfs.stringTable.drop entry.stringTableOffset.toNat) := by
    rw [slice_of_le h.name le_rfl, List.take_length]
  have hname : ∀ table : Bytes, (slice table 0 (table.findIdx (· == 0)) : Outcome ε _) =
      ok (table.takeWhile fun byte => !(byte == 0)) := by
    intro table
    rw [slice_of_le (Nat.zero_le _) List.findIdx_le_length, List.drop_zero,
      List.takeWhile_eq_take_findIdx_not]
    simp only [Bool.not_not]
  simp only [resolve, htable, hname, add_of_lt h.bound, slice_sliceAt h.data, ok_bind, pure_eq]
  rfl

theorem rawName_terminated (h : pfs.Inside entry) :
    0 ∉ pfs.rawName entry ∧ ∃ pre post, pfs.stringTable = pre ++ (pfs.rawName entry ++ 0 :: post) ∧
      pre.length = entry.stringTableOffset.toNat := by
  refine ⟨fun hmem => by simpa using List.mem_takeWhile_imp hmem,
    pfs.stringTable.take entry.stringTableOffset.toNat, ?_⟩
  have hsplit := List.takeWhile_append_dropWhile (p := fun byte : UInt8 => !(byte == 0))
    (l := pfs.stringTable.drop entry.stringTableOffset.toNat)
  cases hrest : (pfs.stringTable.drop entry.stringTableOffset.toNat).dropWhile
      fun byte : UInt8 => !(byte == 0) with
  | nil =>
    have hzero := List.dropWhile_eq_nil_iff.mp hrest 0 h.terminated
    exact absurd hzero (by decide)
  | cons b post =>
    have hb : b = 0 := by
      have hhead := List.head_dropWhile_not (fun byte : UInt8 => !(byte == 0))
        (l := pfs.stringTable.drop entry.stringTableOffset.toNat) (by rw [hrest]; simp)
      simpa [hrest] using hhead
    subst hb
    refine ⟨post, ?_, List.length_take_of_le h.name⟩
    rw [rawName, ← hrest, hsplit, List.take_append_drop]

variable (h : pfs.Valid)
include h

theorem file_eq (index : ℕ) :
    (pfs.file index : Outcome ε _) = ok (pfs.entries[index]?.map pfs.view) := by
  rw [file]
  cases hentry : pfs.entries[index]? with
  | none => rfl
  | some entry =>
    have hinside := h.inside entry (List.mem_of_getElem? hentry)
    simp only [resolve_eq hinside]
    rfl

theorem files_eq : (pfs.files : Outcome ε _) = ok (pfs.entries.map pfs.view) :=
  mapM_eq_map fun entry hentry => resolve_eq (h.inside entry hentry)

theorem fileByName_eq (name : Text) :
    (pfs.fileByName name : Outcome ε _) = ok ((pfs.entries.map pfs.view).find? (·.name = name)) := by
  have hfind : ∀ entries : List Pfs0FileEntry, (∀ entry ∈ entries, pfs.Inside entry) →
      (pfs.findByName name entries : Outcome ε _) =
        ok ((entries.map pfs.view).find? (·.name = name)) := by
    intro entries hinside
    induction entries with
    | nil => rfl
    | cons entry entries ih =>
      obtain ⟨hentry, hentries⟩ := List.forall_mem_cons.mp hinside
      rw [findByName, resolve_eq hentry, ok_bind, List.map_cons, List.find?_cons]
      by_cases hname : (pfs.view entry).name = name
      · simp [hname]
      · simp [hname, ih hentries]
  exact hfind pfs.entries h.inside

end Pfs0
end NxObject.Pfs
