import NxObject.Placement
import NxObject.RomFsOrder

/-!
# Where the entries of an image stand

The offsets that are assigned to the entries of a sorted builder are the places at which they are then
written, as long as the tables stay within 32 bits.
-/
namespace NxObject.Romfs
open Outcome Placement

/-! ## Alignment -/

lemma align32_four (n : ℕ) : align32 (UInt32.ofNat n) 4 = UInt32.ofNat (alignUp 4 n) := by
  have hadd : (UInt32.ofNat n + (4 - 1)).toNat = (n + (2 ^ 2 - 1)) % 2 ^ 32 := by
    rw [UInt32.toNat_add, UInt32.toNat_ofNat']
    exact Nat.mod_add_mod n _ 3
  have hmask : (~~~(4 - 1) : UInt32).toNat = 2 ^ 32 - 1 - (2 ^ 2 - 1) := rfl
  apply UInt32.toNat_inj.mp
  rw [align32, UInt32.toNat_and, hadd, hmask, alignUp_two_pow (by omega), UInt32.toNat_ofNat']
  rfl

lemma align64_two_pow {k : ℕ} (hk : k < 64) {alignment : UInt64} (h : alignment.toNat = 2 ^ k)
    (n : ℕ) : align64 (UInt64.ofNat n) alignment = UInt64.ofNat (alignUp (2 ^ k) n) := by
  have hpos := Nat.two_pow_pos k
  have hone : (alignment - 1).toNat = 2 ^ k - 1 := by
    rw [UInt64.toNat_sub_of_le _ _ (UInt64.le_iff_toNat_le.mpr (by rw [h]; exact hpos)), h]
    rfl
  have hadd : (UInt64.ofNat n + (alignment - 1)).toNat = (n + (2 ^ k - 1)) % 2 ^ 64 := by
    rw [UInt64.toNat_add, UInt64.toNat_ofNat', hone]
    exact Nat.mod_add_mod n _ _
  have hmask : (~~~(alignment - 1)).toNat = 2 ^ 64 - 1 - (2 ^ k - 1) := by
    rw [UInt64.toNat_not, hone]
    rfl
  apply UInt64.toNat_inj.mp
  rw [align64, UInt64.toNat_and, hadd, hmask, alignUp_two_pow hk.le, UInt64.toNat_ofNat']

lemma align64_four (n : ℕ) : align64 (UInt64.ofNat n) 4 = UInt64.ofNat (alignUp 4 n) :=
  align64_two_pow (k := 2) (by omega) rfl n

lemma align64_sixteen (n : ℕ) : align64 (UInt64.ofNat n) 0x10 = UInt64.ofNat (alignUp 0x10 n) :=
  align64_two_pow (k := 4) (by omega) rfl n

/-! ## Assigned offsets -/

def dirSize (c : List Text) : ℕ := 0x18 + alignUp 4 (utf8 (lastName c)).length

def fileSize (p : List Text) : ℕ := 0x20 + alignUp 4 (utf8 (lastName p)).length

/-- Where the contents of the files end that stand one behind the other from `start`. -/
def dataEnd (start : ℕ) (files : List Bytes) : ℕ :=
  files.foldl (fun stop data => alignUp 0x10 stop + data.length) start

lemma zipIdx_eq_map_idxOf {α : Type} [BEq α] [LawfulBEq α] {l : List α} (h : l.Nodup) :
    l.zipIdx = l.map fun a => (a, l.idxOf a) := by
  apply List.ext_getElem (by simp)
  intro i hi hi'
  rw [List.getElem_zipIdx, List.getElem_map, h.idxOf_getElem, Nat.zero_add]

lemma assignOffsets_map {α β : Type} [BEq α] [LawfulBEq α] {l : List α} (hl : l.Nodup)
    (entry : α → β) (size : α → ℕ) {size32 : β → UInt32}
    (hsize : ∀ a, size32 (entry a) = UInt32.ofNat (size a)) (place : UInt32 → β → β) (start : ℕ) :
    assignOffsets size32 place (UInt32.ofNat start) (l.map entry) =
      l.map fun a => place (UInt32.ofNat (start + offsetOf size l a)) (entry a) := by
  induction l generalizing start with
  | nil => rfl
  | cons a l ih =>
    obtain ⟨ha, hl⟩ := List.nodup_cons.mp hl
    rw [List.map_cons, assignOffsets, hsize, ← UInt32.ofNat_add, ih hl, List.map_cons]
    congr 1
    · simp [offsetOf]
    · refine List.map_congr_left fun b hb => ?_
      have hne : a ≠ b := fun h => ha (h ▸ hb)
      simp [offsetOf, List.idxOf_cons_ne _ hne, Nat.add_assoc]

lemma assignDataOffsets_map {α : Type} [BEq α] [LawfulBEq α] {l : List α} (hl : l.Nodup)
    (entry : α → FileEntry) (start : ℕ) :
    assignDataOffsets (UInt64.ofNat start) (l.map entry) =
      l.map fun a =>
        { entry a with
          dataOffset := UInt64.ofNat (alignUp 0x10
            (dataEnd start ((l.take (l.idxOf a)).map fun b => (entry b).data))) } := by
  induction l generalizing start with
  | nil => rfl
  | cons a l ih =>
    obtain ⟨ha, hl⟩ := List.nodup_cons.mp hl
    simp only [List.map_cons, assignDataOffsets, align64_sixteen, ← UInt64.ofNat_add]
    rw [ih hl]
    congr 1
    · simp [dataEnd]
    · refine List.map_congr_left fun b hb => ?_
      have hne : a ≠ b := fun h => ha (h ▸ hb)
      simp [dataEnd, List.idxOf_cons_ne _ hne]

lemma partitionSize_eq (start : ℕ) (files : List FileEntry) :
    files.foldl (fun size file => align64 size 0x10 + UInt64.ofNat file.data.length)
      (UInt64.ofNat start) = UInt64.ofNat (dataEnd start (files.map (·.data))) := by
  induction files generalizing start with
  | nil => rfl
  | cons file files ih =>
    rw [List.foldl_cons, align64_sixteen, ← UInt64.ofNat_add, ih]
    rfl

namespace Tree
variable (t : Tree)

/-- The contents of the file at `p`. -/
def data (p : List Text) : Bytes := (t.files.lookup p).getD []

def dirOffset (c : List Text) : ℕ := offsetOf dirSize t.dirs c

def fileOffset (p : List Text) : ℕ := offsetOf fileSize t.paths p

def dirPos (c : List Text) : UInt32 := UInt32.ofNat (t.dirOffset c)

def filePos (p : List Text) : UInt32 := UInt32.ofNat (t.fileOffset p)

def dataOffset (p : List Text) : ℕ :=
  alignUp 0x10 (dataEnd 0 ((t.paths.take (t.paths.idxOf p)).map t.data))

def placedDir (c : List Text) : DirEntry :=
  { t.dirEntry c with entryOffset := t.dirPos c }

def placedFile (p : List Text) : FileEntry :=
  { t.fileEntry (p, t.data p) with
    entryOffset := t.filePos p
    dataOffset := UInt64.ofNat (t.dataOffset p) }

def dirKey (c : List Text) : HashKey :=
  ⟨t.dirPos c.dropLast, utf8 (lastName c), t.dirPos c⟩

def fileKey (p : List Text) : HashKey :=
  ⟨t.dirPos p.dropLast, utf8 (lastName p), t.filePos p⟩

def dirHash : List UInt32 × List UInt32 := generateHashTable (t.dirs.map t.dirKey)

def fileHash : List UInt32 × List UInt32 := generateHashTable (t.paths.map t.fileKey)

def laidOut : RomFsBuilder where
  dirs := t.dirs.map t.placedDir
  files := t.paths.map t.placedFile
  dirHashSiblings := t.dirHash.2
  fileHashSiblings := t.fileHash.2

lemma paths_nodup : t.paths.Nodup := t.files_nodup

variable {t}

lemma data_of_mem {f : List Text × Bytes} (h : f ∈ t.files) : t.data f.1 = f.2 := by
  obtain ⟨l₁, l₂, hl⟩ := List.append_of_mem h
  have hnodup := t.files_nodup
  rw [hl, List.map_append, List.nodup_append] at hnodup
  have hlookup : t.files.lookup f.1 = some f.2 := by
    refine List.lookup_eq_some_iff.mpr ⟨l₁, l₂, hl, fun p hp => ?_⟩
    simpa using (hnodup.2.2 p.1 (List.mem_map_of_mem hp) f.1 (by simp)).symm
  rw [data, hlookup, Option.getD_some]

lemma files_eq : t.files = t.paths.map fun p => (p, t.data p) := by
  rw [paths, List.map_map]
  conv_lhs => rw [← List.map_id t.files]
  refine List.map_congr_left fun f hf => ?_
  rw [Function.comp_apply, data_of_mem hf]
  rfl

theorem calculateOffsets_builder :
    t.builder.calculateOffsets =
      { dirs := t.dirs.map t.placedDir, files := t.paths.map t.placedFile } := by
  have hdirs : assignDirOffsets 0 t.builder.dirs = t.dirs.map t.placedDir := by
    rw [builder, assignDirOffsets]
    refine (assignOffsets_map t.dirs_nodup t.dirEntry dirSize (fun c => ?_) _ 0).trans ?_
    · rw [align32_four, dirSize, UInt32.ofNat_add]
      rfl
    · simp only [Nat.zero_add]
      rfl
  have hfiles : assignFileOffsets 0 (assignDataOffsets 0 t.builder.files) =
      t.paths.map t.placedFile := by
    have hbuilder : t.builder.files = t.paths.map fun p => t.fileEntry (p, t.data p) := by
      rw [builder, files_eq, List.map_map]
      rfl
    have hdata := assignDataOffsets_map t.paths_nodup (fun p => t.fileEntry (p, t.data p)) 0
    change assignDataOffsets 0 _ = _ at hdata
    rw [hbuilder, hdata, assignFileOffsets]
    refine (assignOffsets_map t.paths_nodup _ fileSize (fun p => ?_) _ 0).trans ?_
    · rw [align32_four, fileSize, UInt32.ofNat_add]
      rfl
    · simp only [Nat.zero_add]
      rfl
  rw [RomFsBuilder.calculateOffsets, hdirs, hfiles]
  rfl

lemma dir_laidOut {c : List Text} (h : c ∈ t.dirs) :
    t.laidOut.dir (t.dirs.idxOf c) = t.placedDir c := by
  simp [RomFsBuilder.dir, laidOut, List.getD_eq_getElem?_getD, List.getElem?_idxOf h]

lemma file_laidOut {p : List Text} (h : p ∈ t.paths) :
    t.laidOut.file (t.paths.idxOf p) = t.placedFile p := by
  simp [RomFsBuilder.file, laidOut, List.getD_eq_getElem?_getD, List.getElem?_idxOf h]

lemma laidOut_dirKeys : t.laidOut.dirKeys = t.dirs.map t.dirKey := by
  rw [RomFsBuilder.dirKeys, laidOut, List.map_map]
  refine List.map_congr_left fun c hc => ?_
  exact congrArg (fun parent : DirEntry => HashKey.mk parent.entryOffset _ _)
    (dir_laidOut (t.parent_mem c hc))

lemma laidOut_fileKeys : t.laidOut.fileKeys = t.paths.map t.fileKey := by
  rw [RomFsBuilder.fileKeys, laidOut, List.map_map]
  refine List.map_congr_left fun p hp => ?_
  exact congrArg (fun parent : DirEntry => HashKey.mk parent.entryOffset _ _)
    (dir_laidOut (t.folder_mem p hp))

theorem layOut_builder (t : Tree) :
    t.builder.layOut = (t.sort.laidOut, t.sort.dirHash.1, t.sort.fileHash.1) := by
  rw [RomFsBuilder.layOut, sort_builder, calculateOffsets_builder]
  generalize t.sort = t
  have hdirs : RomFsBuilder.dirKeys
      { dirs := t.dirs.map t.placedDir, files := t.paths.map t.placedFile } = t.dirs.map t.dirKey :=
    laidOut_dirKeys
  have hfiles : RomFsBuilder.fileKeys
      { dirs := t.dirs.map t.placedDir, files := t.paths.map t.placedFile,
        dirHashSiblings := t.dirHash.2 } = t.paths.map t.fileKey :=
    laidOut_fileKeys
  simp only [RomFsBuilder.generateDirHashTable, RomFsBuilder.generateFileHashTable, hdirs]
  rw [← dirHash, hfiles]
  rfl

end Tree
end NxObject.Romfs
