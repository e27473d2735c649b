import NxObject.RomFsHash
import NxObject.RomFsWalk

/-!
# Names that do not fit

Offsets and name lengths are 32-bit numbers. A name of `2^32` bytes is accepted and stored with length
zero, in a table that is cut back to the entry's header, so the hash table does not lead to the file.
-/
namespace NxObject.Romfs
open Outcome Placement

/-! ## The hash of a repeated byte -/

def hashStep (hash : UInt32) (byte : UInt8) : UInt32 := rotateRight hash 5 ^^^ byte.toUInt32

lemma foldl_replicate {α β : Type} (f : β → α → β) (b : β) (a : α) (n : ℕ) :
    (List.replicate n a).foldl f b = (fun b => f b a)^[n] b := by
  induction n generalizing b with
  | zero => rfl
  | succ n ih => rw [List.replicate_succ, List.foldl_cons, ih, Function.iterate_succ_apply]

/-- Sixty-four bytes `a` bring the hash of the empty name back. -/
lemma hash_periodic : Function.IsPeriodicPt (fun hash => hashStep hash 97) 64 123456789 := by
  decide +kernel

lemma hash_replicate (k : ℕ) :
    (List.replicate (64 * k + 63) 97).foldl hashStep 123456789 =
      (fun hash => hashStep hash 97)^[63] 123456789 := by
  rw [foldl_replicate, Nat.add_comm, Function.iterate_add_apply]
  exact congrArg _ (hash_periodic.mul_const k)

lemma pathHash_zero (bytes : Bytes) : pathHash 0 bytes = bytes.foldl hashStep 123456789 := rfl

lemma pathHash_oversized (k : ℕ) :
    (pathHash 0 (List.replicate (64 * k + 63) 97 ++ [98])).toNat % 3 ≠ (pathHash 0 []).toNat % 3 := by
  rw [pathHash_zero, List.foldl_append, hash_replicate]
  decide +kernel

/-! ## The tree of one file -/

section SingleFile
variable {t : Tree} {x : Text}

lemma dirPos_root (hdirs : t.dirs = [[]]) : t.dirPos [] = 0 := by
  rw [Tree.dirPos, Tree.dirOffset, hdirs]
  rfl

lemma filePos_single (hpaths : t.paths = [[x]]) : t.filePos [x] = 0 := by
  rw [Tree.filePos, Tree.fileOffset, hpaths, offsetOf, List.idxOf_cons_self]
  rfl

lemma dirTable_single (hdirs : t.dirs = [[]]) : t.dirTable = RomFsDirEntry.codec.enc (t.dirRecord []) := by
  have htable : t.dirTable = appendEntry [] (RomFsDirEntry.codec.enc (t.dirRecord [])) [] := by
    rw [Tree.dirTable, RomFsBuilder.buildDirTable]
    change (t.dirs.map t.placedDir).zipIdx.foldl _ _ = _
    rw [Tree.dirRecord, hdirs]
    rfl
  rw [htable, appendEntry_eq (by simp) (by rw [Codec.enc_length]; decide)
    (by rw [Codec.enc_length]; decide), List.nil_append, entryChunk]
  exact List.append_nil _

lemma dirTable_length_single (hdirs : t.dirs = [[]]) : t.dirTable.length = 0x18 := by
  rw [dirTable_single hdirs, Codec.enc_length]
  rfl

lemma fileTable_oversized (hpaths : t.paths = [[x]]) (hx : (utf8 x).length = 2 ^ 32) :
    t.fileTable = RomFsFileEntry.codec.enc (t.fileRecord [x]) := by
  have htable : t.fileTable =
      appendEntry [] (RomFsFileEntry.codec.enc (t.fileRecord [x])) (utf8 x) := by
    rw [Tree.fileTable, RomFsBuilder.buildFileTable]
    change (t.paths.map t.placedFile).zipIdx.foldl _ _ = _
    rw [Tree.fileRecord, hpaths, List.map_singleton, List.zipIdx_singleton, List.foldl_cons,
      List.foldl_nil, List.idxOf_cons_self]
    rfl
  have hheader : (RomFsFileEntry.codec.enc (t.fileRecord [x])).length = 0x20 := Codec.enc_length _ _
  have hlen : ([] ++ RomFsFileEntry.codec.enc (t.fileRecord [x]) ++ utf8 x).length = 0x20 + 2 ^ 32 := by
    rw [List.nil_append, List.length_append, hheader, hx]
  have hcut : (align32 (UInt32.ofNat (0x20 + 2 ^ 32)) 4).toNat = 0x20 := by decide +kernel
  rw [htable, appendEntry, hlen, hcut, resize, hlen, List.nil_append, List.take_left' hheader]
  simp

lemma imageSize_oversized (hdirs : t.dirs = [[]]) (hpaths : t.paths = [[x]])
    (hx : (utf8 x).length = 2 ^ 32) (hdata : t.data [x] = []) : t.imageSize < 2 ^ 63 := by
  have hdirHash : t.dirHash.1.length = 3 := by
    rw [Tree.dirHash, hdirs, length_generateHashTable]
    rfl
  have hfileHash : t.fileHash.1.length = 3 := by
    rw [Tree.fileHash, hpaths, length_generateHashTable]
    rfl
  simp only [Tree.imageSize, Tree.fileTableOffset, Tree.fileHashOffset, Tree.dirTableOffset,
    Tree.dirHashOffset, Tree.dataSize, hpaths, List.map_singleton, hdata, hdirHash, hfileHash,
    dirTable_length_single hdirs, fileTable_oversized hpaths hx, Codec.enc_length]
  decide

lemma hashLookup_oversized {romfs : RomFs} (hs : t.Stores romfs) (hpaths : t.paths = [[x]])
    (hx : (utf8 x).length = 2 ^ 32) :
    ∃ entry : StoredEntry, romfs.storedFile 0 = ok entry ∧
      entry.parentOffset = t.dirPos [] ∧ entry.name = [] ∧
      ∀ parentOffset name fuel, 1 < fuel →
        hashLookup romfs.storedFile romfs.fileHashTable fuel parentOffset name =
          ok (((bucketOf t.paths t.fileKey ((pathHash parentOffset name).toNat % 3)).map
            fun _ => entry).find? fun e => e.parentOffset == parentOffset && e.name == name) := by
  have hmem : [x] ∈ t.paths := by simp [hpaths]
  have hname : (t.fileRecord [x]).fields.nameLen.toNat = ([] : Bytes).length := by
    change (UInt32.ofNat (utf8 (lastName [x])).length).toNat = 0
    rw [show lastName [x] = x from rfl, hx]
    rfl
  have hread : romfs.storedFile 0 =
      ok ⟨0, t.dirPos [], (t.fileRecord [x]).hashSiblingOffset, []⟩ := by
    have htable : t.fileTable =
        [] ++ (RomFsFileEntry.codec.enc (t.fileRecord [x]) ++ (([] : Bytes) ++ [])) := by
      rw [fileTable_oversized hpaths hx]
      simp
    rw [RomFs.storedFile, hs.fileTable, ok_bind, storedAt_at htable rfl hname]
    congr 2
    exact Tree.fileRecord_parentOffset hmem
  refine ⟨_, hread, rfl, rfl, fun parentOffset name fuel hfuel => ?_⟩
  have honly : ∀ p ∈ t.paths, p = [x] := by simp [hpaths]
  have hreads : ∀ p ∈ t.paths, romfs.storedFile (t.fileKey p).entryOffset =
      ok ⟨0, t.dirPos [], (t.fileRecord [x]).hashSiblingOffset, []⟩ := by
    intro p hp
    rw [honly p hp, Tree.fileKey, filePos_single hpaths, hread]
  have hstop : ∀ p ∈ t.paths, (t.fileKey p).entryOffset ≠ NO_ENTRY := by
    intro p hp
    rw [honly p hp, Tree.fileKey, filePos_single hpaths]
    exact (by decide : (0 : UInt32) ≠ NO_ENTRY)
  have hlink : ∀ p ∈ t.paths, (generateHashTable (t.paths.map t.fileKey)).2[t.paths.idxOf p]? =
      some (t.fileRecord [x]).hashSiblingOffset := by
    intro p hp
    rw [honly p hp]
    exact hashSibling_getElem? hmem 0
  have hlookup := (hashLookup_eq t.paths_nodup hreads hstop hlink).2 parentOffset name fuel
    (by simpa [hpaths] using hfuel)
  rw [RomFs.fileHashTable, hs.fileHash, Tree.fileHash, hlookup, hpaths]
  rfl

end SingleFile

lemma utf8_replicate (n : ℕ) : utf8 (List.replicate n 'a') = List.replicate n 97 := by
  induction n with
  | zero => rfl
  | succ n ih =>
    rw [List.replicate_succ, ← List.singleton_append, utf8_append, ih]
    rfl

lemma utf8_oversized :
    utf8 (List.replicate (2 ^ 32 - 1) 'a' ++ ['b']) = List.replicate (64 * (2 ^ 26 - 1) + 63) 97 ++ [98] := by
  rw [utf8_append, utf8_replicate]
  norm_num
  rfl

lemma utf8_oversized_length : (utf8 (List.replicate (2 ^ 32 - 1) 'a' ++ ['b'])).length = 2 ^ 32 := by
  rw [utf8_oversized, List.length_append, List.length_replicate]
  norm_num

lemma isComponent_oversized : IsComponent (List.replicate (2 ^ 32 - 1) 'a' ++ ['b']) := by
  refine ⟨List.append_ne_nil_of_right_ne_nil _ (by simp), fun hmem => ?_⟩
  rcases List.mem_append.mp hmem with hmem | hmem
  · exact absurd (List.eq_of_mem_replicate hmem) (by decide)
  · exact absurd (List.mem_singleton.mp hmem) (by decide)

lemma pathComponents_single {x : Text} (hcomp : IsComponent x) : pathComponents ('/' :: x) = [x] := by
  rw [pathComponents, List.tail_cons, List.splitOn_eq_singleton hcomp.2]
  simp [hcomp.1]

lemma image_oversized {x : Text} (hcomp : IsComponent x) (hx : (utf8 x).length = 2 ^ 32) :
    ∃ b image romfs, ∃ t : Tree, RomFsBuilder.addFiles [('/' :: x, [])] = ok b ∧ b.build = ok image ∧
      RomFs.tryFromBytes image = ok romfs ∧ b.layOut.1.fileKeys = t.paths.map t.fileKey ∧
      t.Stores romfs ∧ t.dirs = [[]] ∧ t.paths = [[x]] := by
  have hpath := pathComponents_single hcomp
  have hacc : Accepted [('/' :: x, [])] := ⟨by simp [IsAbsolute, hpath], by simp⟩
  obtain ⟨t, hadd, hholds⟩ := RomFsBuilder.addFiles_of_accepted hacc
  have hfiles : t.files = [([x], [])] := by simp [hholds.files, hpath]
  have hdirs : t.sort.dirs = [[]] := by
    refine List.perm_singleton.mp (t.sortedDirs_perm.trans ?_)
    refine (List.perm_ext_iff_of_nodup t.dirs_nodup (List.nodup_singleton _)).mpr fun d => ?_
    rw [hholds.dirs]
    simp [hpath]
  have hsorted : t.sort.files = [([x], [])] :=
    List.perm_singleton.mp (hfiles ▸ t.sortedFiles_perm)
  have hpaths : t.sort.paths = [[x]] := by rw [Tree.paths, hsorted, List.map_singleton]
  have hdata : t.sort.data [x] = [] :=
    Tree.data_of_mem (t := t.sort) (f := ([x], [])) (by rw [hsorted]; exact List.mem_singleton_self _)
  have hsize := imageSize_oversized hdirs hpaths hx hdata
  refine ⟨t.builder, t.sort.image, t.sort.romfs, t.sort, hadd,
    Tree.build_builder (by rw [hfiles]; simp) hsize, Tree.tryFromBytes_image hsize, ?_,
    Tree.stores_romfs hsize, hdirs, hpaths⟩
  rw [Tree.layOut_builder, Tree.laidOut_fileKeys]

/-- A file is added and built, but the reference lookup finds it neither by the name it was added under
nor by the one that is stored. -/
theorem hash_lookup_misses :
    ∃ b image romfs,
      RomFsBuilder.addFiles [('/' :: (List.replicate (2 ^ 32 - 1) 'a' ++ ['b']), [])] = ok b ∧
      b.build = ok image ∧ RomFs.tryFromBytes image = ok romfs ∧
      (∃ key ∈ b.layOut.1.fileKeys, ∀ fuel > 1,
        hashLookup romfs.storedFile romfs.fileHashTable fuel key.parentOffset key.name = ok none) ∧
      (∀ entries, ¬HashAgrees romfs.storedFile romfs.fileHashTable entries b.layOut.1.fileKeys) ∧
      ∃ entry, romfs.storedFile 0 = ok entry ∧ ∀ fuel > 1,
        hashLookup romfs.storedFile romfs.fileHashTable fuel entry.parentOffset entry.name =
          ok none := by
  have hutf8 := utf8_oversized
  have hx := utf8_oversized_length
  have hcomp := isComponent_oversized
  set x : Text := List.replicate (2 ^ 32 - 1) 'a' ++ ['b'] with hxdef
  have hhash : (pathHash 0 (utf8 x)).toNat % 3 ≠ (pathHash 0 []).toNat % 3 :=
    hutf8 ▸ pathHash_oversized _
  obtain ⟨b, image, romfs, t, hadd, hbuild, hparse, hkeys, hs, hdirs, hpaths⟩ :=
    image_oversized hcomp hx
  obtain ⟨entry, hread, hparent, hname, hlookup⟩ := hashLookup_oversized hs hpaths hx
  have hkey : t.fileKey [x] ∈ b.layOut.1.fileKeys := by
    rw [hkeys, hpaths]
    exact List.mem_singleton_self _
  have hmiss : ∀ fuel > 1, hashLookup romfs.storedFile romfs.fileHashTable fuel
      (t.fileKey [x]).parentOffset (t.fileKey [x]).name = ok none := by
    -- the stored name is the empty one
    intro fuel hfuel
    rw [hlookup _ _ _ hfuel, List.find?_eq_none.mpr]
    intro e he hp
    obtain ⟨p, -, rfl⟩ := List.mem_map.mp he
    have hsame : entry.name = utf8 x := by
      have hkeyName : (t.fileKey [x]).name = utf8 x := rfl
      simpa [hkeyName] using (Bool.and_eq_true_iff.mp hp).2
    have hlen := congrArg List.length hsame
    rw [hname, hx] at hlen
    cases hlen
  refine ⟨b, image, romfs, hadd, hbuild, hparse, ⟨t.fileKey [x], hkey, hmiss⟩, fun entries hagrees => ?_,
    entry, hread, fun fuel hfuel => ?_⟩
  · obtain ⟨turns, hfound⟩ := hagrees.found _ hkey
    obtain ⟨e, hok, -⟩ := hfound (max turns 2) (le_max_left _ _)
    rw [hmiss _ (Nat.lt_of_lt_of_le (by omega) (le_max_right _ _))] at hok
    cases hok
  · -- the entry is chained from the bucket of the name it was added under
    rw [hlookup _ _ _ hfuel, List.find?_eq_none.mpr]
    intro e he hp
    obtain ⟨p, hp', rfl⟩ := List.mem_map.mp he
    obtain ⟨hmem, hbucket⟩ := mem_bucketOf.mp hp'
    rw [hpaths, List.mem_singleton] at hmem
    have hkey : (t.fileKey [x]).parentOffset = 0 := dirPos_root hdirs
    rw [hmem, hpaths, HashKey.bucket, hkey, hparent, hname, dirPos_root hdirs] at hbucket
    exact hhash hbucket

/-! ## The walk -/

section SingleFile
variable {t : Tree} {x : Text} {romfs : RomFs} (hs : t.Stores romfs)
include hs

lemma rootDir_single (hdirs : t.dirs = [[]]) : romfs.rootDir = ok (t.dirHandle []) := by
  have htable : t.dirTable = [] ++ (RomFsDirEntry.codec.enc (t.dirRecord []) ++ (utf8 [] ++ [])) := by
    rw [dirTable_single hdirs, utf8_nil, List.append_nil, List.append_nil, List.nil_append]
  obtain ⟨table, hread, hbase⟩ := dirMetaTable_ok (ε := OpenError) hs.bounded
  obtain rfl : t.dirTable = table := ok.inj (hs.dirTable.symm.trans hread)
  rw [RomFs.rootDir, RomFs.dirFromOffsetForRoot, hs.dirTable, ok_bind,
    readEntry_at htable rfl rfl (by decide) (by omega)]
  rfl

lemma readFile_oversized (hpaths : t.paths = [[x]]) (hx : (utf8 x).length = 2 ^ 32) :
    romfs.readFile 0 = ok ⟨t.fileRecord [x], []⟩ := by
  have hname : (t.fileRecord [x]).nameLen.toNat = (utf8 []).length := by
    change (UInt32.ofNat (utf8 (lastName [x])).length).toNat = 0
    rw [show lastName [x] = x from rfl, hx]
    rfl
  have htable : t.fileTable = [] ++ (RomFsFileEntry.codec.enc (t.fileRecord [x]) ++ (utf8 [] ++ [])) := by
    rw [fileTable_oversized hpaths hx, utf8_nil, List.append_nil, List.append_nil, List.nil_append]
  obtain ⟨table, hread, hbase⟩ := fileMetaTable_ok (ε := OpenError) hs.bounded
  obtain rfl : t.fileTable = table := ok.inj (hs.fileTable.symm.trans hread)
  rw [RomFs.readFile, RomFs.fileFromOffset, hs.fileTable, ok_bind,
    readEntry_at htable rfl hname (by decide) (by omega)]
  rfl

lemma walk_oversized (hdirs : t.dirs = [[]]) (hpaths : t.paths = [[x]]) (hx : (utf8 x).length = 2 ^ 32)
    {fuel : ℕ} (hfuel : 2 < fuel) :
    romfs.walk fuel [] 0 (t.dirHandle []) = ok [⟨[], 0, [(0, .file ⟨t.fileRecord [x], []⟩)]⟩] := by
  have hmem : [x] ∈ t.paths := by simp [hpaths]
  have hfilesIn : t.filesIn [] = [[x]] := by simp [Tree.filesIn, hpaths]
  have hchild : (t.dirHandle []).entry.childOffset = NO_ENTRY := by
    rw [Tree.dirHandle, Tree.dirRecord_childOffset, Tree.children, hdirs]
    rfl
  have hfile : (t.dirHandle []).entry.fileOffset = 0 := by
    rw [Tree.dirHandle, Tree.dirRecord_fileOffset, hfilesIn]
    exact filePos_single hpaths
  have hlast : (t.fileRecord [x]).siblingOffset = NO_ENTRY := by
    rw [Tree.fileRecord_siblingOffset hmem]
    change findSibling t.filePos (t.filesIn []) _ = _
    rw [hfilesIn]
    rfl
  have hfiles : Chain.Located romfs.readFile (·.entry.siblingOffset) NO_ENTRY 0
      [(0, ⟨t.fileRecord [x], []⟩)] := by
    refine .cons (by decide) (readFile_oversized hs hpaths hx) ?_
    rw [hlast]
    exact .nil
  obtain ⟨k, rfl⟩ : ∃ k, fuel = k + 1 := ⟨fuel - 1, by omega⟩
  have hlisting : DirIterator.collectAt romfs k ⟨NO_ENTRY, 0⟩ = _ :=
    DirIterator.collectAt_of_located .nil hfiles (by simp only [List.length_cons, List.length_nil]; omega)
  rw [RomFs.walk, RomFsDir.entries, hchild, hfile, hlisting, ok_bind]
  rfl

end SingleFile

/-- A file is added and built, but the walk does not list it under its path. -/
theorem walk_misses : ∃ b image romfs root,
    RomFsBuilder.addFiles [('/' :: (List.replicate (2 ^ 32 - 1) 'a' ++ ['b']), [])] = ok b ∧
      b.build = ok image ∧ RomFs.tryFromBytes image = ok romfs ∧ romfs.rootDir = ok root ∧
      ¬∃ visits turns, (∀ fuel ≥ turns, romfs.walk fuel [] 0 root = ok visits) ∧
        Enumerates [('/' :: (List.replicate (2 ^ 32 - 1) 'a' ++ ['b']), [])] romfs visits := by
  have hx := utf8_oversized_length
  have hcomp := isComponent_oversized
  set x : Text := List.replicate (2 ^ 32 - 1) 'a' ++ ['b'] with hxdef
  obtain ⟨b, image, romfs, t, hadd, hbuild, hparse, -, hs, hdirs, hpaths⟩ := image_oversized hcomp hx
  refine ⟨b, image, romfs, t.dirHandle [], hadd, hbuild, hparse, rootDir_single hs hdirs, ?_⟩
  rintro ⟨visits, turns, hwalk, henum⟩
  have hvisits := walk_oversized hs hdirs hpaths hx (show 2 < max turns 3 by omega)
  rw [hwalk _ (le_max_left turns 3)] at hvisits
  obtain rfl := ok.inj hvisits
  have hpath := henum.files.mem_iff.mpr (List.mem_map_of_mem (List.mem_singleton_self _))
  rw [pathComponents_single hcomp] at hpath
  obtain ⟨visit, hvisit, hfile⟩ := List.mem_flatMap.mp hpath
  obtain rfl := List.mem_singleton.mp hvisit
  obtain ⟨file, hlisted, hname⟩ := List.mem_map.mp hfile
  obtain rfl := List.mem_singleton.mp hlisted
  have hempty : x = [] := (List.cons.inj (Prod.mk.inj hname).1).1.symm
  rw [hempty] at hx
  cases hx

end NxObject.Romfs
