import NxObject.Buckets
import NxObject.RomFsOpen
import NxObject.RomFsSizing

/-!
# The hash tables

The reference lookup hashes the parent's offset and a name to a bucket and follows the hash siblings.
On an image whose metadata tables are small enough it finds every entry, and nothing else; the bucket
chains divide the entries of a table among them.
-/
namespace NxObject.Romfs
open Outcome Placement

/-! ## The reference lookup -/

structure StoredEntry where
  offset : UInt32
  parentOffset : UInt32
  hashSiblingOffset : UInt32
  name : Bytes
  deriving DecidableEq, Repr

def StoredEntry.key (entry : StoredEntry) : HashKey :=
  ⟨entry.parentOffset, entry.name, entry.offset⟩

/-- The fields of an entry header that a lookup looks at. -/
structure EntryFields where
  parentOffset : UInt32
  hashSiblingOffset : UInt32
  nameLen : UInt32

def RomFsDirEntry.fields (entry : RomFsDirEntry) : EntryFields :=
  ⟨entry.parentOffset, entry.hashSiblingOffset, entry.nameLen⟩

def RomFsFileEntry.fields (entry : RomFsFileEntry) : EntryFields :=
  ⟨entry.parentOffset, entry.hashSiblingOffset, entry.nameLen⟩

def storedAt {H : Type} (codec : Codec H) (fields : H → EntryFields) (table : Bytes)
    (offset : UInt32) : Outcome Unit StoredEntry := do
  let entry ← okOr (codec.fromPrefix (table.drop offset.toNat)) ()
  let fields := fields entry
  let nameOffset := offset.toNat + codec.size
  ensure (nameOffset + fields.nameLen.toNat ≤ table.length) ()
  pure ⟨offset, fields.parentOffset, fields.hashSiblingOffset,
    sliceAt table nameOffset fields.nameLen.toNat⟩

def bucketHead (hashTable : Bytes) (bucket : ℕ) : UInt32 :=
  UInt32.ofNat (ofLe (sliceAt hashTable (bucket * 4) 4))

/-- Start at the bucket of the hash and follow the hash siblings. -/
def hashLookup (read : UInt32 → Outcome Unit StoredEntry) (hashTable : Bytes) (fuel : ℕ)
    (parentOffset : UInt32) (name : Bytes) : Outcome Unit (Option StoredEntry) :=
  let bucket := (pathHash parentOffset name).toNat % (hashTable.length / 4)
  Chain.search read (·.hashSiblingOffset) NO_ENTRY
    (fun entry => entry.parentOffset == parentOffset && entry.name == name) fuel
    (bucketHead hashTable bucket)

/-- The entries of a metadata table, one behind the other from `offset`. -/
def scanTable {H : Type} (codec : Codec H) (fields : H → EntryFields) (table : Bytes) :
    ℕ → ℕ → List StoredEntry
  | 0, _ => []
  | fuel + 1, offset =>
      match storedAt codec fields table (UInt32.ofNat offset) with
      | .ok entry =>
          entry :: scanTable codec fields table fuel
            (offset + (codec.size + alignUp 4 entry.name.length))
      | _ => []

namespace RomFs
variable (romfs : RomFs)

def dirHashTable : Bytes :=
  sliceAt romfs.bytes romfs.header.dirHashTableOffset.toNat romfs.header.dirHashTableSize.toNat

def fileHashTable : Bytes :=
  sliceAt romfs.bytes romfs.header.fileHashTableOffset.toNat romfs.header.fileHashTableSize.toNat

def storedDir (offset : UInt32) : Outcome Unit StoredEntry := do
  let table ← romfs.dirMetaTable
  storedAt RomFsDirEntry.codec (·.fields) table offset

def storedFile (offset : UInt32) : Outcome Unit StoredEntry := do
  let table ← romfs.fileMetaTable
  storedAt RomFsFileEntry.codec (·.fields) table offset

def scanDirs : Outcome Unit (List StoredEntry) := do
  let table ← romfs.dirMetaTable
  pure (scanTable RomFsDirEntry.codec (·.fields) table (table.length + 1) 0)

def scanFiles : Outcome Unit (List StoredEntry) := do
  let table ← romfs.fileMetaTable
  pure (scanTable RomFsFileEntry.codec (·.fields) table (table.length + 1) 0)

end RomFs

/-- A hash table agrees with the entries that were laid out: `keys`, in the order of the table. -/
structure HashAgrees (read : UInt32 → Outcome Unit StoredEntry) (hashTable : Bytes)
    (entries : List StoredEntry) (keys : List HashKey) : Prop where
  listed : entries.map StoredEntry.key = keys
  found : ∀ key ∈ keys, ∃ turns, ∀ fuel ≥ turns, ∃ entry,
    hashLookup read hashTable fuel key.parentOffset key.name = ok (some entry) ∧
      entry.key = key
  missing : ∀ parentOffset name,
    (∀ key ∈ keys, ¬(key.parentOffset = parentOffset ∧ key.name = name)) →
    ∃ turns, ∀ fuel ≥ turns, hashLookup read hashTable fuel parentOffset name = ok none
  chains : ∃ chain : ℕ → List StoredEntry,
    (∀ bucket < hashTable.length / 4,
      Chain.Spells read (·.hashSiblingOffset) NO_ENTRY (bucketHead hashTable bucket) (chain bucket)) ∧
    ((List.range (hashTable.length / 4)).flatMap chain).Perm entries
  once : (keys.map (·.entryOffset)).Nodup

/-! ## Table sizes and heads -/

lemma bucketHead_hashTableBytes {table : List UInt32} {bucket : ℕ} {head : UInt32}
    (h : table[bucket]? = some head) : bucketHead (hashTableBytes table) bucket = head := by
  obtain ⟨hlt, rfl⟩ := List.getElem?_eq_some_iff.mp h
  rw [bucketHead, sliceAt, hashTableBytes, Codec.drop_flatMap (fun _ => toLe_length 4 _),
    List.drop_eq_getElem_cons hlt, List.flatMap_cons, List.take_left' (toLe_length 4 _),
    ofLe_toLe_of_lt (UInt32.toNat_lt _), UInt32.ofNat_toNat]

lemma length_hashTableBytes_div (table : List UInt32) :
    (hashTableBytes table).length / 4 = table.length := by
  rw [Tree.hashTableBytes_length, Nat.mul_div_cancel _ (by omega)]

/-! ## Filled tables agree -/

section Agrees
variable {l : List (List Text)} {key : List Text → HashKey} {stored : List Text → StoredEntry}
  {read : UInt32 → Outcome Unit StoredEntry}

lemma generateHashTable_map (l : List (List Text)) (key : List Text → HashKey) :
    generateHashTable (l.map key) =
      Buckets.fill (fun c => (key c).bucket (romfsGetHashTableCount l.length))
        (fun c => (key c).entryOffset) NO_ENTRY (romfsGetHashTableCount l.length) l.length l := by
  rw [generateHashTable, List.length_map, List.zipIdx_map, List.foldl_map]
  rfl

lemma length_generateHashTable (l : List (List Text)) (key : List Text → HashKey) :
    (generateHashTable (l.map key)).1.length = romfsGetHashTableCount l.length := by
  rw [generateHashTable_map]
  exact (Buckets.filled_fill le_rfl fun c _ => Nat.mod_lt _ (hashTableCount_pos _)).heads_length

lemma hashSibling_getElem? {c : List Text} (hc : c ∈ l) (d : UInt32) :
    (generateHashTable (l.map key)).2[l.idxOf c]? =
      some ((generateHashTable (l.map key)).2.getD (l.idxOf c) d) := by
  have hlen : (generateHashTable (l.map key)).2.length = l.length := by
    rw [generateHashTable_map]
    exact (Buckets.filled_fill le_rfl fun c _ => Nat.mod_lt _ (hashTableCount_pos _)).links_length
  have hlt : l.idxOf c < (generateHashTable (l.map key)).2.length :=
    hlen ▸ List.idxOf_lt_length_of_mem hc
  rw [List.getD_eq_getElem _ _ hlt, List.getElem?_eq_getElem hlt]

def bucketOf (l : List (List Text)) (key : List Text → HashKey) (bucket : ℕ) : List (List Text) :=
  (l.filter fun c => (key c).bucket (romfsGetHashTableCount l.length) = bucket).reverse

lemma mem_bucketOf {bucket : ℕ} {c : List Text} :
    c ∈ bucketOf l key bucket ↔
      c ∈ l ∧ (key c).bucket (romfsGetHashTableCount l.length) = bucket := by
  simp [bucketOf]

lemma flatMap_bucketOf_perm (hnodup : l.Nodup) :
    ((List.range (romfsGetHashTableCount l.length)).flatMap (bucketOf l key)).Perm l := by
  refine (List.perm_ext_iff_of_nodup ?_ hnodup).mpr fun c => ?_
  · refine List.nodup_flatMap.mpr ⟨fun b _ => List.nodup_reverse.mpr (hnodup.filter _), ?_⟩
    refine List.nodup_range.imp fun {a b} hne => ?_
    intro c ha hb
    exact hne ((mem_bucketOf.mp ha).2.symm.trans (mem_bucketOf.mp hb).2)
  · simp only [List.mem_flatMap, List.mem_range, mem_bucketOf]
    constructor
    · rintro ⟨b, -, hc, -⟩
      exact hc
    · intro hc
      exact ⟨_, Nat.mod_lt _ (hashTableCount_pos _), hc, rfl⟩

/-- A lookup searches the items of the bucket. -/
theorem hashLookup_eq (hnodup : l.Nodup) (hread : ∀ c ∈ l, read (key c).entryOffset = ok (stored c))
    (hstop : ∀ c ∈ l, (key c).entryOffset ≠ NO_ENTRY)
    (hlink : ∀ c ∈ l, (generateHashTable (l.map key)).2[l.idxOf c]? =
      some (stored c).hashSiblingOffset) :
    (∀ bucket < romfsGetHashTableCount l.length,
      Chain.Spells read (·.hashSiblingOffset) NO_ENTRY
        (bucketHead (hashTableBytes (generateHashTable (l.map key)).1) bucket)
        ((bucketOf l key bucket).map stored)) ∧
    ∀ parentOffset name fuel, l.length < fuel →
      hashLookup read (hashTableBytes (generateHashTable (l.map key)).1) fuel parentOffset name =
        ok (((bucketOf l key ((pathHash parentOffset name).toNat %
          romfsGetHashTableCount l.length)).map stored).find? fun e =>
            e.parentOffset == parentOffset && e.name == name) := by
  rw [generateHashTable_map] at hlink ⊢
  set size := romfsGetHashTableCount l.length with hsize
  have hbucket : ∀ c ∈ l, (key c).bucket size < size := fun c _ =>
    Nat.mod_lt _ (hashTableCount_pos _)
  have hfilled : Buckets.Filled (fun c => (key c).bucket size) (fun c => (key c).entryOffset)
      NO_ENTRY size l.length l _ := Buckets.filled_fill le_rfl hbucket
  have hchain : ∀ b < size, Chain.Spells read (·.hashSiblingOffset) NO_ENTRY
      (bucketHead (hashTableBytes (Buckets.fill (fun c => (key c).bucket size)
        (fun c => (key c).entryOffset) NO_ENTRY size l.length l).1) b)
      ((bucketOf l key b).map stored) := by
    intro b hb
    rw [bucketHead_hashTableBytes (hfilled.heads b hb)]
    exact Buckets.spells_bucket hnodup le_rfl hbucket hread hstop hlink hb (hfilled.heads b hb)
  refine ⟨hchain, fun parentOffset name fuel hfuel => ?_⟩
  have hlen : ((bucketOf l key ((pathHash parentOffset name).toNat % size)).map stored).length <
      fuel := by
    rw [List.length_map, bucketOf, List.length_reverse]
    exact (List.length_filter_le _ _).trans_lt hfuel
  simp only [hashLookup, length_hashTableBytes_div, hfilled.heads_length]
  exact Chain.search_of_spells (hchain _ (Nat.mod_lt _ (hashTableCount_pos _))) hlen

lemma matches_iff {e : StoredEntry} {k : HashKey} (hkey : e.key = k) (parentOffset : UInt32) (name : Bytes) :
    (e.parentOffset == parentOffset && e.name == name) = true ↔
      k.parentOffset = parentOffset ∧ k.name = name := by
  rw [← hkey, Bool.and_eq_true, beq_iff_eq, beq_iff_eq]
  rfl

lemma find?_bucketOf (hkey : ∀ c ∈ l, (stored c).key = key c)
    (hname : ∀ c ∈ l, ∀ d ∈ l, (key c).parentOffset = (key d).parentOffset →
      (key c).name = (key d).name → c = d) {c : List Text} (hc : c ∈ l) :
    ((bucketOf l key ((key c).bucket (romfsGetHashTableCount l.length))).map stored).find?
      (fun e => e.parentOffset == (key c).parentOffset && e.name == (key c).name) = some (stored c) := by
  have hmem : c ∈ bucketOf l key ((key c).bucket (romfsGetHashTableCount l.length)) :=
    mem_bucketOf.mpr ⟨hc, rfl⟩
  cases hfind : ((bucketOf l key ((key c).bucket (romfsGetHashTableCount l.length))).map stored).find?
      (fun e => e.parentOffset == (key c).parentOffset && e.name == (key c).name) with
  | none =>
    exact absurd ((matches_iff (hkey c hc) _ _).mpr ⟨rfl, rfl⟩)
      (List.find?_eq_none.mp hfind _ (List.mem_map_of_mem hmem))
  | some e =>
    obtain ⟨d, hd, rfl⟩ := List.mem_map.mp (List.mem_of_find?_eq_some hfind)
    have hdl := (mem_bucketOf.mp hd).1
    obtain ⟨hparent, hsame⟩ := (matches_iff (hkey d hdl) _ _).mp
      (List.find?_some (p := fun e : StoredEntry =>
        e.parentOffset == (key c).parentOffset && e.name == (key c).name) hfind)
    rw [hname d hdl c hc hparent hsame]

theorem hashAgrees_of_reads (hnodup : l.Nodup) (hkey : ∀ c ∈ l, (stored c).key = key c)
    (hread : ∀ c ∈ l, read (key c).entryOffset = ok (stored c))
    (hstop : ∀ c ∈ l, (key c).entryOffset ≠ NO_ENTRY)
    (hlink : ∀ c ∈ l, (generateHashTable (l.map key)).2[l.idxOf c]? =
      some (stored c).hashSiblingOffset)
    (hname : ∀ c ∈ l, ∀ d ∈ l, (key c).parentOffset = (key d).parentOffset →
      (key c).name = (key d).name → c = d)
    (hoffset : ∀ c ∈ l, ∀ d ∈ l, (key c).entryOffset = (key d).entryOffset → c = d) :
    HashAgrees read (hashTableBytes (generateHashTable (l.map key)).1) (l.map stored)
      (l.map key) := by
  obtain ⟨hchain, hsearch⟩ := hashLookup_eq hnodup hread hstop hlink
  have hcount : (hashTableBytes (generateHashTable (l.map key)).1).length / 4 =
      romfsGetHashTableCount l.length := by
    rw [length_hashTableBytes_div, length_generateHashTable]
  constructor
  case listed =>
    rw [List.map_map]
    exact List.map_congr_left hkey
  case found =>
    intro k hk
    obtain ⟨c, hc, rfl⟩ := List.mem_map.mp hk
    refine ⟨l.length + 1, fun fuel hfuel => ⟨stored c, ?_, hkey c hc⟩⟩
    rw [hsearch _ _ _ (by omega), ← HashKey.bucket, find?_bucketOf hkey hname hc]
  case missing =>
    intro parentOffset name hnone
    refine ⟨l.length + 1, fun fuel hfuel => ?_⟩
    rw [hsearch _ _ _ (by omega), List.find?_eq_none.mpr]
    intro e he hp
    obtain ⟨c, hc, rfl⟩ := List.mem_map.mp he
    have hcl := (mem_bucketOf.mp hc).1
    exact hnone (key c) (List.mem_map_of_mem hcl) ((matches_iff (hkey c hcl) _ _).mp hp)
  case chains =>
    refine ⟨fun b => (bucketOf l key b).map stored, fun b hb => hchain b (hcount ▸ hb), ?_⟩
    rw [hcount, ← List.map_flatMap]
    exact (flatMap_bucketOf_perm hnodup).map stored
  case once =>
    rw [List.map_map]
    exact hnodup.map_on hoffset

end Agrees

/-! ## Entries read back -/

lemma storedAt_at {H : Type} {codec : Codec H} {fields : H → EntryFields} {table pre name post : Bytes}
    {offset : UInt32} {entry : H} (htable : table = pre ++ (codec.enc entry ++ (name ++ post)))
    (hoffset : offset.toNat = pre.length) (hname : (fields entry).nameLen.toNat = name.length) :
    storedAt codec fields table offset =
      ok ⟨offset, (fields entry).parentOffset, (fields entry).hashSiblingOffset, name⟩ := by
  have hentry : codec.fromPrefix (table.drop offset.toNat) = some entry := by
    rw [htable, hoffset, List.drop_left, codec.fromPrefix_append]
  have hslice : sliceAt table (offset.toNat + codec.size) (fields entry).nameLen.toNat = name :=
    sliceAt_eq_of_append (a := pre ++ codec.enc entry) (c := post) (by simp [htable])
      (by simp [hoffset]) hname.symm
  have hle : offset.toNat + codec.size + (fields entry).nameLen.toNat ≤ table.length := by
    simp only [htable, hoffset, hname, List.length_append, Codec.enc_length]
    omega
  rw [storedAt, hentry, okOr_some, ok_bind]
  simp only [ensure_true hle, ok_bind, hslice]
  rfl

lemma scanTable_eq {H : Type} {codec : Codec H} {fields : H → EntryFields} {table : Bytes}
    {l : List (List Text)} {size : List Text → ℕ} {stored : List Text → StoredEntry}
    (hcodec : 0 < codec.size) (hlen : table.length = total size l) (hsmall : table.length < 2 ^ 32)
    (hread : ∀ before c after, l = before ++ c :: after →
      storedAt codec fields table (UInt32.ofNat (total size before)) = ok (stored c))
    (hsize : ∀ c ∈ l, size c = codec.size + alignUp 4 (stored c).name.length)
    {fuel : ℕ} {before after : List (List Text)} (hl : l = before ++ after)
    (hfuel : after.length < fuel) :
    scanTable codec fields table fuel (total size before) = after.map stored := by
  induction after generalizing before fuel with
  | nil =>
    obtain ⟨fuel, rfl⟩ : ∃ k, fuel = k + 1 := ⟨fuel - 1, by omega⟩
    rw [List.append_nil] at hl
    have hend : storedAt codec fields table (UInt32.ofNat (total size before)) = err () := by
      rw [storedAt, ← hl, ← hlen, UInt32.toNat_ofNat_of_lt' hsmall, List.drop_length,
        codec.fromPrefix_eq_none.mpr (by simpa using hcodec)]
      rfl
    rw [scanTable, hend]
    rfl
  | cons c after ih =>
    obtain ⟨fuel, rfl⟩ : ∃ k, fuel = k + 1 := ⟨fuel - 1, by omega⟩
    have hnext : total size before + (codec.size + alignUp 4 (stored c).name.length) =
        total size (before ++ [c]) := by
      simp [total, hsize c (by simp [hl])]
    rw [scanTable, hread before c after hl]
    simp only [hnext, List.map_cons]
    rw [ih (by simpa using hl) (by simpa using hfuel)]

namespace Tree
variable {t : Tree}

lemma lastName_ne_nil {c : List Text} (hc : c ∈ t.dirs) (hne : c ≠ []) : lastName c ≠ [] := by
  refine (t.dir_components c hc (lastName c) ?_).1
  rw [lastName, List.getLastD_eq_getLast?, List.getLast?_eq_some_getLast hne]
  exact List.getLast_mem hne

lemma dir_eq_of_name {c d : List Text} (hc : c ∈ t.dirs) (hd : d ∈ t.dirs)
    (hparent : c.dropLast = d.dropLast) (hname : lastName c = lastName d) : c = d := by
  by_cases hcn : c = [] <;> by_cases hdn : d = []
  · rw [hcn, hdn]
  · subst hcn
    exact absurd hname.symm (lastName_ne_nil hd hdn)
  · subst hdn
    exact absurd hname (lastName_ne_nil hc hcn)
  · rw [← dropLast_append_lastName hcn, ← dropLast_append_lastName hdn, hparent, hname]

lemma path_eq_of_name {p q : List Text} (hp : p ∈ t.paths) (hq : q ∈ t.paths)
    (hparent : p.dropLast = q.dropLast) (hname : lastName p = lastName q) : p = q := by
  rw [← dropLast_append_lastName (t.file_ne_root p hp), ← dropLast_append_lastName
    (t.file_ne_root q hq), hparent, hname]

def storedDir (t : Tree) (c : List Text) : StoredEntry :=
  ⟨t.dirPos c, (t.dirRecord c).parentOffset, (t.dirRecord c).hashSiblingOffset, utf8 (lastName c)⟩

def storedFile (t : Tree) (p : List Text) : StoredEntry :=
  ⟨t.filePos p, (t.fileRecord p).parentOffset, (t.fileRecord p).hashSiblingOffset,
    utf8 (lastName p)⟩

variable {romfs : RomFs} (h : t.Fits) (hs : t.Stores romfs)
include h hs

theorem dirHash_agrees :
    HashAgrees romfs.storedDir romfs.dirHashTable (t.dirs.map t.storedDir) (t.dirs.map t.dirKey) := by
  rw [RomFs.dirHashTable, hs.dirHash]
  refine hashAgrees_of_reads t.dirs_nodup (fun c hc => ?_) (fun c hc => ?_)
    (fun c hc => dirPos_ne_stop h hc) (fun c hc => ?_) (fun c hc d hd hparent hname => ?_)
    fun c hc d hd => dirPos_injOn h hc hd
  · rw [StoredEntry.key, storedDir, dirRecord_parentOffset hc]
    rfl
  · obtain ⟨pre, post, htable, hpre⟩ := dirTable_at h hc
    rw [RomFs.storedDir, hs.dirTable, ok_bind]
    exact storedAt_at htable ((dirPos_toNat h hc).trans hpre.symm) (dirRecord_nameLen h hc)
  · exact hashSibling_getElem? hc 0
  · exact dir_eq_of_name hc hd (dirPos_injOn h (t.parent_mem c hc) (t.parent_mem d hd) hparent)
      (utf8_injective hname)

theorem fileHash_agrees :
    HashAgrees romfs.storedFile romfs.fileHashTable (t.paths.map t.storedFile)
      (t.paths.map t.fileKey) := by
  rw [RomFs.fileHashTable, hs.fileHash]
  refine hashAgrees_of_reads t.paths_nodup (fun p hp => ?_) (fun p hp => ?_)
    (fun p hp => filePos_ne_stop h hp) (fun p hp => ?_) (fun p hp q hq hparent hname => ?_)
    fun p hp q hq => filePos_injOn h hp hq
  · rw [StoredEntry.key, storedFile, fileRecord_parentOffset hp]
    rfl
  · obtain ⟨pre, post, htable, hpre⟩ := fileTable_at h hp
    rw [RomFs.storedFile, hs.fileTable, ok_bind]
    exact storedAt_at htable ((filePos_toNat h hp).trans hpre.symm) (fileRecord_nameLen h hp)
  · exact hashSibling_getElem? hp 0
  · exact path_eq_of_name hp hq (dirPos_injOn h (t.folder_mem p hp) (t.folder_mem q hq) hparent)
      (utf8_injective hname)

theorem scanDirs_eq : romfs.scanDirs = ok (t.dirs.map t.storedDir) := by
  have hlen : t.dirTable.length = total dirSize t.dirs := by
    rw [dirTable_eq h]
    exact length_flatMap_eq _ fun c _ => dirChunk_length c
  have hlt := h.dirs
  have hcount : t.dirs.length ≤ total dirSize t.dirs :=
    length_le_total fun c _ => Nat.add_pos_left (by omega) _
  rw [RomFs.scanDirs, hs.dirTable, ok_bind]
  refine congrArg ok (?_ : scanTable _ _ _ _ (total dirSize []) = _)
  refine scanTable_eq (by decide) hlen (by omega) (fun before c after hl => ?_) (fun c _ => rfl) rfl
    (by omega)
  have hc : c ∈ t.dirs := by simp [hl]
  have hoffset : total dirSize before = t.dirOffset c := by
    rw [dirOffset, hl, offsetOf_append (hl ▸ t.dirs_nodup)]
  obtain ⟨pre, post, htable, hpre⟩ := dirTable_at h hc
  rw [hoffset]
  exact storedAt_at htable ((dirPos_toNat h hc).trans hpre.symm) (dirRecord_nameLen h hc)

theorem scanFiles_eq : romfs.scanFiles = ok (t.paths.map t.storedFile) := by
  have hlen : t.fileTable.length = total fileSize t.paths := by
    rw [fileTable_eq h]
    exact length_flatMap_eq _ fun p _ => fileChunk_length p
  have hlt := h.files
  have hcount : t.paths.length ≤ total fileSize t.paths :=
    length_le_total fun p _ => Nat.add_pos_left (by omega) _
  rw [RomFs.scanFiles, hs.fileTable, ok_bind]
  refine congrArg ok (?_ : scanTable _ _ _ _ (total fileSize []) = _)
  refine scanTable_eq (by decide) hlen (by omega) (fun before p after hl => ?_) (fun p _ => rfl) rfl
    (by omega)
  have hp : p ∈ t.paths := by simp [hl]
  have hoffset : total fileSize before = t.fileOffset p := by
    rw [fileOffset, hl, offsetOf_append (hl ▸ t.paths_nodup)]
  obtain ⟨pre, post, htable, hpre⟩ := fileTable_at h hp
  rw [hoffset]
  exact storedAt_at htable ((filePos_toNat h hp).trans hpre.symm) (fileRecord_nameLen h hp)

end Tree

/-- The hash tables of an image agree with the entries that were laid out for it. -/
theorem hash_build {added : List (Text × Bytes)} {b : RomFsBuilder} (hne : added ≠ [])
    (hadd : RomFsBuilder.addFiles added = ok b) (hfits : b.Fits) :
    ∃ image romfs dirs files, b.build = ok image ∧ RomFs.tryFromBytes image = ok romfs ∧
      romfs.scanDirs = ok dirs ∧ romfs.scanFiles = ok files ∧
      HashAgrees romfs.storedDir romfs.dirHashTable dirs b.layOut.1.dirKeys ∧
      HashAgrees romfs.storedFile romfs.fileHashTable files b.layOut.1.fileKeys := by
  obtain ⟨hacc, t, rfl, hholds⟩ := RomFsBuilder.addFiles_eq_ok hadd
  obtain ⟨hsort, hsize⟩ := t.fits_sort hfits
  have hs := Tree.stores_romfs hsize
  have hfiles : t.files ≠ [] := by
    rw [hholds.files]
    simpa using hne
  refine ⟨t.sort.image, t.sort.romfs, _, _, Tree.build_builder hfiles hsize,
    Tree.tryFromBytes_image hsize, Tree.scanDirs_eq hsort hs, Tree.scanFiles_eq hsort hs, ?_, ?_⟩
  · rw [Tree.layOut_builder, Tree.laidOut_dirKeys]
    exact Tree.dirHash_agrees hsort hs
  · rw [Tree.layOut_builder, Tree.laidOut_fileKeys]
    exact Tree.fileHash_agrees hsort hs

theorem hash_build_nested :
    nestedTree.builder.layOut.1.fileKeys.map (HashKey.bucket · 5) = [2, 2, 0, 1, 1] ∧
    ∃ image romfs dirs files, nestedTree.builder.build = ok image ∧ RomFs.tryFromBytes image = ok romfs ∧
      romfs.scanDirs = ok dirs ∧ romfs.scanFiles = ok files ∧
      HashAgrees romfs.storedDir romfs.dirHashTable dirs nestedTree.builder.layOut.1.dirKeys ∧
      HashAgrees romfs.storedFile romfs.fileHashTable files nestedTree.builder.layOut.1.fileKeys := by
  refine ⟨?_, hash_build (by decide) nestedFiles_added nestedTree_fits⟩
  rw [Tree.layOut_builder, Tree.laidOut_fileKeys, nestedTree_sort]
  decide +kernel

end NxObject.Romfs
