import NxObject.RomFsLayout
import NxObject.RomFsTermination

/-!
# The metadata tables

A metadata table is the entries with their names, one behind the other. Reading at an entry's assigned
offset gives back that entry, and the sibling offsets chain the members of each directory in order.
-/
namespace NxObject.Romfs
open Outcome Placement

/-! ## Writing a table -/

def entryChunk (header name : Bytes) : Bytes :=
  header ++ (name ++ List.replicate (alignUp 4 name.length - name.length) 0)

@[simp] lemma entryChunk_length (header name : Bytes) :
    (entryChunk header name).length = header.length + alignUp 4 name.length := by
  have h := le_alignUp (k := 4) (by omega) name.length
  simp only [entryChunk, List.length_append, List.length_replicate]
  omega

lemma resize_of_le {α : Type} {xs : List α} {n : ℕ} (h : xs.length ≤ n) (a : α) :
    resize xs n a = xs ++ List.replicate (n - xs.length) a := by
  rw [resize, List.take_of_length_le h]

lemma appendEntry_eq {table header name : Bytes} (htable : 4 ∣ table.length)
    (hheader : 4 ∣ header.length)
    (hlt : table.length + (header.length + alignUp 4 name.length) < 2 ^ 32) :
    appendEntry table header name = table ++ entryChunk header name := by
  have hlen : (table ++ header ++ name).length = (table.length + header.length) + name.length := by
    simp [Nat.add_assoc]
  have hup : alignUp 4 (table ++ header ++ name).length =
      table.length + header.length + alignUp 4 name.length := by
    rw [hlen, alignUp_add (by omega) _ (Nat.dvd_add htable hheader)]
  have hle := le_alignUp (k := 4) (by omega) (table ++ header ++ name).length
  have hsmall : alignUp 4 (table ++ header ++ name).length < 2 ^ 32 := by omega
  rw [appendEntry, align32_four, UInt32.toNat_ofNat_of_lt' hsmall, resize_of_le hle, hup, hlen,
    Nat.add_sub_add_left, entryChunk]
  simp only [List.append_assoc]

lemma foldl_appendEntry {α : Type} {l : List α} (header name : α → Bytes)
    (hheader : ∀ a, 4 ∣ (header a).length) {table : Bytes} (htable : 4 ∣ table.length)
    (hlt : table.length + total (fun a => (header a).length + alignUp 4 (name a).length) l < 2 ^ 32) :
    l.foldl (fun table a => appendEntry table (header a) (name a)) table =
      table ++ l.flatMap fun a => entryChunk (header a) (name a) := by
  induction l generalizing table with
  | nil => simp
  | cons a l ih =>
    rw [total, List.map_cons, List.sum_cons, ← total] at hlt
    have hstep : appendEntry table (header a) (name a) = _ :=
      appendEntry_eq htable (hheader a) (by omega)
    have hlen : (table ++ entryChunk (header a) (name a)).length =
        table.length + ((header a).length + alignUp 4 (name a).length) := by simp
    rw [List.foldl_cons, hstep, ih, List.flatMap_cons, List.append_assoc]
    · rw [hlen]
      exact Nat.dvd_add htable (Nat.dvd_add (hheader a) (dvd_alignUp 4 _))
    · rw [hlen]
      omega

/-! ## Reading a table -/

theorem readEntry_at {ε H : Type} {codec : Codec H} {nameLen : H → UInt32} {tooSmall : ℕ → ℕ → ε}
    {table pre post : Bytes} {tableBase : ℕ} {offset : UInt32} {entry : H} {name : Text}
    (htable : table = pre ++ (codec.enc entry ++ (utf8 name ++ post)))
    (hoffset : offset.toNat = pre.length) (hname : (nameLen entry).toNat = (utf8 name).length)
    (hsize : 0 < codec.size) (hbase : tableBase + table.length < 2 ^ 64) :
    readEntry codec nameLen tooSmall table tableBase offset = ok (entry, name) := by
  have hlen : table.length = pre.length + (codec.size + ((utf8 name).length + post.length)) := by
    simp [htable]
  have hbytes : (table.take table.length).drop offset.toNat =
      codec.enc entry ++ (utf8 name ++ post) := by
    rw [List.take_length, htable, hoffset, List.drop_left]
  have hslice : (slice table (offset.toNat + codec.size)
      (offset.toNat + codec.size + (nameLen entry).toNat) : Outcome ε Bytes) = ok (utf8 name) := by
    refine slice_append (a := pre ++ codec.enc entry) (c := post) ?_ ?_ ?_
    · simp [htable]
    · simp [hoffset]
    · simp [hoffset, hname]
  simp only [readEntry, add_of_lt hbase, ok_bind]
  rw [if_neg (by omega), slice_of_le (by omega) le_rfl, ok_bind, hbytes, codec.fromPrefix_append]
  simp only [add_of_lt (show offset.toNat + codec.size < 2 ^ 64 by omega), ok_bind]
  rw [checkedAdd_of_lt (by omega), okOr_some, ok_bind, if_neg (by omega), hslice, ok_bind,
    fromUtf8_utf8]
  rfl

/-! ## Siblings -/

section Siblings
variable {ι : Type} (offset : ι → UInt32)

lemma findSibling_cons_cons (a b : ι) (l : List ι) (o : UInt32) :
    findSibling offset (a :: b :: l) o =
      if offset a == o then offset b else findSibling offset (b :: l) o := by
  rw [findSibling, List.tail_cons, List.zip_cons_cons, List.find?_cons]
  cases offset a == o <;> rfl

lemma findSibling_map {α : Type} {idx : α → ι} {pos : α → UInt32} {l : List α}
    (h : ∀ a ∈ l, offset (idx a) = pos a) (o : UInt32) :
    findSibling offset (l.map idx) o = findSibling pos l o := by
  induction l with
  | nil => rfl
  | cons a l ih =>
    cases l with
    | nil => rfl
    | cons b l =>
      have ih := ih fun c hc => h c (List.mem_cons_of_mem _ hc)
      rw [List.map_cons, List.map_cons, findSibling_cons_cons, findSibling_cons_cons,
        h a List.mem_cons_self, h b (by simp), ← ih, List.map_cons]

lemma findSibling_append {before after : List ι} {a : ι}
    (hnodup : ((before ++ a :: after).map offset).Nodup) :
    findSibling offset (before ++ a :: after) (offset a) = (after.head?.map offset).getD NO_ENTRY := by
  induction before with
  | nil =>
    cases after with
    | nil => rfl
    | cons b after => simp [findSibling_cons_cons]
  | cons b before ih =>
    obtain ⟨hb, hnodup⟩ := List.nodup_cons.mp hnodup
    have hne : (offset b == offset a) = false := by
      rw [beq_eq_false_iff_ne]
      intro heq
      exact hb (List.mem_map.mpr ⟨a, by simp, heq.symm⟩)
    have ih := ih hnodup
    cases before with
    | nil =>
      rw [List.nil_append] at ih
      rw [List.cons_append, List.nil_append, findSibling_cons_cons, hne, if_neg (by decide), ih]
    | cons c before =>
      rw [List.cons_append] at ih
      rw [List.cons_append, List.cons_append, findSibling_cons_cons, hne, if_neg (by decide), ih]

end Siblings

/-! ## The tables of a tree -/

namespace Tree
variable (t : Tree)

/-- The metadata tables stay below `2^32 - 1` bytes, so that every offset in them is a 32-bit number
other than `NO_ENTRY`. -/
structure Fits : Prop where
  dirs : total dirSize t.dirs < 2 ^ 32 - 1
  files : total fileSize t.paths < 2 ^ 32 - 1

def dirRecord (c : List Text) : RomFsDirEntry :=
  t.laidOut.dirRecord (t.placedDir c) (t.dirs.idxOf c)

def fileRecord (p : List Text) : RomFsFileEntry :=
  t.laidOut.fileRecord (t.placedFile p) (t.paths.idxOf p)

def dirChunk (c : List Text) : Bytes :=
  entryChunk (RomFsDirEntry.codec.enc (t.dirRecord c)) (utf8 (lastName c))

def fileChunk (p : List Text) : Bytes :=
  entryChunk (RomFsFileEntry.codec.enc (t.fileRecord p)) (utf8 (lastName p))

def dirTable : Bytes := t.laidOut.buildDirTable

def fileTable : Bytes := t.laidOut.buildFileTable

variable {t}

lemma dirChunk_length (c : List Text) : (t.dirChunk c).length = dirSize c := by
  rw [dirChunk, entryChunk_length, Codec.enc_length]
  rfl

lemma fileChunk_length (p : List Text) : (t.fileChunk p).length = fileSize p := by
  rw [fileChunk, entryChunk_length, Codec.enc_length]
  rfl

theorem dirTable_eq (h : t.Fits) : t.dirTable = t.dirs.flatMap t.dirChunk := by
  have hlt := h.dirs
  rw [dirTable, RomFsBuilder.buildDirTable]
  change (t.dirs.map t.placedDir).zipIdx.foldl _ _ = _
  rw [List.zipIdx_map, zipIdx_eq_map_idxOf t.dirs_nodup, List.map_map, List.foldl_map]
  refine (foldl_appendEntry (fun c => RomFsDirEntry.codec.enc (t.dirRecord c))
    (fun c => utf8 (lastName c)) (fun c => ?_) (by simp) ?_).trans (List.nil_append _)
  · rw [Codec.enc_length]
    decide
  · simp only [Codec.enc_length]
    change 0 + total dirSize t.dirs < 2 ^ 32
    omega

theorem fileTable_eq (h : t.Fits) : t.fileTable = t.paths.flatMap t.fileChunk := by
  have hlt := h.files
  rw [fileTable, RomFsBuilder.buildFileTable]
  change (t.paths.map t.placedFile).zipIdx.foldl _ _ = _
  rw [List.zipIdx_map, zipIdx_eq_map_idxOf t.paths_nodup, List.map_map, List.foldl_map]
  refine (foldl_appendEntry (fun p => RomFsFileEntry.codec.enc (t.fileRecord p))
    (fun p => utf8 (lastName p)) (fun p => ?_) (by simp) ?_).trans (List.nil_append _)
  · rw [Codec.enc_length]
    decide
  · simp only [Codec.enc_length]
    change 0 + total fileSize t.paths < 2 ^ 32
    omega

/-! ## Offsets that do not wrap around -/

section Positions
variable (h : t.Fits)
include h

lemma dirOffset_lt {c : List Text} (hc : c ∈ t.dirs) :
    t.dirOffset c + dirSize c < 2 ^ 32 - 1 :=
  (offsetOf_add_le hc).trans_lt h.dirs

lemma fileOffset_lt {p : List Text} (hp : p ∈ t.paths) :
    t.fileOffset p + fileSize p < 2 ^ 32 - 1 :=
  (offsetOf_add_le hp).trans_lt h.files

lemma dirPos_toNat {c : List Text} (hc : c ∈ t.dirs) : (t.dirPos c).toNat = t.dirOffset c := by
  have hlt := dirOffset_lt h hc
  exact UInt32.toNat_ofNat_of_lt' (show t.dirOffset c < 2 ^ 32 by omega)

lemma filePos_toNat {p : List Text} (hp : p ∈ t.paths) : (t.filePos p).toNat = t.fileOffset p := by
  have hlt := fileOffset_lt h hp
  exact UInt32.toNat_ofNat_of_lt' (show t.fileOffset p < 2 ^ 32 by omega)

lemma dirPos_ne_stop {c : List Text} (hc : c ∈ t.dirs) : t.dirPos c ≠ NO_ENTRY := by
  have hlt := dirOffset_lt h hc
  intro heq
  have hnat := dirPos_toNat h hc
  rw [heq] at hnat
  change 2 ^ 32 - 1 = _ at hnat
  omega

lemma filePos_ne_stop {p : List Text} (hp : p ∈ t.paths) : t.filePos p ≠ NO_ENTRY := by
  have hlt := fileOffset_lt h hp
  intro heq
  have hnat := filePos_toNat h hp
  rw [heq] at hnat
  change 2 ^ 32 - 1 = _ at hnat
  omega

lemma dirPos_injOn {c d : List Text} (hc : c ∈ t.dirs) (hd : d ∈ t.dirs)
    (heq : t.dirPos c = t.dirPos d) : c = d := by
  refine offsetOf_injOn (fun c _ => (Nat.add_pos_left (by omega) _ : 0 < dirSize c)) hc hd ?_
  change t.dirOffset c = t.dirOffset d
  rw [← dirPos_toNat h hc, ← dirPos_toNat h hd, heq]

lemma filePos_injOn {p q : List Text} (hp : p ∈ t.paths) (hq : q ∈ t.paths)
    (heq : t.filePos p = t.filePos q) : p = q := by
  refine offsetOf_injOn (fun p _ => (Nat.add_pos_left (by omega) _ : 0 < fileSize p)) hp hq ?_
  change t.fileOffset p = t.fileOffset q
  rw [← filePos_toNat h hp, ← filePos_toNat h hq, heq]

lemma dirRecord_nameLen {c : List Text} (hc : c ∈ t.dirs) :
    (t.dirRecord c).nameLen.toNat = (utf8 (lastName c)).length := by
  have hlt := dirOffset_lt h hc
  have hle := le_alignUp (k := 4) (by omega) (utf8 (lastName c)).length
  rw [dirSize] at hlt
  exact UInt32.toNat_ofNat_of_lt' (show (utf8 (lastName c)).length < 2 ^ 32 by omega)

lemma fileRecord_nameLen {p : List Text} (hp : p ∈ t.paths) :
    (t.fileRecord p).nameLen.toNat = (utf8 (lastName p)).length := by
  have hlt := fileOffset_lt h hp
  have hle := le_alignUp (k := 4) (by omega) (utf8 (lastName p)).length
  rw [fileSize] at hlt
  exact UInt32.toNat_ofNat_of_lt' (show (utf8 (lastName p)).length < 2 ^ 32 by omega)

end Positions

/-! ## What the records point to -/

lemma dirRecord_childOffset {c : List Text} :
    (t.dirRecord c).childOffset = ((t.children c).head?.map t.dirPos).getD NO_ENTRY := by
  change (((t.children c).map t.dirs.idxOf).head?.map _).getD NO_ENTRY = _
  rw [List.head?_map, Option.map_map]
  cases hhead : (t.children c).head? with
  | none => rfl
  | some d =>
    have hd := (mem_children.mp (List.mem_of_mem_head? hhead)).1
    simp [dir_laidOut hd, placedDir]

lemma dirRecord_fileOffset {c : List Text} :
    (t.dirRecord c).fileOffset = ((t.filesIn c).head?.map t.filePos).getD NO_ENTRY := by
  change (((t.filesIn c).map t.paths.idxOf).head?.map _).getD NO_ENTRY = _
  rw [List.head?_map, Option.map_map]
  cases hhead : (t.filesIn c).head? with
  | none => rfl
  | some p =>
    have hp := (mem_filesIn.mp (List.mem_of_mem_head? hhead)).1
    simp [file_laidOut hp, placedFile]

lemma dirRecord_parentOffset {c : List Text} (hc : c ∈ t.dirs) :
    (t.dirRecord c).parentOffset = t.dirPos c.dropLast := by
  change (t.laidOut.dir (t.dirs.idxOf c.dropLast)).entryOffset = _
  rw [dir_laidOut (t.parent_mem c hc), placedDir]

lemma fileRecord_parentOffset {p : List Text} (hp : p ∈ t.paths) :
    (t.fileRecord p).parentOffset = t.dirPos p.dropLast := by
  change (t.laidOut.dir (t.dirs.idxOf p.dropLast)).entryOffset = _
  rw [dir_laidOut (t.folder_mem p hp), placedDir]

lemma dirRecord_siblingOffset {c : List Text} (hc : c ∈ t.dirs) :
    (t.dirRecord c).siblingOffset = findSibling t.dirPos (t.children c.dropLast) (t.dirPos c) := by
  change findSibling (fun idx => (t.laidOut.dir idx).entryOffset)
    (t.laidOut.dir (t.dirs.idxOf c.dropLast)).children (t.dirPos c) = _
  rw [dir_laidOut (t.parent_mem c hc)]
  refine findSibling_map _ (fun d hd => ?_) _
  rw [dir_laidOut (mem_children.mp hd).1, placedDir]

lemma fileRecord_siblingOffset {p : List Text} (hp : p ∈ t.paths) :
    (t.fileRecord p).siblingOffset = findSibling t.filePos (t.filesIn p.dropLast) (t.filePos p) := by
  change findSibling (fun idx => (t.laidOut.file idx).entryOffset)
    (t.laidOut.dir (t.dirs.idxOf p.dropLast)).files (t.filePos p) = _
  rw [dir_laidOut (t.folder_mem p hp)]
  refine findSibling_map _ (fun q hq => ?_) _
  rw [file_laidOut (mem_filesIn.mp hq).1, placedFile]

theorem dirRecord_next (h : t.Fits) {c d : List Text} {before after : List (List Text)}
    (hsplit : t.children c = before ++ d :: after) :
    (t.dirRecord d).siblingOffset = (after.head?.map t.dirPos).getD NO_ENTRY := by
  have hmem : ∀ e ∈ t.children c, e ∈ t.dirs := fun e he => (mem_children.mp he).1
  have hd : d ∈ t.children c := by simp [hsplit]
  have hnodup : ((t.children c).map t.dirPos).Nodup :=
    (t.dirs_nodup.filter _).map_on fun x hx y hy => dirPos_injOn h (hmem x hx) (hmem y hy)
  rw [dirRecord_siblingOffset (hmem d hd), (mem_children.mp hd).2.2, hsplit]
  exact findSibling_append t.dirPos (hsplit ▸ hnodup)

theorem fileRecord_next (h : t.Fits) {c p : List Text} {before after : List (List Text)}
    (hsplit : t.filesIn c = before ++ p :: after) :
    (t.fileRecord p).siblingOffset = (after.head?.map t.filePos).getD NO_ENTRY := by
  have hmem : ∀ q ∈ t.filesIn c, q ∈ t.paths := fun q hq => (mem_filesIn.mp hq).1
  have hp : p ∈ t.filesIn c := by simp [hsplit]
  have hnodup : ((t.filesIn c).map t.filePos).Nodup :=
    (t.paths_nodup.filter _).map_on fun x hx y hy => filePos_injOn h (hmem x hx) (hmem y hy)
  rw [fileRecord_siblingOffset (hmem p hp), (mem_filesIn.mp hp).2, hsplit]
  exact findSibling_append t.filePos (hsplit ▸ hnodup)

end Tree
end NxObject.Romfs
