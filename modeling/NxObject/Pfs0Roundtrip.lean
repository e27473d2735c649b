import NxObject.Placement
import NxObject.Pfs0Reading

/-!
# Reading back a built PFS0

The loop of the builder fills three regions of the buffer from the front, each at its own cursor. What it
leaves behind is the archive the reader takes apart again, file by file.
-/
namespace NxObject.Pfs
open Outcome

variable {ε : Type}

/-! ## The regions -/

def nameTable (files : List FileEntry) : Bytes := files.flatMap fun f => utf8 f.name ++ [0]

def contents (files : List FileEntry) : Bytes := files.flatMap FileEntry.data

/-- The entries of files whose names and data begin at the given offsets. -/
def records : ℕ → ℕ → List FileEntry → List Pfs0FileEntry
  | _, _, [] => []
  | stringOffset, dataOffset, f :: files =>
    ⟨UInt64.ofNat dataOffset, UInt64.ofNat f.data.length, UInt32.ofNat stringOffset, 0⟩ ::
      records (stringOffset + ((utf8 f.name).length + 1)) (dataOffset + f.data.length) files

def stringTableSize (files : List FileEntry) : ℕ := Placement.alignUp 0x20 (nameTable files).length

def archive (files : List FileEntry) : Pfs0 where
  header :=
    { magic := PFS0_MAGIC
      fileCount := UInt32.ofNat files.length
      stringTableSize := UInt32.ofNat (stringTableSize files)
      reserved := 0 }
  entries := records 0 0 files
  stringTable := nameTable files ++ List.replicate (stringTableSize files - (nameTable files).length) 0
  data := contents files

lemma records_length (stringOffset dataOffset : ℕ) (files : List FileEntry) :
    (records stringOffset dataOffset files).length = files.length := by
  induction files generalizing stringOffset dataOffset with
  | nil => rfl
  | cons f files ih => rw [records, List.length_cons, ih, List.length_cons]

lemma nameTable_length (files : List FileEntry) :
    (nameTable files).length = (files.map fun f => (utf8 f.name).length + 1).sum := by
  rw [nameTable, List.length_flatMap]
  simp

lemma contents_length (files : List FileEntry) :
    (contents files).length = (files.map fun f => f.data.length).sum := by
  rw [contents, List.length_flatMap]

lemma le_stringTableSize (files : List FileEntry) : (nameTable files).length ≤ stringTableSize files :=
  Placement.le_alignUp (by decide) _

lemma archive_stringTable_length (files : List FileEntry) :
    (archive files).stringTable.length = stringTableSize files := by
  have hle := le_stringTableSize files
  change (nameTable files ++ List.replicate _ 0).length = _
  rw [List.length_append, List.length_replicate]
  omega

/-! ## The loop -/

/-- A buffer whose regions are filled up to the zeroes that follow. -/
def filled (header entries : Bytes) (e : ℕ) (names : Bytes) (n : ℕ) (data : Bytes) (d : ℕ) : Bytes :=
  header ++ (entries ++ (List.replicate e 0 ++ (names ++ (List.replicate n 0 ++
    (data ++ (List.replicate d 0 ++ []))))))

section Loop
variable {header : Bytes} (hheader : header.length = 0x10)
include hheader

lemma writeFile_filled {entries names data : Bytes} {e n d k : ℕ} {f : FileEntry}
    (hentries : entries.length = k * 0x18) (he : 0x18 ≤ e) (hn : (utf8 f.name).length + 1 ≤ n)
    (hd : f.data.length ≤ d) (hnames : names.length + ((utf8 f.name).length + 1) < 2 ^ 32)
    (hdata : data.length + f.data.length < 2 ^ 64) :
    (writeFile (0x10 + (entries.length + e)) (0x10 + (entries.length + e) + (names.length + n))
        (filled header entries e names n data d, names.length, data.length) (f, k) : Outcome ε _) =
      ok (filled header
          (entries ++ Pfs0FileEntry.codec.enc
            ⟨UInt64.ofNat data.length, UInt64.ofNat f.data.length, UInt32.ofNat names.length, 0⟩)
          (e - 0x18) (names ++ (utf8 f.name ++ [0])) (n - ((utf8 f.name).length + 1))
          (data ++ f.data) (d - f.data.length),
        names.length + ((utf8 f.name).length + 1), data.length + f.data.length) := by
  obtain ⟨e, rfl⟩ := Nat.exists_eq_add_of_le he
  obtain ⟨n, rfl⟩ := Nat.exists_eq_add_of_le hn
  obtain ⟨d, rfl⟩ := Nat.exists_eq_add_of_le hd
  set record := Pfs0FileEntry.codec.enc
    ⟨UInt64.ofNat data.length, UInt64.ofNat f.data.length, UInt32.ofNat names.length, 0⟩ with hrecord
  have hsize : record.length = 0x18 := Codec.enc_length _ _
  have hzero : List.replicate (1 + n) (0 : UInt8) = [0] ++ List.replicate n 0 := by
    rw [List.replicate_add]
    rfl
  -- the entry
  have hfirst := copyFromSlice_fill (ε := ε) header entries
    (names ++ (List.replicate ((utf8 f.name).length + 1 + n) 0 ++
      (data ++ (List.replicate (f.data.length + d) 0 ++ [])))) record
    (show 0x10 + k * 0x18 = header.length + entries.length by omega)
    (show record.length ≤ 0x18 + e by omega)
  rw [hsize, Nat.add_sub_cancel_left] at hfirst
  -- the name
  have hsecond := copyFromSlice_fill (ε := ε)
    (header ++ (entries ++ record ++ List.replicate e 0)) names
    (data ++ (List.replicate (f.data.length + d) 0 ++ [])) (utf8 f.name)
    (show 0x10 + (entries.length + (0x18 + e)) + names.length = _ by
      simp only [List.length_append, List.length_replicate, hheader, hsize]
      omega)
    (show (utf8 f.name).length ≤ (utf8 f.name).length + 1 + n by omega)
  rw [show (utf8 f.name).length + 1 + n - (utf8 f.name).length = 1 + n by omega, hzero] at hsecond
  -- the data
  have hthird := copyFromSlice_fill (ε := ε)
    (header ++ (entries ++ record ++ List.replicate e 0) ++
      (names ++ (utf8 f.name ++ [0]) ++ List.replicate n 0)) data [] f.data
    (show 0x10 + (entries.length + (0x18 + e)) +
        (names.length + ((utf8 f.name).length + 1 + n)) + data.length = _ by
      simp only [List.length_append, List.length_replicate, List.length_singleton, hheader, hsize]
      omega)
    (show f.data.length ≤ f.data.length + d by omega)
  rw [Nat.add_sub_cancel_left] at hthird
  have hmod : ((utf8 f.name).length + 1) % 2 ^ 32 = (utf8 f.name).length + 1 :=
    Nat.mod_eq_of_lt (by omega)
  simp only [List.append_assoc] at hfirst hsecond hthird
  simp only [writeFile, filled, ← hrecord, hfirst, hsecond, hthird, hmod, ok_bind, add32_of_lt hnames,
    add_of_lt hdata, pure_eq, Nat.add_sub_cancel_left, List.append_assoc]

lemma writeFiles_filled (files : List FileEntry) {entries names data : Bytes} {n k : ℕ}
    {fileTableEnd dataStart : ℕ} (hentries : entries.length = k * 0x18)
    (hend : fileTableEnd = 0x10 + (entries.length + files.length * 0x18))
    (hstart : dataStart = fileTableEnd + (names.length + ((nameTable files).length + n)))
    (hnames : names.length + (nameTable files).length < 2 ^ 32)
    (hdata : data.length + (contents files).length < 2 ^ 64) :
    ((files.zipIdx k).foldlM (writeFile fileTableEnd dataStart)
        (filled header entries (files.length * 0x18) names ((nameTable files).length + n) data
          (contents files).length, names.length, data.length) : Outcome ε _) =
      ok (filled header
          (entries ++ (records names.length data.length files).flatMap Pfs0FileEntry.codec.enc) 0
          (names ++ nameTable files) n (data ++ contents files) 0,
        (names ++ nameTable files).length, (data ++ contents files).length) := by
  induction files generalizing entries names data k with
  | nil => simp [records, nameTable, contents]
  | cons f files ih =>
    have hname : nameTable (f :: files) = utf8 f.name ++ [0] ++ nameTable files := List.flatMap_cons
    have hcontents : contents (f :: files) = f.data ++ contents files := List.flatMap_cons
    have hnameLen : (nameTable (f :: files)).length =
        (utf8 f.name).length + 1 + (nameTable files).length := by
      rw [hname, List.length_append, List.length_append, List.length_singleton]
    have hcontentsLen : (contents (f :: files)).length = f.data.length + (contents files).length := by
      rw [hcontents, List.length_append]
    rw [hnameLen] at hstart hnames ⊢
    rw [hcontentsLen] at hdata ⊢
    rw [List.length_cons] at hend ⊢
    have hroom : 0x18 ≤ (files.length + 1) * 0x18 := by omega
    have hnameRoom : (utf8 f.name).length + 1 ≤
        (utf8 f.name).length + 1 + (nameTable files).length + n := by omega
    have hdataRoom : f.data.length ≤ f.data.length + (contents files).length := by omega
    have hnameFits : names.length + ((utf8 f.name).length + 1) < 2 ^ 32 := by omega
    have hdataFits : data.length + f.data.length < 2 ^ 64 := by omega
    have hstep := writeFile_filled (ε := ε) hheader hentries hroom hnameRoom hdataRoom hnameFits
      hdataFits
    have hnext : names.length + ((utf8 f.name).length + 1) =
        (names ++ (utf8 f.name ++ [0])).length := by
      rw [List.length_append, List.length_append, List.length_singleton]
    have hnextData : data.length + f.data.length = (data ++ f.data).length := by
      rw [List.length_append]
    rw [← hend, ← hstart, show (files.length + 1) * 0x18 - 0x18 = files.length * 0x18 by omega,
      show (utf8 f.name).length + 1 + (nameTable files).length + n - ((utf8 f.name).length + 1) =
        (nameTable files).length + n by omega, Nat.add_sub_cancel_left, hnext, hnextData] at hstep
    rw [List.zipIdx_cons, List.foldlM_cons, hstep, ok_bind, ih, records, hname, hcontents, hnext,
      hnextData, List.flatMap_cons]
    · simp only [List.append_assoc]
    · rw [List.length_append, hentries, Codec.enc_length, Pfs0FileEntry.codec_size]
      omega
    · rw [List.length_append, Codec.enc_length, Pfs0FileEntry.codec_size]
      omega
    · omega
    · omega
    · omega

end Loop

/-! ## The archive -/

lemma alignUp_eq {v : ℕ} (h : v + 31 < 2 ^ 64) : alignUp v 0x20 = Placement.alignUp 0x20 v :=
  Placement.and_two_pow_sub (w := 64) (k := 5) (by decide) h

def Pfs0Builder.sorted (b : Pfs0Builder) : List FileEntry :=
  b.files.mergeSort fun f g => textLe f.name g.name

def archiveSize (files : List FileEntry) : ℕ :=
  0x10 + files.length * 0x18 + stringTableSize files + (contents files).length

lemma archive_toBytes_length (files : List FileEntry) :
    (archive files).toBytes.length = archiveSize files := by
  have htable := archive_stringTable_length files
  rw [Pfs0.toBytes, List.length_append, List.length_append, List.length_append, htable,
    Codec.length_flatMap (Codec.enc_length _), Codec.enc_length]
  change 0x10 + ((records 0 0 files).length * 0x18 + (_ + (contents files).length)) = _
  rw [records_length, archiveSize]
  omega

lemma stringTableSize_perm {files files' : List FileEntry} (h : files.Perm files') :
    stringTableSize files = stringTableSize files' := by
  rw [stringTableSize, stringTableSize, nameTable_length, nameTable_length,
    (h.map fun f => (utf8 f.name).length + 1).sum_eq]

lemma archiveSize_perm {files files' : List FileEntry} (h : files.Perm files') :
    archiveSize files = archiveSize files' := by
  rw [archiveSize, archiveSize, stringTableSize_perm h, contents_length, contents_length,
    (h.map fun f => f.data.length).sum_eq, h.length_eq]

lemma copyFromSlice_header {header : Bytes} (hheader : header.length = 0x10) (files : List FileEntry) :
    (copyFromSlice (List.replicate (archiveSize files) 0) 0 header : Outcome ε _) =
      ok (filled header [] (files.length * 0x18) [] (stringTableSize files) [] (contents files).length) := by
  have hfill := copyFromSlice_fill (ε := ε) [] [] [] header (n := archiveSize files) rfl
    (by rw [hheader, archiveSize]; omega)
  have hrest : archiveSize files - header.length =
      files.length * 0x18 + (stringTableSize files + (contents files).length) := by
    rw [hheader, archiveSize]
    omega
  rw [hrest, List.replicate_add, List.replicate_add] at hfill
  simp only [List.append_nil, List.nil_append] at hfill
  rw [filled]
  simp only [List.nil_append, List.append_nil]
  exact hfill

theorem build_eq {b : Pfs0Builder} (hcount : b.files.length < 2 ^ 32)
    (hnames : stringTableSize b.files < 2 ^ 32) (hsize : archiveSize b.files < 2 ^ 63) :
    (b.build : Outcome ε _) = ok (archive b.sorted).toBytes := by
  have hperm : b.sorted.Perm b.files := List.mergeSort_perm _ _
  rw [← hperm.length_eq] at hcount
  rw [← stringTableSize_perm hperm] at hnames
  rw [← archiveSize_perm hperm] at hsize
  generalize hfiles : b.sorted = files at hcount hnames hsize
  have hsorted : (b.files.mergeSort fun f g => textLe f.name g.name) = files := hfiles
  have hle := le_stringTableSize files
  have hcountNat : (UInt32.ofNat files.length).toNat = files.length := UInt32.toNat_ofNat_of_lt' hcount
  have htable : alignUp (files.map fun f => (utf8 f.name).length + 1).sum 0x20 =
      stringTableSize files := by
    rw [← nameTable_length, alignUp_eq (by omega)]
    rfl
  have htotal : 0x10 + files.length * 0x18 + stringTableSize files + (contents files).length =
      archiveSize files := rfl
  obtain ⟨pad, hpad⟩ := Nat.exists_eq_add_of_le hle
  obtain ⟨header, hheader⟩ : ∃ header, Pfs0Header.codec.enc
      ⟨PFS0_MAGIC, UInt32.ofNat files.length, UInt32.ofNat (stringTableSize files), 0⟩ = header :=
    ⟨_, rfl⟩
  have hheaderLen : header.length = 0x10 := by rw [← hheader, Codec.enc_length, Pfs0Header.codec_size]
  have hwrite := copyFromSlice_header (ε := ε) hheaderLen files
  rw [hpad] at hwrite
  have hentries : ([] : Bytes).length = 0 * 0x18 := rfl
  have hend : 0x10 + files.length * 0x18 = 0x10 + (([] : Bytes).length + files.length * 0x18) := by
    rw [List.length_nil, Nat.zero_add]
  have hstart : 0x10 + files.length * 0x18 + stringTableSize files = 0x10 + files.length * 0x18 +
      (([] : Bytes).length + ((nameTable files).length + pad)) := by
    rw [List.length_nil, Nat.zero_add, hpad]
  have hnameLen : ([] : Bytes).length + (nameTable files).length < 2 ^ 32 := by
    rw [List.length_nil]
    omega
  have hdataLen : ([] : Bytes).length + (contents files).length < 2 ^ 64 := by
    rw [List.length_nil]
    omega
  have hloop := writeFiles_filled (ε := ε) hheaderLen files hentries hend hstart hnameLen hdataLen
  have himage : filled header ((records 0 0 files).flatMap Pfs0FileEntry.codec.enc) 0 (nameTable files)
      pad (contents files) 0 = (archive files).toBytes := by
    have hpad' : stringTableSize files - (nameTable files).length = pad := by omega
    simp only [filled, Pfs0.toBytes, archive, hheader, hpad', List.replicate_zero, List.nil_append,
      List.append_nil, List.append_assoc]
  simp only [List.length_nil, List.nil_append] at hloop
  rw [himage] at hloop
  simp only [Pfs0Builder.build, hsorted, hcountNat, htable, ← contents_length, htotal,
    zeroed_of_lt hsize, hheader, hwrite, hloop, ok_bind, pure_eq]

/-! ## Reading back -/

def FileEntry.toFile (f : FileEntry) : Pfs0File := ⟨f.name, f.data⟩

def ValidName (name : Text) : Prop := name ≠ [] ∧ '\x00' ∉ name ∧ '/' ∉ name ∧ '\\' ∉ name

lemma record_inside {pfs : Pfs0} {f : FileEntry} (hvalid : ValidName f.name) {names data post rest : Bytes}
    (htable : pfs.stringTable = names ++ (utf8 f.name ++ 0 :: post)) (hdata : pfs.data = data ++ (f.data ++ rest))
    (hnamesLt : pfs.stringTable.length < 2 ^ 32) (hdataLt : pfs.data.length < 2 ^ 64) :
    pfs.Inside ⟨UInt64.ofNat data.length, UInt64.ofNat f.data.length, UInt32.ofNat names.length, 0⟩ ∧
      pfs.view ⟨UInt64.ofNat data.length, UInt64.ofNat f.data.length, UInt32.ofNat names.length, 0⟩ =
        f.toFile := by
  have htableLen := congrArg List.length htable
  have hdataLen := congrArg List.length hdata
  simp only [List.length_append, List.length_cons] at htableLen hdataLen
  have hoffset : (UInt64.ofNat data.length).toNat = data.length :=
    UInt64.toNat_ofNat_of_lt' (lt_of_le_of_lt (by omega) hdataLt)
  have hsize : (UInt64.ofNat f.data.length).toNat = f.data.length :=
    UInt64.toNat_ofNat_of_lt' (lt_of_le_of_lt (by omega) hdataLt)
  have hname : (UInt32.ofNat names.length).toNat = names.length :=
    UInt32.toNat_ofNat_of_lt' (lt_of_le_of_lt (by omega) hnamesLt)
  have hdrop : pfs.stringTable.drop names.length = utf8 f.name ++ 0 :: post := by
    rw [htable, List.drop_left]
  refine ⟨⟨?_, ?_, ?_, ?_⟩, ?_⟩
  · rw [hoffset, hsize]
    omega
  · rw [hoffset, hsize]
    omega
  · rw [hname]
    omega
  · rw [hname, hdrop]
    simp
  · have hraw : pfs.rawName ⟨UInt64.ofNat data.length, UInt64.ofNat f.data.length,
        UInt32.ofNat names.length, 0⟩ = utf8 f.name := by
      have hnonzero : ∀ byte ∈ utf8 f.name, (!(byte == 0)) = true := by
        intro byte hbyte
        have hne : byte ≠ 0 := fun h => zero_notMem_utf8 hvalid.2.1 (h ▸ hbyte)
        simpa using hne
      rw [Pfs0.rawName, hname, hdrop, List.takeWhile_append_of_pos hnonzero]
      simp
    rw [Pfs0.view, hraw, fromUtf8_utf8, hoffset, hsize, FileEntry.toFile, sliceAt_eq_of_append hdata rfl rfl]
    rfl

lemma records_inside {pfs : Pfs0} (files : List FileEntry) (hvalid : ∀ f ∈ files, ValidName f.name)
    {names data post : Bytes} (hnames : pfs.stringTable = names ++ (nameTable files ++ post))
    (hdata : pfs.data = data ++ contents files) (hnamesLt : pfs.stringTable.length < 2 ^ 32)
    (hdataLt : pfs.data.length < 2 ^ 64) :
    (∀ entry ∈ records names.length data.length files, pfs.Inside entry) ∧
      (records names.length data.length files).map pfs.view = files.map FileEntry.toFile := by
  induction files generalizing names data with
  | nil => exact ⟨nofun, rfl⟩
  | cons f files ih =>
    obtain ⟨hf, hfiles⟩ := List.forall_mem_cons.mp hvalid
    have htable : pfs.stringTable = names ++ (utf8 f.name ++ 0 :: (nameTable files ++ post)) := by
      rw [hnames, nameTable, List.flatMap_cons]
      simp [nameTable]
    have hcontents : pfs.data = data ++ (f.data ++ contents files) := by
      rw [hdata, contents, List.flatMap_cons]
      rfl
    have hnamesNext : pfs.stringTable = names ++ (utf8 f.name ++ [0]) ++ (nameTable files ++ post) := by
      rw [htable]
      simp
    have hdataNext : pfs.data = data ++ f.data ++ contents files := by
      rw [hcontents, List.append_assoc]
    obtain ⟨hinside, hview⟩ := record_inside hf htable hcontents hnamesLt hdataLt
    obtain ⟨hinsides, hviews⟩ := ih hfiles hnamesNext hdataNext
    rw [List.length_append, List.length_append, List.length_append, List.length_singleton]
      at hinsides hviews
    rw [records, List.forall_mem_cons, List.map_cons, List.map_cons, hview, hviews]
    exact ⟨⟨hinside, hinsides⟩, rfl⟩

lemma archive_valid {files : List FileEntry} (hvalid : ∀ f ∈ files, ValidName f.name)
    (hcount : files.length < 2 ^ 32) (hnames : stringTableSize files < 2 ^ 32)
    (hsize : archiveSize files < 2 ^ 63) :
    (archive files).Valid ∧ (archive files).entries.map (archive files).view =
      files.map FileEntry.toFile := by
  have htable := archive_stringTable_length files
  have htotal : 0x10 + files.length * 0x18 + stringTableSize files + (contents files).length =
      archiveSize files := rfl
  have hdata : (archive files).data = [] ++ contents files := rfl
  have hstring : (archive files).stringTable = [] ++ (nameTable files ++
      List.replicate (stringTableSize files - (nameTable files).length) 0) := rfl
  have hdataLt : (archive files).data.length < 2 ^ 64 := by
    change (contents files).length < _
    omega
  obtain ⟨hinside, hviews⟩ := records_inside files hvalid hstring hdata (by rw [htable]; exact hnames)
    hdataLt
  refine ⟨⟨rfl, ?_, ?_, hinside⟩, hviews⟩
  · exact (records_length 0 0 files).trans (UInt32.toNat_ofNat_of_lt' hcount).symm
  · exact htable.trans (UInt32.toNat_ofNat_of_lt' hnames).symm

/-! ## The files that are added -/

lemma addFile_eq_ok {b b' : Pfs0Builder} {f : FileEntry} :
    b.addFile f.name f.data = ok b' ↔
      ValidName f.name ∧ f.name ∉ b.files.map FileEntry.name ∧ b' = ⟨b.files ++ [f]⟩ := by
  have hany : (b.files.any fun g => g.name = f.name) = true ↔ f.name ∈ b.files.map FileEntry.name := by
    rw [List.any_eq_true, List.mem_map]
    simp
  rw [Pfs0Builder.addFile, ValidName]
  split_ifs with hempty hnull hsep hdup
  · exact ⟨nofun, fun h => absurd hempty h.1.1⟩
  · exact ⟨nofun, fun h => absurd hnull h.1.2.1⟩
  · exact ⟨nofun, fun h => (hsep.elim h.1.2.2.1 h.1.2.2.2).elim⟩
  · exact ⟨nofun, fun h => absurd (hany.mp hdup) h.2.1⟩
  · rw [ok.injEq, eq_comm, and_iff_right ⟨hempty, hnull, not_or.mp hsep⟩,
      and_iff_right (mt hany.mpr hdup)]

/-- Files that can be added one after the other: valid names, no two of them the same. -/
def Addable (files : List FileEntry) : Prop :=
  (∀ f ∈ files, ValidName f.name) ∧ (files.map FileEntry.name).Nodup

theorem addFiles_eq_ok {files : List FileEntry} {b : Pfs0Builder} :
    addFiles files = ok b ↔ Addable files ∧ b = ⟨files⟩ := by
  induction files using List.reverseRecOn generalizing b with
  | nil =>
    change ok _ = ok b ↔ _
    rw [ok.injEq, eq_comm, and_iff_right ⟨nofun, List.nodup_nil⟩]
  | append_singleton files f ih =>
    have hadd : addFiles (files ++ [f]) = addFiles files >>= fun b => b.addFile f.name f.data := by
      simp only [addFiles, List.foldlM_append, List.foldlM_cons, List.foldlM_nil, bind_pure]
    rw [hadd, bind_eq_ok]
    constructor
    · rintro ⟨b, hb, h⟩
      obtain ⟨⟨hvalid, hnodup⟩, rfl⟩ := ih.mp hb
      obtain ⟨hname, hnew, rfl⟩ := addFile_eq_ok.mp h
      refine ⟨⟨?_, ?_⟩, rfl⟩
      · exact List.forall_mem_append.mpr ⟨hvalid, List.forall_mem_singleton.mpr hname⟩
      · rw [List.map_append, List.map_singleton, List.nodup_append_comm]
        exact List.nodup_cons.mpr ⟨hnew, hnodup⟩
    · rintro ⟨⟨hvalid, hnodup⟩, rfl⟩
      obtain ⟨hvalid, hname⟩ := List.forall_mem_append.mp hvalid
      rw [List.map_append, List.map_singleton, List.nodup_append_comm] at hnodup
      obtain ⟨hnew, hnodup⟩ := List.nodup_cons.mp hnodup
      exact ⟨⟨files⟩, ih.mpr ⟨⟨hvalid, hnodup⟩, rfl⟩,
        addFile_eq_ok.mpr ⟨hname f (List.mem_singleton_self f), hnew, rfl⟩⟩

lemma Addable.perm {files files' : List FileEntry} (h : Addable files) (hperm : files'.Perm files) :
    Addable files' :=
  ⟨fun f hf => h.1 f (hperm.mem_iff.mp hf), (hperm.map _).nodup_iff.mpr h.2⟩

lemma Addable.eq_of_name {files : List FileEntry} (h : Addable files) {f g : FileEntry} (hf : f ∈ files)
    (hg : g ∈ files) (hname : f.name = g.name) : f = g :=
  List.inj_on_of_nodup_map h.2 hf hg hname

lemma sorted_perm {files files' : List FileEntry} (h : Addable files) (hperm : files'.Perm files) :
    Pfs0Builder.sorted ⟨files'⟩ = Pfs0Builder.sorted ⟨files⟩ :=
  mergeSort_congr_perm FileEntry.name hperm fun _ hf _ hg hname => h.eq_of_name hf hg hname

/-! ## The round trip -/

lemma find?_toFile {files : List FileEntry} (h : Addable files) {f : FileEntry} (hf : f ∈ files) :
    (files.map FileEntry.toFile).find? (·.name = f.name) = some f.toFile := by
  rw [List.find?_map, Option.map_eq_some_iff]
  cases hfind : files.find? ((fun file : Pfs0File => decide (file.name = f.name)) ∘ FileEntry.toFile) with
  | none => exact absurd (List.find?_eq_none.mp hfind f hf) (by simp [FileEntry.toFile])
  | some g =>
    have hfound := List.find?_some hfind
    have hname : g.name = f.name := of_decide_eq_true hfound
    exact ⟨g, rfl, congrArg _ (h.eq_of_name (List.mem_of_find?_eq_some hfind) hf hname)⟩

/-- An archive is read back as the files it was built from, in the order of their names, whatever order
they were added in. -/
theorem build_files {files : List FileEntry} {b : Pfs0Builder} (h : addFiles files = ok b)
    (hcount : files.length < 2 ^ 32) (hnames : stringTableSize files < 2 ^ 32)
    (hsize : archiveSize files < 2 ^ 63) :
    ∃ image pfs, (b.build : Outcome ε _) = ok image ∧ Pfs0.tryFromBytes image = ok pfs ∧
      (∃ listed : List FileEntry, (pfs.files : Outcome ε _) = ok (listed.map FileEntry.toFile) ∧
        listed.Perm files ∧ listed.Pairwise fun f g => textLe f.name g.name = true ∧ f.name ≠ g.name) ∧
      (∀ f ∈ files, (pfs.fileByName f.name : Outcome ε _) = ok (some ⟨f.name, f.data⟩)) ∧
      (∀ name, (∀ f ∈ files, f.name ≠ name) → (pfs.fileByName name : Outcome ε _) = ok none) ∧
      ∀ files' : List FileEntry, files'.Perm files →
        ∃ b', addFiles files' = ok b' ∧ (b'.build : Outcome ε _) = ok image := by
  obtain ⟨hadd, rfl⟩ := addFiles_eq_ok.mp h
  have hperm : (Pfs0Builder.sorted ⟨files⟩).Perm files := List.mergeSort_perm _ _
  have hsorted := hadd.perm hperm
  obtain ⟨hvalid, hviews⟩ := archive_valid hsorted.1 (by rwa [hperm.length_eq])
    (by rwa [stringTableSize_perm hperm]) (by rwa [archiveSize_perm hperm])
  refine ⟨_, _, build_eq hcount hnames hsize, tryFromBytes_eq_ok.mpr ⟨rfl, hvalid⟩,
    ⟨Pfs0Builder.sorted ⟨files⟩, ?_, hperm, ?_⟩, ?_, ?_, ?_⟩
  · rw [Pfs0.files_eq hvalid, hviews]
  · have hle : (Pfs0Builder.sorted ⟨files⟩).Pairwise fun f g => textLe f.name g.name = true :=
      pairwise_mergeSort_textLe FileEntry.name files
    have hne : (Pfs0Builder.sorted ⟨files⟩).Pairwise fun f g => f.name ≠ g.name :=
      List.pairwise_map.mp hsorted.2
    exact hle.imp₂ (fun _ _ => And.intro) hne
  · intro f hf
    rw [Pfs0.fileByName_eq hvalid, hviews, find?_toFile hsorted (hperm.mem_iff.mpr hf)]
    rfl
  · intro name hname
    rw [Pfs0.fileByName_eq hvalid, hviews, ok.injEq, List.find?_eq_none]
    intro file hfile
    obtain ⟨f, hf, rfl⟩ := List.mem_map.mp hfile
    exact fun heq => hname f (hperm.mem_iff.mp hf) (of_decide_eq_true heq)
  · intro files' hfiles
    refine ⟨⟨files'⟩, addFiles_eq_ok.mpr ⟨hadd.perm hfiles, rfl⟩, ?_⟩
    rw [← sorted_perm hadd hfiles]
    exact build_eq (b := ⟨files'⟩) (by rwa [hfiles.length_eq])
      (by rwa [stringTableSize_perm hfiles]) (by rwa [archiveSize_perm hfiles])

def twoFiles : List FileEntry := [⟨['b'], [1]⟩, ⟨['a'], [2, 3]⟩]

theorem build_files_two : ∃ image pfs,
    (Pfs0Builder.build ⟨twoFiles⟩ : Outcome Unit _) = ok image ∧ Pfs0.tryFromBytes image = ok pfs ∧
      (pfs.fileByName ['a'] : Outcome Unit _) = ok (some ⟨['a'], [2, 3]⟩) ∧
      (pfs.fileByName ['c'] : Outcome Unit _) = ok none := by
  have hadd : addFiles twoFiles = ok ⟨twoFiles⟩ := by decide
  obtain ⟨image, pfs, hbuild, hread, -, hfound, habsent, -⟩ :=
    build_files (ε := Unit) hadd (by decide) (by decide) (by decide)
  exact ⟨image, pfs, hbuild, hread, hfound ⟨['a'], [2, 3]⟩ (by decide),
    habsent ['c'] (by decide)⟩

end NxObject.Pfs
