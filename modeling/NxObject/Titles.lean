import NxObject.CnmtBuilding
import NxObject.Numerals
import NxObject.Packages

/-!
# Titles

A title is a package of finished archives. One of them carries the content meta, which records each of the others by
its hash, and the head of the hash is the name of the archive. A package that passes the check against a meta
therefore holds the archives the meta was written for.
-/
namespace NxObject
open Outcome

variable {ε : Type}

/-! ## The name of the meta file -/

namespace ContentMeta

def metaFileName (titleId : UInt64) : Text :=
  ['A', 'p', 'p', 'l', 'i', 'c', 'a', 't', 'i', 'o', 'n', '_'] ++ lowerHex 16 titleId.toNat ++ ['.', 'c', 'n', 'm', 't']

def CnmtBuilder.fileName (b : CnmtBuilder) : Text := metaFileName b.titleId

lemma metaFileName_injective : Function.Injective metaFileName := by
  intro t t' h
  have hdigits := List.append_cancel_left (List.append_cancel_right h)
  exact UInt64.toNat_inj.mp (lowerHex_injective 16 hdigits)

lemma metaFileName_valid (titleId : UInt64) : Pfs.ValidName (metaFileName titleId) := by
  have habsent : ∀ c ∈ ['\x00', '/', '\\'], c ∉ metaFileName titleId := by
    intro c hc hmem
    have hdigit : ∀ d < 16, c ≠ Nat.digitChar d := by
      fin_cases hc <;> decide
    rw [metaFileName, List.mem_append, List.mem_append, or_assoc] at hmem
    rcases hmem with hmem | hmem | hmem
    · fin_cases hc <;> exact absurd hmem (by decide)
    · exact notMem_lowerHex hdigit 16 _ hmem
    · fin_cases hc <;> exact absurd hmem (by decide)
  exact ⟨by simp [metaFileName], habsent _ (by simp), habsent _ (by simp), habsent _ (by simp)⟩

lemma metaFileName_length (titleId : UInt64) : (metaFileName titleId).length = 33 := by
  rw [metaFileName, List.length_append, List.length_append, lowerHex_length (by decide) titleId.toNat_lt]
  rfl

lemma build_length_le {b : CnmtBuilder} (h : (b.records.map ContentRecord.contentType).Nodup) :
    b.build.length ≤ 0x200 := by
  have hcount := length_le_of_nodup h
  rw [← (sortOn_perm ContentRecord.key b.records).length_eq] at hcount
  change b.ordered.length ≤ 7 at hcount
  have hrecords := Codec.length_flatMap
    (fun record : ContentRecord => Codec.enc_length CnmtContentRecord.codec record.toRaw) b.ordered
  rw [CnmtBuilder.build, List.length_append, List.length_append, List.length_append, Codec.enc_length,
    Codec.enc_length, List.length_replicate, hrecords]
  change 0x20 + 0x10 + b.ordered.length * 0x38 + 0x20 ≤ 0x200
  omega

lemma Describes.mem_iff {cnmt : Cnmt} {title : UInt64} {version : UInt32} {contents : List ContentRecord}
    (h : Describes cnmt title version contents) :
    cnmt.records.length = contents.length ∧ (∀ raw ∈ cnmt.records, ∃ record ∈ contents, Reads raw record) ∧
      ∀ record ∈ contents, ∃ raw ∈ cnmt.records, Reads raw record := by
  obtain ⟨ordered, hperm, -, hreads⟩ := h.records
  rw [List.forall₂_iff_get] at hreads
  obtain ⟨hlength, hget⟩ := hreads
  refine ⟨hlength.trans hperm.length_eq, fun raw hraw => ?_, fun record hrecord => ?_⟩
  · obtain ⟨i, rfl⟩ := List.get_of_mem hraw
    exact ⟨_, hperm.mem_iff.mp (List.get_mem _ _), hget i i.isLt (i.isLt.trans_eq hlength)⟩
  · obtain ⟨i, rfl⟩ := List.get_of_mem (hperm.mem_iff.mpr hrecord)
    exact ⟨_, List.get_mem _ _, hget i (i.isLt.trans_eq hlength.symm) i.isLt⟩

end ContentMeta

lemma utf8_length_le (s : Text) : (utf8 s).length ≤ 4 * s.length := by
  induction s with
  | nil => exact le_rfl
  | cons c s ih =>
    have hc := Char.utf8Size_le_four c
    rw [utf8, List.flatMap_cons, List.length_append, List.length_cons, String.length_utf8EncodeChar]
    change c.utf8Size + (utf8 s).length ≤ _
    omega

lemma Pfs.fits_single {f : FileEntry} (hname : f.name.length ≤ 0x100) (hdata : f.data.length ≤ 0x200) :
    Pfs0Builder.Fits ⟨[f]⟩ ∧ archiveSize [f] ≤ 0x1000 := by
  have hutf8 := utf8_length_le f.name
  have htable : stringTableSize [f] ≤ 0x440 := by
    have hlt : Placement.alignUp 0x20 ((utf8 f.name).length + 1) < (utf8 f.name).length + 1 + 0x20 :=
      Placement.alignUp_lt (by decide) _
    rw [stringTableSize, nameTable_length, List.map_singleton, List.sum_singleton]
    omega
  have hsize : archiveSize [f] = 0x10 + 1 * 0x18 + stringTableSize [f] + f.data.length := by
    rw [archiveSize, contents_length, List.map_singleton, List.sum_singleton, List.length_singleton]
  refine ⟨⟨(by decide : 1 < 2 ^ 32), ?_, ?_⟩, ?_⟩
  · exact htable.trans_lt (by decide)
  · change archiveSize [f] < _
    omega
  · omega

namespace Title
open ContentMeta Archive Pfs

structure Content where
  contentType : CnmtContentType
  archive : Bytes

section Hashes
variable (H : Bytes → Digest) (nameOf : List.Vector UInt8 0x10 → Text)

def Content.record (content : Content) : ContentRecord where
  hash := H content.archive
  size := UInt64.ofNat content.archive.length
  contentType := content.contentType

def Content.name (content : Content) : Text := nameOf (content.record H).toRaw.ncaId

def Content.file (content : Content) : FileEntry := ⟨content.name H nameOf, content.archive⟩

/-- The archive of a content meta: the meta file is alone in a PFS0 archive, and that is a section. -/
structure MetaArchive (recorded : CnmtBuilder) (slot : Fin NCA_SECTION_COUNT) (archive : Bytes) : Prop where
  built : ∃ (metaFiles : Pfs0Builder) (image : Bytes) (blockSize : UInt32) (encryption : SectionEncryption)
      (b : NcaBuilder) (plain : PlainNca),
    Pfs0Builder.addFile {} recorded.fileName recorded.build = ok metaFiles ∧
    metaFiles.build = (ok image : Outcome Empty _) ∧ b.sections slot = some ⟨.partition image blockSize, encryption⟩ ∧
    b.build H = ok plain ∧ archive = plain.toBytes

/-- A title as the builders put it together: the meta is written for the finished archives, and the package holds
them and the archive of the meta, added in any order. -/
structure Packaged (titleId : UInt64) (titleVersion : UInt32) (contents : List Content)
    (slot : Fin NCA_SECTION_COUNT) (metaName : Text) (package : Pfs0Builder) : Prop where
  added : ∃ (recorded : CnmtBuilder) (archive : Bytes) (files : List FileEntry),
    (contents.map (Content.record H)).foldlM CnmtBuilder.addContent
      ((CnmtBuilder.new titleId).setTitleVersion titleVersion) = ok recorded ∧
    MetaArchive H recorded slot archive ∧ files.Perm (⟨metaName, archive⟩ :: contents.map (Content.file H nameOf)) ∧
    addFiles files = ok package
  fits : package.Fits

/-- Every record leads to a file of its name, of the size and the hash it records. -/
def Checks (pfs : Pfs0) (cnmt : Cnmt) : Prop :=
  ∀ record ∈ cnmt.records, ∃ file, (pfs.fileByName (nameOf record.ncaId) : Outcome Empty _) = ok (some file) ∧
    (record.sizeValue : Outcome Empty _) = ok file.data.length ∧ H file.data = record.hash

end Hashes

variable {H : Bytes → Digest} {nameOf : List.Vector UInt8 0x10 → Text} {recorded : CnmtBuilder}
  {slot : Fin NCA_SECTION_COUNT} {archive : Bytes} {contents : List Content}

lemma MetaArchive.reads (h : MetaArchive H recorded slot archive)
    (hnodup : (recorded.records.map ContentRecord.contentType).Nodup) :
    ∃ nca sect metaFiles, Nca.tryFromBytes archive = ok nca ∧ (nca.sectionAt slot : Outcome ε _) = ok (some sect) ∧
      Pfs0.tryFromBytes sect.data = ok metaFiles ∧
      (metaFiles.fileByName recorded.fileName : Outcome ε _) = ok (some ⟨recorded.fileName, recorded.build⟩) ∧
      ∀ title ≠ recorded.titleId, (metaFiles.fileByName (metaFileName title) : Outcome ε _) = ok none := by
  obtain ⟨metaFiles, image, blockSize, encryption, b, plain, hadd, hbuild, hsect, hplain, rfl⟩ := h.built
  have hvalid : ValidName recorded.fileName := metaFileName_valid _
  obtain ⟨-, -, rfl⟩ := (addFile_eq_ok (f := ⟨recorded.fileName, recorded.build⟩)).mp hadd
  obtain ⟨hfits, -⟩ := fits_single (f := ⟨recorded.fileName, recorded.build⟩)
    ((metaFileName_length _).trans_le (by decide)) (build_length_le hnodup)
  have haddable : Addable [⟨recorded.fileName, recorded.build⟩] :=
    ⟨List.forall_mem_singleton.mpr hvalid, List.nodup_singleton _⟩
  obtain ⟨image', pfs, hbuild', hpfs, hfound, habsent, -⟩ := fileByName_build (ε := Empty) haddable hfits
  obtain rfl := ok.inj (hbuild.symm.trans hbuild')
  obtain ⟨nca, hnca, hcontents⟩ := build_contents (ε := ε) hplain
  obtain ⟨sect, hsectAt, hdata⟩ := hcontents slot _ hsect
  refine ⟨nca, sect, pfs, hnca, hsectAt, (congrArg _ hdata).trans hpfs, hfound ε _ (List.mem_singleton_self _),
    fun title hne => habsent ε _ (List.forall_mem_singleton.mpr fun hname => ?_)⟩
  exact hne (metaFileName_injective hname).symm

lemma length_lt_of_fits {package : Pfs0Builder} (hfits : package.Fits) {f : FileEntry} (hf : f ∈ package.files) :
    f.data.length < 2 ^ 63 := by
  have hle := List.le_sum_of_mem (List.mem_map_of_mem hf : f.data.length ∈ package.files.map (·.data.length))
  rw [← contents_length] at hle
  have hsize := hfits.size
  rw [archiveSize] at hsize
  omega

variable (nameOf) in
lemma reads_record {content : Content} {raw : CnmtContentRecord} (h : Reads raw (content.record H))
    (hlen : content.archive.length < 2 ^ 64) : nameOf raw.ncaId = content.name H nameOf ∧
      (raw.sizeValue : Outcome ε _) = ok content.archive.length ∧ raw.hash = H content.archive := by
  have hncaId : raw.ncaId = (content.record H).toRaw.ncaId := List.Vector.toList_injective h.ncaId
  exact ⟨congrArg nameOf hncaId, h.size.trans (congrArg ok (UInt64.toNat_ofNat_of_lt' hlen)), h.hash⟩

lemma checks_of_describes {cnmt : Cnmt} {pfs : Pfs0} {title : UInt64} {version : UInt32}
    (hdescribes : Describes cnmt title version (contents.map (Content.record H)))
    (hlen : ∀ content ∈ contents, content.archive.length < 2 ^ 64)
    (hfound : ∀ content ∈ contents,
      (pfs.fileByName (content.name H nameOf) : Outcome Empty _) = ok (some (content.file H nameOf).toFile)) :
    Checks H nameOf pfs cnmt := by
  intro raw hraw
  obtain ⟨-, hleads, -⟩ := hdescribes.mem_iff
  obtain ⟨_, hmem, hreads⟩ := hleads raw hraw
  obtain ⟨content, hcontent, rfl⟩ := List.mem_map.mp hmem
  obtain ⟨hname, hsize, hhash⟩ := reads_record nameOf hreads (hlen content hcontent)
  exact ⟨_, hname ▸ hfound content hcontent, hsize, hhash.symm⟩

lemma found_of_checks {cnmt : Cnmt} {pfs : Pfs0} {title : UInt64} {version : UInt32}
    (hdescribes : Describes cnmt title version (contents.map (Content.record H)))
    (hlen : ∀ content ∈ contents, content.archive.length < 2 ^ 64) (hchecks : Checks H nameOf pfs cnmt)
    {content : Content} (hcontent : content ∈ contents) :
    ∃ file, (pfs.fileByName (content.name H nameOf) : Outcome Empty _) = ok (some file) ∧
      file.data.length = content.archive.length ∧ H file.data = H content.archive := by
  obtain ⟨-, -, hrecorded⟩ := hdescribes.mem_iff
  obtain ⟨raw, hraw, hreads⟩ := hrecorded _ (List.mem_map_of_mem hcontent)
  obtain ⟨hname, hsize, hhash⟩ := reads_record nameOf hreads (hlen content hcontent)
  obtain ⟨file, hfile, hsize', hhash'⟩ := hchecks raw hraw
  exact ⟨file, hname ▸ hfile, ok.inj (hsize'.symm.trans hsize), hhash'.trans hhash⟩

/-- From the package of a title the readers get to the meta, by the name of the title alone. The meta describes the
contents, and the package passes the check against it; whatever other package does holds, under their names,
files of the sizes and the hashes of the contents. -/
theorem title_reads {titleId : UInt64} {titleVersion : UInt32} {metaName : Text} {package : Pfs0Builder}
    (h : Packaged H nameOf titleId titleVersion contents slot metaName package) :
    ∃ bytes pfs file nca sect metaFiles metaFile cnmt, (package.build : Outcome ε _) = ok bytes ∧
      Pfs0.tryFromBytes bytes = ok pfs ∧ (pfs.fileByName metaName : Outcome ε _) = ok (some file) ∧
      Nca.tryFromBytes file.data = ok nca ∧ (nca.sectionAt slot : Outcome ε _) = ok (some sect) ∧
      Pfs0.tryFromBytes sect.data = ok metaFiles ∧
      (metaFiles.fileByName (metaFileName titleId) : Outcome ε _) = ok (some metaFile) ∧
      (∀ other ≠ titleId, (metaFiles.fileByName (metaFileName other) : Outcome ε _) = ok none) ∧
      Cnmt.tryFromBytes metaFile.data = ok cnmt ∧
      Describes cnmt titleId titleVersion (contents.map (Content.record H)) ∧ Checks H nameOf pfs cnmt ∧
      ∀ pfs', Checks H nameOf pfs' cnmt → ∀ content ∈ contents,
        ∃ file', (pfs'.fileByName (content.name H nameOf) : Outcome Empty _) = ok (some file') ∧
          file'.data.length = content.archive.length ∧ H file'.data = H content.archive := by
  obtain ⟨recorded, archive, files, hrecorded, hmeta, hperm, hadd⟩ := h.added
  obtain ⟨⟨hsizes, hnodup⟩, rfl⟩ := addContents_new.mp hrecorded
  obtain ⟨haddable, rfl⟩ := addFiles_eq_ok.mp hadd
  obtain ⟨bytes, pfs, hbuild, hpfs, hfound, -⟩ := fileByName_build (ε := ε) (b := ⟨files⟩) haddable h.fits
  obtain ⟨nca, sect, metaFiles, hnca, hsect, hmetaFiles, hmetaFile, hothers⟩ := hmeta.reads (ε := ε) hnodup
  have hcontent : ∀ content ∈ contents, content.file H nameOf ∈ files := fun content hmem =>
    hperm.mem_iff.mpr (List.mem_cons_of_mem _ (List.mem_map_of_mem hmem))
  have hlen : ∀ content ∈ contents, content.archive.length < 2 ^ 64 := fun content hmem =>
    (length_lt_of_fits h.fits (hcontent content hmem)).trans (by decide)
  have hdescribes := view_describes ⟨titleId, titleVersion, _⟩ hnodup hsizes
  exact ⟨bytes, pfs, _, nca, sect, metaFiles, _, _, hbuild, hpfs,
    hfound ε _ (hperm.mem_iff.mpr List.mem_cons_self), hnca, hsect, hmetaFiles, hmetaFile, hothers,
    tryFromBytes_build _ hnodup, hdescribes,
    checks_of_describes hdescribes hlen fun content hmem => hfound Empty _ (hcontent content hmem),
    fun pfs' hchecks content hmem => found_of_checks hdescribes hlen hchecks hmem⟩

/-! ## A small title -/

def lengthHash (bytes : Bytes) : Digest := ⟨toLe 0x20 bytes.length, toLe_length _ _⟩

def hexName (ncaId : List.Vector UInt8 0x10) : Text := ncaId.toList.flatMap fun byte => lowerHex 2 byte.toNat

def smallContents : List Content := [⟨.program, [1, 2]⟩, ⟨.control, [3]⟩]

def smallMeta : CnmtBuilder := ⟨0x0100000000001000, 5, smallContents.map (Content.record lengthHash)⟩

lemma smallMeta_archive : ∃ archive, MetaArchive lengthHash smallMeta 0 archive ∧ archive.length < 2 ^ 20 := by
  let file : FileEntry := ⟨smallMeta.fileName, smallMeta.build⟩
  obtain ⟨hfits, hsize⟩ := fits_single (f := file) ((metaFileName_length _).trans_le (by decide))
    (build_length_le (b := smallMeta) (by decide))
  have hbuild := build_eq (ε := Empty) hfits.count hfits.names hfits.size
  set image := (Pfs.archive (Pfs0Builder.sorted ⟨[file]⟩)).toBytes with himage
  have hlength : image.length ≤ 0x1000 := by
    have hperm : (Pfs0Builder.sorted ⟨[file]⟩).Perm [file] := List.mergeSort_perm _ _
    rw [himage, archive_toBytes_length, archiveSize_perm hperm]
    exact hsize
  let b : NcaBuilder :=
    { contentType := .metadata
      titleId := smallMeta.titleId
      sections := fun i => if i = 0 then some ⟨.partition image 0x1000, .none⟩ else none }
  have hsmall : ∀ i sect, b.sections i = some sect → sect.Small := by
    intro i sect hsect
    simp only [b] at hsect
    split_ifs at hsect
    obtain rfl := Option.some.inj hsect
    exact ⟨hlength.trans (by decide), by decide, hlength.trans (by decide)⟩
  obtain ⟨plain, hplain, hshort⟩ := NcaBuilder.build_small (H := lengthHash) hsmall
  have hadd : Pfs0Builder.addFile {} smallMeta.fileName smallMeta.build = ok ⟨[file]⟩ :=
    (addFile_eq_ok (f := file)).mpr ⟨metaFileName_valid _, nofun, rfl⟩
  exact ⟨_, ⟨⟨_, image, 0x1000, .none, b, plain, hadd, hbuild, rfl, hplain, rfl⟩⟩, hshort⟩

theorem title_reads_small : ∃ package bytes pfs metaFile cnmt,
    Packaged lengthHash hexName 0x0100000000001000 5 smallContents 0 ['m'] package ∧
      (package.build : Outcome Unit _) = ok bytes ∧ Pfs0.tryFromBytes bytes = ok pfs ∧
      Cnmt.tryFromBytes metaFile = ok cnmt ∧ cnmt.titleId = 0x0100000000001000 ∧ cnmt.records.length = 2 ∧
      Checks lengthHash hexName pfs cnmt := by
  obtain ⟨archive, hmeta, hlength⟩ := smallMeta_archive
  have hrecorded : (smallContents.map (Content.record lengthHash)).foldlM CnmtBuilder.addContent
      ((CnmtBuilder.new 0x0100000000001000).setTitleVersion 5) = ok smallMeta := rfl
  let files : List FileEntry := ⟨['m'], archive⟩ :: smallContents.map (Content.file lengthHash hexName)
  have hnames : files.map FileEntry.name =
      ['m'] :: smallContents.map (Content.name lengthHash hexName) := rfl
  have haddable : Addable files := by
    constructor
    · have hvalid : ∀ name ∈ files.map FileEntry.name, ValidName name := by
        rw [hnames]
        unfold ValidName
        decide +kernel
      exact fun f hf => hvalid _ (List.mem_map_of_mem hf)
    · rw [hnames]
      decide +kernel
  have hfits : Pfs0Builder.Fits ⟨files⟩ := by
    have htable : stringTableSize files = 0x60 := by
      have hsum : ((files.map FileEntry.name).map fun name => (utf8 name).length + 1).sum = 0x44 := by
        rw [hnames]
        decide +kernel
      rw [List.map_map] at hsum
      rw [stringTableSize, nameTable_length]
      exact congrArg (Placement.alignUp 0x20) hsum
    refine ⟨(by decide : 3 < 2 ^ 32), htable.trans_lt (by decide), ?_⟩
    have hsize : archiveSize files = 0x10 + 3 * 0x18 + 0x60 + (archive.length + 3) := by
      rw [archiveSize, htable, contents_length]
      rfl
    rw [hsize]
    omega
  have hpackaged : Packaged lengthHash hexName 0x0100000000001000 5 smallContents 0 ['m'] ⟨files⟩ :=
    ⟨⟨smallMeta, archive, files, hrecorded, hmeta, List.Perm.refl _, addFiles_eq_ok.mpr ⟨haddable, rfl⟩⟩, hfits⟩
  obtain ⟨bytes, pfs, -, -, -, -, metaFile, cnmt, hbuild, hpfs, -, -, -, -, -, -, hcnmt, hdescribes, hchecks, -⟩ :=
    title_reads (ε := Unit) hpackaged
  exact ⟨⟨files⟩, bytes, pfs, _, cnmt, hpackaged, hbuild, hpfs, hcnmt, hdescribes.titleId, hdescribes.mem_iff.1,
    hchecks⟩

end Title
end NxObject
