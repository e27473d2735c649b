import NxObject.BlzBounds
import NxObject.KipReading
import NxObject.KipRoundtrip
import NxObject.NcaReading
import NxObject.NcaRoundtrip
import NxObject.NpdmRoundtrip
import NxObject.NsoRoundtrip
import NxObject.Pfs0Roundtrip
import NxObject.RomFsMirror

/-!
# Truncated images

A beginning of an image that a reader accepts carries the header of the image, and with it the end that the
header records. For each format that end is the end of the image, so that no proper beginning reaches it.
-/
namespace NxObject
open Outcome Host

section Prefixes
variable {ε α : Type} {tryFromBytes : Bytes → Outcome ε α} {image : Bytes}

/-- Every proper beginning of an image is an error. -/
def RejectsTruncated (tryFromBytes : Bytes → Outcome ε α) (image : Bytes) : Prop :=
  ∀ n < image.length, ∃ e, tryFromBytes (image.take n) = err e

theorem rejectsTruncated_of (hsettled : ∀ bytes, Settled (tryFromBytes bytes))
    (hend : ∀ part a, part <+: image → tryFromBytes part = ok a → image.length ≤ part.length) :
    RejectsTruncated tryFromBytes image := by
  refine fun n hn => (hsettled _).exists_err fun a ha => ?_
  have hle := hend _ a (List.take_prefix n image) ha
  rw [List.length_take] at hle
  omega

end Prefixes

/-! ## PFS0 -/

namespace Pfs

theorem Pfs0.tryFromBytes_settled (bytes : Bytes) : Settled (Pfs0.tryFromBytes bytes) := by
  refine (settled_okOr _ _).bind fun header _ => (settled_ensure _ _).bind fun _ _ => ?_
  refine (settled_okOr _ _).bind fun entries _ => (settled_ensure _ _).bind fun _ hsize => ?_
  rw [slice_of_le (ensure_eq_ok.mp hsize) le_rfl, ok_bind]
  refine (settled_forM fun _ _ => ?_).bind fun _ _ => settled_ok _
  refine Settled.bind ?_ fun _ _ => (settled_ensure _ _).bind fun _ _ => settled_ensure _ _
  exact (settled_okOr _ _).bind fun _ _ => settled_ensure _ _

lemma contents_le {available : ℕ} (files : List FileEntry) (stringOffset : ℕ) {dataOffset : ℕ}
    (hlt : dataOffset + (contents files).length < 2 ^ 64) (hle : dataOffset ≤ available)
    (h : ∀ entry ∈ records stringOffset dataOffset files,
      entry.offset.toNat + entry.size.toNat ≤ available) :
    dataOffset + (contents files).length ≤ available := by
  induction files generalizing stringOffset dataOffset with
  | nil => exact hle
  | cons f files ih =>
    have hcontents : (contents (f :: files)).length = f.data.length + (contents files).length := by
      rw [contents, List.flatMap_cons, List.length_append]
      rfl
    rw [hcontents] at hlt ⊢
    obtain ⟨hfile, hfiles⟩ := List.forall_mem_cons.mp h
    have hoffset : (UInt64.ofNat dataOffset).toNat = dataOffset :=
      UInt64.toNat_ofNat_of_lt' (show dataOffset < 2 ^ 64 by omega)
    have hsize : (UInt64.ofNat f.data.length).toNat = f.data.length :=
      UInt64.toNat_ofNat_of_lt' (show f.data.length < 2 ^ 64 by omega)
    rw [hoffset, hsize] at hfile
    have hrest := ih _ (by omega) hfile hfiles
    omega

lemma archive_length_le {files : List FileEntry} (hcount : files.length < 2 ^ 32)
    (hnames : stringTableSize files < 2 ^ 32) (hsize : archiveSize files < 2 ^ 63) {part : Bytes} {pfs : Pfs0}
    (hpart : part <+: (archive files).toBytes) (h : Pfs0.tryFromBytes part = ok pfs) :
    (archive files).toBytes.length ≤ part.length := by
  obtain ⟨rfl, hvalid⟩ := tryFromBytes_eq_ok.mp h
  have hheader : pfs.header = (archive files).header := Option.some.inj <|
    (Codec.fromPrefix_of_prefix _ hpart (Codec.fromPrefix_append _ _ _)).symm.trans
      (Codec.fromPrefix_append _ _ _)
  have hcountNat : pfs.header.fileCount.toNat = files.length := by
    rw [hheader]
    exact UInt32.toNat_ofNat_of_lt' hcount
  have htable : pfs.stringTable.length = stringTableSize files := by
    rw [hvalid.stringTable, hheader]
    exact UInt32.toNat_ofNat_of_lt' hnames
  have hdrop : ∀ pfs : Pfs0, pfs.toBytes.drop 0x10 = pfs.entries.flatMap Pfs0FileEntry.codec.enc ++
      (pfs.stringTable ++ pfs.data) := fun _ => List.drop_left' (Codec.enc_length _ _)
  have hrest := hpart.drop 0x10
  rw [hdrop, hdrop] at hrest
  have hentries : pfs.entries = (archive files).entries := Option.some.inj <|
    (Codec.prefixElems_of_prefix _ hrest (Codec.prefixElems_append _ rfl _)).symm.trans
      (Codec.prefixElems_append _ ((records_length 0 0 files).trans
        (hcountNat.symm.trans hvalid.fileCount.symm)) _)
  have htotal : 0x10 + files.length * 0x18 + stringTableSize files + (contents files).length =
      archiveSize files := rfl
  have hdata : 0 + (contents files).length ≤ pfs.data.length := by
    refine contents_le files 0 (by omega) (Nat.zero_le _) fun entry hentry => ?_
    exact (hvalid.inside entry (hentries ▸ hentry)).data
  have hlen : pfs.toBytes.length = 0x10 + (pfs.entries.length * 0x18 + (pfs.stringTable.length +
      pfs.data.length)) := by
    rw [Pfs0.toBytes, List.length_append, List.length_append, List.length_append,
      Codec.length_flatMap (Codec.enc_length _), Codec.enc_length]
    rfl
  rw [archive_toBytes_length, hlen, htable, hvalid.fileCount, hcountNat]
  omega

lemma archiveSize_lt_of_build {ε : Type} {b : Pfs0Builder} {image : Bytes}
    (hcount : b.files.length < 2 ^ 32) (hnames : stringTableSize b.files < 2 ^ 32)
    (h : (b.build : Outcome ε _) = ok image) : archiveSize b.files < 2 ^ 63 := by
  have hperm : b.sorted.Perm b.files := List.mergeSort_perm _ _
  rw [← hperm.length_eq] at hcount
  rw [← stringTableSize_perm hperm] at hnames
  rw [← archiveSize_perm hperm]
  have hle := le_stringTableSize b.sorted
  obtain ⟨buf, hbuf, -⟩ := bind_eq_ok.mp h
  obtain ⟨hlt, -⟩ := zeroed_eq_ok.mp hbuf
  have hcountNat : (UInt32.ofNat b.sorted.length).toNat = b.sorted.length :=
    UInt32.toNat_ofNat_of_lt' hcount
  change 0x10 + (UInt32.ofNat b.sorted.length).toNat * 0x18 +
    alignUp (b.sorted.map fun f => (utf8 f.name).length + 1).sum 0x20 +
      (b.sorted.map fun f => f.data.length).sum < 2 ^ 63 at hlt
  rw [hcountNat, ← nameTable_length, ← contents_length, alignUp_eq (by omega)] at hlt
  exact hlt

theorem rejectsTruncated_build {ε : Type} {b : Pfs0Builder} {image : Bytes}
    (hcount : b.files.length < 2 ^ 32) (hnames : stringTableSize b.files < 2 ^ 32)
    (h : (b.build : Outcome ε _) = ok image) : RejectsTruncated Pfs0.tryFromBytes image := by
  have hsize := archiveSize_lt_of_build hcount hnames h
  have hperm : b.sorted.Perm b.files := List.mergeSort_perm _ _
  rw [build_eq hcount hnames hsize] at h
  obtain rfl := ok.inj h
  refine rejectsTruncated_of Pfs0.tryFromBytes_settled fun part pfs hpart hpfs => ?_
  exact archive_length_le (by rwa [hperm.length_eq]) (by rwa [stringTableSize_perm hperm])
    (by rwa [archiveSize_perm hperm]) hpart hpfs

end Pfs

/-! ## RomFS -/

namespace Romfs

lemma checkTable_settled (available : ℕ) (offset size : UInt64) (overflow outOfBounds) :
    Settled (checkTable available offset size overflow outOfBounds) := by
  refine (settled_okOr _ _).bind fun stop _ => ?_
  split_ifs
  · exact settled_err _
  · exact settled_ok _

theorem RomFs.tryFromBytes_settled (bytes : Bytes) : Settled (RomFs.tryFromBytes bytes) := by
  refine (settled_ensure _ _).bind fun _ _ => (settled_okOr _ _).bind fun header _ => ?_
  refine (settled_ensure _ _).bind fun _ _ => (checkTable_settled ..).bind fun _ _ => ?_
  refine (checkTable_settled ..).bind fun _ _ => (checkTable_settled ..).bind fun _ _ => ?_
  exact (checkTable_settled ..).bind fun _ _ => (settled_ensure _ _).bind fun _ _ => settled_ok _

lemma fromPrefix_of_tryFromBytes {bytes : Bytes} {romfs : RomFs} (h : RomFs.tryFromBytes bytes = ok romfs) :
    romfs.bytes = bytes ∧ RomFsHeader.codec.fromPrefix bytes = some romfs.header := by
  obtain ⟨u, -, h⟩ := bind_eq_ok.mp h
  obtain ⟨header, hheader, h⟩ := bind_eq_ok.mp h
  obtain ⟨u, -, h⟩ := bind_eq_ok.mp h
  obtain ⟨u, -, h⟩ := bind_eq_ok.mp h
  obtain ⟨u, -, h⟩ := bind_eq_ok.mp h
  obtain ⟨u, -, h⟩ := bind_eq_ok.mp h
  obtain ⟨u, -, h⟩ := bind_eq_ok.mp h
  obtain ⟨u, -, h⟩ := bind_eq_ok.mp h
  obtain rfl := ok.inj h
  exact ⟨rfl, okOr_eq_ok.mp hheader⟩

lemma image_length_le {t : Tree} (hsize : t.imageSize < 2 ^ 63) {part : Bytes} {romfs : RomFs}
    (hpart : part <+: t.image) (h : RomFs.tryFromBytes part = ok romfs) :
    t.image.length ≤ part.length := by
  have hlen := t.image_length
  have hle := hpart.length_le
  obtain ⟨rfl, hprefix⟩ := fromPrefix_of_tryFromBytes h
  have himage := (fromPrefix_of_tryFromBytes (Tree.tryFromBytes_image hsize)).2
  have hheader : romfs.header = t.header := Option.some.inj <|
    (Codec.fromPrefix_of_prefix _ hpart hprefix).symm.trans himage
  have hfile := (bounded_of_tryFromBytes h (by omega)).fileMeta
  obtain ⟨-, -, -, -, -, -, hoffset, hsize'⟩ := Tree.header_toNat hsize
  rw [hheader, hoffset, hsize'] at hfile
  exact hlen.le.trans hfile

lemma Tree.rejectsTruncated_build {t : Tree} {image : Bytes} (hfits : t.builder.Fits)
    (h : t.builder.build = ok image) : RejectsTruncated RomFs.tryFromBytes image := by
  obtain ⟨-, hsize⟩ := t.fits_sort hfits
  have hfiles : t.files ≠ [] := by
    intro hnil
    rw [Tree.build_of_files_eq_nil hnil] at h
    cases h
  rw [Tree.build_builder hfiles hsize] at h
  obtain rfl := ok.inj h
  exact rejectsTruncated_of RomFs.tryFromBytes_settled fun part romfs => image_length_le hsize

theorem rejectsTruncated_build {added : List (Text × Bytes)} {b : RomFsBuilder} {image : Bytes}
    (hadd : RomFsBuilder.addFiles added = ok b) (hfits : b.Fits) (h : b.build = ok image) :
    RejectsTruncated RomFs.tryFromBytes image := by
  obtain ⟨-, t, rfl, -⟩ := RomFsBuilder.addFiles_eq_ok hadd
  exact Tree.rejectsTruncated_build hfits h

theorem rejectsTruncated_fromDirectory {ι : Type} {fuel : ℕ} {fsPath : HostPath} {listing : Listing ι}
    {b : RomFsBuilder} {image : Bytes} (hroot : IsHost (.dir listing))
    (hread : RomFsBuilder.fromDirectory fuel fsPath listing = ok b) (hfits : b.Fits) (h : b.build = ok image) :
    RejectsTruncated RomFs.tryFromBytes image := by
  obtain ⟨t, rfl, -⟩ := fromDirectory_eq_ok hroot hread
  exact Tree.rejectsTruncated_build hfits h

end Romfs

/-! ## NCA -/

namespace Archive

lemma checkSection_settled (header : NcaHeader) (available : ℕ) (i : Fin NCA_SECTION_COUNT) :
    Settled (checkSection header available i) := by
  refine (settled_ofExcept _).bind fun range hrange => ?_
  cases range with
  | none => exact settled_ok _
  | some range =>
    have hle := ((sectionRange_eq_ok (ofExcept_eq_ok.mp hrange)).2 _ rfl).2.1
    refine (settled_ofExcept _).bind fun _ _ => (settled_ofExcept _).bind fun hash _ => ?_
    rw [sub_of_le hle, ok_bind]
    exact (settled_ofExcept _).bind fun _ _ => settled_ok _

theorem Nca.tryFromBytes_settled (bytes : Bytes) : Settled (Nca.tryFromBytes bytes) := by
  refine (settled_okOr _ _).bind fun header _ => (settled_ensure _ _).bind fun _ _ => ?_
  refine (settled_ofExcept _).bind fun _ _ => ?_
  exact (settled_forM fun i _ => checkSection_settled _ _ i).bind fun _ _ => settled_ok _

variable {H : Bytes → Digest} {b : NcaBuilder}

lemma image_length_le (hfits : b.Fits H) {part : Bytes} {nca : Nca} (hpart : part <+: b.image H)
    (h : Nca.tryFromBytes part = ok nca) : (b.image H).length ≤ part.length := by
  obtain ⟨rfl, hvalid⟩ := Nca.tryFromBytes_eq_ok.mp h
  have himage := (Nca.tryFromBytes_eq_ok.mp (NcaBuilder.tryFromBytes_image hfits)).2.header
  have hheader : nca.header = b.header H := Option.some.inj <|
    (Codec.fromPrefix_of_prefix _ hpart hvalid.header).symm.trans himage
  have hroom : NCA_HEADER_SIZE ≤ nca.bytes.length := Codec.le_of_fromPrefix _ hvalid.header
  by_contra hlt
  obtain ⟨i, sect, hsect, hle, hend⟩ := NcaBuilder.exists_slot hroom (Nat.lt_of_not_le hlt)
  have hpos := NcaBuilder.chunkSize_pos (H := H) hsect
  have hstart : NCA_HEADER_SIZE ≤ b.slotStart H i := Nat.le_add_right _ _
  obtain ⟨range, hrange, -⟩ := checkSection_eq_ok (hvalid.sections i)
  rw [hheader, sectionRange, NcaBuilder.mediaStart_placed hsect hfits, NcaBuilder.mediaEnd_placed hsect hfits,
    if_neg (by omega), if_neg (by omega), if_pos hend] at hrange
  cases hrange

theorem rejectsTruncated_build {plain : PlainNca} (h : b.build H = ok plain) :
    RejectsTruncated Nca.tryFromBytes plain.toBytes := by
  obtain ⟨rfl, hfits⟩ := NcaBuilder.build_eq_ok.mp h
  exact rejectsTruncated_of Nca.tryFromBytes_settled fun part nca => image_length_le hfits

end Archive

/-! ## KIP1 -/

namespace Kip
variable {header : Kip1Header} {streams : Fin 3 → Bytes}

lemma storedEnd_eq
    (hsize : ∀ i : Fin 3, (header.segments (i.castLE (by decide))).compSize.toNat = (streams i).length) :
    storedEnd header =
      (Kip1Header.codec.enc header ++ streams 0 ++ streams 1 ++ streams 2).length := by
  have h₀ := storedSize_eq hsize 0
  have h₁ := storedSize_eq hsize 1
  have h₂ := storedSize_eq hsize 2
  rw [List.length_append, List.length_append, List.length_append, Codec.enc_length, ← h₀, ← h₁, ← h₂]
  rfl

/-- Every stream is as long as its field can say. -/
def Kip1Builder.Fits (b : Kip1Builder) : Prop :=
  ∀ i contents stream, b.contents i = some contents →
    (Blz.compress contents : Outcome BuildError Bytes) = ok stream → stream.length < 2 ^ 32

lemma Kip1Builder.fits_of_contents {b : Kip1Builder} (h : ∀ i xs, b.contents i = some xs → xs.length < 2 ^ 32 - 16) :
    b.Fits := by
  intro i contents stream hcontents hstream
  have hlt := h i contents hcontents
  obtain ⟨stream', hstream', hemitted⟩ := Blz.compress_spec (ε := BuildError) (hlt.trans (by decide))
  obtain rfl := ok.inj (hstream.symm.trans hstream')
  obtain ⟨-, hle, -⟩ := hemitted.form (hlt.trans (by decide))
  have hup := Placement.alignUp_lt (n := contents.length) (by decide : 0 < 4)
  omega

theorem rejectsTruncated_build {b : Kip1Builder} {image : Bytes} (hfits : b.Fits)
    (h : b.build = ok image) : RejectsTruncated Kip1.tryFromBytes image := by
  obtain ⟨header, contents, streams, rfl, -, -, -, hsegment⟩ := build_spec h
  have hsize : ∀ i : Fin 3,
      (header.segments (i.castLE (by decide))).compSize.toNat = (streams i).length := by
    intro i
    obtain ⟨hcontents, hstream, -, hcomp⟩ := hsegment i
    rw [hcomp]
    exact UInt32.toNat_ofNat_of_lt' (hfits i _ _ hcontents hstream)
  refine rejectsTruncated_of Kip1.tryFromBytes_settled fun part kip hpart hkip => ?_
  obtain ⟨rfl, hvalid⟩ := Kip1.tryFromBytes_eq_ok.mp hkip
  have hread : Kip1Header.codec.fromPrefix
      (Kip1Header.codec.enc header ++ streams 0 ++ streams 1 ++ streams 2) = some header := by
    rw [List.append_assoc, List.append_assoc]
    exact Codec.fromPrefix_append _ _ _
  have hheader : kip.header = header := Option.some.inj <|
    (Codec.fromPrefix_of_prefix _ hpart hvalid.header).symm.trans hread
  have hstored := hvalid.stored
  rwa [hheader, storedEnd_eq hsize] at hstored

end Kip

/-! ## NSO -/

namespace Executable
variable {δ : Type} {lz4 : Packer δ} {sha256 : Bytes → Digest} {b : NsoBuilder} {image : Bytes}

lemma exists_sets_of_build (h : b.build lz4 sha256 = ok image) : ∃ text rodata data, b.Sets text rodata data := by
  obtain ⟨text, htext, h⟩ := bind_eq_ok.mp h
  obtain ⟨rodata, hrodata, h⟩ := bind_eq_ok.mp h
  obtain ⟨data, hdata, h⟩ := bind_eq_ok.mp h
  exact ⟨text, rodata, data, okOr_eq_ok.mp htext, okOr_eq_ok.mp hrodata, okOr_eq_ok.mp hdata⟩

theorem NsoBuilder.rejectsTruncated_build
    (hfits : ∀ text rodata data, b.Sets text rodata data → b.Fits lz4 text rodata data)
    (h : b.build lz4 sha256 = ok image) : RejectsTruncated Nso.tryFromBytes image := by
  obtain ⟨text, rodata, data, hsets⟩ := exists_sets_of_build h
  have hfits := hfits text rodata data hsets
  rw [build_eq hsets hfits] at h
  obtain rfl := ok.inj h
  refine rejectsTruncated_of Nso.tryFromBytes_settled fun part nso hpart hnso => ?_
  obtain ⟨rfl, hvalid⟩ := Nso.tryFromBytes_eq_ok.mp hnso
  have hheader : nso.header = b.header lz4 sha256 text rodata data := Option.some.inj <|
    (Codec.fromPrefix_of_prefix _ hpart hvalid.header).symm.trans (read_valid sha256 hfits).header
  obtain ⟨-, -, -, -, hoffset, hsize⟩ := read_toNat sha256 hfits
  have hdata := hvalid.data
  rw [hheader] at hdata
  rw [image_length]
  exact (congrArg₂ (· + ·) hoffset hsize).ge.trans hdata

end Executable

/-! ## NPDM -/

namespace ProgramMeta

theorem NpdmBuilder.rejectsTruncated_build {ε : Type} {b : NpdmBuilder} {image : Bytes} (hfits : b.Fits)
    (h : (b.build : Outcome ε _) = ok image) : RejectsTruncated Npdm.tryFromBytes image := by
  rw [build_eq hfits] at h
  obtain rfl := ok.inj h
  refine rejectsTruncated_of Npdm.tryFromBytes_settled fun part npdm hpart hnpdm => ?_
  obtain ⟨rfl, hvalid⟩ := Npdm.tryFromBytes_eq_ok.mp hnpdm
  have hheader : npdm.header = b.metaHeader := Option.some.inj <|
    (Codec.fromPrefix_of_prefix _ hpart hvalid.header).symm.trans (read_valid hfits).header
  obtain ⟨-, -, hoffset, hsize⟩ := meta_toNat hfits
  have hinside := hvalid.aci0.inside
  rwa [hheader, hoffset, hsize, ← image_length] at hinside

end ProgramMeta

/-! ## Every builder -/

section Builders
open Pfs Romfs Archive Kip Executable ProgramMeta

/-- Whatever a builder hands out, cut short anywhere, is rejected by the reader of its format. -/
theorem built_rejectsTruncated :
    (∀ (ε : Type) (b : Pfs0Builder) image, b.files.length < 2 ^ 32 → stringTableSize b.files < 2 ^ 32 →
      (b.build : Outcome ε _) = ok image → RejectsTruncated Pfs0.tryFromBytes image) ∧
    (∀ added (b : RomFsBuilder) image, RomFsBuilder.addFiles added = ok b → b.Fits → b.build = ok image →
      RejectsTruncated RomFs.tryFromBytes image) ∧
    (∀ (ι : Type) fuel fsPath (listing : Listing ι) (b : RomFsBuilder) image, IsHost (.dir listing) →
      RomFsBuilder.fromDirectory fuel fsPath listing = ok b → b.Fits → b.build = ok image →
      RejectsTruncated RomFs.tryFromBytes image) ∧
    (∀ H (b : NcaBuilder) plain, b.build H = ok plain → RejectsTruncated Nca.tryFromBytes plain.toBytes) ∧
    (∀ (b : Kip1Builder) image, b.Fits → b.build = ok image → RejectsTruncated Kip1.tryFromBytes image) ∧
    (∀ (δ : Type) (lz4 : Packer δ) sha256 (b : NsoBuilder) image,
      (∀ text rodata data, b.Sets text rodata data → b.Fits lz4 text rodata data) →
      b.build lz4 sha256 = ok image → RejectsTruncated Nso.tryFromBytes image) ∧
    ∀ (ε : Type) (b : NpdmBuilder) image, b.Fits → (b.build : Outcome ε _) = ok image →
      RejectsTruncated Npdm.tryFromBytes image :=
  ⟨fun _ _ _ => Pfs.rejectsTruncated_build, fun _ _ _ => Romfs.rejectsTruncated_build,
    fun _ _ _ _ _ _ => Romfs.rejectsTruncated_fromDirectory, fun _ _ _ => Archive.rejectsTruncated_build,
    fun _ _ => Kip.rejectsTruncated_build, fun _ _ _ _ _ => NsoBuilder.rejectsTruncated_build,
    fun _ _ _ => NpdmBuilder.rejectsTruncated_build⟩

theorem built_rejectsTruncated_samples :
    (∃ image, (Pfs0Builder.build ⟨twoFiles⟩ : Outcome Unit _) = ok image ∧
      RejectsTruncated Pfs0.tryFromBytes image) ∧
    (∃ image, nestedTree.builder.build = ok image ∧ RejectsTruncated RomFs.tryFromBytes image) ∧
    (∃ image, twoTree.builder.build = ok image ∧ RejectsTruncated RomFs.tryFromBytes image) ∧
    (∃ plain, pairedArchive.build cutHash = ok plain ∧ RejectsTruncated Nca.tryFromBytes plain.toBytes) ∧
    RejectsTruncated Kip1.tryFromBytes mixedBuilder.image ∧
    (∃ image, sampleNso.build runPacker (fun _ => List.Vector.replicate 0x20 0) = ok image ∧
      RejectsTruncated Nso.tryFromBytes image) ∧
    ∃ image, (sampleTitle.build : Outcome Unit _) = ok image ∧ RejectsTruncated Npdm.tryFromBytes image := by
  obtain ⟨hpfs, hromfs, hdirectory, hnca, hkip, hnso, hnpdm⟩ := built_rejectsTruncated
  refine ⟨?_, ?_, ?_, ?_, hkip _ _ (Kip1Builder.fits_of_contents mixedBuilder_contents) mixedBuilder_build, ?_, ?_⟩
  · have hbuild := Pfs.build_eq (ε := Unit) (b := ⟨twoFiles⟩) (by decide) (by decide) (by decide)
    exact ⟨_, hbuild, hpfs _ _ _ (by decide) (by decide) hbuild⟩
  · obtain ⟨image, hbuild⟩ := RomFsBuilder.exists_build (List.cons_ne_nil _ _) nestedFiles_added nestedTree_fits
    exact ⟨image, hbuild, hromfs _ _ _ nestedFiles_added nestedTree_fits hbuild⟩
  · have hfits := fits_of_sort_eq twoTree_sort
    have hbuild := Tree.build_builder (List.cons_ne_nil _ _) (twoTree.fits_sort hfits).2
    have hhost := twoDirectories_isHost (List.Perm.refl _)
    exact ⟨_, hbuild, hdirectory _ _ _ _ _ _ hhost twoDirectories_read hfits hbuild⟩
  · obtain ⟨plain, hplain⟩ := pairedArchive_build
    exact ⟨plain, hplain, hnca _ _ _ hplain⟩
  · have hsets : sampleNso.Sets countingPage [] [3] := ⟨rfl, rfl, rfl⟩
    have hbuild : sampleNso.build runPacker (fun _ => List.Vector.replicate 0x20 0) = ok _ :=
      NsoBuilder.build_eq hsets sampleNso_fits
    refine ⟨_, hbuild, hnso _ _ _ _ _ (fun text rodata data h => ?_) hbuild⟩
    obtain rfl := Option.some.inj (hsets.hasText.symm.trans h.hasText)
    obtain rfl := Option.some.inj (hsets.hasRodata.symm.trans h.hasRodata)
    obtain rfl := Option.some.inj (hsets.hasData.symm.trans h.hasData)
    exact sampleNso_fits
  · have hfits : sampleTitle.Fits := ⟨by decide +kernel, by decide +kernel⟩
    have hbuild := NpdmBuilder.build_eq (ε := Unit) hfits
    exact ⟨_, hbuild, hnpdm _ _ _ hfits hbuild⟩

end Builders
end NxObject
