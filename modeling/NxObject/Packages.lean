import NxObject.NcaRoundtrip
import NxObject.Pfs0Directory
import NxObject.RomFsMirror

/-!
# Packages

A package is an archive of archives: a directory of the host becomes a RomFS image, another one a PFS0 archive,
the two become sections of an NCA, and the NCA a file of a PFS0 archive. The readers undo it layer by layer.
-/
namespace NxObject
open Outcome Host

variable {ι ε : Type}

namespace Pfs

lemma fileByName_build {b : Pfs0Builder} (h : Addable b.files) (hfits : b.Fits) :
    ∃ image pfs, (b.build : Outcome ε _) = ok image ∧ Pfs0.tryFromBytes image = ok pfs ∧
      (∀ δ : Type, ∀ f ∈ b.files, (pfs.fileByName f.name : Outcome δ _) = ok (some f.toFile)) ∧
      (∀ δ : Type, ∀ name, (∀ f ∈ b.files, f.name ≠ name) → (pfs.fileByName name : Outcome δ _) = ok none) ∧
      pfs.fileCount = b.files.length := by
  have hperm : b.sorted.Perm b.files := List.mergeSort_perm _ _
  have hsorted := h.perm hperm
  obtain ⟨hvalid, hviews⟩ := archive_valid hsorted.1 (hperm.length_eq ▸ hfits.count)
    (stringTableSize_perm hperm ▸ hfits.names) (archiveSize_perm hperm ▸ hfits.size)
  refine ⟨_, _, build_eq hfits.count hfits.names hfits.size, tryFromBytes_eq_ok.mpr ⟨rfl, hvalid⟩, fun δ f hf => ?_,
    fun δ name hname => ?_, ?_⟩
  · rw [Pfs0.fileByName_eq hvalid, hviews, find?_toFile hsorted (hperm.mem_iff.mpr hf)]
  · rw [Pfs0.fileByName_eq hvalid, hviews, ok.injEq, List.find?_eq_none]
    intro file hfile
    obtain ⟨f, hf, rfl⟩ := List.mem_map.mp hfile
    exact fun heq => hname f (hperm.mem_iff.mp hf) (of_decide_eq_true heq)
  · have hlength := congrArg List.length hviews
    rwa [List.length_map, List.length_map, hperm.length_eq] at hlength

end Pfs

lemma Romfs.opensAsHost_build {fuel : ℕ} {fsPath : HostPath} {listing : Listing ι} {b : Romfs.RomFsBuilder}
    {image : Bytes} (hroot : IsHost (.dir listing)) (hread : Romfs.RomFsBuilder.fromDirectory fuel fsPath listing = ok b)
    (hfits : b.Fits) (hbuild : b.build = ok image) : ∃ romfs turns, Romfs.RomFs.tryFromBytes image = ok romfs ∧
      ∀ fuel ≥ turns, ∀ path, Romfs.OpensAsHost (.dir listing) romfs fuel path := by
  obtain ⟨t, rfl, hreading⟩ := Romfs.fromDirectory_eq_ok hroot hread
  have hmirrors := Romfs.mirrors_of_reading hroot hreading
  obtain ⟨hsort, hsize⟩ := t.fits_sort hfits
  by_cases hfiles : t.files = []
  · rw [Romfs.Tree.build_of_files_eq_nil hfiles] at hbuild
    cases hbuild
  · rw [Romfs.Tree.build_builder hfiles hsize] at hbuild
    obtain rfl := ok.inj hbuild
    exact ⟨t.sort.romfs, t.sort.dirs.length + t.sort.paths.length + 1, Romfs.Tree.tryFromBytes_image hsize,
      fun fuel hfuel => hmirrors.opensAsHost hsort (Romfs.Tree.stores_romfs hsize) hfuel⟩

/-- A package as the builders put it together: two directories of the host, sections of an archive, and files of
the package, the archive among them. -/
structure Packed (H : Bytes → Archive.Digest) (romfsDir : Listing ι)
    (exefsDir : List (Except ι (Bytes × Except ι (Node ι)))) (b : Archive.NcaBuilder)
    (i j : Fin Archive.NCA_SECTION_COUNT) (name : Text) (package : Pfs.Pfs0Builder) : Prop where
  romfsHost : IsHost (.dir romfsDir)
  exefsHost : IsHost (.dir (.ok exefsDir))
  romfs : ∃ fuel fsPath builder image encryption,
    Romfs.RomFsBuilder.fromDirectory fuel fsPath romfsDir = ok builder ∧ builder.Fits ∧ builder.build = ok image ∧
    b.sections i = some ⟨.romFs image, encryption⟩
  exefs : ∃ (fsPath : HostPath) (builder : Pfs.Pfs0Builder) (image : Bytes) (blockSize : UInt32)
      (encryption : Archive.SectionEncryption),
    Pfs.Pfs0Builder.fromDirectory fsPath (.ok exefsDir) = ok builder ∧ builder.Fits ∧
    builder.build = (ok image : Outcome Empty _) ∧ b.sections j = some ⟨.partition image blockSize, encryption⟩
  archive : ∃ plain, b.build H = ok plain ∧ Pfs.FileEntry.mk name plain.toBytes ∈ package.files
  added : Pfs.addFiles package.files = ok package
  fits : package.Fits

/-- The readers undo what the builders packed. In the package the archive is found under its name, its sections
are the image and the archive of the two directories, and these hold what the host has. -/
theorem package_reads {H : Bytes → Archive.Digest} {romfsDir : Listing ι}
    {exefsDir : List (Except ι (Bytes × Except ι (Node ι)))} {b : Archive.NcaBuilder}
    {i j : Fin Archive.NCA_SECTION_COUNT} {name : Text} {package : Pfs.Pfs0Builder}
    (h : Packed H romfsDir exefsDir b i j name package) :
    ∃ (bytes : Bytes) (pfs : Pfs.Pfs0) (file : Pfs.Pfs0File) (nca : Archive.Nca) (romfsSection exefsSection : Archive.NcaSection)
      (romfs : Romfs.RomFs) (exefs : Pfs.Pfs0) (listed : List Pfs.FileEntry) (turns : ℕ),
      (package.build : Outcome ε _) = ok bytes ∧ Pfs.Pfs0.tryFromBytes bytes = ok pfs ∧
      (pfs.fileByName name : Outcome ε _) = ok (some file) ∧ Archive.Nca.tryFromBytes file.data = ok nca ∧
      (nca.sectionAt i : Outcome ε _) = ok (some romfsSection) ∧ Romfs.RomFs.tryFromBytes romfsSection.data = ok romfs ∧
      (∀ fuel ≥ turns, ∀ path, Romfs.OpensAsHost (.dir romfsDir) romfs fuel path) ∧
      (nca.sectionAt j : Outcome ε _) = ok (some exefsSection) ∧
      Pfs.Pfs0.tryFromBytes exefsSection.data = ok exefs ∧
      (exefs.files : Outcome ε _) = ok (listed.map Pfs.FileEntry.toFile) ∧
      ∀ f, f ∈ listed ↔ Pfs.Lists exefsDir f := by
  obtain ⟨fuel, fsPath, romfsBuilder, romfsImage, encryption, hromfsRead, hromfsFits, hromfsBuild, hromfsSection⟩ :=
    h.romfs
  obtain ⟨fsPath', exefsBuilder, exefsImage, blockSize, encryption', hexefsRead, hexefsFits, hexefsBuild,
    hexefsSection⟩ := h.exefs
  obtain ⟨plain, hplain, hmem⟩ := h.archive
  obtain ⟨haddable, -⟩ := Pfs.addFiles_eq_ok.mp h.added
  obtain ⟨bytes, pfs, hbuild, hpfs, hfound, -⟩ := Pfs.fileByName_build (ε := ε) haddable h.fits
  obtain ⟨nca, hnca, hcontents⟩ := Archive.build_contents (ε := ε) hplain
  obtain ⟨romfsSection, hromfsAt, hromfsData⟩ := hcontents i _ hromfsSection
  obtain ⟨exefsSection, hexefsAt, hexefsData⟩ := hcontents j _ hexefsSection
  obtain ⟨romfs, turns, hromfs, hopens⟩ :=
    Romfs.opensAsHost_build h.romfsHost hromfsRead hromfsFits hromfsBuild
  have hmirrors := Pfs.mirrors_of_eq_ok h.exefsHost hexefsRead
  obtain ⟨image, exefs, hexefsBuild', hexefs, hfiles⟩ :=
    Pfs.build_sorted (ε := Empty) (δ := ε) hmirrors.addable hmirrors.sorted hexefsFits
  obtain rfl := ok.inj (hexefsBuild.symm.trans hexefsBuild')
  exact ⟨bytes, pfs, _, nca, romfsSection, exefsSection, romfs, exefs, exefsBuilder.files, turns, hbuild, hpfs,
    hfound ε _ hmem, hnca, hromfsAt, (congrArg _ hromfsData).trans hromfs, hopens, hexefsAt,
    (congrArg _ hexefsData).trans hexefs, hfiles, hmirrors.files⟩

/-! ## A small package -/

namespace Romfs

lemma twoTree_build : ∃ image, twoTree.builder.build = ok image ∧ image.length ≤ 0x4000 := by
  have hsize : twoTree.imageSize ≤ 0x4000 := by decide +kernel
  refine ⟨_, Tree.build_builder (List.cons_ne_nil _ _) ?_, ?_⟩
  · rw [twoTree_sort]
    exact lt_of_le_of_lt hsize (by decide)
  · rw [Tree.image_length, twoTree_sort]
    exact hsize

end Romfs

theorem package_reads_small : ∃ (b : Archive.NcaBuilder) (package : Pfs.Pfs0Builder) (bytes : Bytes) (pfs : Pfs.Pfs0)
    (file : Pfs.Pfs0File) (nca : Archive.Nca),
    Packed (fun _ => Archive.zeroes Archive.HASH_SIZE) (.ok Romfs.twoDirectories) Pfs.twoFilesListed b 0 1 ['n'] package ∧
      (package.build : Outcome Unit _) = ok bytes ∧ Pfs.Pfs0.tryFromBytes bytes = ok pfs ∧
      (pfs.fileByName ['n'] : Outcome Unit _) = ok (some file) ∧ Archive.Nca.tryFromBytes file.data = ok nca := by
  obtain ⟨romfsImage, hromfs, hromfsLength⟩ := Romfs.twoTree_build
  have hfits : Pfs.Pfs0Builder.Fits ⟨[⟨['a'], [2, 3]⟩, ⟨['b'], [1]⟩]⟩ := ⟨by decide, by decide, by decide⟩
  have hexefs := Pfs.build_eq (ε := Empty) hfits.count hfits.names hfits.size
  set exefsImage := (Pfs.archive (Pfs.Pfs0Builder.sorted ⟨[⟨['a'], [2, 3]⟩, ⟨['b'], [1]⟩]⟩)).toBytes with hexefsImage
  have hexefsLength : exefsImage.length = 0x63 := by
    have hperm : (Pfs.Pfs0Builder.sorted ⟨[⟨['a'], [2, 3]⟩, ⟨['b'], [1]⟩]⟩).Perm
        [⟨['a'], [2, 3]⟩, ⟨['b'], [1]⟩] := List.mergeSort_perm _ _
    rw [hexefsImage, Pfs.archive_toBytes_length, Pfs.archiveSize_perm hperm]
    decide
  let b : Archive.NcaBuilder :=
    { contentType := .program
      titleId := 1
      sections := fun i =>
        if i = 0 then some ⟨.romFs romfsImage, .none⟩
        else if i = 1 then some ⟨.partition exefsImage 0x4000, .none⟩ else none }
  have hsmall : ∀ i sect, b.sections i = some sect → sect.Small := by
    intro i sect hsect
    simp only [b] at hsect
    split_ifs at hsect
    · obtain rfl := Option.some.inj hsect
      exact ⟨hromfsLength, trivial⟩
    · obtain rfl := Option.some.inj hsect
      exact ⟨hexefsLength.trans_le (by decide), by decide, hexefsLength.trans_le (by decide)⟩
  obtain ⟨plain, hplain, hlength⟩ :=
    Archive.NcaBuilder.build_small (H := fun _ => Archive.zeroes Archive.HASH_SIZE) hsmall
  have hname : Pfs.ValidName ['n'] := ⟨by decide, by decide, by decide, by decide⟩
  have hpacked : Packed (fun _ => Archive.zeroes Archive.HASH_SIZE) (.ok Romfs.twoDirectories) Pfs.twoFilesListed b 0 1 ['n']
      ⟨[⟨['n'], plain.toBytes⟩]⟩ :=
    { romfsHost := Romfs.twoDirectories_isHost (List.Perm.refl _)
      exefsHost := Pfs.twoFilesListed_isHost
      romfs := ⟨4, [], _, romfsImage, .none, Romfs.twoDirectories_read, Romfs.fits_of_sort_eq Romfs.twoTree_sort, hromfs,
        rfl⟩
      exefs := ⟨[], _, exefsImage, 0x4000, .none, Pfs.twoFilesListed_read, hfits, hexefs, rfl⟩
      archive := ⟨plain, hplain, List.mem_singleton_self _⟩
      added := Pfs.addFiles_eq_ok.mpr ⟨⟨by simpa using hname, by simp⟩, rfl⟩
      fits := by
        have htable : Pfs.stringTableSize [⟨['n'], plain.toBytes⟩] = 0x20 := by
          rw [Pfs.stringTableSize, Pfs.nameTable_length, List.map_singleton, List.sum_singleton]
          exact (by decide : Placement.alignUp 0x20 ((utf8 ['n']).length + 1) = 0x20)
        refine ⟨(by decide : 1 < 2 ^ 32), by rw [htable]; decide, ?_⟩
        have hsize : Pfs.archiveSize [⟨['n'], plain.toBytes⟩] = 0x48 + plain.toBytes.length := by
          simp [Pfs.archiveSize, htable, Pfs.contents]
        rw [hsize]
        omega }
  obtain ⟨bytes, pfs, file, nca, -, -, -, -, -, -, hbuild, hpfs, hfile, hnca, -⟩ := package_reads (ε := Unit) hpacked
  exact ⟨b, _, bytes, pfs, file, nca, hpacked, hbuild, hpfs, hfile, hnca⟩

end NxObject
