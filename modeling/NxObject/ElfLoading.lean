import NxObject.ElfBss
import NxObject.ImageMapping

/-!
# What the images built from an ELF are mapped as

The program headers say which byte is to stand at which address. A loader that maps the NSO or the NRO built
from the file puts the same byte there, apart from the header of an NRO, which lies over its code.
-/
namespace NxObject.Elf
open Outcome Memory Placement

variable {E : Type}

/-! ## The memory an ELF describes -/

/-- The file bytes of a loadable segment, filled up to its size in memory. -/
def ProgramHeader.region (header : ProgramHeader) : Region :=
  .filled header.pVaddr.toNat (header.contents.getD []) header.pMemsz.toNat

def ElfFile.regions (elf : ElfFile) : List Region := elf.loads.map (·.region)

/-- The three segments on their pages, the last one with the BSS behind it. -/
def ElfSegments.regions (segments : ElfSegments) : List Region :=
  [.filled segments.textVaddr.toNat segments.text (alignUp 0x1000 segments.text.length),
    .filled segments.rodataVaddr.toNat segments.rodata (alignUp 0x1000 segments.rodata.length),
    .filled segments.dataVaddr.toNat segments.data
      (alignUp 0x1000 segments.data.length + segments.bssSize.toNat)]

namespace Loaded

def region (seg : Loaded) : Region := .filled seg.address.toNat seg.data seg.memsz.toNat

end Loaded

/-- A file that is linked for the container formats: no segment is dropped, all that is loaded belongs to the
first three, apart from zeroes behind the third, and addresses fit their fields. -/
structure Linked (elf : ElfFile) (segments : ElfSegments) (sorted : List Loaded) : Prop where
  conforms : elf.Conforms
  kept : ∀ header ∈ elf.loads, elf.Kept header
  mapped : Mapped sorted
  memory : ∀ seg ∈ sorted, seg.filesz.toNat ≤ seg.memsz.toNat
  pages : ∀ seg ∈ sorted.take 2, seg.memsz.toNat ≤ seg.pages
  rest : ∀ seg ∈ sorted.drop 3, seg.data = []
  fourth : FourthAdjoins sorted
  address : ∀ seg ∈ sorted.take 3, seg.address.toNat < 2 ^ 32
  bss : segments.bssSize.toNat < 2 ^ 32

section Linked
variable {elf : ElfFile} {segments : ElfSegments} {sorted : List Loaded}

lemma exists_loaded (hparsed : Parsed E elf segments sorted) (hlinked : Linked elf segments sorted)
    {header : ProgramHeader} (h : header ∈ elf.loads) : ∃ seg ∈ sorted, seg.region = header.region := by
  have hkept := ElfFile.mem_keptHeaders.mpr (hlinked.kept header h)
  have hpaired : header.segment ∈ elf.pairedSegments := by
    rw [ElfFile.pairedSegments_eq hlinked.conforms]
    exact List.mem_map_of_mem hkept
  have hmem : header.segment ∈ sorted.map (·.segment) := by
    rw [hparsed.loaded]
    exact (mem_sortOn _).mpr hpaired
  obtain ⟨seg, hseg, hsame⟩ := List.mem_map.mp hmem
  refine ⟨seg, hseg, ?_⟩
  have haddress : seg.address = header.pVaddr := congrArg Segment.address hsame
  have hmemsz : seg.memsz = header.pMemsz := congrArg Segment.size hsame
  have hdata : some seg.data = header.contents := congrArg Segment.data hsame
  rw [Loaded.region, ProgramHeader.region, haddress, hmemsz, ← hdata, Option.getD_some]

lemma pages_le (hlinked : Linked elf segments sorted) {seg : Loaded} (before : List Loaded) {after : List Loaded}
    (hsorted : sorted = before ++ seg :: after) {later : Loaded} (hlater : later ∈ after)
    (hmemory : 0 < later.memsz.toNat) :
    seg.address.toNat + alignUp 0x1000 seg.data.length ≤ later.address.toNat := by
  have hmem : seg ∈ sorted := by simp [hsorted]
  have hmem' : later ∈ sorted := by simp [hsorted, hlater]
  have hpairs := hlinked.mapped.sorted
  have hapart := hlinked.mapped.disjoint
  rw [hsorted, List.pairwise_append, List.pairwise_cons] at hpairs hapart
  rw [hlinked.mapped.stored seg hmem]
  exact pages_le_of_disjoint (hpairs.2.1.1 later hlater) (hapart.2.1.1 later hlater)
    (hlinked.mapped.aligned seg hmem) (hlinked.mapped.aligned later hmem') hmemory (hlinked.memory seg hmem)

lemma Region.mem_filled {seg : Loaded} (hstored : seg.data.length ≤ seg.memsz.toNat) {a : ℕ} {x : UInt8} :
    seg.region.byteAt a = some x ↔ seg.address.toNat ≤ a ∧ a < seg.address.toNat + seg.memsz.toNat ∧
      seg.data.getD (a - seg.address.toNat) 0 = x :=
  Region.filled_byteAt hstored

lemma exists_segments (hparsed : Parsed E elf segments sorted) : ∃ text rodata data rest,
    sorted = text :: rodata :: data :: rest ∧
      (segments.textVaddr = text.address ∧ segments.text = text.data) ∧
      (segments.rodataVaddr = rodata.address ∧ segments.rodata = rodata.data) ∧
      segments.dataVaddr = data.address ∧ segments.data = data.data := by
  have hlength := hparsed.length
  have hpicked := hparsed.picked
  rcases sorted with _ | ⟨text, _ | ⟨rodata, _ | ⟨data, rest⟩⟩⟩
  · exact absurd hlength (by simp)
  · exact absurd hlength (by simp)
  · exact absurd hlength (by simp)
  · simp only [ElfSegments.picked, List.take_succ_cons, List.take_zero, List.map_cons, List.map_nil,
      List.cons.injEq, Prod.mk.injEq, Option.some.injEq] at hpicked
    exact ⟨text, rodata, data, rest, rfl, hpicked.1, hpicked.2.1, hpicked.2.2.1⟩

/-- Everything the program headers describe is found in the three segments and their BSS. -/
theorem mapped_regions (hparsed : Parsed E elf segments sorted) (hlinked : Linked elf segments sorted)
    {a : ℕ} {x : UInt8} (h : mapped elf.regions a = some x) : mapped segments.regions a = some x := by
  obtain ⟨region, hregion, hbyte⟩ := exists_of_mapped h
  obtain ⟨header, hheader, rfl⟩ := List.mem_map.mp hregion
  obtain ⟨seg, hseg, hsame⟩ := exists_loaded hparsed hlinked hheader
  have hfile : seg.data.length ≤ seg.memsz.toNat :=
    (hlinked.mapped.stored seg hseg).le.trans (hlinked.memory seg hseg)
  rw [← hsame, Region.mem_filled hfile] at hbyte
  obtain ⟨hstart, hstop, hvalue⟩ := hbyte
  have hcovers := hparsed.zeroed_subset (covered_of_fourthAdjoins hlinked.mapped hlinked.fourth)
  obtain ⟨text, rodata, data, rest, rfl, ⟨htextAt, htext⟩, ⟨hrodataAt, hrodata⟩, hdataAt, hdata⟩ :=
    exists_segments hparsed
  have hle : ∀ bytes : Bytes, bytes.length ≤ alignUp 0x1000 bytes.length := fun bytes =>
    le_alignUp (by decide) _
  have hpages : ∀ {seg}, seg ∈ [text, rodata] → seg.memsz.toNat ≤ alignUp 0x1000 seg.data.length := by
    intro seg hmem
    have hmem' : seg ∈ text :: rodata :: data :: rest := by
      simp only [List.mem_cons, List.not_mem_nil, or_false] at hmem ⊢
      tauto
    rw [hlinked.mapped.stored seg hmem']
    exact hlinked.pages seg hmem
  have hbacked : segments.backed = Set.Ico data.address.toNat (data.address.toNat +
      alignUp 0x1000 data.data.length + segments.bssSize.toNat) := by
    rw [ElfSegments.backed, hdataAt, hdata, padded_length (by decide)]
  have hmemory : 0 < seg.memsz.toNat := by omega
  rw [ElfSegments.regions, htextAt, htext, hrodataAt, hrodata, hdataAt, hdata]
  -- A byte of a segment is found behind the pages of the segments before it.
  rcases List.mem_cons.mp hseg with rfl | hseg
  · refine mapped_cons_of_some ((Region.filled_byteAt (hle _)).mpr ⟨hstart, ?_, hvalue⟩)
    have := hpages List.mem_cons_self
    omega
  have hbehindText := pages_le hlinked [] rfl hseg hmemory
  rw [mapped_cons_of_none (Region.filled_outside (hle _) (Or.inr (hbehindText.trans hstart)))]
  rcases List.mem_cons.mp hseg with rfl | hseg
  · refine mapped_cons_of_some ((Region.filled_byteAt (hle _)).mpr ⟨hstart, ?_, hvalue⟩)
    have := hpages (List.mem_cons_of_mem _ List.mem_cons_self)
    omega
  have hbehindRodata := pages_le hlinked [text] rfl hseg hmemory
  rw [mapped_cons_of_none (Region.filled_outside (hle _) (Or.inr (hbehindRodata.trans hstart)))]
  have hleData : data.data.length ≤ alignUp 0x1000 data.data.length + segments.bssSize.toNat :=
    (hle _).trans (Nat.le_add_right _ _)
  have hcovered := hcovers seg hseg
  rw [hbacked] at hcovered
  refine mapped_cons_of_some ((Region.filled_byteAt hleData).mpr ?_)
  rcases List.mem_cons.mp hseg with rfl | hrest
  · have hstored := hlinked.mapped.stored seg (by simp)
    refine ⟨hstart, ?_, hvalue⟩
    rcases Nat.lt_or_ge a (seg.address.toNat + seg.filesz.toNat) with hbytes | hzero
    · omega
    · have hback := (hcovered ⟨hzero, hstop⟩).2
      omega
  · have hempty := hlinked.rest seg hrest
    have hstored := hlinked.mapped.stored seg (by simp [hrest])
    rw [hempty, List.length_nil] at hstored
    rw [hempty, List.getD_nil] at hvalue
    have hbehind := pages_le hlinked [text, rodata] rfl hrest hmemory
    have hback := hcovered ⟨by omega, hstop⟩
    have hlenData := hle data.data
    refine ⟨hback.1, by have := hback.2; omega, ?_⟩
    rw [List.getD_eq_default _ _ (by omega), hvalue]

lemma toUInt32_toNat {n : UInt64} (h : n.toNat < 2 ^ 32) : n.toUInt32.toNat = n.toNat := by
  rw [UInt64.toNat_toUInt32, Nat.mod_eq_of_lt h]

lemma fields_toNat (hparsed : Parsed E elf segments sorted) (hlinked : Linked elf segments sorted) :
    segments.textVaddr.toUInt32.toNat = segments.textVaddr.toNat ∧
      segments.rodataVaddr.toUInt32.toNat = segments.rodataVaddr.toNat ∧
      segments.dataVaddr.toUInt32.toNat = segments.dataVaddr.toNat ∧
      segments.bssSize.toUInt32.toNat = segments.bssSize.toNat := by
  obtain ⟨text, rodata, data, rest, rfl, ⟨htextAt, -⟩, ⟨hrodataAt, -⟩, hdataAt, -⟩ := exists_segments hparsed
  have haddress := hlinked.address
  rw [List.take_succ_cons, List.take_succ_cons, List.take_succ_cons, List.take_zero] at haddress
  rw [htextAt, hrodataAt, hdataAt]
  exact ⟨toUInt32_toNat (haddress text (by simp)), toUInt32_toNat (haddress rodata (by simp)),
    toUInt32_toNat (haddress data (by simp)), toUInt32_toNat hlinked.bss⟩

lemma ends_le (hparsed : Parsed E elf segments sorted) (hlinked : Linked elf segments sorted)
    (hmemory : ∀ seg ∈ sorted.take 3, 0 < seg.memsz.toNat) :
    segments.textVaddr.toNat + alignUp 0x1000 segments.text.length ≤ segments.rodataVaddr.toNat ∧
      segments.rodataVaddr.toNat + alignUp 0x1000 segments.rodata.length ≤ segments.dataVaddr.toNat := by
  obtain ⟨text, rodata, data, rest, rfl, ⟨htextAt, htext⟩, ⟨hrodataAt, hrodata⟩, hdataAt, -⟩ :=
    exists_segments hparsed
  rw [List.take_succ_cons, List.take_succ_cons, List.take_succ_cons, List.take_zero] at hmemory
  rw [htextAt, htext, hrodataAt, hrodata, hdataAt]
  exact ⟨pages_le hlinked [] rfl List.mem_cons_self (hmemory rodata (by simp)),
    pages_le hlinked [text] rfl List.mem_cons_self (hmemory data (by simp))⟩

end Linked

/-! ## The images -/

lemma intoNroBuilder_laid {segments : ElfSegments} (htextAt : segments.textVaddr = 0) (htext : segments.text ≠ [])
    (htextEnd : alignUp 0x1000 segments.text.length ≤ segments.rodataVaddr.toUInt32.toNat)
    (hrodataEnd : segments.rodataVaddr.toUInt32.toNat + alignUp 0x1000 segments.rodata.length ≤
      segments.dataVaddr.toUInt32.toNat)
    (hsize : segments.dataVaddr.toUInt32.toNat + alignUp 0x1000 segments.data.length < 2 ^ 32) :
    segments.intoNroBuilder.Laid segments.text segments.rodata segments.data := by
  have hnro : segments.intoNroBuilder.nroSize segments.data < 2 ^ 32 := by
    rwa [Relocatable.NroBuilder.nroSize, padded_length (by decide)]
  refine ⟨rfl, rfl, rfl, ?_, htext, ?_, ?_, hnro, hnro.trans (by decide)⟩
  · rw [ElfSegments.intoNroBuilder, htextAt]
    rfl
  · rwa [padded_length (by decide)]
  · rwa [padded_length (by decide)]

section Images
variable {object : Bytes → Except E ElfFile} {bytes : Bytes} {elf : ElfFile} {segments : ElfSegments}
  (helf : object bytes = .ok elf) (hparse : ElfSegments.parse object bytes = ok segments)
include helf hparse

lemma exists_parsed : ∃ sorted, Parsed E elf segments sorted := by
  obtain ⟨elf', sorted, helf', -, hparsed⟩ := parsed_of_parse hparse
  obtain rfl := Except.ok.inj (helf.symm.trans helf')
  exact ⟨sorted, hparsed⟩

/-- A loader that maps the NSO of a linked file puts at every address the byte that the program headers ask
for. -/
theorem intoNsoBuilder_maps {δ : Type} {lz4 : Executable.Packer δ} (hlz4 : lz4.Lossless)
    (sha256 : Bytes → Executable.Digest)
    (hlinked : ∀ sorted, Parsed E elf segments sorted → Linked elf segments sorted)
    (hfits : segments.intoNsoBuilder.Fits lz4 segments.text segments.rodata segments.data) :
    ∃ image nso regions, segments.intoNsoBuilder.build lz4 sha256 = ok image ∧
      Executable.Nso.tryFromBytes image = ok nso ∧ nso.load lz4 = ok regions ∧
      ∀ a x, mapped elf.regions a = some x → mapped regions a = some x := by
  obtain ⟨sorted, hparsed⟩ := exists_parsed helf hparse
  have hlinked := hlinked sorted hparsed
  obtain ⟨htextAt, hrodataAt, hdataAt, hbss⟩ := fields_toNat hparsed hlinked
  have hload := Executable.NsoBuilder.load_read hlz4 sha256 hfits
  refine ⟨_, _, _, Executable.NsoBuilder.build_eq ⟨rfl, rfl, rfl⟩ hfits,
    Executable.Nso.tryFromBytes_eq_ok.mpr ⟨rfl, Executable.NsoBuilder.read_valid sha256 hfits⟩, hload, ?_⟩
  intro a x hbyte
  have hfound := mapped_regions hparsed hlinked hbyte
  rwa [ElfSegments.regions, ← htextAt, ← hrodataAt, ← hdataAt, ← hbss] at hfound

/-- A loader that maps the NRO of a linked file puts the same bytes there, except where the header of the NRO
lies over the code. -/
theorem intoNroBuilder_maps {ε : Type}
    (hlinked : ∀ sorted, Parsed E elf segments sorted → Linked elf segments sorted)
    (hmemory : ∀ sorted, Parsed E elf segments sorted → ∀ seg ∈ sorted.take 3, 0 < seg.memsz.toNat)
    (htextAt : segments.textVaddr = 0) (htext : segments.text ≠ [])
    (hsize : segments.dataVaddr.toNat + alignUp 0x1000 segments.data.length < 2 ^ 32) :
    ∃ image nro regions, segments.intoNroBuilder.build = ok image ∧
      Relocatable.Nro.tryFromBytes image = ok nro ∧ (nro.load : Outcome ε _) = ok regions ∧
      ∀ a x, ¬ (0x10 ≤ a ∧ a < 0x80) → mapped elf.regions a = some x → mapped regions a = some x := by
  obtain ⟨sorted, hparsed⟩ := exists_parsed helf hparse
  have hlinked := hlinked sorted hparsed
  obtain ⟨htextAt', hrodataAt, hdataAt, hbss⟩ := fields_toNat hparsed hlinked
  obtain ⟨htextEnd, hrodataEnd⟩ := ends_le hparsed hlinked (hmemory sorted hparsed)
  have hzero : segments.textVaddr.toNat = 0 := by
    rw [htextAt]
    rfl
  have hlaid : segments.intoNroBuilder.Laid segments.text segments.rodata segments.data :=
    intoNroBuilder_laid htextAt htext (by omega) (by omega) (by omega)
  obtain ⟨segment, hload, hsegment⟩ := Relocatable.NroBuilder.load_read (ε := ε) hlaid
  refine ⟨_, _, _, Relocatable.NroBuilder.build_eq hlaid,
    Relocatable.Nro.tryFromBytes_eq_ok.mpr ⟨rfl, Relocatable.NroBuilder.read_valid hlaid⟩, hload, ?_⟩
  intro a x ha hbyte
  have hfound := mapped_regions hparsed hlinked hbyte
  rw [ElfSegments.regions, hzero, ← hrodataAt, ← hdataAt, ← hbss] at hfound
  rw [← hfound]
  exact mapped_cons_congr (hsegment a ha) _

end Images

/-! ## A linked file -/

def zeroFilledElf : ElfFile :=
  tableOf [pageHeader PT_LOAD 0, pageHeader PT_LOAD 1, ⟨PT_LOAD, 0x2000, 0x1801, 1, some [2]⟩]

def zeroFilledSegments : List Loaded := [loadedPage 0, loadedPage 1, ⟨0x2000, [2], 0x1801, 1⟩]

lemma zeroFilledSegments_bss :
    (bssSizeOf zeroFilledSegments : Outcome (ParseError Empty) _) = ok 0x1000 := by
  decide

lemma zeroFilledElf_parse : ∃ segments, ElfSegments.parse (alwaysFinds zeroFilledElf) [] = ok segments ∧
    segments.picked = zeroFilledSegments.map fun loaded => (loaded.address, some loaded.data) := by
  have hloaded : zeroFilledElf.pairedSegments.mapM readSegment =
      (ok zeroFilledSegments : Outcome (ParseError Empty) _) := by decide
  exact parse_of_sorted rfl rfl hloaded (sortOn_of_pairwise _ (by decide)) rfl zeroFilledSegments_bss rfl rfl

lemma zeroFilledElf_sorted {segments : ElfSegments} {sorted : List Loaded}
    (h : Parsed Empty zeroFilledElf segments sorted) : sorted = zeroFilledSegments := by
  have hinj : Function.Injective Loaded.segment := by
    rintro ⟨address, data, memsz, filesz⟩ ⟨address', data', memsz', filesz'⟩ heq
    simp only [Loaded.segment, Segment.mk.injEq, Option.some.injEq] at heq
    obtain ⟨rfl, rfl, rfl, rfl⟩ := heq
    rfl
  have hloaded := h.loaded
  rw [sortOn_of_pairwise _ (by decide)] at hloaded
  exact hinj.list_map hloaded

lemma zeroFilledElf_fields {segments : ElfSegments} {sorted : List Loaded}
    (h : Parsed Empty zeroFilledElf segments sorted) :
    (segments.textVaddr = 0 ∧ segments.text = [0]) ∧ segments.rodata = [1] ∧
      segments.dataVaddr = 0x2000 ∧ segments.data = [2] := by
  have hpicked := h.picked
  obtain rfl := zeroFilledElf_sorted h
  simp only [ElfSegments.picked, zeroFilledSegments, List.take_succ_cons, List.take_zero, List.map_cons,
    List.map_nil, List.cons.injEq, Prod.mk.injEq, Option.some.injEq] at hpicked
  obtain ⟨htext, ⟨-, hrodata⟩, hdata, -⟩ := hpicked
  exact ⟨htext, hrodata, hdata⟩

lemma zeroFilledElf_linked {segments : ElfSegments} {sorted : List Loaded}
    (h : Parsed Empty zeroFilledElf segments sorted) : Linked zeroFilledElf segments sorted := by
  obtain ⟨bss, hbss, hsize⟩ := h.bss
  obtain rfl := zeroFilledElf_sorted h
  obtain rfl := ok.inj (zeroFilledSegments_bss.symm.trans hbss)
  have hkept : ∀ header ∈ zeroFilledElf.loads, header ∈ zeroFilledElf.keptHeaders := by decide
  refine ⟨rfl, fun header hmem => ElfFile.mem_keptHeaders.mp (hkept header hmem),
    mapped_of_ends (by decide) (by decide) (by decide), by decide, by decide, by decide, trivial, by decide, ?_⟩
  rw [hsize]
  decide

lemma zeroFilledElf_bytes : mapped zeroFilledElf.regions 0x1000 = some 1 ∧
    mapped zeroFilledElf.regions 0x3800 = some 0 := by
  decide +kernel

theorem intoNsoBuilder_maps_zeroFilled : ∃ segments image nso regions,
    ElfSegments.parse (alwaysFinds zeroFilledElf) [] = ok segments ∧
      segments.intoNsoBuilder.build Executable.runPacker (fun _ => List.Vector.replicate 0x20 0) = ok image ∧
      Executable.Nso.tryFromBytes image = ok nso ∧ nso.load Executable.runPacker = ok regions ∧
      mapped regions 0x1000 = some 1 ∧ mapped regions 0x3800 = some 0 := by
  obtain ⟨segments, hparse, -⟩ := zeroFilledElf_parse
  have helf : alwaysFinds zeroFilledElf [] = .ok zeroFilledElf := rfl
  obtain ⟨sorted, hparsed⟩ := exists_parsed helf hparse
  obtain ⟨⟨-, htext⟩, hrodata, -, hdata⟩ := zeroFilledElf_fields hparsed
  have hfits : segments.intoNsoBuilder.Fits Executable.runPacker segments.text segments.rodata
      segments.data := by
    rw [htext, hrodata, hdata]
    exact Executable.NsoBuilder.fits_of_pages rfl (by decide) (by decide) (by decide)
  obtain ⟨image, nso, regions, hbuild, hread, hload, hbytes⟩ := intoNsoBuilder_maps helf hparse
    Executable.runPacker_lossless _ (fun _ => zeroFilledElf_linked) hfits
  exact ⟨segments, image, nso, regions, hparse, hbuild, hread, hload,
    hbytes _ _ zeroFilledElf_bytes.1, hbytes _ _ zeroFilledElf_bytes.2⟩

theorem intoNroBuilder_maps_zeroFilled : ∃ segments image nro regions,
    ElfSegments.parse (alwaysFinds zeroFilledElf) [] = ok segments ∧
      segments.intoNroBuilder.build = ok image ∧ Relocatable.Nro.tryFromBytes image = ok nro ∧
      (nro.load : Outcome Unit _) = ok regions ∧
      mapped regions 0x1000 = some 1 ∧ mapped regions 0x3800 = some 0 := by
  obtain ⟨segments, hparse, -⟩ := zeroFilledElf_parse
  have helf : alwaysFinds zeroFilledElf [] = .ok zeroFilledElf := rfl
  obtain ⟨sorted, hparsed⟩ := exists_parsed helf hparse
  obtain ⟨⟨htextAt, htext⟩, -, hdataAt, hdata⟩ := zeroFilledElf_fields hparsed
  have hmemory : ∀ sorted, Parsed Empty zeroFilledElf segments sorted →
      ∀ seg ∈ sorted.take 3, 0 < seg.memsz.toNat := by
    intro sorted hsorted
    rw [zeroFilledElf_sorted hsorted]
    decide
  obtain ⟨image, nro, regions, hbuild, hread, hload, hbytes⟩ := intoNroBuilder_maps (ε := Unit) helf hparse
    (fun _ => zeroFilledElf_linked) hmemory htextAt (by rw [htext]; decide)
    (by rw [hdataAt, hdata]; decide)
  exact ⟨segments, image, nro, regions, hparse, hbuild, hread, hload,
    hbytes _ _ (by decide) zeroFilledElf_bytes.1, hbytes _ _ (by decide) zeroFilledElf_bytes.2⟩

end NxObject.Elf
