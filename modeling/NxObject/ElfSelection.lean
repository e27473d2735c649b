import NxObject.Elf

/-!
# Which segments are picked

Every entry of the program header table is paired with a loadable segment, though the segments of the other
entries are not among them. A segment is kept if the entry at its place among the loadable ones is loadable.
-/
namespace NxObject.Elf
open Outcome

variable {E : Type}

namespace ProgramHeader

def segment (header : ProgramHeader) : Segment := ⟨header.pVaddr, header.pMemsz, header.pFilesz, header.contents⟩

def pick (header : ProgramHeader) : UInt64 × Option Bytes := (header.pVaddr, header.contents)

end ProgramHeader

namespace ElfFile
variable (elf : ElfFile)

def loads : List ProgramHeader := elf.programHeaders.filter (·.pType = PT_LOAD)

/-- The segments are those of the loadable headers, in the order of the file. -/
def Conforms : Prop := elf.segments = elf.loads.map (·.segment)

/-- The loadable headers of the three lowest addresses. -/
def lowest : List ProgramHeader := (sortOn (·.pVaddr.toNat) elf.loads).take 3

/-- The entry of the table that stands where this loadable header stands among the loadable ones is loadable. -/
def Kept (header : ProgramHeader) : Prop :=
  ∃ k : ℕ, elf.loads[k]? = some header ∧ ∃ raw, elf.programHeaders[k]? = some raw ∧ raw.pType = PT_LOAD

def keptHeaders : List ProgramHeader :=
  ((elf.programHeaders.zip elf.loads).filter fun pair => pair.1.pType = PT_LOAD).map Prod.snd

variable {elf}

lemma mem_keptHeaders {header : ProgramHeader} : header ∈ elf.keptHeaders ↔ elf.Kept header := by
  rw [keptHeaders, List.mem_map]
  constructor
  · rintro ⟨⟨raw, _⟩, hmem, rfl⟩
    obtain ⟨hzip, htype⟩ := List.mem_filter.mp hmem
    obtain ⟨k, hk⟩ := List.mem_iff_getElem?.mp hzip
    obtain ⟨hraw, hload⟩ := List.getElem?_zip_eq_some.mp hk
    exact ⟨k, hload, raw, hraw, of_decide_eq_true htype⟩
  · rintro ⟨k, hload, raw, hraw, htype⟩
    have hzip : (raw, header) ∈ elf.programHeaders.zip elf.loads :=
      List.mem_iff_getElem?.mpr ⟨k, List.getElem?_zip_eq_some.mpr ⟨hraw, hload⟩⟩
    exact ⟨(raw, header), List.mem_filter.mpr ⟨hzip, decide_eq_true htype⟩, rfl⟩

lemma pairedSegments_eq (h : elf.Conforms) : elf.pairedSegments = elf.keptHeaders.map (·.segment) := by
  rw [pairedSegments, keptHeaders, h, List.zip_map_right, List.filter_map, List.map_map, List.map_map]
  rfl

lemma keptHeaders_sublist : elf.keptHeaders.Sublist elf.loads := by
  have hall : (elf.programHeaders.zip elf.loads).map Prod.snd = elf.loads :=
    List.map_snd_zip (List.length_filter_le _ _)
  have hsub := (List.filter_sublist (p := fun pair => decide (pair.1.pType = PT_LOAD))
    (l := elf.programHeaders.zip elf.loads)).map Prod.snd
  rwa [hall] at hsub

/-- No two loadable headers share an address. -/
def Distinct (elf : ElfFile) : Prop := (elf.loads.map fun header => header.pVaddr.toNat).Nodup

instance : Decidable elf.Distinct := inferInstanceAs (Decidable (List.Nodup _))

lemma take_kept_iff (h : elf.Distinct) : (sortOn (·.pVaddr.toNat) elf.keptHeaders).take 3 = elf.lowest ↔
    ∀ header ∈ elf.lowest, elf.Kept header := by
  have hloads : elf.loads.Nodup := h.of_map _
  have hperm : elf.keptHeaders.Perm (elf.loads.filter (· ∈ elf.keptHeaders)) := by
    refine (List.perm_ext_iff_of_nodup (hloads.sublist keptHeaders_sublist) (hloads.filter _)).mpr ?_
    intro header
    rw [List.mem_filter, decide_eq_true_iff]
    exact ⟨fun hmem => ⟨keptHeaders_sublist.subset hmem, hmem⟩, And.right⟩
  rw [sortOn_congr_perm (h.sublist (List.filter_sublist.map _)) hperm, lowest, take_sortOn_filter_iff h]
  simp only [decide_eq_true_iff, mem_keptHeaders]

end ElfFile

/-! ## What is parsed -/

def ElfSegments.picked (segments : ElfSegments) : List (UInt64 × Option Bytes) :=
  [(segments.textVaddr, some segments.text), (segments.rodataVaddr, some segments.rodata),
    (segments.dataVaddr, some segments.data)]

def Loaded.segment (loaded : Loaded) : Segment := ⟨loaded.address, loaded.memsz, loaded.filesz, some loaded.data⟩

lemma mapM_readSegment {segments : List Segment} {loaded : List Loaded}
    (h : segments.mapM readSegment = (ok loaded : Outcome (ParseError E) _)) :
    loaded.map (·.segment) = segments := by
  induction segments generalizing loaded with
  | nil =>
    obtain rfl := ok.inj h
    rfl
  | cons seg segments ih =>
    rw [List.mapM_cons] at h
    obtain ⟨first, hfirst, h⟩ := bind_eq_ok.mp h
    obtain ⟨rest, hrest, h⟩ := bind_eq_ok.mp h
    obtain rfl := ok.inj h
    obtain ⟨data, hdata, hfirst⟩ := bind_eq_ok.mp hfirst
    obtain rfl := ok.inj hfirst
    rw [List.map_cons, ih hrest, Loaded.segment, ← okOr_eq_ok.mp hdata]

/-- What a parse that succeeds has made of the file. -/
structure Parsed (E : Type) (elf : ElfFile) (segments : ElfSegments) (sorted : List Loaded) : Prop where
  loaded : sorted.map (·.segment) = sortOn (·.address.toNat) elf.pairedSegments
  length : 3 ≤ sorted.length
  picked : segments.picked = (sorted.take 3).map fun loaded => (loaded.address, some loaded.data)
  bss : ∃ bss, (bssSizeOf sorted : Outcome (ParseError E) _) = ok bss ∧ segments.bssSize = UInt64.ofNat bss

theorem parsed_of_parse {object : Bytes → Except E ElfFile} {bytes : Bytes} {segments : ElfSegments}
    (h : ElfSegments.parse object bytes = ok segments) :
    ∃ elf sorted, object bytes = .ok elf ∧ elf.architecture = .aarch64 ∧ Parsed E elf segments sorted := by
  obtain ⟨elf, helf, h⟩ := bind_eq_ok.mp h
  obtain ⟨_, harch, h⟩ := bind_eq_ok.mp h
  obtain ⟨loaded, hloaded, h⟩ := bind_eq_ok.mp h
  obtain ⟨sorted, hsorted⟩ : ∃ sorted, sortOn (·.address.toNat) loaded = sorted := ⟨_, rfl⟩
  simp only [hsorted] at h
  obtain ⟨text, htext, h⟩ := bind_eq_ok.mp h
  obtain ⟨rodata, hrodata, h⟩ := bind_eq_ok.mp h
  obtain ⟨data, hdata, h⟩ := bind_eq_ok.mp h
  obtain ⟨bss, hbss, h⟩ := bind_eq_ok.mp h
  obtain ⟨buildId, -, h⟩ := bind_eq_ok.mp h
  obtain ⟨mod0Offset, -, h⟩ := bind_eq_ok.mp h
  obtain rfl := ok.inj h
  have helf : object bytes = .ok elf := by
    cases hobject : object bytes with
    | ok found =>
      rw [hobject] at helf
      exact congrArg Except.ok (ok.inj helf)
    | error e =>
      rw [hobject] at helf
      cases helf
  obtain ⟨hlt, hdata'⟩ := List.getElem?_eq_some_iff.mp (okOr_eq_ok.mp hdata)
  refine ⟨elf, sorted, helf, ensure_eq_ok.mp harch, ?_, hlt, ?_, bss, hbss, rfl⟩
  · rw [← hsorted, ← mapM_readSegment hloaded, sortOn_map]
    rfl
  · have hthree : sorted.take 3 = [text, rodata, data] := by
      rw [okOr_eq_ok] at htext hrodata hdata
      simp [List.take_add_one, htext, hrodata, hdata]
    rw [hthree]
    rfl

theorem parse_of_sorted {object : Bytes → Except E ElfFile} {bytes : Bytes} {elf : ElfFile}
    {loaded sorted : List Loaded} {text rodata data : Loaded} {bss : ℕ} {buildId : Option BuildId}
    {mod0Offset : Option UInt32} (helf : object bytes = .ok elf) (harch : elf.architecture = .aarch64)
    (hloaded : elf.pairedSegments.mapM readSegment = (ok loaded : Outcome (ParseError E) _))
    (hsorted : sortOn (·.address.toNat) loaded = sorted) (htake : sorted.take 3 = [text, rodata, data])
    (hbss : (bssSizeOf sorted : Outcome (ParseError E) _) = ok bss)
    (hbuildId : (extractBuildId elf.sections : Outcome (ParseError E) _) = ok buildId)
    (hmod0 : (mod0OffsetOf text.data : Outcome (ParseError E) _) = ok mod0Offset) :
    ∃ segments, ElfSegments.parse object bytes = ok segments ∧
      segments.picked = [text, rodata, data].map fun loaded => (loaded.address, some loaded.data) := by
  have hget : ∀ {i : ℕ} {seg : Loaded}, i < 3 → [text, rodata, data][i]? = some seg → sorted[i]? = some seg := by
    intro i seg hi hseg
    rw [← hseg, ← htake, List.getElem?_take_of_lt hi]
  have htext := hget (i := 0) (by omega) rfl
  have hrodata := hget (i := 1) (by omega) rfl
  have hdata := hget (i := 2) (by omega) rfl
  rw [ElfSegments.parse, helf, ofExcept_ok, mapErr_ok, ok_bind, ensure_true harch, ok_bind, hloaded, ok_bind]
  simp only [hsorted, htext, hrodata, hdata, okOr_some, ok_bind, hbss, hbuildId, hmod0]
  exact ⟨_, rfl, rfl⟩

lemma picked_eq {elf : ElfFile} {segments : ElfSegments} {sorted : List Loaded}
    (h : Parsed E elf segments sorted) (hconforms : elf.Conforms) :
    segments.picked = ((sortOn (·.pVaddr.toNat) elf.keptHeaders).take 3).map (·.pick) := by
  have hpick : ∀ loaded : List Loaded, loaded.map (fun loaded => (loaded.address, some loaded.data)) =
      (loaded.map (·.segment)).map fun seg => (seg.address, seg.data) := by
    intro loaded
    rw [List.map_map]
    rfl
  rw [h.picked, hpick, List.map_take, h.loaded, ElfFile.pairedSegments_eq hconforms, sortOn_map,
    ← List.map_take, List.map_map]
  rfl

/-- Text, rodata and data are the loadable segments of the three lowest addresses. -/
def Selects (elf : ElfFile) (segments : ElfSegments) : Prop := segments.picked = elf.lowest.map (·.pick)

/-- A successful parse picks the loadable segments of the three lowest addresses if and only if none of them
stands where an entry that is not loadable is paired with it, and tables in which this is so for both can be
permuted into one another without a change. -/
theorem selects_iff {object : Bytes → Except E ElfFile} {bytes : Bytes} {elf : ElfFile}
    {segments : ElfSegments} (helf : object bytes = .ok elf) (hconforms : elf.Conforms)
    (hdistinct : elf.Distinct) (hparse : ElfSegments.parse object bytes = ok segments) :
    (Selects elf segments ↔ ∀ header ∈ elf.lowest, elf.Kept header) ∧
      ∀ bytes' elf' segments', object bytes' = .ok elf' → elf'.Conforms →
        elf'.programHeaders.Perm elf.programHeaders → ElfSegments.parse object bytes' = ok segments' →
        (∀ header ∈ elf.lowest, elf.Kept header) → (∀ header ∈ elf'.lowest, elf'.Kept header) →
        segments'.picked = segments.picked := by
  have hpicked : ∀ {bytes elf segments}, object bytes = .ok elf → elf.Conforms →
      ElfSegments.parse object bytes = ok segments →
      segments.picked = ((sortOn (·.pVaddr.toNat) elf.keptHeaders).take 3).map (·.pick) := by
    intro bytes elf segments helf hconforms hparse
    obtain ⟨found, sorted, hfound, -, hparsed⟩ := parsed_of_parse hparse
    obtain rfl := Except.ok.inj (helf.symm.trans hfound)
    exact picked_eq hparsed hconforms
  constructor
  · rw [Selects, hpicked helf hconforms hparse]
    constructor
    · intro heq header hmem
      have hpick := List.mem_map_of_mem (f := (·.pick)) hmem
      rw [← heq] at hpick
      obtain ⟨kept, hkept, hsame⟩ := List.mem_map.mp hpick
      have hkept := (mem_sortOn _).mp (List.mem_of_mem_take hkept)
      have hload := (mem_sortOn _).mp (List.mem_of_mem_take hmem)
      obtain rfl := List.inj_on_of_nodup_map hdistinct (ElfFile.keptHeaders_sublist.subset hkept) hload
        (congrArg (fun pick => pick.1.toNat) hsame)
      exact ElfFile.mem_keptHeaders.mp hkept
    · exact fun hall => congrArg _ ((ElfFile.take_kept_iff hdistinct).mpr hall)
  · intro bytes' elf' segments' helf' hconforms' hperm hparse' hkept hkept'
    have hloads : elf'.loads.Perm elf.loads := hperm.filter _
    have hdistinct' : elf'.Distinct := (hloads.map _).nodup_iff.mpr hdistinct
    have hlowest : elf'.lowest = elf.lowest := by
      rw [ElfFile.lowest, sortOn_congr_perm hdistinct hloads, ElfFile.lowest]
    rw [hpicked helf hconforms hparse, hpicked helf' hconforms' hparse',
      (ElfFile.take_kept_iff hdistinct).mpr hkept, (ElfFile.take_kept_iff hdistinct').mpr hkept', hlowest]

/-! ## Small tables -/

def pageHeader (pType : UInt32) (page : ℕ) : ProgramHeader :=
  ⟨pType, UInt64.ofNat (0x1000 * page), 1, 1, some [UInt8.ofNat page]⟩

def tableOf (headers : List ProgramHeader) : ElfFile where
  architecture := .aarch64
  programHeaders := headers
  segments := (headers.filter (·.pType = PT_LOAD)).map (·.segment)
  sections := []

def alwaysFinds (elf : ElfFile) (_ : Bytes) : Except Empty ElfFile := .ok elf

def loadedPage (page : ℕ) : Loaded := ⟨UInt64.ofNat (0x1000 * page), [UInt8.ofNat page], 1, 1⟩

def PT_PHDR : UInt32 := 6

def selfDescribed : ElfFile :=
  tableOf (pageHeader PT_PHDR 0 :: [0, 1, 2, 3].map (pageHeader PT_LOAD))

/-- The lowest segment of such a table is not picked. -/
theorem selfDescribed_not_selects : ∃ segments,
    ElfSegments.parse (alwaysFinds selfDescribed) [] = ok segments ∧
      selfDescribed.Conforms ∧ selfDescribed.Distinct ∧ ¬ Selects selfDescribed segments := by
  have hfile : alwaysFinds selfDescribed [] = .ok selfDescribed := rfl
  have hloaded : selfDescribed.pairedSegments.mapM readSegment =
      (ok ([1, 2, 3].map loadedPage) : Outcome (ParseError Empty) _) := by decide
  have hlowest : selfDescribed.lowest = [0, 1, 2].map (pageHeader PT_LOAD) := by
    rw [ElfFile.lowest, sortOn_of_pairwise _ (by decide)]
    decide
  obtain ⟨segments, hparse, hpicked⟩ := parse_of_sorted hfile rfl hloaded
    (sortOn_of_pairwise _ (by decide)) rfl rfl rfl rfl
  refine ⟨segments, hparse, rfl, by decide, ?_⟩
  rw [Selects, hpicked, hlowest]
  decide

def loadsOnly : ElfFile := tableOf ([0, 1, 2].map (pageHeader PT_LOAD))

theorem selects_iff_loadsOnly :
    ∃ segments, ElfSegments.parse (alwaysFinds loadsOnly) [] = ok segments ∧ Selects loadsOnly segments := by
  have hfile : alwaysFinds loadsOnly [] = .ok loadsOnly := rfl
  have hloaded : loadsOnly.pairedSegments.mapM readSegment =
      (ok ([0, 1, 2].map loadedPage) : Outcome (ParseError Empty) _) := by decide
  have hlowest : loadsOnly.lowest = loadsOnly.keptHeaders := by
    rw [ElfFile.lowest, sortOn_of_pairwise _ (by decide)]
    decide
  obtain ⟨segments, hparse, -⟩ := parse_of_sorted hfile rfl hloaded
    (sortOn_of_pairwise _ (by decide)) rfl rfl rfl rfl
  refine ⟨segments, hparse, (selects_iff hfile rfl (by decide) hparse).1.mpr ?_⟩
  rw [hlowest]
  exact fun header => ElfFile.mem_keptHeaders.mp

end NxObject.Elf
