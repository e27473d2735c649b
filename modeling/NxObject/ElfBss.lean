import Mathlib.Order.Interval.Set.LinearOrder
import Mathlib.Order.Interval.Set.Disjoint
import NxObject.ElfSelection

/-!
# What the BSS covers

Behind the padded bytes of the data segment the loader zeroes as many bytes as it is told to. The size it is
told is taken from one segment, while the bytes to be zeroed may belong to several.
-/
namespace NxObject.Elf
open Outcome Placement

variable {E : Type}

/-! ## Address ranges -/

namespace Loaded
variable (seg : Loaded)

def memory : Set ℕ := Set.Ico seg.address.toNat (seg.address.toNat + seg.memsz.toNat)

def zeroed : Set ℕ :=
  Set.Ico (seg.address.toNat + seg.filesz.toNat) (seg.address.toNat + seg.memsz.toNat)

/-- The segment has addresses past its file bytes. -/
def ZeroFilled : Prop := seg.filesz.toNat < seg.memsz.toNat

instance : Decidable seg.ZeroFilled := inferInstanceAs (Decidable (_ < _))

/-- The addresses that are backed for a data segment with a BSS of this size. -/
def backed (bss : ℕ) : Set ℕ :=
  Set.Ico seg.address.toNat (seg.address.toNat + (padded seg.data 0x1000).length + bss)

def pages : ℕ := alignUp 0x1000 seg.filesz.toNat

end Loaded

/-- Segments in the order of their addresses: on pages, apart from each other, and such that rounding their
sizes up to pages stays below the word size. -/
structure Mapped (segs : List Loaded) : Prop where
  length : 3 ≤ segs.length
  sorted : segs.Pairwise fun s t => s.address.toNat ≤ t.address.toNat
  disjoint : segs.Pairwise fun s t => Disjoint s.memory t.memory
  aligned : ∀ s ∈ segs, 0x1000 ∣ s.address.toNat
  stored : ∀ s ∈ segs, s.data.length = s.filesz.toNat
  memsz : ∀ s ∈ segs, s.memsz.toNat + 0xFFF < 2 ^ 64
  filesz : ∀ s ∈ segs, s.filesz.toNat + 0xFFF < 2 ^ 64

/-- What the third and each later segment asks to be zeroed is backed for the third. -/
def Covered (E : Type) (segs : List Loaded) : Prop :=
  ∃ data bss, segs[2]? = some data ∧ (bssSizeOf segs : Outcome (ParseError E) _) = ok bss ∧
    ∀ seg ∈ segs.drop 2, seg.zeroed ⊆ data.backed bss

/-- The fourth segment is the zero fill behind the data. -/
structure Adjoins (data fourth : Loaded) (later : List Loaded) : Prop where
  trailing : data.ZeroFilled → data.memsz.toNat ≤ data.pages + alignUp 0x1000 fourth.memsz.toNat
  gap : fourth.ZeroFilled → fourth.address.toNat ≤ data.address.toNat + data.pages
  later : ∀ seg ∈ later, seg.ZeroFilled → data.memsz.toNat < data.filesz.toNat ∧
    seg.address.toNat + seg.memsz.toNat ≤
      data.address.toNat + data.pages + alignUp 0x1000 fourth.memsz.toNat

/-- There is no fourth segment, or it adjoins. -/
def FourthAdjoins : List Loaded → Prop
  | _ :: _ :: data :: fourth :: later => Adjoins data fourth later
  | _ => True

/-! ## The size that is computed -/

lemma pageAlign_of_lt {ε : Type} {n : ℕ} (h : n + 0xFFF < 2 ^ 64) :
    (pageAlign n : Outcome ε ℕ) = ok (alignUp 0x1000 n) := by
  have hmask : 2 ^ 64 - 1 - 0xFFF = 2 ^ 64 - 1 - (2 ^ 12 - 1) := by decide
  rw [pageAlign, add_of_lt h, ok_bind, pure_eq, hmask, and_two_pow_sub (by decide) h, alignUp]
  norm_num

lemma bssSizeOf_fourth {text rodata data fourth : Loaded} {later : List Loaded}
    (h : fourth.memsz.toNat + 0xFFF < 2 ^ 64) :
    (bssSizeOf (text :: rodata :: data :: fourth :: later) : Outcome (ParseError E) _) =
      ok (alignUp 0x1000 fourth.memsz.toNat) := by
  have hfourth : (okOr (text :: rodata :: data :: fourth :: later)[3]? .missingData :
      Outcome (ParseError E) _) = ok fourth := rfl
  rw [bssSizeOf, if_pos (by simp), hfourth, ok_bind, pageAlign_of_lt h]

lemma bssSizeOf_embedded {text rodata data : Loaded} (hmemsz : data.memsz.toNat + 0xFFF < 2 ^ 64)
    (hfilesz : data.filesz.toNat + 0xFFF < 2 ^ 64) :
    ∃ bss, (bssSizeOf [text, rodata, data] : Outcome (ParseError E) _) = ok bss ∧
      (data.ZeroFilled → data.memsz.toNat ≤ data.pages + bss) := by
  have hdata : (okOr [text, rodata, data][2]? .missingData : Outcome (ParseError E) _) = ok data := rfl
  rw [bssSizeOf, if_neg (by simp), hdata, ok_bind, pageAlign_of_lt hfilesz, ok_bind, ← Loaded.pages]
  by_cases hfill : data.filesz.toNat < data.memsz.toNat
  · by_cases hpages : data.pages < data.memsz.toNat
    · have hle := le_alignUp (by decide : 0 < 0x1000) (data.memsz.toNat - data.pages)
      rw [if_pos hfill, if_pos hpages]
      exact ⟨_, pageAlign_of_lt (by omega), fun _ => by omega⟩
    · rw [if_pos hfill, if_neg hpages]
      exact ⟨0, rfl, fun _ => by omega⟩
  · rw [if_neg hfill]
    exact ⟨0, rfl, fun h => absurd h hfill⟩

/-! ## What is covered -/

section Backed
variable {data : Loaded} (hstored : data.data.length = data.filesz.toNat)
include hstored

lemma zeroed_subset_iff {seg : Loaded} {bss : ℕ} (hle : data.address.toNat ≤ seg.address.toNat) :
    seg.zeroed ⊆ data.backed bss ↔ (seg.ZeroFilled →
      seg.address.toNat + seg.memsz.toNat ≤ data.address.toNat + data.pages + bss) := by
  have hpages : (padded data.data 0x1000).length = data.pages := by
    rw [padded_length (by decide), hstored, Loaded.pages]
  rw [Loaded.zeroed, Loaded.backed, hpages]
  by_cases hfill : seg.filesz.toNat < seg.memsz.toNat
  · rw [Set.Ico_subset_Ico_iff (by omega)]
    exact ⟨fun h _ => h.2, fun h => ⟨by omega, h hfill⟩⟩
  · rw [Set.Ico_eq_empty (by omega)]
    exact ⟨fun _ h => absurd h hfill, fun _ => Set.empty_subset _⟩

end Backed

/-- A segment that takes up memory begins behind the pages of those before it. -/
lemma pages_le_of_disjoint {s t : Loaded} {n : ℕ} (hsorted : s.address.toNat ≤ t.address.toNat)
    (hdisjoint : Disjoint s.memory t.memory) (hs : 0x1000 ∣ s.address.toNat) (ht : 0x1000 ∣ t.address.toNat)
    (hmemory : 0 < t.memsz.toNat) (hn : n ≤ s.memsz.toNat) :
    s.address.toNat + alignUp 0x1000 n ≤ t.address.toNat := by
  have hends := Set.Ico_disjoint_Ico.mp hdisjoint
  have hend : s.address.toNat + n ≤ t.address.toNat := by omega
  calc s.address.toNat + alignUp 0x1000 n
      = alignUp 0x1000 (s.address.toNat + n) := (alignUp_add (by decide) n hs).symm
    _ ≤ alignUp 0x1000 t.address.toNat := alignUp_mono _ hend
    _ = t.address.toNat := alignUp_of_dvd (by decide) ht

lemma end_le_iff {start base n : ℕ} (hstart : 0x1000 ∣ start) (hbase : 0x1000 ∣ base) :
    start + n ≤ base + alignUp 0x1000 n ↔ start ≤ base := by
  have hle := le_alignUp (by decide : 0 < 0x1000) n
  have hlt := alignUp_lt (by decide : 0 < 0x1000) n
  constructor
  · intro h
    obtain ⟨i, rfl⟩ := hstart
    obtain ⟨j, rfl⟩ := hbase
    omega
  · omega

section Fourth
variable {text rodata data fourth : Loaded} {later : List Loaded}

lemma covered_fourth_iff (h : Mapped (text :: rodata :: data :: fourth :: later)) :
    Covered E (text :: rodata :: data :: fourth :: later) ↔
      ∀ seg ∈ data :: fourth :: later, seg.ZeroFilled → seg.address.toNat + seg.memsz.toNat ≤
        data.address.toNat + data.pages + alignUp 0x1000 fourth.memsz.toNat := by
  have hbss : (bssSizeOf (text :: rodata :: data :: fourth :: later) : Outcome (ParseError E) _) =
      ok (alignUp 0x1000 fourth.memsz.toNat) := bssSizeOf_fourth (h.memsz fourth (by simp))
  have hsorted : ∀ seg ∈ data :: fourth :: later, data.address.toNat ≤ seg.address.toNat :=
    List.forall_mem_cons.mpr ⟨le_rfl, (List.pairwise_cons.mp h.sorted.tail.tail).1⟩
  have hstored := h.stored data (by simp)
  constructor
  · rintro ⟨_, bss, ⟨⟩, hsize, hcovers⟩
    obtain rfl := ok.inj (hbss.symm.trans hsize)
    exact fun seg hseg => (zeroed_subset_iff hstored (hsorted seg hseg)).mp (hcovers seg hseg)
  · intro hends
    exact ⟨data, _, rfl, hbss, fun seg hseg =>
      (zeroed_subset_iff hstored (hsorted seg hseg)).mpr (hends seg hseg)⟩

lemma memsz_lt_filesz (h : Mapped (text :: rodata :: data :: fourth :: later)) {seg : Loaded}
    (hseg : seg ∈ later) (hfill : seg.ZeroFilled)
    (hend : seg.address.toNat + seg.memsz.toNat ≤
      data.address.toNat + data.pages + alignUp 0x1000 fourth.memsz.toNat) :
    data.memsz.toNat < data.filesz.toNat := by
  by_contra! hfilesz
  have hmemory : 0 < seg.memsz.toNat := Nat.zero_lt_of_lt hfill
  have hdata := h.aligned data (by simp)
  have hfourth := h.aligned fourth (by simp)
  have hseg' := h.aligned seg (by simp [hseg])
  obtain ⟨hsortedData, hsorted⟩ := List.pairwise_cons.mp h.sorted.tail.tail
  obtain ⟨hdisjointData, hdisjoint⟩ := List.pairwise_cons.mp h.disjoint.tail.tail
  have hbehindData : data.address.toNat + data.pages ≤ seg.address.toNat :=
    pages_le_of_disjoint (hsortedData seg (List.mem_cons_of_mem _ hseg))
      (hdisjointData seg (List.mem_cons_of_mem _ hseg)) hdata hseg' hmemory hfilesz
  rcases Nat.eq_zero_or_pos fourth.memsz.toNat with hempty | hpos
  · rw [hempty, alignUp_of_dvd (by decide) (Nat.dvd_zero _)] at hend
    omega
  · have hbetween : data.address.toNat + data.pages ≤ fourth.address.toNat :=
      pages_le_of_disjoint (hsortedData fourth List.mem_cons_self)
        (hdisjointData fourth List.mem_cons_self) hdata hfourth hpos hfilesz
    have hbehind : fourth.address.toNat + alignUp 0x1000 fourth.memsz.toNat ≤ seg.address.toNat :=
      pages_le_of_disjoint ((List.pairwise_cons.mp hsorted).1 seg hseg)
        ((List.pairwise_cons.mp hdisjoint).1 seg hseg) hfourth hseg' hmemory le_rfl
    omega

lemma ends_iff_adjoins (h : Mapped (text :: rodata :: data :: fourth :: later)) :
    (∀ seg ∈ data :: fourth :: later, seg.ZeroFilled → seg.address.toNat + seg.memsz.toNat ≤
      data.address.toNat + data.pages + alignUp 0x1000 fourth.memsz.toNat) ↔ Adjoins data fourth later := by
  have hgap : fourth.address.toNat + fourth.memsz.toNat ≤
      data.address.toNat + data.pages + alignUp 0x1000 fourth.memsz.toNat ↔
        fourth.address.toNat ≤ data.address.toNat + data.pages :=
    end_le_iff (h.aligned fourth (by simp)) (Nat.dvd_add (h.aligned data (by simp)) (dvd_alignUp _ _))
  rw [List.forall_mem_cons, List.forall_mem_cons, hgap]
  constructor
  · rintro ⟨hdata, hfourth, hlater⟩
    refine ⟨fun hfill => ?_, hfourth, fun seg hseg hfill => ?_⟩
    · have := hdata hfill
      omega
    · exact ⟨memsz_lt_filesz h hseg hfill (hlater seg hseg hfill), hlater seg hseg hfill⟩
  · intro hadjoins
    refine ⟨fun hfill => ?_, hadjoins.gap, fun seg hseg hfill => (hadjoins.later seg hseg hfill).2⟩
    have := hadjoins.trailing hfill
    omega

end Fourth

lemma covered_three {text rodata data : Loaded} (h : Mapped [text, rodata, data]) :
    Covered E [text, rodata, data] := by
  obtain ⟨bss, hbss, hends⟩ : ∃ bss, (bssSizeOf [text, rodata, data] : Outcome (ParseError E) _) = ok bss ∧
      (data.ZeroFilled → data.memsz.toNat ≤ data.pages + bss) :=
    bssSizeOf_embedded (h.memsz data (by simp)) (h.filesz data (by simp))
  refine ⟨data, bss, rfl, hbss, ?_⟩
  rw [List.drop_succ_cons, List.drop_succ_cons, List.drop_zero, List.forall_mem_singleton,
    zeroed_subset_iff (h.stored data (by simp)) le_rfl]
  intro hfill
  have := hends hfill
  omega

lemma covered_of_fourthAdjoins {segs : List Loaded} (h : Mapped segs) (hfourth : FourthAdjoins segs) :
    Covered E segs := by
  match segs, h with
  | [_, _, _], h => exact covered_three h
  | _ :: _ :: _ :: _ :: _, h => exact (covered_fourth_iff h).mpr ((ends_iff_adjoins h).mpr hfourth)
  | [], h | [_], h | [_, _], h => exact absurd h.length (by simp)

/-- Everything to be zeroed is covered if there are three segments, and if there are more exactly if the fourth
begins where the pages of the data end, its pages hold what the data leaves over, and nothing behind it is to be
zeroed. -/
theorem covered_iff_fourthAdjoins {segs : List Loaded} (h : Mapped segs) :
    Covered E segs ↔ FourthAdjoins segs := by
  refine ⟨fun hcovered => ?_, covered_of_fourthAdjoins h⟩
  match segs, h with
  | [_, _, _], _ => trivial
  | _ :: _ :: _ :: _ :: _, h => exact (ends_iff_adjoins h).mp ((covered_fourth_iff h).mp hcovered)
  | [], h | [_], h | [_, _], h => exact absurd h.length (by simp)

def segmentAt (page filesz memsz : ℕ) : Loaded :=
  ⟨UInt64.ofNat (0x1000 * page), List.replicate filesz 0, UInt64.ofNat memsz, UInt64.ofNat filesz⟩

/-- Segments of which the fourth is the zero fill, on the page of this number. -/
def withZeroFill (page : ℕ) : List Loaded :=
  [segmentAt 0 1 1, segmentAt 1 1 1, segmentAt 2 1 1, segmentAt page 0 0x1000]

lemma mapped_of_ends {segs : List Loaded} (hlength : 3 ≤ segs.length)
    (hends : segs.Pairwise fun s t => s.address.toNat + s.memsz.toNat ≤ t.address.toNat)
    (hsegs : ∀ s ∈ segs, 0x1000 ∣ s.address.toNat ∧ s.data.length = s.filesz.toNat ∧
      s.memsz.toNat + 0xFFF < 2 ^ 64 ∧ s.filesz.toNat + 0xFFF < 2 ^ 64) : Mapped segs where
  length := hlength
  sorted := hends.imp fun h => (Nat.le_add_right _ _).trans h
  disjoint := hends.imp fun h => Set.Ico_disjoint_Ico.mpr
    ((Nat.min_le_left _ _).trans (h.trans (Nat.le_max_right _ _)))
  aligned := fun s hs => (hsegs s hs).1
  stored := fun s hs => (hsegs s hs).2.1
  memsz := fun s hs => (hsegs s hs).2.2.1
  filesz := fun s hs => (hsegs s hs).2.2.2

/-- Zero fill that begins some pages behind the data is not covered. -/
theorem gap_not_covered : Mapped (withZeroFill 8) ∧ ¬ Covered Empty (withZeroFill 8) := by
  refine ⟨mapped_of_ends (by decide) (by decide) (by decide), ?_⟩
  rintro ⟨_, bss, ⟨⟩, hbss, hcovers⟩
  have hsize : (bssSizeOf (withZeroFill 8) : Outcome (ParseError Empty) _) = ok 0x1000 := by decide
  obtain rfl := ok.inj (hsize.symm.trans hbss)
  have hzeroed : 0x8000 ∈ (segmentAt 8 0 0x1000).zeroed := ⟨by decide, by decide⟩
  obtain ⟨-, hlt⟩ := hcovers _ (by simp [withZeroFill]) hzeroed
  rw [padded_length (by decide)] at hlt
  exact absurd hlt (by decide)

theorem covered_iff_fourthAdjoins_adjoining : Covered Empty (withZeroFill 3) := by
  refine (covered_iff_fourthAdjoins (mapped_of_ends (by decide) (by decide) (by decide))).mpr ?_
  exact ⟨fun _ => by decide, fun _ => by decide, nofun⟩

/-! ## What a parsed file backs -/

def ElfSegments.backed (segments : ElfSegments) : Set ℕ :=
  Set.Ico segments.dataVaddr.toNat
    (segments.dataVaddr.toNat + (padded segments.data 0x1000).length + segments.bssSize.toNat)

lemma pageAlign_lt {ε : Type} {n rounded : ℕ} (h : (pageAlign n : Outcome ε ℕ) = ok rounded) :
    rounded < 2 ^ 64 := by
  obtain ⟨sum, -, h⟩ := bind_eq_ok.mp h
  obtain rfl := ok.inj h
  exact Nat.and_lt_two_pow _ (by decide)

lemma bssSizeOf_lt {segs : List Loaded} {bss : ℕ}
    (h : (bssSizeOf segs : Outcome (ParseError E) _) = ok bss) : bss < 2 ^ 64 := by
  rw [bssSizeOf] at h
  split_ifs at h with hfourth
  · obtain ⟨seg, -, h⟩ := bind_eq_ok.mp h
    exact pageAlign_lt h
  · obtain ⟨seg, -, h⟩ := bind_eq_ok.mp h
    split_ifs at h with hfill
    · obtain ⟨alignedFilesz, -, h⟩ := bind_eq_ok.mp h
      split_ifs at h with hpages
      · exact pageAlign_lt h
      · obtain rfl := ok.inj h
        decide
    · obtain rfl := ok.inj h
      decide

lemma Parsed.zeroed_subset {elf : ElfFile} {segments : ElfSegments} {sorted : List Loaded}
    (h : Parsed E elf segments sorted) (hcovered : Covered E sorted) :
    ∀ seg ∈ sorted.drop 2, seg.zeroed ⊆ segments.backed := by
  obtain ⟨bss, hbss, hsize⟩ := h.bss
  obtain ⟨data, found, hdata, hfound, hcovers⟩ := hcovered
  obtain rfl := ok.inj (hbss.symm.trans hfound)
  match sorted, h with
  | text :: rodata :: _ :: rest, h =>
    obtain rfl := Option.some.inj hdata
    have hpicked := h.picked
    simp only [ElfSegments.picked, List.take_succ_cons, List.take_zero, List.map_cons, List.map_nil,
      List.cons.injEq, Prod.mk.injEq, Option.some.injEq] at hpicked
    obtain ⟨-, -, ⟨haddress, hpages⟩, -⟩ := hpicked
    rwa [ElfSegments.backed, haddress, hpages, hsize, UInt64.toNat_ofNat_of_lt' (bssSizeOf_lt hbss)]
  | [], h | [_], h | [_, _], h => exact absurd h.length (by simp)

end NxObject.Elf
