import NxObject.Cells
import NxObject.KipReading
import NxObject.KipRoundtrip
import NxObject.NpdmRoundtrip
import NxObject.TextPrefix

/-!
# Process names in fields of fixed width

Both builders cut a name after a number of bytes and leave a terminator behind it. Both readers take the bytes
up to the terminator for UTF-8 as a whole, or hand out nothing.
-/
namespace NxObject
open Outcome

lemma zero_notMem_take {s : Text} (hnul : '\x00' ∉ s) (n : ℕ) : 0 ∉ (utf8 s).take n :=
  fun h => zero_notMem_utf8 hnul (List.mem_of_mem_take h)

section Front
variable {ε α : Type} (codec : Codec α) {a : α} {buf copied src : Bytes} {start : ℕ}

lemma fromPrefix_copyFromSlice_zero (h : (copyFromSlice buf 0 (codec.enc a) : Outcome ε _) = ok copied) :
    codec.fromPrefix copied = some a := by
  rw [copyFromSlice] at h
  split_ifs at h
  obtain rfl := ok.inj h
  rw [List.take_zero, List.nil_append]
  exact codec.fromPrefix_append a _

lemma fromPrefix_copyFromSlice (hfront : codec.fromPrefix buf = some a) (hle : codec.size ≤ start)
    (h : (copyFromSlice buf start src : Outcome ε _) = ok copied) : codec.fromPrefix copied = some a := by
  obtain ⟨rest, rfl⟩ := codec.fromPrefix_eq_some.mp hfront
  rw [copyFromSlice] at h
  split_ifs at h
  obtain rfl := ok.inj h
  rw [List.take_append, List.take_of_length_le ((codec.enc_length a).trans_le hle), List.append_assoc,
    List.append_assoc]
  exact codec.fromPrefix_append a _

end Front

namespace ProgramMeta
variable {ε : Type}

lemma le_of_alignUp16 {value aligned : ℕ} (h : (alignUp16 value : Outcome ε _) = ok aligned) : value ≤ aligned := by
  obtain ⟨sum, hsum, hvalue⟩ := bind_eq_ok.mp h
  obtain ⟨hlt, rfl⟩ := add32_eq_ok.mp hsum
  have hk : (4 : ℕ) ≤ 32 := by decide
  have heq := Placement.and_two_pow_sub hk hlt
  have hpos : (0 : ℕ) < 16 := by decide
  obtain rfl := ok.inj hvalue
  exact (Placement.le_alignUp hpos value).trans heq.ge

lemma build_name {b : NpdmBuilder} {image : Bytes} (h : (b.build : Outcome ε _) = ok image) :
    ∃ header, NpdmHeader.codec.fromPrefix image = some header ∧ header.name = nameField b.metadata.name := by
  unfold NpdmBuilder.build at h
  obtain ⟨⟨facData, sacData, kcData⟩, -, h⟩ := bind_eq_ok.mp h
  obtain ⟨⟨aci0FacOffset, aci0SacOffset, aci0KcOffset, aci0Size⟩, -, h⟩ := bind_eq_ok.mp h
  obtain ⟨⟨acidFacOffset, acidSacOffset, acidKcOffset, acidSize⟩, -, h⟩ := bind_eq_ok.mp h
  obtain ⟨aci0Offset, hoffset, h⟩ := bind_eq_ok.mp h
  obtain ⟨unsignedSize, -, h⟩ := bind_eq_ok.mp h
  obtain ⟨npdm, -, h⟩ := bind_eq_ok.mp h
  have hacid : ∀ offset, NpdmHeader.codec.size ≤ 0x80 + offset := fun offset => Nat.le_add_right 0x80 offset
  have haci0 : ∀ offset, NpdmHeader.codec.size ≤ aci0Offset + offset := by
    intro offset
    obtain ⟨sum, hsum, halign⟩ := bind_eq_ok.mp hoffset
    obtain ⟨-, rfl⟩ := add32_eq_ok.mp hsum
    exact ((Nat.le_add_right _ _).trans (le_of_alignUp16 halign)).trans (Nat.le_add_right _ _)
  -- The header is written first, and the eight copies behind it leave it where it is.
  obtain ⟨npdm₀, h₀, h⟩ := bind_eq_ok.mp h
  obtain ⟨npdm₁, h₁, h⟩ := bind_eq_ok.mp h
  obtain ⟨npdm₂, h₂, h⟩ := bind_eq_ok.mp h
  obtain ⟨npdm₃, h₃, h⟩ := bind_eq_ok.mp h
  obtain ⟨npdm₄, h₄, h⟩ := bind_eq_ok.mp h
  obtain ⟨npdm₅, h₅, h⟩ := bind_eq_ok.mp h
  obtain ⟨npdm₆, h₆, h⟩ := bind_eq_ok.mp h
  obtain ⟨npdm₇, h₇, h⟩ := bind_eq_ok.mp h
  have f₀ := fromPrefix_copyFromSlice_zero NpdmHeader.codec h₀
  have f₁ := fromPrefix_copyFromSlice NpdmHeader.codec f₀ (hacid 0) h₁
  have f₂ := fromPrefix_copyFromSlice NpdmHeader.codec f₁ (hacid _) h₂
  have f₃ := fromPrefix_copyFromSlice NpdmHeader.codec f₂ (hacid _) h₃
  have f₄ := fromPrefix_copyFromSlice NpdmHeader.codec f₃ (hacid _) h₄
  have f₅ := fromPrefix_copyFromSlice NpdmHeader.codec f₄ (haci0 0) h₅
  have f₆ := fromPrefix_copyFromSlice NpdmHeader.codec f₅ (haci0 _) h₆
  have f₇ := fromPrefix_copyFromSlice NpdmHeader.codec f₆ (haci0 _) h₇
  exact ⟨_, fromPrefix_copyFromSlice NpdmHeader.codec f₇ (haci0 _) h, rfl⟩

lemma name_eq {b : NpdmBuilder} {image : Bytes} {npdm : Npdm} (hnul : '\x00' ∉ b.metadata.name)
    (hbuild : (b.build : Outcome ε _) = ok image) (hread : Npdm.tryFromBytes image = ok npdm) :
    npdm.name = readBytes 15 b.metadata.name := by
  obtain ⟨header, hheader, hname⟩ := build_name hbuild
  obtain ⟨rfl, hvalid⟩ := Npdm.tryFromBytes_eq_ok.mp hread
  obtain rfl : npdm.header = header := Option.some.inj (hvalid.header.symm.trans hheader)
  have hfield : npdm.header.name.toList = (utf8 b.metadata.name).take 15 ++
      List.replicate (16 - ((utf8 b.metadata.name).take 15).length) 0 := congrArg List.Vector.toList hname
  have hcut : npdm.header.name.toList.take (npdm.header.name.toList.findIdx (· == 0)) =
      (utf8 b.metadata.name).take 15 := by
    rw [take_findIdx_zero, hfield]
    exact takeWhile_padded (zero_notMem_take hnul 15) _
  rw [Npdm.name, hcut, readBytes]

end ProgramMeta

namespace Kip

lemma name_eq {b : Kip1Builder} {s : Text} {image : Bytes} {kip : Kip1} (hname : b.name = some s)
    (hnul : '\x00' ∉ s) (hbuild : b.build = ok image) (hread : Kip1.tryFromBytes image = ok kip) :
    kip.name = readBytes 11 s := by
  obtain ⟨header, contents, streams, himage, -, -, ⟨name, hset, hfield⟩, -⟩ := build_spec hbuild
  obtain rfl : name = s := Option.some.inj (hset.symm.trans hname)
  obtain ⟨rfl, hvalid⟩ := Kip1.tryFromBytes_eq_ok.mp hread
  have hheader : Kip1Header.codec.fromPrefix kip.bytes = some header := by
    rw [himage, List.append_assoc, List.append_assoc]
    exact Codec.fromPrefix_append _ _ _
  obtain rfl : kip.header = header := Option.some.inj (hvalid.header.symm.trans hheader)
  rw [Kip1.name, hfield, nameBytes, takeWhile_padded (zero_notMem_take hnul 11), readBytes]

end Kip

open ProgramMeta Kip

/-- What is read back of a process name. With the terminator the field of an NPDM holds fifteen bytes of it and
that of a KIP1 eleven, so a KIP1 cuts one byte earlier than the twelve that are documented. -/
theorem names_survive_iff {ε : Type} {s : Text} (hnul : '\x00' ∉ s) :
    (∀ (b : NpdmBuilder) (image : Bytes) (npdm : Npdm), b.metadata.name = s →
      (b.build : Outcome ε _) = ok image → Npdm.tryFromBytes image = ok npdm →
      (npdm.name = fitting 15 s ↔ (utf8 s).length ≤ 15 ∨ WholeAt 15 s)) ∧
    ∀ (b : Kip1Builder) (image : Bytes) (kip : Kip1), b.name = some s → b.build = ok image →
      Kip1.tryFromBytes image = ok kip →
      (kip.name = fitting 12 s ↔ ((utf8 s).length ≤ 11 ∨ WholeAt 11 s) ∧ ¬WholeAt 12 s) := by
  refine ⟨fun b image npdm hname hbuild hread => ?_, fun b image kip hname hbuild hread => ?_⟩
  · subst hname
    rw [ProgramMeta.name_eq hnul hbuild hread]
    exact readBytes_eq_fitting_iff (by decide)
  · rw [Kip.name_eq hname hnul hbuild hread]
    exact readBytes_eq_fitting_succ_iff (by decide)

def titled (name : Text) : NpdmBuilder := { sampleTitle with metadata := { sampleTitle.metadata with name } }

def kipNamed (name : Text) : Kip1Builder := { plainBuilder with name := some name }

lemma titled_read (name : Text) : ∃ image npdm, ((titled name).build : Outcome Empty _) = ok image ∧
    Npdm.tryFromBytes image = ok npdm := by
  have hoffset : sampleTitle.aciOffset < 2 ^ 32 := by decide +kernel
  have hsize : sampleTitle.aciSize < 2 ^ 32 := by decide +kernel
  have hfits : (titled name).Fits := ⟨hoffset, hsize⟩
  exact ⟨_, _, NpdmBuilder.build_eq hfits, Npdm.tryFromBytes_eq_ok.mpr ⟨rfl, NpdmBuilder.read_valid hfits⟩⟩

def accepted (b : Kip1Builder) : Bool :=
  match b.build with
  | ok image =>
    match Kip1.tryFromBytes image with
    | ok _ => true
    | _ => false
  | _ => false

lemma exists_read {b : Kip1Builder} (h : accepted b = true) :
    ∃ image kip, b.build = ok image ∧ Kip1.tryFromBytes image = ok kip := by
  unfold accepted at h
  split at h
  case h_1 image hbuild =>
    split at h
    case h_1 kip hread => exact ⟨image, kip, hbuild, hread⟩
    case h_2 => cases h
  case h_2 => cases h

/-- Sixteen bytes, that both fields cut where a character ends. -/
def cutName : Text := List.replicate 11 'a' ++ ['é', 'b', 'b', 'b']

theorem names_survive_iff_cut :
    (∃ image npdm, ((titled cutName).build : Outcome Empty _) = ok image ∧ Npdm.tryFromBytes image = ok npdm ∧
      npdm.name = List.replicate 11 'a' ++ ['é', 'b', 'b']) ∧
    ∃ image kip, (kipNamed cutName).build = ok image ∧ Kip1.tryFromBytes image = ok kip ∧
      kip.name = List.replicate 11 'a' := by
  obtain ⟨hnpdm, hkip⟩ := names_survive_iff (ε := Empty) (s := cutName) (by decide)
  refine ⟨?_, ?_⟩
  · obtain ⟨image, npdm, hbuild, hread⟩ := titled_read cutName
    exact ⟨image, npdm, hbuild, hread, ((hnpdm _ _ _ rfl hbuild hread).mpr (Or.inr (by decide))).trans (by decide)⟩
  · obtain ⟨image, kip, hbuild, hread⟩ := exists_read (b := kipNamed cutName) (by decide +kernel)
    exact ⟨image, kip, hbuild, hread, ((hkip _ _ _ rfl hbuild hread).mpr ⟨Or.inr (by decide), by decide⟩).trans (by decide)⟩

def straddlingName : Text := List.replicate 14 'a' ++ ['é']

/-- The NPDM reads back without a name although fourteen characters fit, and the KIP1 one character short. -/
theorem straddlingName_lost :
    '\x00' ∉ straddlingName ∧
    (∃ image npdm, ((titled straddlingName).build : Outcome Empty _) = ok image ∧
      Npdm.tryFromBytes image = ok npdm ∧ npdm.name = [] ∧
      fitting 15 straddlingName = List.replicate 14 'a') ∧
    ∃ image kip, (kipNamed straddlingName).build = ok image ∧ Kip1.tryFromBytes image = ok kip ∧
      kip.name = List.replicate 11 'a' ∧ fitting 12 straddlingName = List.replicate 12 'a' := by
  have hnul : '\x00' ∉ straddlingName := by decide
  refine ⟨hnul, ?_, ?_⟩
  · obtain ⟨image, npdm, hbuild, hread⟩ := titled_read straddlingName
    refine ⟨image, npdm, hbuild, hread, ?_, by decide⟩
    rw [ProgramMeta.name_eq hnul hbuild hread]
    exact readBytes_of_cut (by decide) (by decide)
  · obtain ⟨image, kip, hbuild, hread⟩ := exists_read (b := kipNamed straddlingName) (by decide +kernel)
    refine ⟨image, kip, hbuild, hread, ?_, by decide⟩
    rw [Kip.name_eq rfl hnul hbuild hread]
    exact (readBytes_of_whole (by decide)).trans (by decide)

end NxObject
