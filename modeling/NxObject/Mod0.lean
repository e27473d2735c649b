import NxObject.ElfLoading

/-!
# The MOD0 header

The header lies inside the code of an executable; the second word of the code says where. It is found
through that word in an NSO and in an NRO as it was in the ELF they were built from.
-/
namespace NxObject.Module
open Outcome

def MOD0_MAGIC : UInt32 := 0x30444f4d

/-- The offsets are relative to the header. -/
structure Mod0Header where
  magic : UInt32
  dynamicOffset : Int32
  bssStartOffset : Int32
  bssEndOffset : Int32
  ehFrameHdrStart : Int32
  ehFrameHdrEnd : Int32
  moduleObjectOffset : Int32
  deriving DecidableEq

def i32 : Codec Int32 :=
  Codec.u32.iso
    { toFun := UInt32.toInt32
      invFun := Int32.toUInt32
      left_inv := fun _ => rfl
      right_inv := fun _ => rfl }

def Mod0Header.codec : Codec Mod0Header :=
  (Codec.u32.pair <| i32.pair <| i32.pair <| i32.pair <| i32.pair <| i32.pair i32).iso
    { toFun := fun (magic, dynamicOffset, bssStartOffset, bssEndOffset, ehFrameHdrStart, ehFrameHdrEnd,
          moduleObjectOffset) =>
        { magic, dynamicOffset, bssStartOffset, bssEndOffset, ehFrameHdrStart, ehFrameHdrEnd,
          moduleObjectOffset }
      invFun := fun h => (h.magic, h.dynamicOffset, h.bssStartOffset, h.bssEndOffset, h.ehFrameHdrStart,
        h.ehFrameHdrEnd, h.moduleObjectOffset)
      left_inv := fun _ => rfl
      right_inv := fun _ => rfl }

theorem Mod0Header.codec_size : Mod0Header.codec.size = 0x1C := rfl

inductive FromBytesError where
  | bufferTooSmall (required available : ℕ)
  | invalidMagic (found : UInt32)
  deriving DecidableEq, Repr

structure Mod0 where
  header : Mod0Header
  deriving DecidableEq

/-- Validate `bytes` as a MOD0 header. -/
def Mod0.tryFromBytes (bytes : Bytes) : Outcome FromBytesError Mod0 := do
  ensure (0x1C ≤ bytes.length) (.bufferTooSmall 0x1C bytes.length)
  let header ← okOr (Mod0Header.codec.fromPrefix bytes) (.bufferTooSmall 0x1C bytes.length)
  ensure (header.magic = MOD0_MAGIC) (.invalidMagic header.magic)
  pure ⟨header⟩

lemma Mod0.tryFromBytes_congr {bytes bytes' : Bytes} (hlen : 0x1C ≤ bytes.length)
    (h : bytes'.take 0x1C = bytes.take 0x1C) : tryFromBytes bytes' = tryFromBytes bytes := by
  have hlen' : 0x1C ≤ bytes'.length := by
    have htake := congrArg List.length h
    rw [List.length_take, List.length_take] at htake
    omega
  have hfront : ∀ {bs : Bytes}, 0x1C ≤ bs.length →
      Mod0Header.codec.fromPrefix bs = Mod0Header.codec.fromBytes (bs.take 0x1C) := by
    intro bs hbs
    conv_lhs => rw [← List.take_append_drop 0x1C bs]
    exact Mod0Header.codec.fromPrefix_append_of_length (List.length_take_of_le hbs) _
  obtain ⟨header, hheader⟩ : ∃ header, Mod0Header.codec.fromBytes (bytes.take 0x1C) = some header :=
    ⟨_, if_pos (List.length_take_of_le hlen)⟩
  rw [tryFromBytes, tryFromBytes, ensure_true hlen, ensure_true hlen', hfront hlen, hfront hlen', h, hheader]
  rfl

end NxObject.Module

namespace NxObject.Elf
open Outcome

variable {E : Type}

lemma mod0OffsetOf_eq_some {ε : Type} {text : Bytes} {off : UInt32}
    (h : (mod0OffsetOf text : Outcome ε _) = ok (some off)) :
    8 ≤ text.length ∧ off.toNat = ofLe (sliceAt text 4 4) ∧ 0 < off.toNat ∧ off.toNat < text.length := by
  rw [mod0OffsetOf] at h
  split_ifs at h with hlen
  · have hbounds : 4 + 4 ≤ text.length := hlen
    have hword : (slice text 4 8 : Outcome ε _) = ok (sliceAt text 4 4) := slice_sliceAt hbounds
    have hlt : ofLe (sliceAt text 4 4) < 2 ^ 32 :=
      (ofLe_lt _).trans_le (Nat.pow_le_pow_right (by decide) (List.length_take_le _ _))
    rw [hword, ok_bind] at h
    dsimp only at h
    split_ifs at h with hinside
    · obtain rfl := Option.some.inj (ok.inj h)
      rw [UInt32.toNat_ofNat_of_lt' hlt]
      exact ⟨hlen, rfl, hinside.1, hinside.2.trans_le (Nat.mod_le _ _)⟩
    · cases h
  · cases h

lemma parse_mod0Offset {object : Bytes → Except E ElfFile} {bytes : Bytes} {segments : ElfSegments}
    (h : ElfSegments.parse object bytes = ok segments) :
    (mod0OffsetOf segments.text : Outcome (ParseError E) _) = ok segments.mod0Offset := by
  obtain ⟨elf, -, h⟩ := bind_eq_ok.mp h
  obtain ⟨_, -, h⟩ := bind_eq_ok.mp h
  obtain ⟨loaded, -, h⟩ := bind_eq_ok.mp h
  obtain ⟨text, -, h⟩ := bind_eq_ok.mp h
  obtain ⟨rodata, -, h⟩ := bind_eq_ok.mp h
  obtain ⟨data, -, h⟩ := bind_eq_ok.mp h
  obtain ⟨bss, -, h⟩ := bind_eq_ok.mp h
  obtain ⟨buildId, -, h⟩ := bind_eq_ok.mp h
  obtain ⟨mod0Offset, hmod0, h⟩ := bind_eq_ok.mp h
  obtain rfl := ok.inj h
  exact hmod0

lemma padded_getElem? {segment : Bytes} {i : ℕ} (hi : i < segment.length) :
    (padded segment 0x1000)[i]? = segment[i]? := by
  rw [padded, List.getElem?_append_left hi]

/-- The MOD0 header of an ELF is found in the NSO and in the NRO built from it, at the offset their start
stub records, as long as it lies inside the code. The NRO writes its own header over the first 128 bytes. -/
theorem mod0_found {δ ε : Type} {object : Bytes → Except E ElfFile} {bytes : Bytes} {segments : ElfSegments}
    (hparse : ElfSegments.parse object bytes = ok segments) {off : UInt32}
    (hoff : segments.mod0Offset = some off) (hinside : off.toNat + 0x1C ≤ segments.text.length)
    {lz4 : Executable.Packer δ} (hlz4 : lz4.Lossless) (sha256 : Bytes → Executable.Digest) :
    (segments.intoNsoBuilder.Fits lz4 segments.text segments.rodata segments.data →
      ∃ image nso text, segments.intoNsoBuilder.build lz4 sha256 = ok image ∧
        Executable.Nso.tryFromBytes image = ok nso ∧ nso.text lz4 = ok text ∧
        ofLe (sliceAt text 4 4) = off.toNat ∧ Module.Mod0.tryFromBytes (text.drop off.toNat) =
          Module.Mod0.tryFromBytes (segments.text.drop off.toNat)) ∧
    (segments.intoNroBuilder.Laid segments.text segments.rodata segments.data → 0x80 ≤ off.toNat →
      ∃ image nro text, segments.intoNroBuilder.build = ok image ∧
        Relocatable.Nro.tryFromBytes image = ok nro ∧ (nro.textSegment : Outcome ε _) = ok text ∧
        nro.start.modOffset = off ∧ Module.Mod0.tryFromBytes (text.drop off.toNat) =
          Module.Mod0.tryFromBytes (segments.text.drop off.toNat)) := by
  have hmod0 := parse_mod0Offset hparse
  rw [hoff] at hmod0
  obtain ⟨hlen, hword, -, -⟩ := mod0OffsetOf_eq_some hmod0
  have hdrop : 0x1C ≤ (segments.text.drop off.toNat).length := by
    rw [List.length_drop]
    omega
  refine ⟨fun hfits => ?_, fun hlaid hbehind => ?_⟩
  · have hvalid := Executable.NsoBuilder.read_valid sha256 hfits
    refine ⟨_, _, padded segments.text 0x1000, Executable.NsoBuilder.build_eq ⟨rfl, rfl, rfl⟩ hfits,
      Executable.Nso.tryFromBytes_eq_ok.mpr ⟨rfl, hvalid⟩,
      Executable.NsoBuilder.read_text hlz4 sha256 hfits, ?_, ?_⟩
    · rw [hword]
      exact congrArg ofLe (sliceAt_congr fun i _ hi => padded_getElem? (by omega))
    · exact Module.Mod0.tryFromBytes_congr hdrop (sliceAt_congr fun i _ hi => padded_getElem? (by omega))
  · obtain ⟨segment, htext, hsegment⟩ := Relocatable.NroBuilder.read_text (ε := ε) hlaid
    refine ⟨_, _, segment, Relocatable.NroBuilder.build_eq hlaid,
      Relocatable.Nro.tryFromBytes_eq_ok.mpr ⟨rfl, Relocatable.NroBuilder.read_valid hlaid⟩, htext, ?_, ?_⟩
    · have hstub : ∀ i, 4 ≤ i → i < 4 + 4 →
          (segments.intoNroBuilder.image segments.text segments.rodata segments.data)[i]? =
            segments.text[i]? := fun i _ hi => by
        have hpadded := Placement.le_alignUp (by decide : 0 < 0x1000) segments.text.length
        rw [← padded_length (by decide)] at hpadded
        rw [Relocatable.NroBuilder.image_text hlaid (by omega) (by omega), padded_getElem? (by omega)]
      have hstart : (Relocatable.NroStart.codec.dec
          (segments.intoNroBuilder.image segments.text segments.rodata segments.data)).modOffset =
            UInt32.ofNat (ofLe (sliceAt segments.text 4 4)) :=
        congrArg (UInt32.ofNat <| ofLe ·) (sliceAt_congr hstub)
      rw [← hword, UInt32.ofNat_toNat] at hstart
      exact hstart
    · refine Module.Mod0.tryFromBytes_congr hdrop (sliceAt_congr fun i hle hi => ?_)
      rw [hsegment i (by omega), padded_getElem? (by omega)]

def mod0Text : Bytes :=
  [0, 0, 0, 0, 0x80, 0, 0, 0] ++ List.replicate 0x78 0 ++
    Module.Mod0Header.codec.enc ⟨Module.MOD0_MAGIC, 0x100, 0, 0, 0, 0, -8⟩

def mod0Elf : ElfFile :=
  tableOf [⟨PT_LOAD, 0, 0x9C, 0x9C, some mod0Text⟩, pageHeader PT_LOAD 1, pageHeader PT_LOAD 2]

def mod0Segments : List Loaded := [⟨0, mod0Text, 0x9C, 0x9C⟩, loadedPage 1, loadedPage 2]

lemma mod0Text_offset : (mod0OffsetOf mod0Text : Outcome (ParseError Empty) _) = ok (some 0x80) := by
  decide +kernel

lemma mod0Segments_bss : (bssSizeOf mod0Segments : Outcome (ParseError Empty) _) = ok 0 := by decide +kernel

lemma mod0Elf_parse : ∃ segments, ElfSegments.parse (alwaysFinds mod0Elf) [] = ok segments ∧
    segments.picked = mod0Segments.map fun loaded => (loaded.address, some loaded.data) := by
  have hloaded : mod0Elf.pairedSegments.mapM readSegment =
      (ok mod0Segments : Outcome (ParseError Empty) _) := by decide +kernel
  exact parse_of_sorted rfl rfl hloaded (sortOn_of_pairwise _ (by decide)) rfl mod0Segments_bss rfl
    mod0Text_offset

section Behind
variable {segments : ElfSegments}
  (hpicked : segments.picked = mod0Segments.map fun loaded => (loaded.address, some loaded.data))
include hpicked

lemma mod0_fields : (segments.textVaddr = 0 ∧ segments.text = mod0Text) ∧
    (segments.rodataVaddr = 0x1000 ∧ segments.rodata = [1]) ∧ segments.dataVaddr = 0x2000 ∧ segments.data = [2] := by
  simp only [ElfSegments.picked, mod0Segments, List.map_cons, List.map_nil, List.cons.injEq, Prod.mk.injEq,
    Option.some.injEq] at hpicked
  obtain ⟨htext, hrodata, hdata, -⟩ := hpicked
  exact ⟨htext, hrodata, hdata⟩

lemma mod0_fits :
    segments.intoNsoBuilder.Fits Executable.runPacker segments.text segments.rodata segments.data := by
  obtain ⟨⟨-, htext⟩, ⟨-, hrodata⟩, -, hdata⟩ := mod0_fields hpicked
  rw [htext, hrodata, hdata]
  exact Executable.NsoBuilder.fits_of_pages rfl (by decide +kernel) (by decide) (by decide)

lemma mod0_laid : segments.intoNroBuilder.Laid segments.text segments.rodata segments.data := by
  obtain ⟨⟨htextAt, htext⟩, ⟨hrodataAt, hrodata⟩, hdataAt, hdata⟩ := mod0_fields hpicked
  refine intoNroBuilder_laid htextAt ?_ ?_ ?_ ?_
  · rw [htext]
    decide
  · rw [htext, hrodataAt]
    decide +kernel
  · rw [hrodataAt, hrodata, hdataAt]
    decide
  · rw [hdataAt, hdata]
    decide

end Behind

theorem mod0_found_behind : ∃ segments, ElfSegments.parse (alwaysFinds mod0Elf) [] = ok segments ∧
    (∃ image nso text,
      segments.intoNsoBuilder.build Executable.runPacker (fun _ => List.Vector.replicate 0x20 0) = ok image ∧
      Executable.Nso.tryFromBytes image = ok nso ∧ nso.text Executable.runPacker = ok text ∧
      Module.Mod0.tryFromBytes (text.drop 0x80) = ok ⟨⟨Module.MOD0_MAGIC, 0x100, 0, 0, 0, 0, -8⟩⟩) ∧
    ∃ image nro text, segments.intoNroBuilder.build = ok image ∧ Relocatable.Nro.tryFromBytes image = ok nro ∧
      (nro.textSegment : Outcome Unit _) = ok text ∧ nro.start.modOffset = 0x80 ∧
      Module.Mod0.tryFromBytes (text.drop 0x80) = ok ⟨⟨Module.MOD0_MAGIC, 0x100, 0, 0, 0, 0, -8⟩⟩ := by
  obtain ⟨segments, hparse, hpicked⟩ := mod0Elf_parse
  obtain ⟨⟨-, htext⟩, -⟩ := mod0_fields hpicked
  have hoff : segments.mod0Offset = some 0x80 := by
    have hparsed := parse_mod0Offset hparse
    rw [htext] at hparsed
    exact (ok.inj (mod0Text_offset.symm.trans hparsed)).symm
  obtain ⟨hnso, hnro⟩ := mod0_found (ε := Unit) hparse hoff (by rw [htext]; decide +kernel)
    Executable.runPacker_lossless (fun _ => List.Vector.replicate 0x20 0)
  obtain ⟨image, nso, text, hbuild, hread, hcode, -, hmod0⟩ := hnso (mod0_fits hpicked)
  obtain ⟨image', nro, text', hbuild', hread', hcode', hstart, hmod0'⟩ := hnro (mod0_laid hpicked) (by decide)
  have hheader : Module.Mod0.tryFromBytes (segments.text.drop 0x80) =
      ok ⟨⟨Module.MOD0_MAGIC, 0x100, 0, 0, 0, 0, -8⟩⟩ := by
    rw [htext]
    decide +kernel
  exact ⟨segments, hparse, ⟨image, nso, text, hbuild, hread, hcode, hmod0.trans hheader⟩,
    image', nro, text', hbuild', hread', hcode', hstart, hmod0'.trans hheader⟩

end NxObject.Elf
