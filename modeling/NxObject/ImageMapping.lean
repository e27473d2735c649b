import NxObject.Memory
import NxObject.NroRoundtrip
import NxObject.NsoRoundtrip

/-!
# What a loader maps of an image

An NSO is mapped from its expanded segments, an NRO as it lies in the file. Behind the data the loader
appends the BSS.
-/
namespace NxObject.Executable
open Outcome Memory Placement

variable {δ : Type}

/-- Map the expanded segments at their offsets, and the BSS behind the data. -/
def Nso.load (lz4 : Packer δ) (nso : Nso) : Outcome (DecompressError δ) (List Region) := do
  let text ← nso.text lz4
  let rodata ← nso.rodata lz4
  let data ← nso.data lz4
  pure [⟨nso.header.text.memoryOffset.toNat, text⟩, ⟨nso.header.rodata.memoryOffset.toNat, rodata⟩,
    ⟨nso.header.data.memoryOffset.toNat, data ++ List.replicate nso.header.bssSize.toNat 0⟩]

lemma filled_padded (start : ℕ) (segment : Bytes) (bss : ℕ) :
    (⟨start, padded segment 0x1000 ++ List.replicate bss 0⟩ : Region) =
      .filled start segment (alignUp 0x1000 segment.length + bss) := by
  have hle := le_alignUp (by decide : 0 < 0x1000) segment.length
  rw [Region.filled, padded, List.append_assoc, ← List.replicate_add, Nat.sub_add_comm hle]

namespace NsoBuilder
variable {lz4 : Packer δ} {b : NsoBuilder} {text rodata data : Bytes}

lemma read_text (hlz4 : lz4.Lossless) (sha256 : Bytes → Digest) (h : b.Fits lz4 text rodata data) :
    (b.read lz4 sha256 text rodata data).text lz4 = ok (padded text 0x1000) := by
  rw [Nso.text_eq (read_valid sha256 h), (read_stored sha256 h).1, (read_size sha256 h).1,
    expanded_stored hlz4 (read_flags lz4 sha256 b text rodata data).1]
  rfl

/-- A built image maps what the builder was given where it was told to. -/
theorem load_read (hlz4 : lz4.Lossless) (sha256 : Bytes → Digest) (h : b.Fits lz4 text rodata data) :
    (b.read lz4 sha256 text rodata data).load lz4 =
      ok [.filled b.textVaddr.toNat text (alignUp 0x1000 text.length),
        .filled b.rodataVaddr.toNat rodata (alignUp 0x1000 rodata.length),
        .filled b.dataVaddr.toNat data (alignUp 0x1000 data.length + b.bssSize.toNat)] := by
  obtain ⟨-, hrodataSize, hdataSize⟩ := read_size sha256 h
  obtain ⟨-, hrodataBytes, hdataBytes⟩ := read_stored sha256 h
  obtain ⟨-, hrodataFlag, hdataFlag⟩ := read_flags lz4 sha256 b text rodata data
  have hvalid := read_valid sha256 h
  rw [Nso.load, read_text hlz4 sha256 h, Nso.rodata_eq hvalid, hrodataBytes, hrodataSize,
    expanded_stored hlz4 hrodataFlag, Nso.data_eq hvalid, hdataBytes, hdataSize,
    expanded_stored hlz4 hdataFlag, ← filled_padded]
  rfl

lemma fits_of_pages (hcompress : b.compress = true) (htext : text.length ≤ 0x1000)
    (hrodata : rodata.length ≤ 0x1000) (hdata : data.length ≤ 0x1000) :
    b.Fits runPacker text rodata data := by
  have hpad : ∀ {segment : Bytes}, segment.length ≤ 0x1000 → (padded segment 0x1000).length ≤ 0x1000 := by
    intro segment hle
    rw [padded_length (by decide)]
    exact (alignUp_mono 0x1000 hle).trans (by decide)
  have hstored : ∀ segment, (b.stored runPacker segment).length ≤ (padded segment 0x1000).length +
      (padded segment 0x1000).length / 255 + 11 := by
    intro segment
    rw [stored, if_pos hcompress]
    exact compress_length_le _
  have htextPadded := hpad htext
  have hrodataPadded := hpad hrodata
  have hdataPadded := hpad hdata
  have htextStored := hstored text
  have hrodataStored := hstored rodata
  have hdataStored := hstored data
  refine ⟨by omega, by omega, by omega, ?_, by omega⟩
  rw [dataOffset, rodataOffset]
  omega

end NsoBuilder
end NxObject.Executable

namespace NxObject.Relocatable
open Outcome Memory Placement

variable {ε : Type}

/-- A header always has segments. -/
local instance neZeroSegments : NeZero 3 := ⟨by decide⟩

/-- Map the segments at their offsets in the file, and the BSS behind the data. -/
def Nro.load (nro : Nro) : Outcome ε (List Region) := do
  let text ← nro.textSegment
  let rodata ← nro.rodataSegment
  let data ← nro.dataSegment
  pure [⟨(nro.header.segments 0).fileOff.toNat, text⟩, ⟨(nro.header.segments 1).fileOff.toNat, rodata⟩,
    ⟨(nro.header.segments 2).fileOff.toNat, data ++ List.replicate nro.header.bssSize.toNat 0⟩]

namespace NroBuilder
variable {b : NroBuilder} {text rodata data : Bytes} (h : b.Laid text rodata data)
include h

lemma read_text : ∃ segment, ((b.read text rodata data).textSegment : Outcome ε _) = ok segment ∧
    ∀ i, ¬ (0x10 ≤ i ∧ i < 0x80) → segment[i]? = (padded text 0x1000)[i]? := by
  have htext : ((b.read text rodata data).segment 0 : Outcome ε _) =
      ok (sliceAt (b.image text rodata data) 0 (padded text 0x1000).length) := read_segment h 0
  refine ⟨_, htext, fun i hi => ?_⟩
  rw [sliceAt_getElem?]
  split_ifs with hlt
  · rw [Nat.zero_add]
    exact image_text h hlt hi
  · exact (List.getElem?_eq_none (Nat.not_lt.mp hlt)).symm

/-- A built image maps what the builder was given, except where its header lies over the code. -/
theorem load_read :
    ∃ segment : Bytes, ((b.read text rodata data).load : Outcome ε _) =
      ok [⟨0, segment⟩, .filled b.rodataVaddr.toNat rodata (alignUp 0x1000 rodata.length),
        .filled b.dataVaddr.toNat data (alignUp 0x1000 data.length + b.bssSize.toNat)] ∧
      ∀ a, ¬ (0x10 ≤ a ∧ a < 0x80) →
        (⟨0, segment⟩ : Region).byteAt a = (Region.filled 0 text (alignUp 0x1000 text.length)).byteAt a := by
  obtain ⟨segment, htext, hsegment⟩ := read_text (ε := ε) h
  have hrodata : ((b.read text rodata data).segment 1 : Outcome ε _) = ok (padded rodata 0x1000) :=
    (read_segment h 1).trans (congrArg ok (sliceAt_image h (p := (b.rodataVaddr.toNat, padded rodata 0x1000))
      (by simp only [laterParts, List.mem_cons, true_or])))
  have hdata : ((b.read text rodata data).segment 2 : Outcome ε _) = ok (padded data 0x1000) :=
    (read_segment h 2).trans (congrArg ok (sliceAt_image h (p := (b.dataVaddr.toNat, padded data 0x1000))
      (by simp only [laterParts, List.mem_cons, true_or, or_true])))
  have hoff : ((b.read text rodata data).header.segments 0).fileOff.toNat = 0 := by
    change b.textVaddr.toNat = 0
    rw [h.textVaddr]
    rfl
  refine ⟨segment, ?_, fun a ha => ?_⟩
  · rw [Nro.load, htext, Nro.rodataSegment, hrodata, Nro.dataSegment, hdata, ← Executable.filled_padded]
    simp only [ok_bind, pure_eq, hoff]
    rfl
  · simp only [Region.byteAt, Region.filled, Nat.zero_le, if_true, Nat.sub_zero]
    exact hsegment a ha

end NroBuilder
end NxObject.Relocatable
