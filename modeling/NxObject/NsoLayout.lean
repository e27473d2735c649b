import NxObject.NsoRoundtrip

/-!
# Where an NSO is mapped

A segment whose address is left unset is meant to follow the ones before it in the mapped image. The
builder records its default address instead, which is the image base.
-/
namespace NxObject.Executable
open Outcome

variable {δ : Type}

/-- The addresses that the setters were called with; an address that was not set is `none`. -/
structure Addresses where
  text : Option UInt32 := none
  rodata : Option UInt32 := none
  data : Option UInt32 := none
  deriving DecidableEq, Repr

namespace Addresses
variable (given : Addresses) (text rodata : Bytes)

def textAt : ℕ := given.text.elim 0 UInt32.toNat

/-- Where the constants are to be mapped: behind the code, unless an address is given. -/
def rodataAt : ℕ := given.rodata.elim (given.textAt + (padded text 0x1000).length) UInt32.toNat

/-- Where the data is to be mapped: behind the constants, unless an address is given. -/
def dataAt : ℕ := given.data.elim (given.rodataAt text + (padded rodata 0x1000).length) UInt32.toNat

end Addresses

namespace NsoBuilder

/-- The builder once the setters of the addresses have been called; `new` fills in zeroes. -/
def placed (b : NsoBuilder) (given : Addresses) : NsoBuilder :=
  { b with
    textVaddr := given.text.getD 0
    rodataVaddr := given.rodata.getD 0
    dataVaddr := given.data.getD 0 }

end NsoBuilder

/-- The image records every segment without an address at its offset within the mapped image, and if
none has an address, the extents of the three follow one another. -/
def NsoBuilder.RecordsOffsets (b : NsoBuilder) (given : Addresses) (image : Bytes) : Prop :=
  ∃ header, NsoHeader.codec.fromPrefix image = some header ∧
    (given.text = none → header.text.memoryOffset.toNat = given.textAt) ∧
    (given.rodata = none → header.rodata.memoryOffset.toNat = given.rodataAt (b.text.getD [])) ∧
    (given.data = none →
      header.data.memoryOffset.toNat = given.dataAt (b.text.getD []) (b.rodata.getD [])) ∧
    (given.text = none → given.rodata = none → given.data = none →
      header.text.memoryOffset.toNat + header.text.size.toNat ≤ header.rodata.memoryOffset.toNat ∧
        header.rodata.memoryOffset.toNat + header.rodata.size.toNat ≤ header.data.memoryOffset.toNat)

/-! ## What is recorded -/

lemma padded_pos {segment : Bytes} (h : segment ≠ []) : 0 < (padded segment 0x1000).length := by
  have hle := Placement.le_alignUp (by decide : 0 < 0x1000) segment.length
  rw [padded_length (by decide)]
  exact (List.length_pos_iff.mpr h).trans_le hle

lemma exists_header_of_build {lz4 : Packer δ} {sha256 : Bytes → Digest} {b : NsoBuilder} {image : Bytes}
    (h : b.build lz4 sha256 = ok image) :
    ∃ header, NsoHeader.codec.fromPrefix image = some header ∧
      header.text.memoryOffset = b.textVaddr ∧ header.rodata.memoryOffset = b.rodataVaddr ∧
      header.data.memoryOffset = b.dataVaddr := by
  obtain ⟨text, -, h⟩ := bind_eq_ok.mp h
  obtain ⟨rodata, -, h⟩ := bind_eq_ok.mp h
  obtain ⟨data, -, h⟩ := bind_eq_ok.mp h
  obtain ⟨textPadded, -, h⟩ := bind_eq_ok.mp h
  obtain ⟨rodataPadded, -, h⟩ := bind_eq_ok.mp h
  obtain ⟨dataPadded, -, h⟩ := bind_eq_ok.mp h
  obtain ⟨rodataOffset, -, h⟩ := bind_eq_ok.mp h
  obtain ⟨dataOffset, -, h⟩ := bind_eq_ok.mp h
  obtain ⟨u, -, h⟩ := bind_eq_ok.mp h
  cases h
  rw [List.append_assoc, List.append_assoc]
  exact ⟨_, Codec.fromPrefix_append _ _ _, rfl, rfl, rfl⟩

/-- A built image records the offsets it is asked to exactly if both the constants and the data were
given an address. -/
theorem recordsOffsets_iff (lz4 : Packer δ) (sha256 : Bytes → Digest) (b : NsoBuilder)
    (given : Addresses) (text rodata data image : Bytes) (hsets : b.Sets text rodata data)
    (htext : text ≠ []) (hrodata : rodata ≠ []) (hbuild : (b.placed given).build lz4 sha256 = ok image) :
    b.RecordsOffsets given image ↔ given.rodata ≠ none ∧ given.data ≠ none := by
  obtain ⟨header, hheader, htextAt, hrodataAt, hdataAt⟩ := exists_header_of_build hbuild
  have htextPos := padded_pos htext
  have hrodataPos := padded_pos hrodata
  rw [NsoBuilder.RecordsOffsets, hsets.hasText, hsets.hasRodata, Option.getD_some, Option.getD_some]
  constructor
  · rintro ⟨header', hheader', -, hrodataOffset, hdataOffset, -⟩
    obtain rfl := Option.some.inj (hheader.symm.trans hheader')
    constructor
    · intro hunset
      have hoffset := hrodataOffset hunset
      rw [hrodataAt, NsoBuilder.placed, Addresses.rodataAt, hunset] at hoffset
      change 0 = given.textAt + _ at hoffset
      omega
    · intro hunset
      have hoffset := hdataOffset hunset
      rw [hdataAt, NsoBuilder.placed, Addresses.dataAt, hunset] at hoffset
      change 0 = given.rodataAt text + _ at hoffset
      omega
  · rintro ⟨hrodataSet, hdataSet⟩
    refine ⟨header, hheader, fun hunset => ?_, fun hunset => absurd hunset hrodataSet,
      fun hunset => absurd hunset hdataSet, fun _ hunset => absurd hunset hrodataSet⟩
    rw [htextAt, NsoBuilder.placed, Addresses.textAt, hunset]
    rfl

/-! ## Three segments of one byte -/

def byteNso : NsoBuilder := { text := some [1], rodata := some [2], data := some [3], compress := false }

def byteImage (given : Addresses) : Bytes :=
  (byteNso.placed given).image runPacker (fun _ => List.Vector.replicate 0x20 0) [1] [2] [3]

lemma byteNso_build (given : Addresses) :
    (byteNso.placed given).build runPacker (fun _ => List.Vector.replicate 0x20 0) =
      ok (byteImage given) := by
  have hpad : ∀ byte : UInt8, (padded [byte] 0x1000).length = 0x1000 := by
    intro byte
    rw [padded_length (by decide), List.length_singleton]
    decide
  have hstored : ∀ segment, (byteNso.placed given).stored runPacker segment = padded segment 0x1000 :=
    fun _ => rfl
  refine NsoBuilder.build_eq ⟨rfl, rfl, rfl⟩ ⟨?_, ?_, ?_, ?_, ?_⟩
  · rw [hpad]
    decide
  · rw [hpad]
    decide
  · rw [hpad]
    decide
  · rw [NsoBuilder.dataOffset, NsoBuilder.rodataOffset, hstored, hstored, hpad, hpad]
    decide
  · rw [hstored, hpad]
    decide

theorem recordsOffsets_iff_byteNso :
    byteNso.RecordsOffsets { rodata := some 0x1000, data := some 0x2000 }
        (byteImage { rodata := some 0x1000, data := some 0x2000 }) ↔
      some (0x1000 : UInt32) ≠ none ∧ some (0x2000 : UInt32) ≠ none :=
  recordsOffsets_iff runPacker (fun _ => List.Vector.replicate 0x20 0) byteNso
    { rodata := some 0x1000, data := some 0x2000 } [1] [2] [3] _ ⟨rfl, rfl, rfl⟩ (by decide) (by decide)
    (byteNso_build _)

/-- Without addresses the constants are recorded at the image base, where the code is. -/
theorem byteNso_collides :
    (byteNso.placed {}).build runPacker (fun _ => List.Vector.replicate 0x20 0) = ok (byteImage {}) ∧
      ¬ byteNso.RecordsOffsets {} (byteImage {}) := by
  refine ⟨byteNso_build {}, ?_⟩
  obtain ⟨header, hheader, -, hrodata, -⟩ := exists_header_of_build (byteNso_build {})
  rintro ⟨header', hheader', -, hoffset, -⟩
  obtain rfl := Option.some.inj (hheader.symm.trans hheader')
  have hpos : 0 < (padded [1] 0x1000).length := padded_pos (by decide)
  have hzero := hoffset rfl
  rw [hrodata, Addresses.rodataAt, Option.elim_none] at hzero
  exact absurd hzero (Nat.ne_of_lt (Nat.add_pos_right _ hpos))

end NxObject.Executable
