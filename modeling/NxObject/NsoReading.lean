import NxObject.Nso

/-!
# What an accepted NSO hands out

An image is accepted if its header is followed, somewhere in the buffer, by the bytes that are stored for
its three segments.
-/
namespace NxObject.Executable
open Outcome

variable {ε δ : Type} {bytes : Bytes} {nso : Nso}

lemma stop_lt (offset size : UInt32) : offset.toNat + size.toNat < 2 ^ 64 := by
  have hoffset := offset.toNat_lt
  have hsize := size.toNat_lt
  omega

lemma validateSegmentBounds_eq_ok {bufferLen : ℕ} {segmentName : String} {offset size : UInt32} :
    validateSegmentBounds bufferLen segmentName offset size = ok () ↔
      offset.toNat + size.toNat ≤ bufferLen := by
  rw [validateSegmentBounds, checkedAdd_of_lt (stop_lt offset size), okOr_some, ok_bind, ensure_eq_ok]

lemma validateSegmentBounds_settled (bufferLen : ℕ) (segmentName : String) (offset size : UInt32) :
    Settled (validateSegmentBounds bufferLen segmentName offset size) :=
  (settled_okOr _ _).bind fun _ _ => settled_ensure _ _

namespace Nso

/-- The header is the one found in the buffer, and what is stored for the segments lies inside it. -/
structure Valid (nso : Nso) : Prop where
  header : NsoHeader.codec.fromPrefix nso.bytes = some nso.header
  magic : nso.header.magic = NSO_MAGIC
  text : nso.header.text.fileOffset.toNat + nso.header.textFileSize.toNat ≤ nso.bytes.length
  rodata : nso.header.rodata.fileOffset.toNat + nso.header.rodataFileSize.toNat ≤ nso.bytes.length
  data : nso.header.data.fileOffset.toNat + nso.header.dataFileSize.toNat ≤ nso.bytes.length

theorem tryFromBytes_eq_ok : tryFromBytes bytes = ok nso ↔ nso.bytes = bytes ∧ nso.Valid := by
  constructor
  · intro h
    obtain ⟨u, -, h⟩ := bind_eq_ok.mp h
    obtain ⟨header, hheader, h⟩ := bind_eq_ok.mp h
    obtain ⟨u, hmagic, h⟩ := bind_eq_ok.mp h
    obtain ⟨u, htext, h⟩ := bind_eq_ok.mp h
    obtain ⟨u, hrodata, h⟩ := bind_eq_ok.mp h
    obtain ⟨u, hdata, h⟩ := bind_eq_ok.mp h
    obtain rfl := ok.inj h
    exact ⟨rfl, okOr_eq_ok.mp hheader, ensure_eq_ok.mp hmagic, validateSegmentBounds_eq_ok.mp htext,
      validateSegmentBounds_eq_ok.mp hrodata, validateSegmentBounds_eq_ok.mp hdata⟩
  · rintro ⟨rfl, h⟩
    have hlen : 0x100 ≤ nso.bytes.length := Codec.le_of_fromPrefix _ h.header
    simp only [tryFromBytes, ensure_true hlen, h.header, okOr_some, ok_bind, ensure_true h.magic,
      validateSegmentBounds_eq_ok.mpr h.text, validateSegmentBounds_eq_ok.mpr h.rodata,
      validateSegmentBounds_eq_ok.mpr h.data, pure_eq]

theorem tryFromBytes_settled (bytes : Bytes) : Settled (tryFromBytes bytes) := by
  refine (settled_ensure _ _).bind fun _ _ => (settled_okOr _ _).bind fun header _ => ?_
  refine (settled_ensure _ _).bind fun _ _ => (validateSegmentBounds_settled _ _ _ _).bind fun _ _ => ?_
  refine (validateSegmentBounds_settled _ _ _ _).bind fun _ _ => ?_
  exact (validateSegmentBounds_settled _ _ _ _).bind fun _ _ => settled_ok _

/-! ## The accessors -/

def storedBytes (nso : Nso) (segment : NsoSegmentHeader) (fileSize : UInt32) : Bytes :=
  sliceAt nso.bytes segment.fileOffset.toNat fileSize.toNat

/-- A segment is its stored bytes, expanded to the recorded size if its compression bit is set. -/
def expanded (lz4 : Packer δ) (nso : Nso) (stored : Bytes) (size : ℕ) (flag : UInt32) : Except δ Bytes :=
  if nso.flags &&& flag = flag then lz4.decompress stored size else .ok stored

lemma stored_eq {segment : NsoSegmentHeader} {fileSize : UInt32}
    (h : segment.fileOffset.toNat + fileSize.toNat ≤ nso.bytes.length) :
    (nso.stored segment fileSize : Outcome ε _) = ok (nso.storedBytes segment fileSize) :=
  slice_sliceAt h

theorem decompress_eq (lz4 : Packer δ) (nso : Nso) (segment : Segment) (stored : Bytes) (size : ℕ)
    (flag : UInt32) :
    nso.decompress lz4 segment stored size flag =
      mapErr (⟨segment, ·⟩) (ofExcept (nso.expanded lz4 stored size flag)) := by
  rw [decompress, expanded]
  by_cases hflag : nso.flags &&& flag = flag
  · rw [if_neg (not_not_intro hflag), if_pos hflag]
  · rw [if_pos hflag, if_neg hflag]
    rfl

section Accessors
variable (h : nso.Valid)
include h

theorem textCompressed_eq :
    (nso.textCompressed : Outcome ε _) = ok (nso.storedBytes nso.header.text nso.header.textFileSize) :=
  stored_eq h.text

theorem rodataCompressed_eq :
    (nso.rodataCompressed : Outcome ε _) =
      ok (nso.storedBytes nso.header.rodata nso.header.rodataFileSize) :=
  stored_eq h.rodata

theorem dataCompressed_eq :
    (nso.dataCompressed : Outcome ε _) = ok (nso.storedBytes nso.header.data nso.header.dataFileSize) :=
  stored_eq h.data

variable (lz4 : Packer δ)

theorem text_eq :
    nso.text lz4 = mapErr (⟨.text, ·⟩) (ofExcept (nso.expanded lz4
      (nso.storedBytes nso.header.text nso.header.textFileSize) nso.header.text.size.toNat
      TEXT_COMPRESS)) := by
  rw [text, textCompressed_eq h, ok_bind, decompress_eq]

theorem rodata_eq :
    nso.rodata lz4 = mapErr (⟨.roData, ·⟩) (ofExcept (nso.expanded lz4
      (nso.storedBytes nso.header.rodata nso.header.rodataFileSize) nso.header.rodata.size.toNat
      RODATA_COMPRESS)) := by
  rw [rodata, rodataCompressed_eq h, ok_bind, decompress_eq]

theorem data_eq :
    nso.data lz4 = mapErr (⟨.data, ·⟩) (ofExcept (nso.expanded lz4
      (nso.storedBytes nso.header.data nso.header.dataFileSize) nso.header.data.size.toNat
      DATA_COMPRESS)) := by
  rw [data, dataCompressed_eq h, ok_bind, decompress_eq]

end Accessors

end Nso
end NxObject.Executable
