import NxObject.Buffer
import NxObject.Cnmt

/-!
# What an accepted CNMT hands out

A buffer is accepted if it is the header, an extended header of the declared length and the counted records
in a row, whatever follows.
-/
namespace NxObject.ContentMeta
open Outcome

variable {ε : Type} {bytes : Bytes} {cnmt : Cnmt}

namespace Cnmt

/-- The parts of the buffer follow one another as the header counts them. -/
structure Valid (cnmt : Cnmt) (extended : Bytes) : Prop where
  length : extended.length = cnmt.header.extendedHeaderSize.toNat
  extendedHeader : cnmt.extendedHeader = if cnmt.header.IsApplication then
    CnmtApplicationExtendedHeader.codec.fromBytes extended else none
  records : cnmt.records.length = cnmt.header.contentEntryCount.toNat

/-- The bytes a content meta was read from, up to what follows the records. -/
def toBytes (cnmt : Cnmt) (extended rest : Bytes) : Bytes :=
  CnmtHeader.codec.enc cnmt.header ++ (extended ++ (cnmt.records.flatMap CnmtContentRecord.codec.enc ++ rest))

lemma readExtendedHeader_eq {header : CnmtHeader} {extended rest : Bytes}
    (hlen : extended.length = header.extendedHeaderSize.toNat) :
    (readExtendedHeader header (CnmtHeader.codec.enc header ++ (extended ++ rest)) : Outcome ε _) =
      ok (if header.IsApplication then CnmtApplicationExtendedHeader.codec.fromBytes extended else none) := by
  rw [readExtendedHeader]
  by_cases happ : header.IsApplication
  · have hsize := CnmtHeader.codec.enc_length header
    rw [CnmtHeader.codec_size] at hsize
    have hslice : (slice (CnmtHeader.codec.enc header ++ (extended ++ rest)) 0x20
        (CnmtHeader.codec.enc header ++ (extended ++ rest)).length : Outcome ε _) = ok (extended ++ rest) := by
      rw [slice_of_le (by simp [hsize]) le_rfl, List.take_length, List.drop_left' hsize]
    rw [if_pos happ, if_pos happ, hslice, ok_bind, Codec.fromPrefix_append_of_length _ (hlen.trans happ.1)]
    rfl
  · rw [if_neg happ, if_neg happ]
    rfl

theorem tryFromBytes_eq_ok : tryFromBytes bytes = ok cnmt ↔
    ∃ extended rest, bytes = cnmt.toBytes extended rest ∧ cnmt.Valid extended := by
  constructor
  · intro h
    obtain ⟨header, hheader, h⟩ := bind_eq_ok.mp h
    obtain ⟨rest, rfl⟩ := (Codec.fromPrefix_eq_some _).mp (okOr_eq_ok.mp hheader)
    have hrest : (CnmtHeader.codec.enc header ++ rest).drop 0x20 = rest :=
      List.drop_left' (Codec.enc_length _ _)
    dsimp only at h
    rw [hrest] at h
    obtain ⟨u, hsize, h⟩ := bind_eq_ok.mp h
    have hlen := List.length_take_of_le (ensure_eq_ok.mp hsize)
    obtain ⟨extendedHeader, hextended, h⟩ := bind_eq_ok.mp h
    rw [← List.take_append_drop header.extendedHeaderSize.toNat rest, readExtendedHeader_eq hlen]
      at hextended
    obtain rfl := ok.inj hextended
    obtain ⟨records, hrecords, h⟩ := bind_eq_ok.mp h
    obtain ⟨hcount, tail, htail⟩ := (Codec.prefixElems_eq_some _).mp (okOr_eq_ok.mp hrecords)
    obtain rfl := ok.inj h
    refine ⟨_, tail, ?_, hlen, rfl, hcount⟩
    rw [toBytes, ← htail, List.take_append_drop]
  · rintro ⟨extended, rest, rfl, h⟩
    have hheader := Codec.fromPrefix_append CnmtHeader.codec cnmt.header
      (extended ++ (cnmt.records.flatMap CnmtContentRecord.codec.enc ++ rest))
    have hdrop : (CnmtHeader.codec.enc cnmt.header ++ (extended ++
        (cnmt.records.flatMap CnmtContentRecord.codec.enc ++ rest))).drop 0x20 =
          extended ++ (cnmt.records.flatMap CnmtContentRecord.codec.enc ++ rest) :=
      List.drop_left' (Codec.enc_length _ _)
    have hroom : cnmt.header.extendedHeaderSize.toNat ≤
        (extended ++ (cnmt.records.flatMap CnmtContentRecord.codec.enc ++ rest)).length := by
      rw [List.length_append, h.length]
      exact Nat.le_add_right _ _
    simp only [tryFromBytes, toBytes, hheader, okOr_some, ok_bind, hdrop, ensure_true hroom,
      readExtendedHeader_eq h.length, ← h.extendedHeader, List.drop_left' h.length,
      Codec.prefixElems_append _ h.records, pure_eq]

theorem tryFromBytes_settled (bytes : Bytes) : Settled (tryFromBytes bytes) := by
  refine (settled_okOr _ _).bind fun header hheader => (settled_ensure _ _).bind fun _ _ => ?_
  have hlen : 0x20 ≤ bytes.length := Codec.le_of_fromPrefix _ (okOr_eq_ok.mp hheader)
  refine Settled.bind ?_ fun _ _ => (settled_okOr _ _).bind fun _ _ => settled_ok _
  rw [readExtendedHeader]
  split_ifs
  · rw [slice_of_le hlen le_rfl]
    exact settled_ok _
  · exact settled_ok _

/-! ## The accessors -/

def recordsStart (cnmt : Cnmt) : ℕ := 0x20 + cnmt.header.extendedHeaderSize.toNat

variable {extended : Bytes} (rest : Bytes)

theorem record_eq (h : cnmt.Valid extended) {i : ℕ} {record : CnmtContentRecord}
    (hrecord : cnmt.records[i]? = some record) :
    cnmt.recordsStart + 0x38 * i + 0x38 ≤ (cnmt.toBytes extended rest).length ∧
      sliceAt (cnmt.toBytes extended rest) (cnmt.recordsStart + 0x38 * i) 0x38 =
        CnmtContentRecord.codec.enc record := by
  obtain ⟨hi, rfl⟩ := List.getElem?_eq_some_iff.mp hrecord
  have hrecords : ∀ records : List CnmtContentRecord,
      (records.flatMap CnmtContentRecord.codec.enc).length = records.length * 0x38 :=
    Codec.length_flatMap (Codec.enc_length _)
  have hsplit : cnmt.records = cnmt.records.take i ++ cnmt.records[i] :: cnmt.records.drop (i + 1) := by
    rw [← List.drop_eq_getElem_cons hi, List.take_append_drop]
  have hbytes : cnmt.toBytes extended rest = (CnmtHeader.codec.enc cnmt.header ++ extended ++
      (cnmt.records.take i).flatMap CnmtContentRecord.codec.enc) ++
        (CnmtContentRecord.codec.enc cnmt.records[i] ++
          ((cnmt.records.drop (i + 1)).flatMap CnmtContentRecord.codec.enc ++ rest)) := by
    rw [toBytes]
    conv_lhs => rw [hsplit]
    simp only [List.flatMap_append, List.flatMap_cons, List.append_assoc]
  have hstart : cnmt.recordsStart + 0x38 * i = (CnmtHeader.codec.enc cnmt.header ++ extended ++
      (cnmt.records.take i).flatMap CnmtContentRecord.codec.enc).length := by
    rw [List.length_append, List.length_append, Codec.enc_length, CnmtHeader.codec_size, hrecords,
      List.length_take_of_le hi.le, h.length, recordsStart, Nat.mul_comm i]
  constructor
  · rw [hbytes, List.length_append, ← hstart, List.length_append, Codec.enc_length,
      CnmtContentRecord.codec_size]
    omega
  · exact sliceAt_eq_of_append hbytes hstart.symm (Codec.enc_length _ _)

theorem extendedHeader_eq_some (h : cnmt.Valid extended) :
    (cnmt.extendedHeader.isSome ↔ cnmt.header.IsApplication) ∧
      ∀ header, cnmt.extendedHeader = some header →
        extended = CnmtApplicationExtendedHeader.codec.enc header ∧
          sliceAt (cnmt.toBytes extended rest) 0x20 0x10 = extended := by
  rw [h.extendedHeader]
  by_cases happ : cnmt.header.IsApplication
  · have hlen : extended.length = CnmtApplicationExtendedHeader.codec.size := h.length.trans happ.1
    obtain ⟨x, rfl⟩ : ∃ x, extended = CnmtApplicationExtendedHeader.codec.enc x :=
      ⟨_, by rw [CnmtApplicationExtendedHeader.codec.enc_dec _ hlen.ge, ← hlen, List.take_length]⟩
    rw [if_pos happ, Codec.fromBytes_enc]
    refine ⟨iff_of_true rfl happ, ?_⟩
    rintro header ⟨⟩
    exact ⟨rfl, sliceAt_eq_of_append rfl (Codec.enc_length _ _) (Codec.enc_length _ _)⟩
  · rw [if_neg happ]
    exact ⟨iff_of_false (by simp) happ, nofun⟩

end Cnmt

theorem CnmtContentRecord.sizeValue_eq (record : CnmtContentRecord) :
    (record.sizeValue : Outcome ε _) = ok (ofLe (record.size.toList ++ [0, 0])) := by
  have hlen : record.size.toList.length = 6 := List.Vector.toList_length _
  rw [sizeValue, copyFromSlice_of_le (by simp [hlen]), hlen]
  rfl

end NxObject.ContentMeta
