import NxObject.Npdm

/-!
# What an accepted NPDM hands out

A buffer is accepted if the META header locates two sections inside it that begin with their headers. The
blocks of the ACI0 section are checked when they are asked for.
-/
namespace NxObject.ProgramMeta
open Outcome

section Sections
variable {α : Type} {codec : Codec α} {bytes : Bytes} {invalidSize : ℕ → FromBytesError}

/-- A section that lies inside the buffer and begins with the header. -/
structure Located (codec : Codec α) (bytes : Bytes) (offset size : UInt32) (header : α) : Prop where
  inside : offset.toNat + size.toNat ≤ bytes.length
  room : codec.size ≤ size.toNat
  read : codec.fromPrefix (bytes.drop offset.toNat) = some header

lemma add_lt (a b : UInt32) : a.toNat + b.toNat < 2 ^ 33 := by
  have ha := a.toNat_lt
  have hb := b.toNat_lt
  omega

lemma readSection_eq_ok {offset size : UInt32} {header : α} :
    readSection codec bytes offset.toNat size.toNat invalidSize = ok header ↔
      Located codec bytes offset size header := by
  have hlt := add_lt offset size
  rw [readSection, add_of_lt (by omega), ok_bind]
  constructor
  · intro h
    obtain ⟨u, hinside, h⟩ := bind_eq_ok.mp h
    obtain ⟨u, hroom, h⟩ := bind_eq_ok.mp h
    obtain ⟨rest, hrest, h⟩ := bind_eq_ok.mp h
    obtain ⟨-, -, rfl⟩ := slice_eq_ok.mp hrest
    rw [List.take_length] at h
    exact ⟨ensure_eq_ok.mp hinside, ensure_eq_ok.mp hroom, okOr_eq_ok.mp h⟩
  · intro h
    have hle : offset.toNat ≤ bytes.length := (Nat.le_add_right _ _).trans h.inside
    rw [ensure_true h.inside, ok_bind, ensure_true h.room, ok_bind, slice_of_le hle le_rfl, ok_bind,
      List.take_length, h.read, okOr_some]

lemma readSection_settled (offset size : UInt32) :
    Settled (readSection codec bytes offset.toNat size.toNat invalidSize) := by
  have hlt := add_lt offset size
  rw [readSection, add_of_lt (by omega), ok_bind]
  refine (settled_ensure _ _).bind fun u hinside => (settled_ensure _ _).bind fun v _ => ?_
  have hle : offset.toNat ≤ bytes.length := (Nat.le_add_right _ _).trans (ensure_eq_ok.mp hinside)
  rw [slice_of_le hle le_rfl, ok_bind]
  exact settled_okOr _ _

end Sections

namespace Npdm
variable {bytes : Bytes} {npdm : Npdm}

/-- The headers are those found in the buffer, and their sections lie inside it. -/
structure Valid (npdm : Npdm) : Prop where
  header : NpdmHeader.codec.fromPrefix npdm.bytes = some npdm.header
  magic : npdm.header.magic = META_MAGIC
  acid : Located AcidHeader.codec npdm.bytes npdm.header.acidOffset npdm.header.acidSize npdm.acid
  acidMagic : npdm.acid.magic = ACID_MAGIC
  aci0 : Located Aci0Header.codec npdm.bytes npdm.header.aciOffset npdm.header.aciSize npdm.aci0
  aci0Magic : npdm.aci0.magic = ACI0_MAGIC

theorem tryFromBytes_eq_ok : tryFromBytes bytes = ok npdm ↔ npdm.bytes = bytes ∧ npdm.Valid := by
  constructor
  · intro h
    obtain ⟨u, -, h⟩ := bind_eq_ok.mp h
    obtain ⟨header, hheader, h⟩ := bind_eq_ok.mp h
    obtain ⟨u, hmagic, h⟩ := bind_eq_ok.mp h
    obtain ⟨acid, hacid, h⟩ := bind_eq_ok.mp h
    obtain ⟨u, hacidMagic, h⟩ := bind_eq_ok.mp h
    obtain ⟨aci0, haci0, h⟩ := bind_eq_ok.mp h
    obtain ⟨u, haci0Magic, h⟩ := bind_eq_ok.mp h
    obtain rfl := ok.inj h
    exact ⟨rfl, okOr_eq_ok.mp hheader, ensure_eq_ok.mp hmagic, readSection_eq_ok.mp hacid,
      ensure_eq_ok.mp hacidMagic, readSection_eq_ok.mp haci0, ensure_eq_ok.mp haci0Magic⟩
  · rintro ⟨rfl, h⟩
    have hlen : 0x80 ≤ npdm.bytes.length := Codec.le_of_fromPrefix _ h.header
    simp only [tryFromBytes, ensure_true hlen, h.header, okOr_some, ok_bind, ensure_true h.magic,
      readSection_eq_ok.mpr h.acid, ensure_true h.acidMagic, readSection_eq_ok.mpr h.aci0,
      ensure_true h.aci0Magic, pure_eq]

theorem tryFromBytes_settled (bytes : Bytes) : Settled (tryFromBytes bytes) := by
  refine (settled_ensure _ _).bind fun _ _ => (settled_okOr _ _).bind fun header _ => ?_
  refine (settled_ensure _ _).bind fun _ _ => (readSection_settled _ _).bind fun acid _ => ?_
  refine (settled_ensure _ _).bind fun _ _ => (readSection_settled _ _).bind fun aci0 _ => ?_
  exact (settled_ensure _ _).bind fun _ _ => settled_ok _

def innerStart (npdm : Npdm) (offset : UInt32) : ℕ := npdm.header.aciOffset.toNat + offset.toNat

/-- A block is the bytes its offset and size locate, or the error that says they do not fit. -/
theorem aci0InnerSection_eq (npdm : Npdm) (sect : String) (offset size : UInt32) :
    npdm.aci0InnerSection sect offset size =
      if npdm.innerStart offset + size.toNat ≤ npdm.bytes.length then
        ok (sliceAt npdm.bytes (npdm.innerStart offset) size.toNat)
      else err (.aci0InnerSectionOutOfBounds sect offset.toNat size.toNat
        (npdm.innerStart offset + size.toNat) npdm.bytes.length) := by
  have hlt := add_lt npdm.header.aciOffset offset
  have hsize := size.toNat_lt
  have hstop : npdm.header.aciOffset.toNat + offset.toNat + size.toNat < 2 ^ 64 := by omega
  rw [aci0InnerSection, add_of_lt (by omega), ok_bind, checkedAdd_of_lt hstop, okOr_some, ok_bind,
    innerStart]
  split_ifs with h
  · rw [ensure_true h, ok_bind, slice_sliceAt h]
  · rw [ensure, if_neg h, err_bind]

end Npdm
end NxObject.ProgramMeta
