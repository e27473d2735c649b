import NxObject.Nro

/-!
# What an accepted NRO hands out

The segments are checked when an image is accepted, and so are the asset sections that are not empty. The
accessors compute a position even for those that are.
-/
namespace NxObject.Relocatable
open Outcome

variable {ε : Type} {bytes : Bytes} {nro : Nro}

def NroAssetHeader.sections (header : NroAssetHeader) : List NroAssetSection :=
  [header.icon, header.nacp, header.romfs]

/-- A section that is not empty lies inside the buffer. -/
def NroAssetSection.Inside (sect : NroAssetSection) (base available : ℕ) : Prop :=
  sect.size.toNat ≠ 0 → base + sect.offset.toNat + sect.size.toNat < 2 ^ 64 ∧
    base + sect.offset.toNat + sect.size.toNat ≤ available

namespace Nro

/-- The headers are those found in the buffer, and what they locate lies inside it. -/
structure Valid (nro : Nro) : Prop where
  start : NroStart.codec.fromPrefix nro.bytes = some nro.start
  header : NroHeader.codec.fromPrefix (nro.bytes.drop 0x10) = some nro.header
  magic : nro.header.magic = NRO_MAGIC
  segments : ∀ idx, (nro.header.segments idx).fileOff.toNat + (nro.header.segments idx).size.toNat ≤
    nro.bytes.length
  found : nro.assetHeader = findAssetHeader nro.bytes nro.header.size.toNat
  assets : ∀ header, nro.assetHeader = some header → ∀ sect ∈ header.sections,
    sect.Inside nro.header.size.toNat nro.bytes.length

end Nro

/-! ## The checks -/

lemma checkSegment_eq_ok {seg : NroSegment} {idx available : ℕ} :
    checkSegment seg idx available = ok () ↔ seg.fileOff.toNat + seg.size.toNat ≤ available := by
  have hoff := seg.fileOff.toNat_lt
  have hsize := seg.size.toNat_lt
  rw [checkSegment, checkedAdd_of_lt (by omega), okOr_some, ok_bind, ensure_eq_ok]

lemma checkSegment_settled (seg : NroSegment) (idx available : ℕ) :
    Settled (checkSegment seg idx available) :=
  (settled_okOr _ _).bind fun _ _ => settled_ensure _ _

lemma checkAssetSection_eq_ok {name : String} {sect : NroAssetSection} {base available : ℕ} :
    checkAssetSection name sect base available = ok () ↔ sect.Inside base available := by
  by_cases hzero : sect.size.toNat = 0
  · rw [checkAssetSection, if_pos hzero]
    exact ⟨fun _ hne => absurd hzero hne, fun _ => rfl⟩
  · rw [checkAssetSection, if_neg hzero, NroAssetSection.Inside, forall_prop_of_true hzero]
    constructor
    · intro h
      obtain ⟨absOff, habs, h⟩ := bind_eq_ok.mp h
      obtain ⟨-, rfl⟩ := checkedAdd_eq_some.mp (okOr_eq_ok.mp habs)
      obtain ⟨stop, hstop, h⟩ := bind_eq_ok.mp h
      obtain ⟨hlt, rfl⟩ := checkedAdd_eq_some.mp (okOr_eq_ok.mp hstop)
      exact ⟨hlt, ensure_eq_ok.mp h⟩
    · rintro ⟨hlt, hle⟩
      rw [checkedAdd_of_lt (by omega), okOr_some, ok_bind, checkedAdd_of_lt hlt, okOr_some, ok_bind,
        ensure_true hle]

lemma checkAssetSection_settled (name : String) (sect : NroAssetSection) (base available : ℕ) :
    Settled (checkAssetSection name sect base available) := by
  rw [checkAssetSection]
  split_ifs
  · exact settled_ok ()
  · exact (settled_okOr _ _).bind fun _ _ => (settled_okOr _ _).bind fun _ _ => settled_ensure _ _

lemma checkAssetHeader_eq_ok {header : NroAssetHeader} {base available : ℕ} :
    checkAssetHeader header base available = ok () ↔
      ∀ sect ∈ header.sections, sect.Inside base available := by
  simp only [checkAssetHeader, forM_eq_ok, NroAssetHeader.sections, List.forall_mem_cons,
    checkAssetSection_eq_ok, List.not_mem_nil, IsEmpty.forall_iff, implies_true]

/-! ## Acceptance -/

namespace Nro

theorem tryFromBytes_eq_ok : tryFromBytes bytes = ok nro ↔ nro.bytes = bytes ∧ nro.Valid := by
  constructor
  · intro h
    obtain ⟨u, hlen, h⟩ := bind_eq_ok.mp h
    obtain ⟨start, hstart, h⟩ := bind_eq_ok.mp h
    obtain ⟨rest, hrest, h⟩ := bind_eq_ok.mp h
    obtain ⟨-, -, rfl⟩ := slice_eq_ok.mp hrest
    obtain ⟨header, hheader, h⟩ := bind_eq_ok.mp h
    rw [List.take_length] at hheader
    obtain ⟨u, hmagic, h⟩ := bind_eq_ok.mp h
    obtain ⟨u, hsegments, h⟩ := bind_eq_ok.mp h
    have hsegments := forM_eq_ok.mp hsegments
    cases hfound : findAssetHeader bytes header.size.toNat with
    | none =>
      simp only [hfound] at h
      obtain rfl := ok.inj h
      exact ⟨rfl, okOr_eq_ok.mp hstart, okOr_eq_ok.mp hheader, ensure_eq_ok.mp hmagic,
        fun idx => checkSegment_eq_ok.mp (hsegments idx (List.mem_finRange idx)), hfound.symm, nofun⟩
    | some assetHdr =>
      simp only [hfound] at h
      obtain ⟨u, hassets, h⟩ := bind_eq_ok.mp h
      obtain rfl := ok.inj h
      refine ⟨rfl, okOr_eq_ok.mp hstart, okOr_eq_ok.mp hheader, ensure_eq_ok.mp hmagic,
        fun idx => checkSegment_eq_ok.mp (hsegments idx (List.mem_finRange idx)), hfound.symm, ?_⟩
      rintro _ ⟨⟩
      exact checkAssetHeader_eq_ok.mp hassets
  · rintro ⟨rfl, h⟩
    have hlen : 0x80 ≤ nro.bytes.length := by
      have hle := Codec.le_of_fromPrefix _ h.header
      rw [NroHeader.codec_size, List.length_drop] at hle
      omega
    have hrest : (slice nro.bytes 0x10 nro.bytes.length : Outcome FromBytesError _) =
        ok (nro.bytes.drop 0x10) := by
      rw [slice_of_le (by omega) le_rfl, List.take_length]
    have hsegments : ((List.finRange 3).forM fun idx =>
        checkSegment (nro.header.segments idx) idx nro.bytes.length) = ok () :=
      forM_eq_ok.mpr fun idx _ => checkSegment_eq_ok.mpr (h.segments idx)
    simp only [tryFromBytes, ensure_true hlen, h.start, okOr_some, ok_bind, hrest, h.header,
      ensure_true h.magic, hsegments, ← h.found]
    cases hfound : nro.assetHeader with
    | none => simp only [pure_eq, ← hfound]
    | some header =>
      simp only [checkAssetHeader_eq_ok.mpr (h.assets header hfound), ok_bind, pure_eq, ← hfound]

theorem tryFromBytes_settled (bytes : Bytes) : Settled (tryFromBytes bytes) := by
  refine (settled_ensure _ _).bind fun u hlen => (settled_okOr _ _).bind fun start _ => ?_
  have hle : 0x10 ≤ bytes.length := le_trans (by decide) (ensure_eq_ok.mp hlen)
  rw [slice_of_le hle le_rfl, ok_bind]
  refine (settled_okOr _ _).bind fun header _ => (settled_ensure _ _).bind fun _ _ => ?_
  refine (settled_forM fun idx _ => checkSegment_settled _ _ _).bind fun _ _ => ?_
  cases findAssetHeader bytes header.size.toNat with
  | none => exact settled_ok _
  | some assetHdr =>
    exact (settled_forM fun _ _ => checkAssetSection_settled _ _ _ _).bind fun _ _ => settled_ok _

/-! ## The accessors -/

def segmentBytes (nro : Nro) (idx : Fin 3) : Bytes :=
  sliceAt nro.bytes (nro.header.segments idx).fileOff.toNat (nro.header.segments idx).size.toNat

theorem segment_eq (h : nro.Valid) (idx : Fin 3) :
    (nro.segment idx : Outcome ε _) = ok (nro.segmentBytes idx) :=
  slice_sliceAt (h.segments idx)

def assetBytes (nro : Nro) (sect : NroAssetSection) : Bytes :=
  sliceAt nro.bytes (nro.header.size.toNat + sect.offset.toNat) sect.size.toNat

/-- An accessor hands out nothing, or the bytes that its section locates in the buffer. -/
def Hands (nro : Nro) (f : NroAssetHeader → NroAssetSection) (result : Outcome ε (Option Bytes)) : Prop :=
  result = ok none ∨ ∃ header, nro.assetHeader = some header ∧
    nro.header.size.toNat + (f header).offset.toNat + (f header).size.toNat ≤ nro.bytes.length ∧
    result = ok (some (nro.assetBytes (f header)))

/-- The position of an empty section, which is computed all the same, stays below `2 ^ 64`. -/
def Placed (nro : Nro) (sect : NroAssetSection) : Prop :=
  sect.size.toNat = 0 → nro.header.size.toNat + sect.offset.toNat < 2 ^ 64

variable {f : NroAssetHeader → NroAssetSection} {header : NroAssetHeader}

theorem assetSection_of_none (h : nro.assetHeader = none) :
    (nro.assetSection f : Outcome ε _) = ok none := by
  simp only [assetSection, h, pure_eq]

theorem assetSection_of_some (h : nro.assetHeader = some header)
    (hinside : (f header).Inside nro.header.size.toNat nro.bytes.length) (hplaced : nro.Placed (f header)) :
    (nro.assetSection f : Outcome ε _) =
      ok (if (f header).size.toNat = 0 then none else some (nro.assetBytes (f header))) := by
  simp only [assetSection, h]
  by_cases hzero : (f header).size.toNat = 0
  · rw [add_of_lt (hplaced hzero), ok_bind, if_pos hzero, if_pos hzero, pure_eq]
  · obtain ⟨hlt, hle⟩ := hinside hzero
    rw [add_of_lt (by omega), ok_bind, if_neg hzero, if_neg hzero, add_of_lt hlt, ok_bind,
      slice_sliceAt hle, ok_bind, pure_eq, assetBytes]

theorem assetSection_eq_panic (h : nro.assetHeader = some header) (hplaced : ¬ nro.Placed (f header)) :
    (nro.assetSection f : Outcome ε _) = panic := by
  rw [Placed, Classical.not_imp] at hplaced
  simp only [assetSection, h]
  rw [add, if_neg hplaced.2, panic_bind]

theorem assetSection_hands (h : nro.assetHeader = some header)
    (hinside : (f header).Inside nro.header.size.toNat nro.bytes.length) :
    nro.Hands f (nro.assetSection f : Outcome ε _) ↔ nro.Placed (f header) := by
  constructor
  · intro hhands
    by_contra hplaced
    rw [assetSection_eq_panic h hplaced] at hhands
    rcases hhands with hnone | ⟨_, -, -, hsome⟩
    · exact absurd hnone nofun
    · exact absurd hsome nofun
  · intro hplaced
    rw [assetSection_of_some h hinside hplaced]
    by_cases hzero : (f header).size.toNat = 0
    · exact Or.inl (by rw [if_pos hzero])
    · exact Or.inr ⟨header, h, (hinside hzero).2, by rw [if_neg hzero]⟩

/-- Every accessor of an accepted image comes back, with nothing or with the bytes that the headers
locate, exactly if no empty asset section has a position that overflows. -/
theorem accessors_complete (h : tryFromBytes bytes = ok nro) :
    ((nro.textSegment : Outcome ε _) = ok (nro.segmentBytes 0) ∧
      (nro.rodataSegment : Outcome ε _) = ok (nro.segmentBytes 1) ∧
      (nro.dataSegment : Outcome ε _) = ok (nro.segmentBytes 2) ∧
      nro.Hands (·.icon) (nro.assetIcon : Outcome ε _) ∧
      nro.Hands (·.nacp) (nro.assetNacp : Outcome ε _) ∧
      nro.Hands (·.romfs) (nro.assetRomfs : Outcome ε _)) ↔
    ∀ header, nro.assetHeader = some header → ∀ sect ∈ header.sections, nro.Placed sect := by
  obtain ⟨-, hvalid⟩ := tryFromBytes_eq_ok.mp h
  simp only [textSegment, rodataSegment, dataSegment, segment_eq hvalid, true_and, assetIcon, assetNacp,
    assetRomfs]
  cases hfound : nro.assetHeader with
  | none =>
    simp only [assetSection_of_none hfound]
    exact ⟨fun _ => nofun, fun _ => ⟨Or.inl rfl, Or.inl rfl, Or.inl rfl⟩⟩
  | some header =>
    have hinside := hvalid.assets header hfound
    simp only [NroAssetHeader.sections, List.forall_mem_cons] at hinside
    obtain ⟨hicon, hnacp, hromfs, -⟩ := hinside
    rw [assetSection_hands hfound hicon, assetSection_hands hfound hnacp, assetSection_hands hfound hromfs]
    simp only [Option.some.injEq, forall_eq', NroAssetHeader.sections, List.forall_mem_cons,
      List.not_mem_nil, IsEmpty.forall_iff, implies_true, and_true]

/-! ## An empty section far behind the file -/

/-- An image of no segments whose asset header records an empty icon at an offset. -/
def emptyIcon (offset : UInt64) : Nro :=
  let start : NroStart := ⟨0, 0, List.Vector.replicate 8 0⟩
  let header : NroHeader :=
    { magic := NRO_MAGIC
      version := 0
      size := 0x80
      flags := 0
      segments := fun _ => ⟨0, 0⟩
      bssSize := 0
      reserved := 0
      buildId := List.Vector.replicate 0x20 0
      reserved2 := List.Vector.replicate 0x20 0 }
  let assetHeader : NroAssetHeader := ⟨ASSET_MAGIC, 0, ⟨offset, 0⟩, ⟨0, 0⟩, ⟨0, 0⟩⟩
  { bytes := NroStart.codec.enc start ++ (NroHeader.codec.enc header ++
      (NroAssetHeader.codec.enc assetHeader ++ [0]))
    start
    header
    assetHeader := some assetHeader }

lemma emptyIcon_accepted (offset : UInt64) :
    tryFromBytes (emptyIcon offset).bytes = ok (emptyIcon offset) := by
  refine tryFromBytes_eq_ok.mpr ⟨rfl, Codec.fromPrefix_append _ _ _, ?_, rfl, ?_, ?_, ?_⟩
  · exact Codec.fromPrefix_append NroHeader.codec _ _
  · intro idx
    exact Nat.zero_le _
  · have hasset : NroAssetHeader.codec.fromPrefix ((emptyIcon offset).bytes.drop 0x80) =
        (emptyIcon offset).assetHeader := Codec.fromPrefix_append NroAssetHeader.codec _ [0]
    have hlen : (emptyIcon offset).bytes.length = 0x80 + 0x38 + 1 := by
      simp only [emptyIcon, List.length_append, Codec.enc_length, NroStart.codec_size,
        NroHeader.codec_size, NroAssetHeader.codec_size, List.length_cons, List.length_nil]
    change _ = findAssetHeader _ 0x80
    rw [findAssetHeader, hlen, if_pos (Nat.lt_succ_self _), hasset]
    rfl
  · rintro header ⟨⟩ sect hsect hsize
    simp only [NroAssetHeader.sections, List.mem_cons, List.not_mem_nil, or_false] at hsect
    rcases hsect with rfl | rfl | rfl <;> exact absurd rfl hsize

lemma emptyIcon_placed {offset : UInt64} (h : 0x80 + offset.toNat < 2 ^ 64) :
    ∀ header, (emptyIcon offset).assetHeader = some header → ∀ sect ∈ header.sections,
      (emptyIcon offset).Placed sect := by
  rintro header ⟨⟩ sect hsect hzero
  simp only [NroAssetHeader.sections, List.mem_cons, List.not_mem_nil, or_false] at hsect
  rcases hsect with rfl | rfl | rfl
  · exact h
  · exact (by decide : 0x80 + 0 < 2 ^ 64)
  · exact (by decide : 0x80 + 0 < 2 ^ 64)

theorem accessors_complete_emptyIcon :
    (emptyIcon 0x38).Hands (·.icon) ((emptyIcon 0x38).assetIcon : Outcome Unit _) :=
  ((accessors_complete (emptyIcon_accepted 0x38)).mpr (emptyIcon_placed (by decide))).2.2.2.1

/-- The reader accepts an image whose empty icon lies at the largest offset, and the accessor of the icon
panics on it. -/
theorem emptyIcon_panics :
    ∃ nro, tryFromBytes (emptyIcon 0xFFFFFFFFFFFFFFFF).bytes = ok nro ∧
      (nro.assetIcon : Outcome Unit _) = panic :=
  ⟨emptyIcon _, emptyIcon_accepted _,
    assetSection_eq_panic (f := (·.icon)) rfl fun hplaced => absurd (hplaced rfl) (by decide)⟩

end Nro
end NxObject.Relocatable
