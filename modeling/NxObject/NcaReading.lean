import NxObject.Buffer
import NxObject.NcaRoundtrip

/-!
# What an accepted NCA hands out

The accessor of a section computes once more what was checked when the archive was accepted, and drops the
errors. None of them can occur.
-/
namespace NxObject.Archive
open Outcome

variable {ε : Type} {bytes : Bytes} {nca : Nca}

lemma orError_eq_ok {α : Type} {x : Option α} {e : FromBytesError} {a : α} :
    orError x e = .ok a ↔ x = some a := by
  cases x <;> simp [orError]

lemma except_bind_eq_ok {α β : Type} {x : Except FromBytesError α} {f : α → Except FromBytesError β}
    {b : β} : (x >>= f) = .ok b ↔ ∃ a, x = .ok a ∧ f a = .ok b := by
  cases x with
  | error e => exact ⟨nofun, nofun⟩
  | ok a => exact ⟨fun h => ⟨a, rfl, h⟩, fun ⟨_, ha, h⟩ => Except.ok.inj ha ▸ h⟩

lemma sectionRange_eq_ok {index available : ℕ} {entry : NcaSectionEntry} {range : Option (ℕ × ℕ)}
    (h : sectionRange index entry available = .ok range) :
    (range.isSome ↔ entry.mediaEndOffset ≠ 0) ∧
      ∀ p, range = some p → NCA_HEADER_SIZE ≤ p.1 ∧ p.1 ≤ p.2 ∧ p.2 ≤ available := by
  rw [sectionRange] at h
  have hzero : entry.mediaEndOffset.toNat * MEDIA_UNIT_SIZE = 0 ↔ entry.mediaEndOffset = 0 := by
    rw [Nat.mul_eq_zero, or_iff_left (by decide), ← UInt32.toNat_inj]
    rfl
  split_ifs at h with hend hbounds hout
  · cases h
    refine ⟨iff_of_false Bool.false_ne_true (not_not_intro (hzero.mp hend)), ?_⟩
    rintro p ⟨⟩
  · cases h
    refine ⟨iff_of_true rfl fun heq => hend (hzero.mpr heq), ?_⟩
    rintro p ⟨⟩
    exact ⟨by omega, by omega, by omega⟩

lemma dataRange_eq_ok {index size : ℕ} {fsHeader : NcaFsHeader} {hash : NcaHashType} {first last : ℕ}
    (h : dataRange index fsHeader hash size = .ok (first, last)) : first ≤ last ∧ last ≤ size := by
  obtain ⟨⟨offset, length⟩, -, h⟩ := except_bind_eq_ok.mp h
  obtain ⟨stop, hstop, h⟩ := except_bind_eq_ok.mp h
  obtain ⟨-, rfl⟩ := checkedAdd_eq_some.mp (orError_eq_ok.mp hstop)
  split_ifs at h with hout
  cases h
  exact ⟨Nat.le_add_right _ _, Nat.le_of_not_lt hout⟩

lemma checkSection_eq_ok {header : NcaHeader} {available : ℕ} {i : Fin NCA_SECTION_COUNT}
    (h : checkSection header available i = ok ()) :
    ∃ range, sectionRange i (header.sectionEntries i) available = .ok range ∧
      ∀ start stop, range = some (start, stop) →
        (∃ crypt, cryptType i (header.fsHeaders i).cryptType = .ok crypt) ∧
          ∃ hash, hashType i (header.fsHeaders i).hashType = .ok hash ∧
            ∃ first last, dataRange i (header.fsHeaders i) hash (stop - start) = .ok (first, last) := by
  obtain ⟨range, hrange, h⟩ := bind_eq_ok.mp h
  have hrange := ofExcept_eq_ok.mp hrange
  refine ⟨range, hrange, ?_⟩
  rintro start stop rfl
  obtain ⟨crypt, hcrypt, h⟩ := bind_eq_ok.mp h
  obtain ⟨hash, hhash, h⟩ := bind_eq_ok.mp h
  obtain ⟨size, hsize, h⟩ := bind_eq_ok.mp h
  obtain ⟨⟨first, last⟩, hdata, -⟩ := bind_eq_ok.mp h
  have hle := ((sectionRange_eq_ok hrange).2 _ rfl).2.1
  rw [sub_of_le hle] at hsize
  obtain rfl := ok.inj hsize
  exact ⟨⟨crypt, ofExcept_eq_ok.mp hcrypt⟩, hash, ofExcept_eq_ok.mp hhash, first, last,
    ofExcept_eq_ok.mp hdata⟩

/-- What construction has checked. -/
structure Nca.Valid (nca : Nca) : Prop where
  header : NcaHeader.codec.fromPrefix nca.bytes = some nca.header
  magic : nca.header.magic = NCA3_MAGIC
  contentType : Archive.contentType nca.header.contentType = .ok nca.contentType
  sections : ∀ i, checkSection nca.header nca.bytes.length i = ok ()

theorem Nca.tryFromBytes_eq_ok : Nca.tryFromBytes bytes = ok nca ↔ nca.bytes = bytes ∧ nca.Valid := by
  constructor
  · intro h
    obtain ⟨header, hheader, h⟩ := bind_eq_ok.mp h
    obtain ⟨u, hmagic, h⟩ := bind_eq_ok.mp h
    obtain ⟨contentType, htype, h⟩ := bind_eq_ok.mp h
    obtain ⟨u, hsections, h⟩ := bind_eq_ok.mp h
    obtain rfl := ok.inj h
    exact ⟨rfl, okOr_eq_ok.mp hheader, ensure_eq_ok.mp hmagic, ofExcept_eq_ok.mp htype,
      fun i => forM_eq_ok.mp hsections i (List.mem_finRange i)⟩
  · rintro ⟨rfl, h⟩
    have hsections : (List.finRange NCA_SECTION_COUNT).forM (checkSection nca.header nca.bytes.length) =
        ok () := forM_eq_ok.mpr fun i _ => h.sections i
    simp only [Nca.tryFromBytes, h.header, okOr_some, ok_bind, ensure_true h.magic, h.contentType,
      ofExcept_ok, hsections, pure_eq]

/-! ## The accessors -/

theorem superblock_readable (sect : NcaSection) : sect.superblock ≠ .unreadable := by
  have hlen : sect.fsHeader.superblock.toList.length = superblockSize := List.Vector.toList_length _
  rw [NcaSection.superblock]
  split
  · rw [Codec.fromBytes, if_pos (hlen.trans Pfs0Superblock.codec_size.symm)]
    exact Superblock.noConfusion
  · rw [Codec.fromBytes, if_pos (hlen.trans RomFsSuperblock.codec_size.symm)]
    exact Superblock.noConfusion

/-- A section of an accepted archive: its bytes are those of its range, the filesystem image is a part of
them, and what its accessors read was checked. -/
structure NcaSection.Coherent (sect : NcaSection) (buffer : Bytes) : Prop where
  start : NCA_HEADER_SIZE ≤ sect.range.1
  ordered : sect.range.1 ≤ sect.range.2
  inside : sect.range.2 ≤ buffer.length
  bytes : sect.bytes = sliceAt buffer sect.range.1 (sect.range.2 - sect.range.1)
  data : ∃ offset size, offset + size ≤ sect.bytes.length ∧ sect.data = sliceAt sect.bytes offset size
  superblock : sect.superblock ≠ .unreadable
  encryption : cryptType sect.index sect.fsHeader.cryptType = .ok sect.encryption

/-- Every slot of an accepted archive is read; it holds a section exactly if its entry ends behind media
unit zero. -/
theorem sectionAt_coherent (h : Nca.tryFromBytes bytes = ok nca) (i : Fin NCA_SECTION_COUNT) :
    ∃ slot, (nca.sectionAt i : Outcome ε _) = ok slot ∧
      (slot.isSome ↔ (nca.header.sectionEntries i).mediaEndOffset ≠ 0) ∧
      ∀ sect, slot = some sect → sect.index = i ∧ sect.fsHeader = nca.header.fsHeaders i ∧
        sect.Coherent bytes := by
  obtain ⟨rfl, hvalid⟩ := Nca.tryFromBytes_eq_ok.mp h
  obtain ⟨range, hrange, hchecked⟩ := checkSection_eq_ok (hvalid.sections i)
  obtain ⟨hsome, hbounds⟩ := sectionRange_eq_ok hrange
  cases range with
  | none =>
    refine ⟨none, ?_, hsome, nofun⟩
    simp only [Nca.sectionAt, dif_pos i.isLt, Fin.eta, hrange, pure_eq]
  | some range =>
    obtain ⟨start, stop⟩ := range
    obtain ⟨⟨crypt, hcrypt⟩, hash, hhash, first, last, hdata⟩ := hchecked start stop rfl
    obtain ⟨hstart, hordered, hinside⟩ := hbounds _ rfl
    obtain ⟨hfirst, hlast⟩ := dataRange_eq_ok hdata
    dsimp only at hstart hordered hinside
    have hbytes : (slice nca.bytes start stop : Outcome ε _) =
        ok (sliceAt nca.bytes start (stop - start)) := by
      have hslice := slice_sliceAt (ε := ε) (show start + (stop - start) ≤ nca.bytes.length by omega)
      rwa [Nat.add_sub_cancel' hordered] at hslice
    have hlen : (sliceAt nca.bytes start (stop - start)).length = stop - start :=
      sliceAt_length (by omega)
    have hslice : (slice (sliceAt nca.bytes start (stop - start)) first last : Outcome ε _) =
        ok (sliceAt (sliceAt nca.bytes start (stop - start)) first (last - first)) := by
      have hslice := slice_sliceAt (ε := ε)
        (show first + (last - first) ≤ (sliceAt nca.bytes start (stop - start)).length by omega)
      rwa [Nat.add_sub_cancel' hfirst] at hslice
    refine ⟨some ⟨i, (start, stop), nca.header.fsHeaders i, sliceAt nca.bytes start (stop - start),
      sliceAt (sliceAt nca.bytes start (stop - start)) first (last - first)⟩, ?_, hsome, ?_⟩
    · simp only [Nca.sectionAt, dif_pos i.isLt, Fin.eta, hrange, hbytes, ok_bind, hhash, hlen, hdata,
        hslice, pure_eq]
    · rintro sect ⟨⟩
      refine ⟨rfl, rfl, hstart, hordered, hinside, rfl, ⟨first, last - first, ?_, rfl⟩,
        superblock_readable _, ?_⟩
      · rw [hlen]
        omega
      · rw [NcaSection.encryption, hcrypt]

theorem sectionAt_coherent_paired : ∃ plain nca,
    pairedArchive.build cutHash = ok plain ∧ Nca.tryFromBytes plain.toBytes = ok nca ∧
      (∃ sect, (nca.sectionAt 0 : Outcome Unit _) = ok (some sect) ∧ sect.Coherent plain.toBytes ∧
        sect.data = [1, 2, 3]) ∧
      ∃ sect, (nca.sectionAt 2 : Outcome Unit _) = ok (some sect) ∧ sect.Coherent plain.toBytes ∧
        sect.data = [4, 5, 6, 7, 8] := by
  obtain ⟨plain, hplain⟩ := pairedArchive_build
  obtain ⟨nca, hread, hcontents⟩ := build_contents (ε := Unit) hplain
  have hcoherent : ∀ (i : Fin NCA_SECTION_COUNT) sect, pairedArchive.sections i = some sect → ∃ view,
      (nca.sectionAt i : Outcome Unit _) = ok (some view) ∧ view.Coherent plain.toBytes ∧
        view.data = sect.data.contents := by
    intro i sect hsect
    obtain ⟨view, hview, hdata⟩ := hcontents i sect hsect
    obtain ⟨slot, hslot, -, hslots⟩ := sectionAt_coherent (ε := Unit) hread i
    exact ⟨view, hview, (hslots view (ok.inj (hslot.symm.trans hview))).2.2, hdata⟩
  exact ⟨plain, nca, hplain, hread, hcoherent 0 _ rfl, hcoherent 2 _ rfl⟩

end NxObject.Archive
