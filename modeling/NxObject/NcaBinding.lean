import Mathlib.Data.Set.Function
import NxObject.NcaReading
import NxObject.NcaVerification

/-!
# What the section hash of a built NCA commits to

The hash of an FS header fixes the header, its superblock fixes the digests, and these fix the data they
cover. An archive that carries the hash of a built one and whose chain verifies therefore holds the data
the builder was given, as long as the hash function tells apart the strings that were hashed.
-/
namespace NxObject.Archive
open Outcome Digests

variable {H : Bytes → Digest}

/-! ## The strings a verifier hashes -/

/-- A tree always has levels. -/
local instance neZeroLevels : NeZero IVFC_MAX_LEVELS := ⟨by decide⟩

/-- The lowest level, and the blocks of the others. -/
def IvfcHeader.hashed (ivfc : IvfcHeader) (bytes : Bytes) : Set Bytes :=
  {b | b = (ivfc.levelHeaders 0).locate bytes ∨ ∃ i : Fin (IVFC_MAX_LEVELS - 1),
    b ∈ blocks Ivfc.IVFC_BLOCK_SIZE ((ivfc.levelHeaders i.succ).locate bytes)}

def Pfs0Superblock.hashed (superblock : Pfs0Superblock) (bytes : Bytes) : Set Bytes :=
  {b | b = superblock.table bytes ∨ b ∈ blocks superblock.blockSize.toNat (superblock.archive bytes)}

namespace NcaSection

def covered (view : NcaSection) : Set Bytes :=
  match view.superblock with
  | .romFs superblock => superblock.ivfcHeader.hashed view.bytes
  | .pfs0 superblock => superblock.hashed view.bytes
  | .unreadable => ∅

def hashed (view : NcaSection) : Set Bytes :=
  {b | b = NcaFsHeader.codec.enc view.fsHeader ∨ b ∈ view.covered}

lemma mem_hashed_pfs0 {view : NcaSection} {superblock : Pfs0Superblock}
    (h : view.superblock = .pfs0 superblock) {s : Bytes} :
    s ∈ view.hashed ↔ s = NcaFsHeader.codec.enc view.fsHeader ∨ s = superblock.table view.bytes ∨
      s ∈ blocks superblock.blockSize.toNat (superblock.archive view.bytes) := by
  rw [hashed, Set.mem_ofPred_eq, covered, h]
  rfl

end NcaSection

/-! ## Trees and tables -/

lemma IvfcHeader.Verifies.locate_length {ivfc : IvfcHeader} {bytes : Bytes} (h : ivfc.Verifies H bytes)
    (i : Fin IVFC_MAX_LEVELS) :
    ((ivfc.levelHeaders i).locate bytes).length = (ivfc.levelHeaders i).hashDataSize.toNat :=
  sliceAt_length (h.inside i)

/-- One header verifies one tree: the lowest level is fixed by the master hash, and each level fixes the
next. -/
theorem IvfcHeader.Verifies.locate_eq {ivfc : IvfcHeader} {bytes bytes' : Bytes}
    (h : ivfc.Verifies H bytes) (h' : ivfc.Verifies H bytes')
    (hH : Set.InjOn H {b | b ∈ ivfc.hashed bytes ∨ b ∈ ivfc.hashed bytes'}) (i : Fin IVFC_MAX_LEVELS) :
    (ivfc.levelHeaders i).locate bytes = (ivfc.levelHeaders i).locate bytes' := by
  induction i using Fin.induction with
  | zero => exact hH (Or.inl (Or.inl rfl)) (Or.inr (Or.inl rfl)) (h.master.symm.trans h'.master)
  | succ i ih =>
    have hlen := (h.locate_length i.succ).trans (h'.locate_length i.succ).symm
    have hcovers := h'.covers i
    rw [← ih] at hcovers
    refine eq_of_covers H (by decide) hlen (hH.mono ?_) (h.covers i) hcovers
    intro b hb
    exact hb.imp (fun hb => Or.inr ⟨i, hb⟩) (fun hb => Or.inr ⟨i, hb⟩)

theorem Pfs0Superblock.Verifies.archive_eq {superblock : Pfs0Superblock} {bytes bytes' : Bytes}
    (hne : superblock.blockSize ≠ 0) (h : superblock.Verifies H bytes)
    (h' : superblock.Verifies H bytes')
    (hH : Set.InjOn H {b | b ∈ superblock.hashed bytes ∨ b ∈ superblock.hashed bytes'}) :
    superblock.archive bytes = superblock.archive bytes' := by
  have hpos : 0 < superblock.blockSize.toNat :=
    Nat.pos_of_ne_zero fun hzero => hne (UInt32.toNat_inj.mp hzero)
  have hlen : (superblock.archive bytes).length = (superblock.archive bytes').length :=
    (sliceAt_length h.archiveInside).trans (sliceAt_length h'.archiveInside).symm
  have htable : superblock.table bytes = superblock.table bytes' :=
    hH (Or.inl (Or.inl rfl)) (Or.inr (Or.inl rfl)) (h.master.symm.trans h'.master)
  have hcovers := h'.covers
  rw [← htable] at hcovers
  refine eq_of_covers H hpos hlen (hH.mono ?_) h.covers hcovers
  intro b hb
  exact hb.imp Or.inr Or.inr

/-! ## Sections -/

lemma sectionAt_fsHeader {ε : Type} {nca : Nca} {i : Fin NCA_SECTION_COUNT} {view : NcaSection}
    (h : (nca.sectionAt i : Outcome ε _) = ok (some view)) :
    view.index = i ∧ view.fsHeader = nca.header.fsHeaders i := by
  rw [Nca.sectionAt, dif_pos i.isLt] at h
  dsimp only at h
  split at h
  · exact absurd (ok.inj h) (Option.some_ne_none _).symm
  · exact absurd (ok.inj h) (Option.some_ne_none _).symm
  obtain ⟨bytes, -, h⟩ := bind_eq_ok.mp h
  split at h
  · exact absurd (ok.inj h) (Option.some_ne_none _).symm
  split at h
  · exact absurd (ok.inj h) (Option.some_ne_none _).symm
  obtain ⟨data, -, h⟩ := bind_eq_ok.mp h
  obtain rfl := Option.some.inj (ok.inj h)
  exact ⟨rfl, rfl⟩

theorem NcaSection.Verified.data_eq {view view' : NcaSection} (hindex : view.index = view'.index)
    (hfs : view.fsHeader = view'.fsHeader) (h : view.Verified H) (h' : view'.Verified H)
    (hblocks : ∀ superblock, view.superblock = .pfs0 superblock → superblock.blockSize ≠ 0)
    (hH : Set.InjOn H {b | b ∈ view.covered ∨ b ∈ view'.covered}) : view.data = view'.data := by
  have hsuper : view'.superblock = view.superblock := by
    rw [NcaSection.superblock, NcaSection.superblock, hindex, hfs]
  rw [NcaSection.Verified] at h h'
  rw [hsuper] at h'
  cases hview : view.superblock with
  | romFs superblock =>
    rw [NcaSection.covered, NcaSection.covered, hsuper, hview] at hH
    rw [hview] at h h'
    rw [← h.2, ← h'.2]
    exact h.1.locate_eq h'.1 hH _
  | pfs0 superblock =>
    rw [NcaSection.covered, NcaSection.covered, hsuper, hview] at hH
    rw [hview] at h h'
    rw [← h.2, ← h'.2]
    exact h.1.archive_eq (hblocks _ hview) h'.1 hH
  | unreadable =>
    rw [hview] at h
    exact h.elim

/-! ## The archive -/

namespace NcaBuilder
variable {b : NcaBuilder} {i : Fin NCA_SECTION_COUNT} {sect : Section} {view : NcaSection}

lemma view_verified (hfits : b.Fits H) (hsect : b.sections i = some sect) (hview : b.view H i = some view) :
    view.Verified H := by
  obtain ⟨sect', hsect', rfl⟩ := view_eq_some hview
  obtain rfl := Option.some.inj (hsect.symm.trans hsect')
  obtain ⟨pad, hchunk⟩ := chunk_eq (H := H) hsect
  rw [hchunk]
  obtain ⟨data, encryption⟩ := sect
  cases data with
  | romFs image =>
    have hlt := hfits.sound i _ hsect
    rw [NcaSection.Verified, Section.superblock_romFs]
    exact ⟨ivfc_verifies hlt pad, levelHeader_locate hlt _ pad⟩
  | partition archive blockSize =>
    have hlt := hfits.addressable i _ hsect
    rw [chunkSize, hchunk, List.length_append] at hlt
    rw [NcaSection.Verified, Section.superblock_partition]
    refine partition_verifies archive pad blockSize (lt_trans ?_ (by decide : 2 ^ 32 * MEDIA_UNIT_SIZE < _))
    exact (Nat.le_add_right _ _).trans_lt ((Nat.le_add_left _ _).trans_lt hlt)

lemma view_blockSize_ne (hfits : b.Fits H) (hsect : b.sections i = some sect)
    (hview : b.view H i = some view) {superblock : Pfs0Superblock}
    (hsuper : view.superblock = .pfs0 superblock) : superblock.blockSize ≠ 0 := by
  obtain ⟨sect', hsect', rfl⟩ := view_eq_some hview
  obtain rfl := Option.some.inj (hsect.symm.trans hsect')
  have hsound := hfits.sound i _ hsect
  obtain ⟨data, encryption⟩ := sect
  cases data with
  | romFs image =>
    rw [Section.superblock_romFs] at hsuper
    cases hsuper
  | partition archive blockSize =>
    rw [Section.superblock_partition] at hsuper
    cases hsuper
    exact hsound

lemma readsAs_view (hsect : b.sections i = some sect) (hview : b.view H i = some view) :
    sect.ReadsAs view := by
  obtain ⟨sect', hsect', rfl⟩ := view_eq_some hview
  obtain rfl := Option.some.inj (hsect.symm.trans hsect')
  exact sect.readsAs _ _ _

lemma sectionHash_view (hsect : b.sections i = some sect) (hview : b.view H i = some view) :
    (b.header H).sectionHashes i = H (NcaFsHeader.codec.enc view.fsHeader) := by
  obtain ⟨sect', hsect', rfl⟩ := view_eq_some hview
  obtain rfl := Option.some.inj (hsect.symm.trans hsect')
  change b.sectionHash H i = _
  rw [sectionHash, hsect]

end NcaBuilder

lemma Section.ReadsAs.of_fsHeader {sect : Section} {view view' : NcaSection} (h : sect.ReadsAs view)
    (hindex : view'.index = view.index) (hfs : view'.fsHeader = view.fsHeader)
    (hdata : view'.data = view.data) : sect.ReadsAs view' where
  data := hdata.trans h.data
  encryption := by
    rw [NcaSection.encryption, hindex, hfs]
    exact h.encryption
  fsType := by
    rw [NcaSection.fsType, hfs]
    exact h.fsType
  superblock := by
    have hsuper : view'.superblock = view.superblock := by
      rw [NcaSection.superblock, NcaSection.superblock, hindex, hfs]
    rw [hsuper]
    exact h.superblock

/-- An archive that carries the section hash of a built one, over its own FS header, and whose chain
verifies holds the data the builder was given, unless `H` takes two of the hashed strings to one digest. -/
theorem build_binding {ε : Type} {b : NcaBuilder} {plain : PlainNca} (h : b.build H = ok plain)
    {i : Fin NCA_SECTION_COUNT} {sect : Section} (hsect : b.sections i = some sect)
    {original : Nca} (horiginal : Nca.tryFromBytes plain.toBytes = ok original)
    {view : NcaSection} (hview : (original.sectionAt i : Outcome ε _) = ok (some view))
    {nca : Nca} {view' : NcaSection} (hview' : (nca.sectionAt i : Outcome ε _) = ok (some view'))
    (hhash : nca.header.sectionHashes i = original.header.sectionHashes i)
    (hheader : nca.header.sectionHashes i = H (NcaFsHeader.codec.enc (nca.header.fsHeaders i)))
    (hverified : view'.Verified H)
    (hH : Set.InjOn H {s | s ∈ view.hashed ∨ s ∈ view'.hashed}) :
    view'.data = sect.data.contents ∧ sect.ReadsAs view' := by
  obtain ⟨rfl, hfits⟩ := NcaBuilder.build_eq_ok.mp h
  obtain rfl := ok.inj (horiginal.symm.trans (NcaBuilder.tryFromBytes_image hfits))
  have hbuilt := ok.inj ((NcaBuilder.sectionAt_image (ε := ε) hfits i).symm.trans hview)
  have horigin := NcaBuilder.sectionHash_view hsect hbuilt
  obtain ⟨hindex, -⟩ := sectionAt_fsHeader hview
  obtain ⟨hindex', hfs'⟩ := sectionAt_fsHeader hview'
  -- The section hash fixes the FS header, which fixes everything but the section's bytes.
  have henc : NcaFsHeader.codec.enc view'.fsHeader = NcaFsHeader.codec.enc view.fsHeader := by
    refine hH (Or.inr (Or.inl rfl)) (Or.inl (Or.inl rfl)) ?_
    rw [hfs', ← hheader, ← horigin, hhash]
  have hsame : view'.fsHeader = view.fsHeader := by
    have hread := congrArg NcaFsHeader.codec.fromBytes henc
    rw [Codec.fromBytes_enc, Codec.fromBytes_enc] at hread
    exact Option.some.inj hread
  have hslot : view.index = view'.index := hindex.trans hindex'.symm
  have hdata : view.data = view'.data := by
    refine (NcaBuilder.view_verified hfits hsect hbuilt).data_eq hslot hsame.symm hverified
      (fun _ => NcaBuilder.view_blockSize_ne hfits hsect hbuilt) (hH.mono ?_)
    intro s hs
    exact hs.imp Or.inr Or.inr
  have hreads := NcaBuilder.readsAs_view hsect hbuilt
  exact ⟨hdata.symm.trans hreads.data, hreads.of_fsHeader hslot.symm hsame hdata.symm⟩

def lengthHash (bytes : Bytes) : Digest :=
  List.Vector.replicate HASH_SIZE (UInt8.ofNat bytes.length)

def singleArchive : NcaBuilder :=
  { contentType := .control
    titleId := 1
    sections := Function.update (fun _ => none) 2 (some ⟨.partition [7] 1, .none⟩) }

def retitled : NcaBuilder := { singleArchive with titleId := 2 }

def singleSection : Section := ⟨.partition [7] 1, .none⟩

lemma build_single {b : NcaBuilder} (hb : b.sections = singleArchive.sections) :
    b.build lengthHash = ok ⟨b.header lengthHash, b.body lengthHash⟩ := by
  have hbody : (b.body lengthHash).length = 1024 := by
    have hsame : b.body lengthHash = singleArchive.body lengthHash := by
      unfold NcaBuilder.body NcaBuilder.chunk
      rw [hb]
    rw [hsame]
    decide +kernel
  refine NcaBuilder.build_eq_ok.mpr ⟨rfl, fun i sect hsect => ?_, fun i sect _ => ?_, ?_⟩
  · rw [hb] at hsect
    by_cases hi : i = 2
    · subst hi
      obtain rfl : singleSection = sect := Option.some.inj hsect
      exact (by decide : (1 : UInt32) ≠ 0)
    · have hnone : singleArchive.sections i = none := by simp [singleArchive, hi]
      rw [hnone] at hsect
      cases hsect
  · have hle := NcaBuilder.slotStart_add_le (b := b) (H := lengthHash) i
    rw [hbody] at hle
    exact lt_of_le_of_lt hle (by decide)
  · rw [hbody]
    decide

lemma read_single {ε : Type} {b : NcaBuilder} (hb : b.sections = singleArchive.sections) :
    ∃ nca view, Nca.tryFromBytes (PlainNca.toBytes ⟨b.header lengthHash, b.body lengthHash⟩) = ok nca ∧
      nca.header = b.header lengthHash ∧ (nca.sectionAt 2 : Outcome ε _) = ok (some view) ∧
      b.view lengthHash 2 = some view := by
  have hfits := (NcaBuilder.build_eq_ok.mp (build_single hb)).2
  obtain ⟨view, hview⟩ : ∃ view, b.view lengthHash 2 = some view := by
    rw [NcaBuilder.view, hb]
    exact ⟨_, rfl⟩
  have hsection := NcaBuilder.sectionAt_image (ε := ε) hfits 2
  rw [hview] at hsection
  exact ⟨_, view, NcaBuilder.tryFromBytes_image hfits, rfl, hsection, hview⟩

lemma table_single : (Partition.superblock lengthHash [7] 1).table
    (padToMediaUnit (singleSection.stored lengthHash)) = Partition.digests lengthHash [7] 1 := by
  decide +kernel

lemma blocks_single : blocks (Partition.superblock lengthHash [7] 1).blockSize.toNat ((Partition.superblock lengthHash [7] 1).archive
    (padToMediaUnit (singleSection.stored lengthHash))) = [[7]] := by
  decide +kernel

lemma hashed_single {b : NcaBuilder} (hb : b.sections = singleArchive.sections) {view : NcaSection}
    (hview : b.view lengthHash 2 = some view) {s : Bytes} (h : s ∈ view.hashed) :
    s ∈ [NcaFsHeader.codec.enc (singleSection.fsHeader lengthHash),
      Partition.digests lengthHash [7] 1, [7]] := by
  have hsect : b.sections 2 = some singleSection := congrFun hb 2
  obtain ⟨sect, hsect', hview⟩ := NcaBuilder.view_eq_some hview
  obtain rfl := Option.some.inj (hsect.symm.trans hsect')
  have hfs : view.fsHeader = singleSection.fsHeader lengthHash := congrArg NcaSection.fsHeader hview
  have hsuper : view.superblock = .pfs0 (Partition.superblock lengthHash [7] 1) := by
    rw [hview, singleSection, Section.superblock_partition]
  have hbytes : view.bytes = padToMediaUnit (singleSection.stored lengthHash) := by
    rw [hview, NcaBuilder.chunk, hsect]
  rw [NcaSection.mem_hashed_pfs0 hsuper, hfs, hbytes, table_single, blocks_single] at h
  rwa [List.mem_cons, List.mem_cons]

lemma lengthHash_single : (([NcaFsHeader.codec.enc (singleSection.fsHeader lengthHash),
    Partition.digests lengthHash [7] 1, [7]] : List Bytes).map lengthHash).Nodup := by
  decide +kernel

theorem build_binding_single : ∃ nca view,
    Nca.tryFromBytes (PlainNca.toBytes ⟨retitled.header lengthHash, retitled.body lengthHash⟩) = ok nca ∧
      nca.titleId ≠ singleArchive.titleId ∧ (nca.sectionAt 2 : Outcome Unit _) = ok (some view) ∧
      view.data = [7] ∧ singleSection.ReadsAs view := by
  obtain ⟨original, view₀, horiginal, hheader₀, hview₀, hslot₀⟩ :=
    read_single (ε := Unit) (b := singleArchive) rfl
  obtain ⟨nca, view, hnca, hheader, hview, hslot⟩ := read_single (ε := Unit) (b := retitled) rfl
  have hfits := (NcaBuilder.build_eq_ok.mp (build_single (b := retitled) rfl)).2
  have hsect : retitled.sections 2 = some singleSection := rfl
  have htitle : nca.titleId ≠ singleArchive.titleId := by
    rw [Nca.titleId, hheader]
    decide
  have hhash : nca.header.sectionHashes 2 = original.header.sectionHashes 2 := by
    rw [hheader, hheader₀]
    rfl
  have hsectionHash : nca.header.sectionHashes 2 =
      lengthHash (NcaFsHeader.codec.enc (nca.header.fsHeaders 2)) := by
    rw [← (sectionAt_fsHeader hview).2, hheader]
    exact NcaBuilder.sectionHash_view hsect hslot
  have hmem : ∀ {u}, (u ∈ view₀.hashed ∨ u ∈ view.hashed) → u ∈ _ := fun hu =>
    hu.elim (hashed_single (b := singleArchive) rfl hslot₀) (hashed_single (b := retitled) rfl hslot)
  refine ⟨nca, view, hnca, htitle, hview, ?_⟩
  exact build_binding (build_single rfl) rfl horiginal hview₀ hview hhash hsectionHash
    (NcaBuilder.view_verified hfits hsect hslot)
    fun s hs t ht heq => List.inj_on_of_nodup_map lengthHash_single (hmem hs) (hmem ht) heq

end NxObject.Archive
