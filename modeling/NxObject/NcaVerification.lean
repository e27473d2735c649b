import NxObject.NcaRoundtrip

/-!
# The verification chain of a built NCA

A verifier starts at the header and follows recorded offsets and sizes only: the header's hash proves an
FS header, its superblock proves a table or the lowest level of a tree, and each of these proves the
blocks of what it covers, down to the archive or the image.
-/
namespace NxObject.Archive
open Outcome Digests Placement

variable {H : Bytes → Digest}

section Verified
variable (H)

def IvfcLevelHeader.locate (header : IvfcLevelHeader) (bytes : Bytes) : Bytes :=
  sliceAt bytes header.logicalOffset.toNat header.hashDataSize.toNat

/-- The tree in `bytes` proves its last level. -/
structure IvfcHeader.Verifies (ivfc : IvfcHeader) (bytes : Bytes) : Prop where
  inside : ∀ i, (ivfc.levelHeaders i).logicalOffset.toNat + (ivfc.levelHeaders i).hashDataSize.toNat ≤
    bytes.length
  first : (ivfc.levelHeaders 0).logicalOffset = 0
  contiguous : ∀ i : Fin (IVFC_MAX_LEVELS - 1), (ivfc.levelHeaders i.succ).logicalOffset.toNat =
    (ivfc.levelHeaders i.castSucc).logicalOffset.toNat +
      (ivfc.levelHeaders i.castSucc).hashDataSize.toNat
  whole : ∀ i : Fin (IVFC_MAX_LEVELS - 1),
    Ivfc.IVFC_BLOCK_SIZE ∣ (ivfc.levelHeaders i.castSucc).hashDataSize.toNat
  room : ∀ i : Fin (IVFC_MAX_LEVELS - 1),
    blockCount Ivfc.IVFC_BLOCK_SIZE (ivfc.levelHeaders i.succ).hashDataSize.toNat * HASH_SIZE ≤
      (ivfc.levelHeaders i.castSucc).hashDataSize.toNat
  master : ivfc.masterHash = H ((ivfc.levelHeaders 0).locate bytes)
  covers : ∀ i : Fin (IVFC_MAX_LEVELS - 1),
    Covers H Ivfc.IVFC_BLOCK_SIZE ((ivfc.levelHeaders i.castSucc).locate bytes)
      ((ivfc.levelHeaders i.succ).locate bytes)

namespace Pfs0Superblock

def table (superblock : Pfs0Superblock) (bytes : Bytes) : Bytes :=
  sliceAt bytes superblock.hashTableOffset.toNat superblock.hashTableSize.toNat

def archive (superblock : Pfs0Superblock) (bytes : Bytes) : Bytes :=
  sliceAt bytes superblock.pfs0Offset.toNat superblock.pfs0Size.toNat

/-- The table in `bytes` proves the archive behind it. -/
structure Verifies (superblock : Pfs0Superblock) (bytes : Bytes) : Prop where
  tableInside : superblock.hashTableOffset.toNat + superblock.hashTableSize.toNat ≤ bytes.length
  archiveInside : superblock.pfs0Offset.toNat + superblock.pfs0Size.toNat ≤ bytes.length
  master : superblock.masterHash = H (superblock.table bytes)
  count : superblock.hashTableSize.toNat =
    blockCount superblock.blockSize.toNat superblock.pfs0Size.toNat * HASH_SIZE
  covers : Covers H superblock.blockSize.toNat (superblock.table bytes) (superblock.archive bytes)

end Pfs0Superblock

/-- The chain of a section proves the data the reader hands out. -/
def NcaSection.Verified (view : NcaSection) : Prop :=
  match view.superblock with
  | .romFs superblock => superblock.ivfcHeader.Verifies H view.bytes ∧
    (superblock.ivfcHeader.levelHeaders (Fin.last _)).locate view.bytes = view.data
  | .pfs0 superblock => superblock.Verifies H view.bytes ∧ superblock.archive view.bytes = view.data
  | .unreadable => False

end Verified

/-! ## Trees -/

section Tree
variable {image : Bytes}

lemma levelOffset_end (i : Fin IVFC_MAX_LEVELS) :
    Ivfc.levelOffset H image i + Ivfc.levelSize H image i ≤ (Ivfc.stored H image).length := by
  have hlen : (Ivfc.stored H image).length =
      total (Ivfc.levelSize H image) (List.finRange IVFC_MAX_LEVELS) :=
    length_flatMap_eq _ fun _ _ => rfl
  rw [hlen]
  exact offsetOf_add_le (List.mem_finRange i)

variable (hlt : (Ivfc.stored H image).length < 2 ^ 64)
include hlt

lemma levelHeader_offset (i : Fin IVFC_MAX_LEVELS) :
    (Ivfc.levelHeader H image i).logicalOffset.toNat = Ivfc.levelOffset H image i := by
  have hle : Ivfc.levelOffset H image i + Ivfc.levelSize H image i ≤ _ := levelOffset_end i
  exact UInt64.toNat_ofNat_of_lt' (show Ivfc.levelOffset H image i < 2 ^ 64 by omega)

lemma levelHeader_size (i : Fin IVFC_MAX_LEVELS) :
    (Ivfc.levelHeader H image i).hashDataSize.toNat = Ivfc.levelSize H image i := by
  have hle : Ivfc.levelOffset H image i + Ivfc.levelSize H image i ≤ _ := levelOffset_end i
  exact UInt64.toNat_ofNat_of_lt' (show Ivfc.levelSize H image i < 2 ^ 64 by omega)

lemma levelHeader_locate (i : Fin IVFC_MAX_LEVELS) (pad : Bytes) :
    (Ivfc.levelHeader H image i).locate (Ivfc.stored H image ++ pad) = Ivfc.level H image i := by
  obtain ⟨pre, post, hstored, hpre⟩ := Ivfc.levelOffset_at H image i
  rw [IvfcLevelHeader.locate, levelHeader_offset hlt, levelHeader_size hlt]
  exact sliceAt_eq_of_append (c := post ++ pad) (by rw [hstored]; simp) hpre rfl

theorem ivfc_verifies (pad : Bytes) :
    (ivfcSuperblock (Ivfc.tree H image)).ivfcHeader.Verifies H (Ivfc.stored H image ++ pad) where
  inside i := by
    change (Ivfc.levelHeader H image i).logicalOffset.toNat +
      (Ivfc.levelHeader H image i).hashDataSize.toNat ≤ _
    rw [levelHeader_offset hlt, levelHeader_size hlt, List.length_append]
    exact (levelOffset_end i).trans (Nat.le_add_right _ _)
  first := rfl
  contiguous i := by
    change (Ivfc.levelHeader H image _).logicalOffset.toNat = (Ivfc.levelHeader H image _).logicalOffset.toNat +
      (Ivfc.levelHeader H image _).hashDataSize.toNat
    rw [levelHeader_offset hlt, levelHeader_offset hlt, levelHeader_size hlt, Ivfc.levelOffset_succ]
  whole i := by
    change _ ∣ (Ivfc.levelHeader H image _).hashDataSize.toNat
    rw [levelHeader_size hlt, Ivfc.levelSize, Ivfc.level_castSucc]
    exact (Ivfc.hashLevel_length H _).1
  room i := by
    change blockCount _ (Ivfc.levelHeader H image _).hashDataSize.toNat * _ ≤
      (Ivfc.levelHeader H image _).hashDataSize.toNat
    rw [levelHeader_size hlt, levelHeader_size hlt, Ivfc.levelSize, Ivfc.levelSize,
      Ivfc.level_castSucc]
    exact (Ivfc.hashLevel_length H _).2.le
  master := by
    change H _ = H ((Ivfc.levelHeader H image 0).locate _)
    rw [levelHeader_locate hlt]
  covers i := by
    change Covers H _ ((Ivfc.levelHeader H image _).locate _) ((Ivfc.levelHeader H image _).locate _)
    rw [levelHeader_locate hlt, levelHeader_locate hlt, Ivfc.level_castSucc]
    exact covers_table H _ _

end Tree

/-! ## Tables -/

theorem partition_verifies (archive pad : Bytes) (blockSize : UInt32)
    (hlt : (Partition.stored H archive blockSize).length < 2 ^ 64) :
    (Partition.superblock H archive blockSize).Verifies H
        (Partition.stored H archive blockSize ++ pad) ∧
      (Partition.superblock H archive blockSize).archive
        (Partition.stored H archive blockSize ++ pad) = archive := by
  have hlen : (Partition.stored H archive blockSize).length =
      (Partition.padded H archive blockSize).length + archive.length := List.length_append
  have hpadded := Partition.padded_length H archive blockSize
  have htableSize : (Partition.superblock H archive blockSize).hashTableSize.toNat =
      (Partition.digests H archive blockSize).length :=
    UInt64.toNat_ofNat_of_lt' (by change _ < 2 ^ 64; omega)
  have hoffset : (Partition.superblock H archive blockSize).pfs0Offset.toNat =
      (Partition.padded H archive blockSize).length :=
    UInt64.toNat_ofNat_of_lt' (by change _ < 2 ^ 64; omega)
  have hsize : (Partition.superblock H archive blockSize).pfs0Size.toNat = archive.length :=
    UInt64.toNat_ofNat_of_lt' (by change _ < 2 ^ 64; omega)
  have htable : (Partition.superblock H archive blockSize).table
      (Partition.stored H archive blockSize ++ pad) = Partition.digests H archive blockSize := by
    rw [Pfs0Superblock.table, htableSize]
    obtain ⟨fill, hfill⟩ : ∃ fill, Partition.padded H archive blockSize =
        Partition.digests H archive blockSize ++ fill := ⟨_, rfl⟩
    exact sliceAt_eq_of_append (a := []) (c := fill ++ archive ++ pad)
      (by rw [Partition.stored, hfill]; simp) rfl rfl
  have harchive : (Partition.superblock H archive blockSize).archive
      (Partition.stored H archive blockSize ++ pad) = archive := by
    rw [Pfs0Superblock.archive, hoffset, hsize]
    exact sliceAt_eq_of_append (by rw [Partition.stored, List.append_assoc]) rfl rfl
  refine ⟨⟨?_, ?_, ?_, ?_, ?_⟩, harchive⟩
  · rw [htableSize, List.length_append]
    change 0 + _ ≤ _
    omega
  · rw [hoffset, hsize, List.length_append]
    omega
  · rw [htable]
    rfl
  · rw [htableSize, hsize, Partition.digests_length]
    rfl
  · rw [htable, harchive]
    change Covers H blockSize.toNat _ _
    have hcovers := covers_table (n := blockSize.toNat) H archive []
    rwa [List.append_nil] at hcovers

/-! ## The archive -/

/-- The chain of every section of a built archive holds from the header down to the data. -/
theorem build_verified {ε : Type} {b : NcaBuilder} {plain : PlainNca} (h : b.build H = ok plain) :
    ∃ nca, Nca.tryFromBytes plain.toBytes = ok nca ∧ ∀ i sect, b.sections i = some sect →
      nca.header.sectionHashes i = H (NcaFsHeader.codec.enc (nca.header.fsHeaders i)) ∧
      ∃ view, (nca.sectionAt i : Outcome ε _) = ok (some view) ∧ sect.ReadsAs view ∧
        view.fsHeader = nca.header.fsHeaders i ∧ view.Verified H := by
  obtain ⟨rfl, hfits⟩ := NcaBuilder.build_eq_ok.mp h
  refine ⟨_, NcaBuilder.tryFromBytes_image hfits, fun i sect hsect => ?_⟩
  have hfs : b.fsHeader H i = sect.fsHeader H := by rw [NcaBuilder.fsHeader, hsect]
  have hview := NcaBuilder.sectionAt_image (ε := ε) hfits i
  rw [NcaBuilder.view, hsect, Option.map_some] at hview
  refine ⟨?_, _, hview, sect.readsAs _ _ _, hfs.symm, ?_⟩
  · change b.sectionHash H i = H (NcaFsHeader.codec.enc (b.fsHeader H i))
    rw [hfs, NcaBuilder.sectionHash, hsect]
  · obtain ⟨pad, hchunk⟩ := NcaBuilder.chunk_eq (H := H) hsect
    obtain ⟨data, encryption⟩ := sect
    cases data with
    | romFs image =>
      have hlt := hfits.sound i _ hsect
      rw [NcaSection.Verified, Section.superblock_romFs]
      dsimp only
      rw [hchunk]
      exact ⟨ivfc_verifies hlt pad, levelHeader_locate hlt _ pad⟩
    | partition archive blockSize =>
      have hlt := hfits.addressable i _ hsect
      rw [NcaBuilder.chunkSize, hchunk, List.length_append] at hlt
      rw [NcaSection.Verified, Section.superblock_partition]
      dsimp only
      rw [hchunk]
      refine partition_verifies archive pad blockSize (lt_of_le_of_lt ?_ (lt_trans hlt (by decide)))
      change (Section.stored H ⟨.partition archive blockSize, encryption⟩).length ≤ _
      omega

theorem build_verified_paired : ∃ plain nca,
    pairedArchive.build cutHash = ok plain ∧ Nca.tryFromBytes plain.toBytes = ok nca ∧
      nca.header.sectionHashes 0 = cutHash (NcaFsHeader.codec.enc (nca.header.fsHeaders 0)) ∧
      (∃ view, (nca.sectionAt 0 : Outcome Unit _) = ok (some view) ∧ view.Verified cutHash) ∧
      nca.header.sectionHashes 2 = cutHash (NcaFsHeader.codec.enc (nca.header.fsHeaders 2)) ∧
      ∃ view, (nca.sectionAt 2 : Outcome Unit _) = ok (some view) ∧ view.Verified cutHash := by
  obtain ⟨plain, hplain⟩ := pairedArchive_build
  obtain ⟨nca, hread, hverified⟩ := build_verified (ε := Unit) hplain
  obtain ⟨himageHash, image, himage, -, -, himageChain⟩ := hverified 0 _ rfl
  obtain ⟨harchiveHash, archive, harchive, -, -, harchiveChain⟩ := hverified 2 _ rfl
  exact ⟨plain, nca, hplain, hread, himageHash, ⟨image, himage, himageChain⟩, harchiveHash, archive, harchive,
    harchiveChain⟩

end NxObject.Archive
