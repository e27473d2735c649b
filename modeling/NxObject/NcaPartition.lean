import NxObject.Digests
import NxObject.NcaFormat
import NxObject.Placement

/-!
# The hash table of a PFS0 section

One digest for each block of the archive, padded up to the media unit; the archive follows the table.
-/
namespace NxObject.Archive
open Outcome Digests Placement

variable {ε : Type} (H : Bytes → Digest)

namespace Partition

structure PartitionSection where
  data : Bytes
  superblock : Pfs0Superblock

/-- Build the section covering `archive`, hashing it in `blockSize`-byte blocks. -/
def build (archive : Bytes) (blockSize : UInt32) : Outcome ε PartitionSection := do
  -- The room reserved for the table divides by the block size before anything is hashed. Its product
  -- overflows for no section that fits the offsets (`tableRoom_lt`).
  let _ ← div archive.length blockSize.toNat
  let blocks ← chunks blockSize.toNat archive
  let hashTable := table H blocks
  let padded := hashTable ++ List.replicate (MEDIA_UNIT_SIZE - hashTable.length % MEDIA_UNIT_SIZE) 0
  pure
    { data := padded ++ archive
      superblock :=
        { masterHash := H hashTable
          blockSize
          layerCount := 2
          hashTableOffset := 0
          hashTableSize := UInt64.ofNat hashTable.length
          pfs0Offset := UInt64.ofNat padded.length
          pfs0Size := UInt64.ofNat archive.length
          reserved := zeroes 0xF0 } }

/-! ## The parts of a built section -/

def digests (archive : Bytes) (blockSize : UInt32) : Bytes :=
  table H (blocks blockSize.toNat archive)

def padded (archive : Bytes) (blockSize : UInt32) : Bytes :=
  digests H archive blockSize ++
    List.replicate (MEDIA_UNIT_SIZE - (digests H archive blockSize).length % MEDIA_UNIT_SIZE) 0

def stored (archive : Bytes) (blockSize : UInt32) : Bytes := padded H archive blockSize ++ archive

def superblock (archive : Bytes) (blockSize : UInt32) : Pfs0Superblock where
  masterHash := H (digests H archive blockSize)
  blockSize
  layerCount := 2
  hashTableOffset := 0
  hashTableSize := UInt64.ofNat (digests H archive blockSize).length
  pfs0Offset := UInt64.ofNat (padded H archive blockSize).length
  pfs0Size := UInt64.ofNat archive.length
  reserved := zeroes 0xF0

theorem build_eq_ok {archive : Bytes} {blockSize : UInt32} {built : PartitionSection} :
    (build H archive blockSize : Outcome ε _) = ok built ↔
      blockSize ≠ 0 ∧ built = ⟨stored H archive blockSize, superblock H archive blockSize⟩ := by
  have hzero : blockSize.toNat = (0 : UInt32).toNat ↔ blockSize = 0 := UInt32.toNat_inj
  by_cases h : blockSize = 0
  · simp [build, div, h]
  · have hne : blockSize.toNat ≠ 0 := fun heq => h (hzero.mp heq)
    simp only [build, div, chunks, if_neg hne, ok_bind, pure_eq, ok.injEq]
    exact ⟨fun heq => ⟨h, heq.symm⟩, fun heq => heq.2.symm⟩

lemma digests_length (archive : Bytes) (blockSize : UInt32) :
    (digests H archive blockSize).length =
      blockCount blockSize.toNat archive.length * HASH_SIZE := by
  rw [digests, table_length, blocks_length]

lemma padded_length (archive : Bytes) (blockSize : UInt32) :
    (digests H archive blockSize).length < (padded H archive blockSize).length := by
  have hlt := Nat.mod_lt (digests H archive blockSize).length (by decide : 0 < MEDIA_UNIT_SIZE)
  rw [padded, List.length_append, List.length_replicate]
  omega

end Partition
end NxObject.Archive
