import NxObject.Digests
import NxObject.NcaFormat
import NxObject.Placement

/-!
# The IVFC hash tree of a RomFS section

Six levels: the last is the image, and every other one holds the digests of the blocks of the next. The
levels are derived from the image downwards and padded to whole blocks.
-/
namespace NxObject.Archive
open Outcome Digests Placement

variable {ε : Type} (H : Bytes → Digest)

namespace Ivfc

/-- Bytes of the level above that one hash in a level covers. -/
def IVFC_BLOCK_SIZE : ℕ := 0x4000
def IVFC_BLOCK_SIZE_LOG2 : UInt32 := 14

structure IvfcTree where
  data : Bytes
  levelHeaders : Fin IVFC_MAX_LEVELS → IvfcLevelHeader
  masterHash : Digest

/-- Hash `level` block by block and pad the result out to a whole number of blocks. -/
def hashLevel (level : Bytes) : Bytes :=
  let hashes := table H (blocks IVFC_BLOCK_SIZE level)
  hashes ++ List.replicate (IVFC_BLOCK_SIZE - hashes.length % IVFC_BLOCK_SIZE) 0

/-- The loop that derives the levels, with the turns it has left: the levels pushed, and the one above
the next. -/
def deriveLevels : ℕ → List Bytes → Bytes → List Bytes
  | 0, levels, levelAbove => levels ++ [levelAbove]
  | turns + 1, levels, levelAbove =>
    deriveLevels turns (levels ++ [levelAbove]) (hashLevel H levelAbove)

/-- The loop that fills in the level headers, from `logicalOffset` on. -/
def placeLevels : ℕ → List Bytes → Outcome ε (List IvfcLevelHeader)
  | _, [] => pure []
  | logicalOffset, level :: levels => do
    let header := ⟨UInt64.ofNat logicalOffset, UInt64.ofNat level.length, IVFC_BLOCK_SIZE_LOG2, 0⟩
    let logicalOffset ← add logicalOffset level.length
    let headers ← placeLevels logicalOffset levels
    pure (header :: headers)

/-- Build the hash tree covering `romfs`, which becomes its last level. -/
def build (romfs : Bytes) : Outcome ε IvfcTree := do
  let levels := (deriveLevels H (IVFC_MAX_LEVELS - 1) [] romfs).reverse
  let lowest ← index levels 0
  let headers ← placeLevels 0 levels
  pure
    { data := levels.flatten
      levelHeaders := fun i => headers.getD i .default
      masterHash := H lowest }

/-! ## The levels of a built tree -/

/-- Level `i`: the image, hashed once for each level above. -/
def level (romfs : Bytes) (i : Fin IVFC_MAX_LEVELS) : Bytes :=
  (hashLevel H)^[IVFC_MAX_LEVELS - 1 - i] romfs

def levelSize (romfs : Bytes) (i : Fin IVFC_MAX_LEVELS) : ℕ := (level H romfs i).length

/-- Where level `i` starts behind the levels before it. -/
def levelOffset (romfs : Bytes) (i : Fin IVFC_MAX_LEVELS) : ℕ :=
  offsetOf (levelSize H romfs) (List.finRange IVFC_MAX_LEVELS) i

def levelHeader (romfs : Bytes) (i : Fin IVFC_MAX_LEVELS) : IvfcLevelHeader :=
  ⟨UInt64.ofNat (levelOffset H romfs i), UInt64.ofNat (levelSize H romfs i), IVFC_BLOCK_SIZE_LOG2, 0⟩

def stored (romfs : Bytes) : Bytes := (List.finRange IVFC_MAX_LEVELS).flatMap (level H romfs)

lemma deriveLevels_eq (romfs : Bytes) :
    (deriveLevels H (IVFC_MAX_LEVELS - 1) [] romfs).reverse =
      (List.finRange IVFC_MAX_LEVELS).map (level H romfs) := rfl

lemma placeLevels_of_lt {logicalOffset : ℕ} {levels : List Bytes}
    (h : logicalOffset + levels.flatten.length < 2 ^ 64) :
    (placeLevels logicalOffset levels : Outcome ε _) = ok (levels.mapIdx fun i level =>
      ⟨UInt64.ofNat (logicalOffset + (levels.take i).flatten.length), UInt64.ofNat level.length,
        IVFC_BLOCK_SIZE_LOG2, 0⟩) := by
  induction levels generalizing logicalOffset with
  | nil => rfl
  | cons level levels ih =>
    rw [List.flatten_cons, List.length_append] at h
    have hadd : logicalOffset + level.length < 2 ^ 64 := by omega
    rw [placeLevels, add_of_lt hadd, ok_bind, ih (by omega), ok_bind, pure_eq, List.mapIdx_cons]
    simp [Nat.add_assoc]

lemma placeLevels_lt {logicalOffset : ℕ} {levels : List Bytes} {headers : List IvfcLevelHeader}
    (hstart : logicalOffset < 2 ^ 64)
    (h : (placeLevels logicalOffset levels : Outcome ε _) = ok headers) :
    logicalOffset + levels.flatten.length < 2 ^ 64 := by
  induction levels generalizing logicalOffset headers with
  | nil => simpa using hstart
  | cons level levels ih =>
    rw [placeLevels] at h
    obtain ⟨next, hadd, h⟩ := bind_eq_ok.mp h
    obtain ⟨rest, hrest, -⟩ := bind_eq_ok.mp h
    obtain ⟨hlt, rfl⟩ := add_eq_ok.mp hadd
    have hend := ih hlt hrest
    rw [List.flatten_cons, List.length_append]
    omega

lemma levels_getElem? (romfs : Bytes) (i : Fin IVFC_MAX_LEVELS) :
    ((List.finRange IVFC_MAX_LEVELS).map (level H romfs))[(i : ℕ)]? = some (level H romfs i) := by
  simp

lemma levelHeader_eq (romfs : Bytes) (i : Fin IVFC_MAX_LEVELS) :
    (((List.finRange IVFC_MAX_LEVELS).map (level H romfs)).mapIdx fun j data =>
      (⟨UInt64.ofNat (0 + (((List.finRange IVFC_MAX_LEVELS).map (level H romfs)).take j).flatten.length),
        UInt64.ofNat data.length, IVFC_BLOCK_SIZE_LOG2, 0⟩ : IvfcLevelHeader)).getD i .default =
      levelHeader H romfs i := by
  have hoffset : (((List.finRange IVFC_MAX_LEVELS).map (level H romfs)).take i).flatten.length =
      levelOffset H romfs i := by
    rw [← List.map_take, List.length_flatten, List.map_map, levelOffset, offsetOf, List.idxOf_finRange]
    rfl
  rw [List.getD_eq_getElem?_getD, List.getElem?_mapIdx, levels_getElem?, hoffset, Nat.zero_add]
  rfl

theorem build_eq_ok {romfs : Bytes} {tree : IvfcTree} :
    (build H romfs : Outcome ε _) = ok tree ↔ (stored H romfs).length < 2 ^ 64 ∧
      tree = ⟨stored H romfs, levelHeader H romfs, H (level H romfs 0)⟩ := by
  have hdata : ((List.finRange IVFC_MAX_LEVELS).map (level H romfs)).flatten = stored H romfs :=
    List.flatMap_def.symm
  have hlowest : (index ((List.finRange IVFC_MAX_LEVELS).map (level H romfs)) 0 : Outcome ε _) =
      ok (level H romfs 0) := index_of_getElem? (levels_getElem? H romfs 0)
  rw [build, deriveLevels_eq, hlowest, ok_bind, hdata]
  constructor
  · intro h
    obtain ⟨headers, hplace, h⟩ := bind_eq_ok.mp h
    have hlt := placeLevels_lt (by decide) hplace
    rw [placeLevels_of_lt hlt] at hplace
    obtain rfl := ok.inj hplace
    obtain rfl := ok.inj h
    rw [Nat.zero_add, hdata] at hlt
    exact ⟨hlt, by simp only [levelHeader_eq]⟩
  · rintro ⟨hlt, rfl⟩
    rw [placeLevels_of_lt (by rwa [Nat.zero_add, hdata]), ok_bind, pure_eq]
    simp only [levelHeader_eq]

lemma levelOffset_at (romfs : Bytes) (i : Fin IVFC_MAX_LEVELS) :
    ∃ pre post, stored H romfs = pre ++ (level H romfs i ++ post) ∧
      pre.length = levelOffset H romfs i :=
  flatMap_at (fun _ _ => rfl) (List.mem_finRange i)

lemma levelOffset_succ (romfs : Bytes) (i : Fin (IVFC_MAX_LEVELS - 1)) :
    levelOffset H romfs i.succ = levelOffset H romfs i.castSucc + levelSize H romfs i.castSucc :=
  offsetOf_finRange_succ _ i

lemma level_castSucc (romfs : Bytes) (i : Fin (IVFC_MAX_LEVELS - 1)) :
    level H romfs i.castSucc = hashLevel H (level H romfs i.succ) := by
  fin_cases i <;> rfl

lemma hashLevel_length (data : Bytes) :
    IVFC_BLOCK_SIZE ∣ (hashLevel H data).length ∧
      blockCount IVFC_BLOCK_SIZE data.length * HASH_SIZE < (hashLevel H data).length := by
  rw [hashLevel, List.length_append, List.length_replicate, table_length, blocks_length]
  have hlt := Nat.mod_lt (blockCount IVFC_BLOCK_SIZE data.length * HASH_SIZE)
    (by decide : 0 < IVFC_BLOCK_SIZE)
  exact ⟨dvd_add_sub_mod (by decide) _, by omega⟩

end Ivfc
end NxObject.Archive
