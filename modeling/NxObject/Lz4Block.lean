import NxObject.Bytes
import NxObject.Lz

/-!
# LZ4 blocks

A block is a row of sequences, each a token, a run of literals and a match; the last one ends behind its literals.
A block does not carry the length of what it stands for, but its tokens tell it.
-/
namespace NxObject.Lz4
open Lz

/-! ## Reading -/

/-- A length goes on in bytes up to the first that is not 255. -/
def readLength : Bytes → Option (ℕ × Bytes)
  | [] => none
  | b :: rest => if b = 255 then (readLength rest).map fun (n, rest) => (255 + n, rest) else some (b.toNat, rest)

def lengthOf (nibble : ℕ) (rest : Bytes) : Option (ℕ × Bytes) :=
  if nibble = 15 then (readLength rest).map fun (n, rest) => (15 + n, rest) else some (nibble, rest)

/-- The codes of a block. Every sequence takes a byte at least, so that `fuel` need not exceed the block. -/
def parse : ℕ → Bytes → Option (List (Code UInt8))
  | 0, _ | _ + 1, [] => none
  | fuel + 1, token :: rest => do
    let (count, rest) ← lengthOf (token.toNat / 16) rest
    if rest.length < count then none
    else
      let literals := (rest.take count).map Code.literal
      match rest.drop count with
      | [] => some literals
      | [_] => none
      | low :: high :: rest => do
        let (more, rest) ← lengthOf (token.toNat % 16) rest
        let codes ← parse fuel rest
        some (literals ++ .backRef (more + 4) (ofLe [low, high]) :: codes)

/-- What a block stands for. -/
def decode (block : Bytes) : Option Bytes := (parse block.length block).bind (expand [])

/-! ## The length alone -/

/-- No match begins before the first byte, if `n` bytes were produced before. -/
def inReach : ℕ → List (Code UInt8) → Bool
  | _, [] => true
  | n, .literal _ :: codes => inReach (n + 1) codes
  | n, .backRef length distance :: codes =>
    (length = 0 || 1 ≤ distance && distance ≤ n) && inReach (n + length) codes

/-- How many bytes a block stands for. -/
def blockLength (block : Bytes) : Option ℕ := do
  let codes ← parse block.length block
  if inReach 0 codes then some (produced codes) else none

lemma copyBack_isSome {distance n : ℕ} {out : Bytes} :
    (copyBack distance n out).isSome ↔ n = 0 ∨ 1 ≤ distance ∧ distance ≤ out.length := by
  induction n generalizing out with
  | zero => simp [copyBack]
  | succ n ih =>
    rw [copyBack, or_iff_right n.succ_ne_zero]
    split_ifs with hle
    · by_cases hpos : 1 ≤ distance
      · have hlt : out.length - distance < out.length := by omega
        simp only [List.getElem?_eq_getElem hlt, Option.bind_some, ih, List.length_append, List.length_singleton]
        omega
      · have hnone : out[out.length - distance]? = none := List.getElem?_eq_none (by omega)
        rw [hnone]
        exact iff_of_false (by simp) fun h => hpos h.1
    · exact iff_of_false (by simp) fun h => hle h.2

lemma expand_isSome {codes : List (Code UInt8)} {out : Bytes} :
    (expand out codes).isSome = inReach out.length codes := by
  induction codes generalizing out with
  | nil => rfl
  | cons code codes ih =>
    cases code with
    | literal b => simp only [expand, Code.apply, Option.bind_some, ih, inReach, List.length_append,
        List.length_singleton]
    | backRef length distance =>
      have hcopy : (copyBack distance length out).isSome ↔ length = 0 ∨ 1 ≤ distance ∧ distance ≤ out.length :=
        copyBack_isSome
      rw [expand, Code.apply, inReach]
      cases hout : copyBack distance length out with
      | none =>
        rw [hout, Option.isSome_none] at hcopy
        have hfalse : (length = 0 || 1 ≤ distance && distance ≤ out.length : Bool) = false := by
          simpa using hcopy
        rw [hfalse]
        rfl
      | some out' =>
        rw [hout, Option.isSome_some] at hcopy
        have htrue : (length = 0 || 1 ≤ distance && distance ≤ out.length : Bool) = true := by
          simpa using hcopy
        rw [Option.bind_some, ih, copyBack_length hout, htrue, Bool.true_and]

/-- The tokens tell the length of what the block stands for. -/
theorem blockLength_eq (block : Bytes) : blockLength block = (decode block).map List.length := by
  rw [blockLength, decode]
  cases hparse : parse block.length block with
  | none => rfl
  | some codes =>
    have hreach : (expand [] codes).isSome = inReach 0 codes := expand_isSome
    rw [Option.bind_eq_bind, Option.bind_some, Option.bind_some]
    cases hexpand : expand [] codes with
    | none =>
      rw [hexpand, Option.isSome_none] at hreach
      rw [← hreach]
      rfl
    | some out =>
      have hlen := expand_length hexpand
      rw [List.length_nil, Nat.zero_add] at hlen
      rw [hexpand, Option.isSome_some] at hreach
      rw [← hreach, if_pos rfl, Option.map_some, hlen]

/-! ## Writing -/

def lengthBytes (n : ℕ) : Bytes := List.replicate (n / 255) 255 ++ [UInt8.ofNat (n % 255)]

lemma lengthBytes_length (n : ℕ) : (lengthBytes n).length = n / 255 + 1 := by
  rw [lengthBytes, List.length_append, List.length_replicate, List.length_singleton]

lemma readLength_lengthBytes (n : ℕ) (rest : Bytes) : readLength (lengthBytes n ++ rest) = some (n, rest) := by
  have hmod : n % 255 < 255 := Nat.mod_lt _ (by decide)
  have hlast : (UInt8.ofNat (n % 255)).toNat = n % 255 := UInt8.toNat_ofNat_of_lt' (hmod.trans (by decide))
  have hrun : ∀ k, readLength (List.replicate k 255 ++ (UInt8.ofNat (n % 255) :: rest)) =
      some (255 * k + n % 255, rest) := by
    intro k
    induction k with
    | zero =>
      have hne : UInt8.ofNat (n % 255) ≠ 255 := fun heq => by
        rw [heq] at hlast
        change 255 = _ at hlast
        omega
      rw [List.replicate_zero, List.nil_append, readLength, if_neg hne, hlast, Nat.mul_zero, Nat.zero_add]
    | succ k ih =>
      have hsum : 255 + (255 * k + n % 255) = 255 * (k + 1) + n % 255 := by ring
      simp only [List.replicate_succ, List.cons_append, readLength, if_pos, ih, Option.map_some, hsum]
  rw [lengthBytes, List.append_assoc, List.singleton_append, hrun, Nat.div_add_mod]

def literalBlock (bytes : Bytes) : Bytes :=
  (if bytes.length < 15 then [UInt8.ofNat (bytes.length * 16)] else 0xF0 :: lengthBytes (bytes.length - 15)) ++ bytes

/-- The block of some bytes and `n` zeroes: literals up to the first zero, a match at distance one, and six literals
at the end. -/
def tailBlock (front : Bytes) (n : ℕ) : Bytes :=
  UInt8.ofNat (16 * (front.length + 1) + 15) :: (front ++ [0] ++ [1, 0] ++ lengthBytes (n - 26) ++
    literalBlock (List.replicate 6 0))

lemma literalBlock_length_le (bytes : Bytes) :
    (literalBlock bytes).length ≤ bytes.length + bytes.length / 255 + 2 := by
  rw [literalBlock, List.length_append]
  split_ifs
  · rw [List.length_singleton]
    omega
  · rw [List.length_cons, lengthBytes_length]
    omega

lemma tailBlock_length (front : Bytes) (n : ℕ) : (tailBlock front n).length = front.length + (n - 26) / 255 + 12 := by
  have hlast : (literalBlock (List.replicate 6 0)).length = 7 := rfl
  simp only [tailBlock, List.length_cons, List.length_append, lengthBytes_length, hlast, List.length_nil]
  omega

lemma expand_literals (out bytes : Bytes) : expand out (bytes.map Code.literal) = some (out ++ bytes) := by
  induction bytes generalizing out with
  | nil => simp [expand]
  | cons b bytes ih => simp [expand, Code.apply, ih]

lemma parse_literalBlock (fuel : ℕ) (bytes : Bytes) :
    parse (fuel + 1) (literalBlock bytes) = some (bytes.map Code.literal) := by
  have hlength : ∃ token rest, literalBlock bytes = token :: rest ∧
      lengthOf (token.toNat / 16) rest = some (bytes.length, bytes) := by
    rw [literalBlock]
    split_ifs with hlt
    · refine ⟨_, bytes, rfl, ?_⟩
      have htoken : (UInt8.ofNat (bytes.length * 16)).toNat = bytes.length * 16 :=
        UInt8.toNat_ofNat_of_lt' (show _ < 256 by omega)
      rw [htoken, Nat.mul_div_cancel _ (by decide), lengthOf, if_neg hlt.ne]
    · refine ⟨0xF0, lengthBytes (bytes.length - 15) ++ bytes, rfl, ?_⟩
      change lengthOf 15 _ = _
      simp only [lengthOf, if_pos, readLength_lengthBytes, Option.map_some, Nat.add_sub_of_le (Nat.not_lt.mp hlt)]
  obtain ⟨token, rest, hblock, hlength⟩ := hlength
  simp [hblock, parse, hlength]

theorem decode_literalBlock (bytes : Bytes) : decode (literalBlock bytes) = some bytes := by
  obtain ⟨fuel, hfuel⟩ : ∃ fuel, (literalBlock bytes).length = fuel + 1 := by
    rw [literalBlock]
    split_ifs <;> exact ⟨_, rfl⟩
  rw [decode, hfuel, parse_literalBlock, Option.bind_some, expand_literals, List.nil_append]

lemma parse_tailBlock (fuel : ℕ) {front : Bytes} (hfront : front.length ≤ 13) {n : ℕ} (hn : 26 ≤ n) :
    parse (fuel + 2) (tailBlock front n) =
      some ((front ++ [0]).map Code.literal ++ .backRef (n - 7) 1 :: (List.replicate 6 0).map Code.literal) := by
  have htoken : (UInt8.ofNat (16 * (front.length + 1) + 15)).toNat = 16 * (front.length + 1) + 15 :=
    UInt8.toNat_ofNat_of_lt' (show _ < 256 by omega)
  have hcount : ∀ rest, lengthOf ((16 * (front.length + 1) + 15) / 16) rest = some (front.length + 1, rest) := by
    intro rest
    rw [lengthOf, if_neg (by omega), show (16 * (front.length + 1) + 15) / 16 = front.length + 1 by omega]
  have hmatch : lengthOf ((16 * (front.length + 1) + 15) % 16)
      (lengthBytes (n - 26) ++ literalBlock (List.replicate 6 0)) =
        some (n - 11, literalBlock (List.replicate 6 0)) := by
    have hsum : 15 + (n - 26) = n - 11 := by omega
    rw [show (16 * (front.length + 1) + 15) % 16 = 15 by omega]
    simp only [lengthOf, if_pos, readLength_lengthBytes, Option.map_some, hsum]
  have hblock : tailBlock front n = UInt8.ofNat (16 * (front.length + 1) + 15) ::
      ((front ++ [0]) ++ 1 :: 0 :: (lengthBytes (n - 26) ++ literalBlock (List.replicate 6 0))) := by
    simp only [tailBlock, List.append_assoc, List.cons_append, List.nil_append]
  have hlen : (front ++ [0]).length = front.length + 1 := List.length_append
  have hroom : ¬(front ++ [0] ++ 1 :: 0 :: (lengthBytes (n - 26) ++ literalBlock (List.replicate 6 0))).length <
      front.length + 1 := by
    rw [List.length_append, hlen]
    omega
  have hmore : n - 11 + 4 = n - 7 := by omega
  rw [hblock, parse, htoken, hcount, Option.bind_eq_bind, Option.bind_some]
  simp only [if_neg hroom, List.take_left' hlen, List.drop_left' hlen, hmatch, Option.bind_eq_bind,
    Option.bind_some, parse_literalBlock, hmore]
  rfl

theorem decode_tailBlock {front : Bytes} (hfront : front.length ≤ 13) {n : ℕ} (hn : 26 ≤ n) :
    decode (tailBlock front n) = some (front ++ List.replicate n 0) := by
  obtain ⟨fuel, hfuel⟩ : ∃ fuel, (tailBlock front n).length = fuel + 2 := ⟨_, tailBlock_length front n⟩
  have hlen : (front ++ [(0 : UInt8)]).length = front.length + 1 := List.length_append
  have hfirst : expand [] ((front ++ [0]).map Code.literal) =
      some ((front ++ List.replicate n 0).take (front.length + 1)) := by
    rw [expand_literals, List.nil_append, List.take_length_add_append, List.take_replicate,
      Nat.min_eq_left (by omega)]
    rfl
  have hrun : expand [] ((front ++ [0]).map Code.literal ++ [.backRef (n - 7) 1]) =
      some ((front ++ List.replicate n 0).take (front.length + 1 + (n - 7))) :=
    expand_backRef hfirst le_rfl (Nat.le_add_left 1 _)
      (by rw [List.length_append, List.length_replicate]; omega) fun i hi => by
        rw [List.getElem?_append_right (by omega), List.getElem?_append_right (by omega), List.getElem?_replicate,
          List.getElem?_replicate, if_pos (by omega), if_pos (by omega)]
  have hsum : front.length + 1 + (n - 7) = front.length + (n - 6) := by omega
  have hend : n - 6 + 6 = n := by omega
  rw [decode, hfuel, parse_tailBlock fuel hfront hn, Option.bind_some, List.append_cons, expand_append]
  refine Option.bind_eq_some_iff.mpr ⟨_, hrun, ?_⟩
  rw [expand_literals, hsum, List.take_length_add_append, List.take_replicate, Nat.min_eq_left (by omega),
    List.append_assoc, ← List.replicate_add, hend]

end NxObject.Lz4
