import NxObject.CounterMode

/-!
# Encryption in counter mode

The key stream is what a block cipher makes of one counter after the other, and encrypting is adding it. Doing
so twice gives back what was there, from any block on.
-/
namespace NxObject.CounterMode

/-- The byte of the key stream that is added at position `k`. A counter is as long as a block. -/
def keyByte (E : Bytes → Bytes) (counter : Bytes) (k : ℕ) : UInt8 :=
  (E (toBe counter.length ((ofBe counter + k / counter.length) % 256 ^ counter.length))).getD
    (k % counter.length) 0

/-- Encrypt, or decrypt, with the counter of the first block. -/
def crypt (E : Bytes → Bytes) (counter data : Bytes) : Bytes :=
  data.mapIdx fun k x => x ^^^ keyByte E counter k

def inPlace (f : Bytes → Bytes) (range : ℕ × ℕ) (bytes : Bytes) : Bytes :=
  bytes.take range.1 ++ f ((bytes.take range.2).drop range.1) ++ bytes.drop range.2

variable {E : Bytes → Bytes} {counter : Bytes}

@[simp] lemma crypt_length (data : Bytes) : (crypt E counter data).length = data.length := by
  rw [crypt, List.length_mapIdx]

lemma getElem?_crypt (data : Bytes) (k : ℕ) :
    (crypt E counter data)[k]? = data[k]?.map fun x => x ^^^ keyByte E counter k := by
  rw [crypt, List.getElem?_mapIdx]

theorem crypt_crypt (data : Bytes) : crypt E counter (crypt E counter data) = data := by
  apply List.ext_getElem?
  intro k
  rw [getElem?_crypt, getElem?_crypt]
  cases data[k]? with
  | none => rfl
  | some x => simp only [Option.map_some, UInt8.xor_assoc, UInt8.xor_self, UInt8.xor_zero]

lemma keyByte_advance {counter' : Bytes} {j : ℕ} (hpos : 0 < counter.length)
    (hlen : counter'.length = counter.length) (hcounter : ofBe counter' = ofBe counter + j) (k : ℕ) :
    keyByte E counter (counter.length * j + k) = keyByte E counter' k := by
  rw [keyByte, keyByte, hlen, hcounter, Nat.mul_add_div hpos, Nat.mul_add_mod, add_assoc]

/-- From any block on, the bytes are encrypted with the counter of the block. -/
theorem drop_crypt {counter' : Bytes} {j : ℕ} (hpos : 0 < counter.length)
    (hlen : counter'.length = counter.length) (hcounter : ofBe counter' = ofBe counter + j) (data : Bytes) :
    (crypt E counter data).drop (counter.length * j) = crypt E counter' (data.drop (counter.length * j)) := by
  apply List.ext_getElem?
  intro k
  rw [List.getElem?_drop, getElem?_crypt, getElem?_crypt, List.getElem?_drop,
    keyByte_advance hpos hlen hcounter]

lemma inPlace_append (f : Bytes → Bytes) {range : ℕ × ℕ} {pre bytes : Bytes} (post : Bytes)
    (hstart : range.1 = pre.length) (hstop : range.2 = pre.length + bytes.length) :
    inPlace f range (pre ++ (bytes ++ post)) = pre ++ f bytes ++ post := by
  rw [inPlace, hstart, hstop, List.take_left, ← List.append_assoc, ← List.length_append, List.take_left,
    List.drop_left, List.drop_left]

end NxObject.CounterMode
