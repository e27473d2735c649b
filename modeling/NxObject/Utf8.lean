import NxObject.Bytes

/-!
# Text

Text is a list of characters. Stored names are its UTF-8 bytes, and reading them back succeeds on
exactly the byte strings that encode some text.
-/
namespace NxObject

abbrev Text := List Char

def utf8 (s : Text) : Bytes := s.flatMap String.utf8EncodeChar

/-- `str::from_utf8`. -/
def fromUtf8 (bs : Bytes) : Option Text := (ByteArray.mk bs.toArray).utf8Decode?.map Array.toList

lemma utf8Encode_eq (s : Text) : s.utf8Encode = ByteArray.mk (utf8 s).toArray := by
  apply ByteArray.ext
  rw [List.utf8Encode, List.data_toByteArray]
  rfl

theorem fromUtf8_utf8 (s : Text) : fromUtf8 (utf8 s) = some s := by
  rw [fromUtf8, ← utf8Encode_eq, List.utf8Decode?_utf8Encode]
  simp

theorem utf8_of_fromUtf8 {bs : Bytes} {s : Text} (h : fromUtf8 bs = some s) : utf8 s = bs := by
  obtain ⟨cs, hcs, rfl⟩ := Option.map_eq_some_iff.mp h
  have hget : (ByteArray.mk bs.toArray).utf8Decode?.get (by rw [hcs]; rfl) = cs := by simp [hcs]
  have henc := ByteArray.utf8Encode_get_utf8Decode? (b := ByteArray.mk bs.toArray)
    (h := by rw [hcs]; rfl)
  rw [hget, utf8Encode_eq] at henc
  simpa using congrArg (fun b => b.data.toList) henc

theorem utf8_injective : Function.Injective utf8 := by
  intro s t h
  have hs := fromUtf8_utf8 s
  rw [h, fromUtf8_utf8] at hs
  exact (Option.some.inj hs).symm

@[simp] theorem utf8_nil : utf8 [] = [] := rfl

theorem utf8_append (s t : Text) : utf8 (s ++ t) = utf8 s ++ utf8 t := List.flatMap_append

theorem utf8_ne_nil {s : Text} (h : s ≠ []) : utf8 s ≠ [] := fun hs => h (utf8_injective hs)

theorem length_le_utf8 (s : Text) : s.length ≤ (utf8 s).length := by
  induction s with
  | nil => exact le_rfl
  | cons c s ih =>
    have hc : 0 < (String.utf8EncodeChar c).length := by
      rw [String.length_utf8EncodeChar]
      exact Char.utf8Size_pos c
    rw [utf8, List.flatMap_cons, List.length_append, List.length_cons]
    change s.length + 1 ≤ _ + (utf8 s).length
    omega

lemma ofNat_ne_zero {x : ℕ} (hpos : 0 < x) (hlt : x < 256) : (0 : UInt8) ≠ UInt8.ofNat x := by
  intro h
  have hx := congrArg UInt8.toNat h
  rw [UInt8.toNat_ofNat_of_lt' hlt] at hx
  exact absurd hx (by rw [UInt8.toNat_zero]; omega)

lemma zero_mem_utf8EncodeChar {c : Char} (h : 0 ∈ String.utf8EncodeChar c) : c = '\x00' := by
  unfold String.utf8EncodeChar at h
  by_cases hc : c.val.toNat = 0
  · exact Char.ext (UInt32.toNat_inj.mp hc)
  · exfalso
    dsimp only at h
    split_ifs at h <;> simp only [List.mem_cons, List.not_mem_nil, or_false] at h
    · exact ofNat_ne_zero (by omega) (by omega) h
    · rcases h with h | h <;> exact ofNat_ne_zero (by omega) (by omega) h
    · rcases h with h | h | h <;> exact ofNat_ne_zero (by omega) (by omega) h
    · rcases h with h | h | h | h <;> exact ofNat_ne_zero (by omega) (by omega) h

theorem zero_notMem_utf8 {s : Text} (h : '\x00' ∉ s) : 0 ∉ utf8 s := by
  intro hzero
  obtain ⟨c, hc, hzero⟩ := List.mem_flatMap.mp hzero
  exact h (zero_mem_utf8EncodeChar hzero ▸ hc)

end NxObject
