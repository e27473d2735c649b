import NxObject.Utf8

/-!
# Text cut at a number of bytes

The first bytes of a text are text again only if a character ends where they end. The longest beginning of
whole characters that takes so many bytes is another matter: it always exists.
-/
namespace NxObject

/-- The characters that `capacity` bytes hold, up to the first that does not fit any more. -/
def fitting : ℕ → Text → Text
  | _, [] => []
  | capacity, c :: s => if c.utf8Size ≤ capacity then c :: fitting (capacity - c.utf8Size) s else []

/-- A character of the text ends after `n` bytes. -/
def WholeAt (n : ℕ) (s : Text) : Prop := ∃ p, p <+: s ∧ (utf8 p).length = n

/-- What `n` bytes of the text are read as. -/
def readBytes (n : ℕ) (s : Text) : Text := (fromUtf8 ((utf8 s).take n)).getD []

lemma utf8_cons_length (c : Char) (s : Text) : (utf8 (c :: s)).length = c.utf8Size + (utf8 s).length := by
  rw [utf8, List.flatMap_cons, List.length_append, String.length_utf8EncodeChar]
  rfl

lemma prefix_of_utf8_prefix {p s : Text} (h : utf8 p <+: utf8 s) : p <+: s := by
  obtain ⟨rest, hrest⟩ := h
  refine List.isPrefix_of_utf8Encode_append_eq_utf8Encode (ByteArray.mk rest.toArray) ?_
  rw [utf8Encode_eq, utf8Encode_eq, ← hrest]
  apply ByteArray.ext
  simp

section Fitting
variable {capacity n : ℕ} {s : Text}

lemma fitting_isPrefix (capacity : ℕ) (s : Text) : fitting capacity s <+: s := by
  induction s generalizing capacity with
  | nil => exact List.nil_prefix
  | cons c s ih =>
    rw [fitting]
    split_ifs
    · exact List.cons_prefix_cons.mpr ⟨rfl, ih _⟩
    · exact List.nil_prefix

lemma fitting_length_le (capacity : ℕ) (s : Text) : (utf8 (fitting capacity s)).length ≤ capacity := by
  induction s generalizing capacity with
  | nil => exact Nat.zero_le _
  | cons c s ih =>
    rw [fitting]
    split_ifs with h
    · have hrest := ih (capacity - c.utf8Size)
      rw [utf8_cons_length]
      omega
    · exact Nat.zero_le _

theorem prefix_fitting {p : Text} (hp : p <+: s) (hle : (utf8 p).length ≤ capacity) : p <+: fitting capacity s := by
  induction s generalizing capacity p with
  | nil => exact hp
  | cons c s ih =>
    cases p with
    | nil => exact List.nil_prefix
    | cons d p =>
      obtain ⟨rfl, hrest⟩ := List.cons_prefix_cons.mp hp
      rw [utf8_cons_length] at hle
      rw [fitting, if_pos (by omega)]
      exact List.cons_prefix_cons.mpr ⟨rfl, ih hrest (by omega)⟩

lemma fitting_of_le (h : (utf8 s).length ≤ capacity) : fitting capacity s = s :=
  (fitting_isPrefix capacity s).eq_of_length_le (prefix_fitting List.prefix_rfl h).length_le

lemma fitting_eq_of_isPrefix {p : Text} (hp : p <+: s) (hlen : (utf8 p).length = capacity) :
    fitting capacity s = p := by
  have hle := prefix_fitting hp hlen.le
  obtain ⟨rest, hrest⟩ := hle
  have hbytes := fitting_length_le capacity s
  rw [← hrest, utf8_append, List.length_append, hlen] at hbytes
  have hnil : rest = [] := by
    by_contra hne
    have hpos := List.length_pos_iff.mpr (utf8_ne_nil hne)
    omega
  rw [← hrest, hnil, List.append_nil]

lemma wholeAt_iff : WholeAt n s ↔ (utf8 (fitting n s)).length = n := by
  constructor
  · rintro ⟨p, hp, hlen⟩
    rwa [fitting_eq_of_isPrefix hp hlen]
  · exact fun h => ⟨_, fitting_isPrefix n s, h⟩

instance (n : ℕ) (s : Text) : Decidable (WholeAt n s) := decidable_of_iff _ wholeAt_iff.symm

lemma fitting_ne_nil (hcapacity : 4 ≤ capacity) (hs : s ≠ []) : fitting capacity s ≠ [] := by
  obtain ⟨c, s, rfl⟩ := List.exists_cons_of_ne_nil hs
  have hc := Char.utf8Size_le_four c
  rw [fitting, if_pos (hc.trans hcapacity)]
  exact List.cons_ne_nil _ _

lemma readBytes_of_le (h : (utf8 s).length ≤ n) : readBytes n s = s := by
  rw [readBytes, List.take_of_length_le h, fromUtf8_utf8]
  rfl

lemma readBytes_of_whole (h : WholeAt n s) : readBytes n s = fitting n s := by
  obtain ⟨p, hp, hlen⟩ := h
  have htake : (utf8 s).take n = utf8 p := by
    obtain ⟨rest, rfl⟩ := hp
    rw [utf8_append, List.take_left' hlen]
  rw [readBytes, htake, fromUtf8_utf8, fitting_eq_of_isPrefix hp hlen]
  rfl

lemma readBytes_of_cut (hlt : n < (utf8 s).length) (h : ¬WholeAt n s) : readBytes n s = [] := by
  rw [readBytes]
  cases hread : fromUtf8 ((utf8 s).take n) with
  | none => rfl
  | some p =>
    have hbytes := utf8_of_fromUtf8 hread
    have hprefix : p <+: s := prefix_of_utf8_prefix (hbytes ▸ List.take_prefix n _)
    have hlen : (utf8 p).length = n := by
      rw [hbytes, List.length_take]
      omega
    exact absurd ⟨p, hprefix, hlen⟩ h

/-- The first `n` bytes read as the longest beginning that fits them if and only if they do not end inside
a character. -/
theorem readBytes_eq_fitting_iff (hn : 4 ≤ n) :
    readBytes n s = fitting n s ↔ (utf8 s).length ≤ n ∨ WholeAt n s := by
  constructor
  · intro h
    by_contra! hcut
    have hs : s ≠ [] := by
      rintro rfl
      exact absurd hcut.1 (Nat.not_lt_zero _)
    rw [readBytes_of_cut hcut.1 hcut.2] at h
    exact fitting_ne_nil hn hs h.symm
  · rintro (hle | hwhole)
    · rw [readBytes_of_le hle, fitting_of_le hle]
    · exact readBytes_of_whole hwhole

/-- One byte more is of no use if and only if no character ends with it. -/
theorem readBytes_eq_fitting_succ_iff (hn : 4 ≤ n) : readBytes n s = fitting (n + 1) s ↔
    ((utf8 s).length ≤ n ∨ WholeAt n s) ∧ ¬WholeAt (n + 1) s := by
  have hread : (utf8 (readBytes n s)).length ≤ n := by
    by_cases hle : (utf8 s).length ≤ n
    · rwa [readBytes_of_le hle]
    · by_cases hwhole : WholeAt n s
      · rw [readBytes_of_whole hwhole]
        exact fitting_length_le n s
      · rw [readBytes_of_cut (Nat.lt_of_not_le hle) hwhole]
        exact Nat.zero_le _
  have hshorter : ¬WholeAt (n + 1) s → fitting (n + 1) s = fitting n s := by
    intro hno
    have hle := fitting_length_le (n + 1) s
    have hne : (utf8 (fitting (n + 1) s)).length ≠ n + 1 := fun h => hno ⟨_, fitting_isPrefix _ _, h⟩
    have hback : fitting (n + 1) s <+: fitting n s := prefix_fitting (fitting_isPrefix _ _) (by omega)
    have hforth : fitting n s <+: fitting (n + 1) s :=
      prefix_fitting (fitting_isPrefix _ _) ((fitting_length_le n s).trans n.le_succ)
    exact hback.eq_of_length_le hforth.length_le
  constructor
  · intro h
    have hno : ¬WholeAt (n + 1) s := by
      rintro ⟨p, hp, hlen⟩
      rw [h, fitting_eq_of_isPrefix hp hlen] at hread
      omega
    exact ⟨(readBytes_eq_fitting_iff hn).mp (h.trans (hshorter hno)), hno⟩
  · rintro ⟨hwhole, hno⟩
    rw [hshorter hno]
    exact (readBytes_eq_fitting_iff hn).mpr hwhole

end Fitting
end NxObject
