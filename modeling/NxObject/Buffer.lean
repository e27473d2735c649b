import NxObject.Codec
import NxObject.Outcome
import NxObject.Placement

/-!
# Parts of a buffer

What a slice of a byte string is, and what a buffer holds once parts of it have been written: every byte
of a part that no later part covers, and what stood there before everywhere else.
-/
namespace NxObject
open Outcome

variable {ε : Type}

/-! ## Slices -/

lemma sliceAt_eq_drop_take (bs : Bytes) (off len : ℕ) :
    sliceAt bs off len = (bs.take (off + len)).drop off := by
  rw [sliceAt, List.drop_take, Nat.add_sub_cancel_left]

theorem slice_sliceAt {bs : Bytes} {off len : ℕ} (h : off + len ≤ bs.length) :
    (slice bs off (off + len) : Outcome ε _) = ok (sliceAt bs off len) := by
  rw [slice_of_le (Nat.le_add_right _ _) h, sliceAt_eq_drop_take]

theorem sliceAt_getElem? (bs : Bytes) (off len i : ℕ) :
    (sliceAt bs off len)[i]? = if i < len then bs[off + i]? else none := by
  rw [sliceAt, List.getElem?_take, List.getElem?_drop]

theorem sliceAt_congr {bs cs : Bytes} {off len : ℕ}
    (h : ∀ i, off ≤ i → i < off + len → bs[i]? = cs[i]?) : sliceAt bs off len = sliceAt cs off len := by
  apply List.ext_getElem?
  intro i
  rw [sliceAt_getElem?, sliceAt_getElem?]
  split_ifs with hi
  · exact h (off + i) (Nat.le_add_right _ _) (by omega)
  · rfl

theorem sliceAt_of_prefix {bs cs : Bytes} (h : bs <+: cs) {off len : ℕ} (hle : off + len ≤ bs.length) :
    sliceAt bs off len = sliceAt cs off len := by
  obtain ⟨rest, rfl⟩ := h
  refine sliceAt_congr fun i _ hi => ?_
  rw [List.getElem?_append_left (by omega)]

theorem Codec.fromPrefix_drop {α : Type} (c : Codec α) {bs : Bytes} {off : ℕ} {a : α}
    (h : sliceAt bs off c.size = c.enc a) : c.fromPrefix (bs.drop off) = some a := by
  rw [← List.take_append_drop c.size (bs.drop off)]
  change (c.fromPrefix (sliceAt bs off c.size ++ _)) = _
  rw [h, c.fromPrefix_append]

/-! ## Writing -/

def zeroed (n : ℕ) : Outcome ε Bytes := if n < 2 ^ 63 then ok (List.replicate n 0) else panic

theorem zeroed_of_lt {n : ℕ} (h : n < 2 ^ 63) : (zeroed n : Outcome ε _) = ok (List.replicate n 0) :=
  if_pos h

theorem zeroed_eq_ok {n : ℕ} {bs : Bytes} :
    (zeroed n : Outcome ε _) = ok bs ↔ n < 2 ^ 63 ∧ bs = List.replicate n 0 := by
  rw [zeroed]
  split_ifs with h
  · rw [ok.injEq, eq_comm, and_iff_right h]
  · exact ⟨nofun, fun hlt => absurd hlt.1 h⟩

/-- `Vec::with_capacity(n)`, which panics beyond `isize::MAX` bytes. -/
def withCapacity (n : ℕ) : Outcome ε Unit := if n < 2 ^ 63 then ok () else panic

theorem withCapacity_of_lt {n : ℕ} (h : n < 2 ^ 63) : (withCapacity n : Outcome ε _) = ok () := if_pos h

/-- The buffer with `src` written at `start`. -/
def overwrite (buf : Bytes) (start : ℕ) (src : Bytes) : Bytes :=
  buf.take start ++ src ++ buf.drop (start + src.length)

theorem copyFromSlice_overwrite {buf src : Bytes} {start : ℕ} (h : start + src.length ≤ buf.length) :
    (copyFromSlice buf start src : Outcome ε _) = ok (overwrite buf start src) :=
  copyFromSlice_of_le h

section Overwrite
variable {buf src : Bytes} {start : ℕ} (h : start + src.length ≤ buf.length)
include h

theorem overwrite_length : (overwrite buf start src).length = buf.length := by
  rw [overwrite, List.length_append, List.length_append, List.length_take, List.length_drop]
  omega

theorem overwrite_getElem? (i : ℕ) :
    (overwrite buf start src)[i]? =
      if start ≤ i ∧ i < start + src.length then src[i - start]? else buf[i]? := by
  have hfront : (buf.take start).length = start := List.length_take_of_le (by omega)
  rw [overwrite, List.append_assoc]
  by_cases hlt : i < start
  · rw [if_neg (by omega), List.getElem?_append_left (by omega), List.getElem?_take_of_lt hlt]
  · rw [List.getElem?_append_right (by omega), hfront]
    by_cases hin : i < start + src.length
    · rw [if_pos ⟨by omega, hin⟩, List.getElem?_append_left (by omega)]
    · rw [if_neg (by omega), List.getElem?_append_right (by omega), List.getElem?_drop]
      congr 1
      omega

theorem sliceAt_overwrite : sliceAt (overwrite buf start src) start src.length = src := by
  have hfront : (buf.take start).length = start := List.length_take_of_le (by omega)
  exact sliceAt_eq_of_append (by rw [overwrite, List.append_assoc]) hfront rfl

theorem sliceAt_overwrite_of_le {off len : ℕ} (hstop : off + len ≤ start + src.length) :
    sliceAt (overwrite buf start src) off len =
      (sliceAt buf off len).take (start - off) ++ sliceAt src (off - start) (len - (start - off)) := by
  have hfront : ((sliceAt buf off len).take (start - off)).length = min (start - off) len := by
    rw [List.length_take]
    by_cases hle : off + len ≤ buf.length
    · rw [sliceAt_length hle]
    · omega
  apply List.ext_getElem?
  intro i
  rw [sliceAt_getElem?, overwrite_getElem? h]
  by_cases hi : i < len
  · rw [if_pos hi]
    by_cases hbelow : off + i < start
    · rw [if_neg (by omega), List.getElem?_append_left (by omega), List.getElem?_take_of_lt (by omega),
        sliceAt_getElem?, if_pos hi]
    · rw [if_pos ⟨by omega, by omega⟩, List.getElem?_append_right (by omega), hfront, sliceAt_getElem?,
        if_pos (by omega)]
      congr 1
      omega
  · rw [if_neg hi, List.getElem?_append_right (by omega), hfront, sliceAt_getElem?, if_neg (by omega)]

end Overwrite

/-! ## Parts that do not overlap -/

abbrev Part := ℕ × Bytes

def Part.stop (p : Part) : ℕ := p.1 + p.2.length

def Part.Apart (p q : Part) : Prop := p.stop ≤ q.1 ∨ q.stop ≤ p.1

theorem pairwise_stop_le {parts : List Part} (h : parts.IsChain fun p q => p.stop ≤ q.1) :
    parts.Pairwise fun p q => p.stop ≤ q.1 := by
  have htrans {p q r : Part} (hpq : p.stop ≤ q.1) (hqr : q.stop ≤ r.1) : p.stop ≤ r.1 :=
    hpq.trans ((Nat.le_add_right _ _).trans hqr)
  have : Trans (fun p q : Part => p.stop ≤ q.1) (fun p q : Part => p.stop ≤ q.1)
    (fun p q : Part => p.stop ≤ q.1) := ⟨htrans⟩
  exact List.isChain_iff_pairwise.mp h

def writeParts (buf : Bytes) (parts : List Part) : Outcome ε Bytes :=
  parts.foldlM (fun buf part => copyFromSlice buf part.1 part.2) buf

def written (buf : Bytes) (parts : List Part) : Bytes :=
  parts.foldl (fun buf part => overwrite buf part.1 part.2) buf

variable {buf : Bytes} {parts : List Part}

theorem writeParts_append (buf : Bytes) (parts later : List Part) :
    (writeParts buf (parts ++ later) : Outcome ε _) = writeParts buf parts >>= (writeParts · later) :=
  List.foldlM_append

section Written
variable (h : ∀ p ∈ parts, p.stop ≤ buf.length)
include h

theorem written_length : (written buf parts).length = buf.length := by
  induction parts generalizing buf with
  | nil => rfl
  | cons p parts ih =>
    obtain ⟨hp, hparts⟩ := List.forall_mem_cons.mp h
    have hlen : (overwrite buf p.1 p.2).length = buf.length := overwrite_length hp
    rw [written, List.foldl_cons]
    exact (ih (by rwa [hlen])).trans hlen

/-- Parts that lie inside a buffer can be written. -/
theorem writeParts_eq : (writeParts buf parts : Outcome ε _) = ok (written buf parts) := by
  induction parts generalizing buf with
  | nil => rfl
  | cons p parts ih =>
    obtain ⟨hp, hparts⟩ := List.forall_mem_cons.mp h
    rw [writeParts, List.foldlM_cons, copyFromSlice_overwrite hp, ok_bind]
    exact ih (by rwa [overwrite_length hp])

omit h in
/-- Parts one of which lies outside a buffer cannot. -/
theorem writeParts_eq_panic (hout : ∃ p ∈ parts, buf.length < p.stop) :
    (writeParts buf parts : Outcome ε _) = panic := by
  induction parts generalizing buf with
  | nil => exact absurd hout.choose_spec.1 List.not_mem_nil
  | cons p parts ih =>
    rw [writeParts, List.foldlM_cons]
    by_cases hp : p.stop ≤ buf.length
    · rw [copyFromSlice_overwrite hp, ok_bind]
      obtain ⟨q, hq, hlt⟩ := hout
      rcases List.mem_cons.mp hq with rfl | hq
      · exact absurd hp (Nat.not_le.mpr hlt)
      · exact ih ⟨q, hq, by rwa [overwrite_length hp]⟩
    · rw [copyFromSlice, if_neg (show ¬p.1 + p.2.length ≤ buf.length from hp)]
      rfl

theorem written_getElem?_of_apart {i : ℕ} (hapart : ∀ p ∈ parts, i < p.1 ∨ p.stop ≤ i) :
    (written buf parts)[i]? = buf[i]? := by
  induction parts generalizing buf with
  | nil => rfl
  | cons p parts ih =>
    obtain ⟨hp, hparts⟩ := List.forall_mem_cons.mp h
    obtain ⟨hpa, hpartsa⟩ := List.forall_mem_cons.mp hapart
    have hfirst : (overwrite buf p.1 p.2)[i]? = buf[i]? := by
      rw [overwrite_getElem? hp, if_neg]
      rw [Part.stop] at hpa
      omega
    rw [written, List.foldl_cons]
    exact (ih (by rwa [overwrite_length hp]) hpartsa).trans hfirst

theorem sliceAt_written_of_apart {off len : ℕ}
    (hapart : ∀ p ∈ parts, off + len ≤ p.1 ∨ p.stop ≤ off) :
    sliceAt (written buf parts) off len = sliceAt buf off len := by
  refine sliceAt_congr fun i hle hlt => written_getElem?_of_apart h fun p hp => ?_
  have := hapart p hp
  omega

/-- Parts that overlap nowhere are all found where they were written. -/
theorem sliceAt_written (hapart : parts.Pairwise Part.Apart) {p : Part} (hp : p ∈ parts) :
    sliceAt (written buf parts) p.1 p.2.length = p.2 := by
  induction parts generalizing buf with
  | nil => exact absurd hp List.not_mem_nil
  | cons q parts ih =>
    obtain ⟨hq, hparts⟩ := List.forall_mem_cons.mp h
    obtain ⟨hqa, hpartsa⟩ := List.pairwise_cons.mp hapart
    have hrest : ∀ r ∈ parts, r.stop ≤ (overwrite buf q.1 q.2).length := by
      rwa [overwrite_length hq]
    rw [written, List.foldl_cons]
    rcases List.mem_cons.mp hp with rfl | hp
    · exact (sliceAt_written_of_apart hrest hqa).trans (sliceAt_overwrite hq)
    · exact ih hrest hpartsa hp

end Written

theorem written_append (buf : Bytes) (parts later : List Part) :
    written buf (parts ++ later) = written (written buf parts) later :=
  List.foldl_append

theorem take_written_of_apart {n : ℕ} (h : ∀ p ∈ parts, p.stop ≤ buf.length)
    (hbehind : ∀ p ∈ parts, n ≤ p.1) : (written buf parts).take n = buf.take n := by
  apply List.ext_getElem?
  intro i
  rw [List.getElem?_take, List.getElem?_take]
  split_ifs with hi
  · exact written_getElem?_of_apart h fun p hp => Or.inl (hi.trans_le (hbehind p hp))
  · rfl

/-- Parts inside a front of the buffer are written to it alike. -/
theorem take_written {n : ℕ} (hn : n ≤ buf.length) (h : ∀ p ∈ parts, p.stop ≤ n) :
    (written buf parts).take n = written (buf.take n) parts := by
  induction parts generalizing buf with
  | nil => rfl
  | cons p parts ih =>
    obtain ⟨hp, hparts⟩ := List.forall_mem_cons.mp h
    have hlen : (overwrite buf p.1 p.2).length = buf.length := overwrite_length (hp.trans hn)
    have hfront : (buf.take n).length = n := List.length_take_of_le hn
    have hfirst : (overwrite buf p.1 p.2).take n = overwrite (buf.take n) p.1 p.2 := by
      apply List.ext_getElem?
      intro i
      rw [List.getElem?_take, overwrite_getElem? (hp.trans hn),
        overwrite_getElem? (hp.trans hfront.ge), List.getElem?_take]
      rw [Part.stop] at hp
      split_ifs <;> first | rfl | omega
    rw [written, List.foldl_cons, written, List.foldl_cons, ← hfirst]
    exact ih (by rwa [hlen]) hparts

theorem written_cons_getElem? {p : Part} (h : ∀ q ∈ p :: parts, q.stop ≤ buf.length) {i : ℕ}
    (hapart : ∀ q ∈ parts, p.1 + i < q.1 ∨ q.stop ≤ p.1 + i) (hi : i < p.2.length) :
    (written buf (p :: parts))[p.1 + i]? = p.2[i]? := by
  obtain ⟨hp, hparts⟩ := List.forall_mem_cons.mp h
  rw [written, List.foldl_cons]
  refine (written_getElem?_of_apart (by rwa [overwrite_length hp]) hapart).trans ?_
  rw [overwrite_getElem? hp, if_pos ⟨Nat.le_add_right _ _, by omega⟩, Nat.add_sub_cancel_left]

/-! ## Padding -/

def padded (data : Bytes) (alignment : ℕ) : Bytes :=
  data ++ List.replicate (Placement.alignUp alignment data.length - data.length) 0

theorem padded_length {alignment : ℕ} (h : 0 < alignment) (data : Bytes) :
    (padded data alignment).length = Placement.alignUp alignment data.length := by
  have hle := Placement.le_alignUp h data.length
  rw [padded, List.length_append, List.length_replicate]
  omega

def padToAlignment (data : Bytes) (alignment : ℕ) : Outcome ε Bytes := do
  withCapacity (Placement.alignUp alignment data.length)
  pure (padded data alignment)

theorem padToAlignment_of_lt {data : Bytes} {alignment : ℕ} (hpos : 0 < alignment)
    (h : (padded data alignment).length < 2 ^ 63) :
    (padToAlignment data alignment : Outcome ε _) = ok (padded data alignment) := by
  rw [padded_length hpos] at h
  rw [padToAlignment, withCapacity_of_lt h, ok_bind, pure_eq]

/-! ## Filling regions -/

theorem copyFromSlice_fill (pre done post src : Bytes) {start n : ℕ}
    (hstart : start = pre.length + done.length) (hn : src.length ≤ n) :
    (copyFromSlice (pre ++ (done ++ (List.replicate n 0 ++ post))) start src : Outcome ε _) =
      ok (pre ++ (done ++ src ++ (List.replicate (n - src.length) 0 ++ post))) := by
  have hsplit : pre ++ (done ++ (List.replicate n 0 ++ post)) =
      (pre ++ done) ++ (List.replicate n 0 ++ post) := by rw [List.append_assoc]
  have hlen : src.length ≤ (List.replicate n (0 : UInt8) ++ post).length := by
    rw [List.length_append, List.length_replicate]
    omega
  have hdrop : (List.replicate n (0 : UInt8) ++ post).drop src.length =
      List.replicate (n - src.length) 0 ++ post := by
    rw [List.drop_append_of_le_length (by rwa [List.length_replicate]), List.drop_replicate]
  rw [hsplit, copyFromSlice_append _ _ _ (by rw [hstart, List.length_append]) hlen, hdrop]
  simp only [List.append_assoc]

end NxObject
