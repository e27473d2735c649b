import Mathlib

/-!
# Dictionary codes

A sequence of symbols written as literals and back-references into what has already been produced.
A back-reference copies symbol by symbol, so it may overlap what it produces. The rules at the end
are the two steps of an encoder: emitting a code extends the prefix that the codes stand for.
-/
namespace NxObject.Lz
variable {α : Type}

inductive Code (α : Type) where
  | literal (b : α)
  | backRef (length distance : ℕ)
  deriving DecidableEq, Repr

/-- Number of symbols a code stands for. -/
def Code.produced : Code α → ℕ
  | literal _ => 1
  | backRef length _ => length

def produced (codes : List (Code α)) : ℕ := (codes.map Code.produced).sum

@[simp] theorem produced_nil : produced ([] : List (Code α)) = 0 := rfl

@[simp] theorem produced_append (xs ys : List (Code α)) :
    produced (xs ++ ys) = produced xs + produced ys := by
  simp [produced]

@[simp] theorem produced_cons (c : Code α) (cs : List (Code α)) :
    produced (c :: cs) = c.produced + produced cs := by
  simp [produced]

/-- Append `n` symbols, each a copy of the one `distance` before the end. -/
def copyBack (distance : ℕ) : ℕ → List α → Option (List α)
  | 0, out => some out
  | n + 1, out =>
      if distance ≤ out.length then
        out[out.length - distance]?.bind fun a => copyBack distance n (out ++ [a])
      else none

def Code.apply (out : List α) : Code α → Option (List α)
  | literal b => some (out ++ [b])
  | backRef length distance => copyBack distance length out

/-- The symbols a sequence of codes stands for, after those already produced. -/
def expand : List α → List (Code α) → Option (List α)
  | out, [] => some out
  | out, c :: cs => (c.apply out).bind fun out => expand out cs

theorem copyBack_length {distance n : ℕ} {out out' : List α}
    (h : copyBack distance n out = some out') : out'.length = out.length + n := by
  induction n generalizing out with
  | zero =>
    have he : out = out' := by simpa [copyBack] using h
    simp [he]
  | succ n ih =>
    rw [copyBack] at h
    split_ifs at h
    obtain ⟨a, _, ha⟩ := Option.bind_eq_some_iff.mp h
    have := ih ha
    simp only [List.length_append, List.length_singleton] at this
    omega

theorem copyBack_le {distance n : ℕ} {out out' : List α} (hn : 0 < n)
    (h : copyBack distance n out = some out') : distance ≤ out.length := by
  obtain ⟨n, rfl⟩ : ∃ m, n = m + 1 := ⟨n - 1, by omega⟩
  rw [copyBack] at h
  split_ifs at h with hle
  exact hle

theorem prefix_of_copyBack {distance n : ℕ} {out out' : List α}
    (h : copyBack distance n out = some out') : out <+: out' := by
  induction n generalizing out with
  | zero =>
    have he : out = out' := by simpa [copyBack] using h
    simp [he]
  | succ n ih =>
    rw [copyBack] at h
    split_ifs at h
    obtain ⟨a, _, ha⟩ := Option.bind_eq_some_iff.mp h
    exact (List.prefix_append out [a]).trans (ih ha)

theorem prefix_of_apply {c : Code α} {out out' : List α} (h : c.apply out = some out') :
    out <+: out' := by
  cases c with
  | literal b =>
    have he : out ++ [b] = out' := by simpa [Code.apply] using h
    simp [← he]
  | backRef length distance => exact prefix_of_copyBack h

theorem apply_length {c : Code α} {out out' : List α} (h : c.apply out = some out') :
    out'.length = out.length + c.produced := by
  cases c with
  | literal b =>
    have he : out ++ [b] = out' := by simpa [Code.apply] using h
    simp [← he, Code.produced]
  | backRef length distance => exact copyBack_length h

theorem expand_append (out : List α) (xs ys : List (Code α)) :
    expand out (xs ++ ys) = (expand out xs).bind fun out => expand out ys := by
  induction xs generalizing out with
  | nil => simp [expand]
  | cons c xs ih => simp [expand, ih, Option.bind_assoc]

theorem expand_length {codes : List (Code α)} {out out' : List α}
    (h : expand out codes = some out') : out'.length = out.length + produced codes := by
  induction codes generalizing out with
  | nil =>
    have he : out = out' := by simpa [expand] using h
    simp [he]
  | cons c cs ih =>
    obtain ⟨mid, hc, hcs⟩ := Option.bind_eq_some_iff.mp h
    rw [ih hcs, apply_length hc, produced_cons]
    omega

theorem prefix_of_expand {codes : List (Code α)} {out out' : List α}
    (h : expand out codes = some out') : out <+: out' := by
  induction codes generalizing out with
  | nil =>
    have he : out = out' := by simpa [expand] using h
    simp [he]
  | cons c cs ih =>
    obtain ⟨mid, hc, hcs⟩ := Option.bind_eq_some_iff.mp h
    exact (prefix_of_apply hc).trans (ih hcs)

/-- Expanding a prefix of the codes gives a prefix of the symbols. -/
theorem expand_take {codes : List (Code α)} {out' : List α} (h : expand [] codes = some out')
    (k : ℕ) : expand [] (codes.take k) = some (out'.take (produced (codes.take k))) := by
  have hsplit := expand_append [] (codes.take k) (codes.drop k)
  rw [List.take_append_drop, h] at hsplit
  obtain ⟨mid, hmid, hrest⟩ := Option.bind_eq_some_iff.mp hsplit.symm
  have hlen := expand_length hmid
  rw [hmid, List.prefix_iff_eq_take.mp (prefix_of_expand hrest), hlen]
  simp

section Encoder
variable {input : List α} {codes : List (Code α)} {pos : ℕ}

theorem expand_literal {b : α} (h : expand [] codes = some (input.take pos))
    (hb : input[pos]? = some b) :
    expand [] (codes ++ [.literal b]) = some (input.take (pos + 1)) := by
  rw [expand_append, h]
  simp [expand, Code.apply, List.take_add_one, hb]

lemma copyBack_take {distance : ℕ} (hd : 1 ≤ distance) (hp : distance ≤ pos) (n : ℕ)
    (hn : pos + n ≤ input.length)
    (hagree : ∀ i < n, input[pos + i]? = input[pos + i - distance]?) :
    copyBack distance n (input.take pos) = some (input.take (pos + n)) := by
  induction n generalizing pos with
  | zero => simp [copyBack]
  | succ n ih =>
    have hlen : (input.take pos).length = pos := by simp; omega
    have hsym : (input.take pos)[pos - distance]? = input[pos]? := by
      rw [List.getElem?_take_of_lt (by omega)]
      simpa using (hagree 0 (by omega)).symm
    have hin := List.getElem?_eq_getElem (show pos < input.length by omega)
    have hstep : input.take pos ++ [input[pos]] = input.take (pos + 1) := by
      rw [List.take_add_one, hin]
      rfl
    rw [copyBack, hlen, if_pos hp, hsym, hin, Option.bind_some, hstep,
      ih (by omega) (by omega) fun i hi => ?_, show pos + 1 + n = pos + (n + 1) by omega]
    have := hagree (i + 1) (by omega)
    rwa [show pos + (i + 1) = pos + 1 + i by omega] at this

theorem expand_backRef {length distance : ℕ} (h : expand [] codes = some (input.take pos))
    (hd : 1 ≤ distance) (hp : distance ≤ pos) (hn : pos + length ≤ input.length)
    (hagree : ∀ i < length, input[pos + i]? = input[pos + i - distance]?) :
    expand [] (codes ++ [.backRef length distance]) = some (input.take (pos + length)) := by
  rw [expand_append, h]
  simp [expand, Code.apply, copyBack_take hd hp length hn hagree]

end Encoder
end NxObject.Lz
