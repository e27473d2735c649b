import Mathlib

/-!
# Results of code that may fail, panic or run on

`Outcome ε α` is what a fallible function of a checked language computes: a value, an error it
reports, or a panic (an index out of range, an arithmetic overflow, a failed assertion). A loop is
given the number of turns it may take, and is `running` when it has used them up. The operations below
are the primitive ones that panic; each has a rule for the case where it does not.
-/
namespace NxObject

inductive Outcome (ε : Type) (α : Type) where
  | ok (a : α)
  | err (e : ε)
  | panic
  | running
  deriving DecidableEq, Repr

namespace Outcome
variable {ε α β γ : Type}

def bind (x : Outcome ε α) (f : α → Outcome ε β) : Outcome ε β :=
  match x with
  | ok a => f a
  | err e => err e
  | panic => panic
  | running => running

instance : Monad (Outcome ε) where
  pure := ok
  bind := bind

@[simp] theorem pure_eq (a : α) : (pure a : Outcome ε α) = ok a := rfl
@[simp] theorem ok_bind (a : α) (f : α → Outcome ε β) : (ok a >>= f) = f a := rfl
@[simp] theorem err_bind (e : ε) (f : α → Outcome ε β) : (err e >>= f) = err e := rfl
@[simp] theorem panic_bind (f : α → Outcome ε β) : ((panic : Outcome ε α) >>= f) = panic := rfl
@[simp] theorem running_bind (f : α → Outcome ε β) : ((running : Outcome ε α) >>= f) = running := rfl

instance : LawfulMonad (Outcome ε) := LawfulMonad.mk' (Outcome ε)
  (fun x => by cases x <;> rfl) (fun _ _ => rfl) (fun x _ _ => by cases x <;> rfl)

/-- Peels one computation off a successful run. -/
theorem bind_eq_ok {x : Outcome ε α} {f : α → Outcome ε β} {b : β} :
    (x >>= f) = ok b ↔ ∃ a, x = ok a ∧ f a = ok b := by
  cases x <;> simp

theorem bind_eq_panic {x : Outcome ε α} {f : α → Outcome ε β} :
    (x >>= f) = panic ↔ x = panic ∨ ∃ a, x = ok a ∧ f a = panic := by
  cases x <;> simp

/-- The value of an option, with the error an absent one is reported as. -/
def okOr (x : Option α) (e : ε) : Outcome ε α :=
  match x with
  | some a => ok a
  | none => err e

@[simp] theorem okOr_some (a : α) (e : ε) : okOr (some a) e = ok a := rfl
@[simp] theorem okOr_none (e : ε) : okOr (none : Option α) e = err e := rfl

theorem okOr_eq_ok {x : Option α} {e : ε} {a : α} : okOr x e = ok a ↔ x = some a := by
  cases x <;> simp

def ofExcept : Except ε α → Outcome ε α
  | .ok a => ok a
  | .error e => err e

@[simp] theorem ofExcept_ok (a : α) : ofExcept (.ok a : Except ε α) = ok a := rfl
@[simp] theorem ofExcept_error (e : ε) : ofExcept (.error e : Except ε α) = err e := rfl

theorem ofExcept_eq_ok {x : Except ε α} {a : α} : (ofExcept x : Outcome ε α) = ok a ↔ x = .ok a := by
  cases x <;> simp

def ensure (p : Prop) [Decidable p] (e : ε) : Outcome ε Unit :=
  if p then ok () else err e

theorem ensure_eq_ok {p : Prop} [Decidable p] {e : ε} {u : Unit} :
    ensure p e = ok u ↔ p := by
  simp [ensure]

@[simp] theorem ensure_true {p : Prop} [Decidable p] (h : p) (e : ε) : ensure p e = ok () := by
  simp [ensure, h]

/-- A value or an error: neither a panic nor a loop that runs on. -/
def Settled (x : Outcome ε α) : Prop := (∃ a, x = ok a) ∨ ∃ e, x = err e

theorem settled_ok (a : α) : Settled (ok a : Outcome ε α) := Or.inl ⟨a, rfl⟩

theorem settled_err (e : ε) : Settled (err e : Outcome ε α) := Or.inr ⟨e, rfl⟩

theorem Settled.bind {x : Outcome ε α} {f : α → Outcome ε β} (hx : Settled x)
    (hf : ∀ a, x = ok a → Settled (f a)) : Settled (x >>= f) := by
  rcases hx with ⟨a, rfl⟩ | ⟨e, rfl⟩
  · exact hf a rfl
  · exact settled_err e

theorem Settled.of_bind {x : Outcome ε α} {f : α → Outcome ε β} (h : Settled (x >>= f)) :
    Settled x := by
  cases x with
  | ok a => exact settled_ok a
  | err e => exact settled_err e
  | panic => rcases h with ⟨_, h⟩ | ⟨_, h⟩ <;> cases h
  | running => rcases h with ⟨_, h⟩ | ⟨_, h⟩ <;> cases h

theorem Settled.ne_running {x : Outcome ε α} (hx : Settled x) : x ≠ running := by
  rcases hx with ⟨a, rfl⟩ | ⟨e, rfl⟩ <;> simp

theorem Settled.ne_panic {x : Outcome ε α} (hx : Settled x) : x ≠ panic := by
  rcases hx with ⟨a, rfl⟩ | ⟨e, rfl⟩ <;> simp

theorem settled_okOr (x : Option α) (e : ε) : Settled (okOr x e) := by
  cases x with
  | some a => exact settled_ok a
  | none => exact settled_err e

theorem settled_ofExcept (x : Except ε α) : Settled (ofExcept x) := by
  cases x with
  | ok a => exact settled_ok a
  | error e => exact settled_err e

theorem settled_ensure (p : Prop) [Decidable p] (e : ε) : Settled (ensure p e) := by
  rw [ensure]
  split_ifs
  · exact settled_ok ()
  · exact settled_err e

theorem Settled.exists_err {x : Outcome ε α} (hx : Settled x) (h : ∀ a, x ≠ ok a) :
    ∃ e, x = err e :=
  hx.resolve_left fun ⟨a, ha⟩ => h a ha

/-- A value with the property `Q`, or an error. -/
def Ensures (x : Outcome ε α) (Q : α → Prop) : Prop := (∃ a, x = ok a ∧ Q a) ∨ ∃ e, x = err e

theorem ensures_iff {x : Outcome ε α} {Q : α → Prop} :
    Ensures x Q ↔ Settled x ∧ ∀ a, x = ok a → Q a := by
  constructor
  · rintro (⟨a, rfl, ha⟩ | ⟨e, rfl⟩)
    · refine ⟨settled_ok a, ?_⟩
      rintro _ ⟨⟩
      exact ha
    · exact ⟨settled_err e, nofun⟩
  · rintro ⟨⟨a, rfl⟩ | ⟨e, rfl⟩, h⟩
    · exact Or.inl ⟨a, rfl, h a rfl⟩
    · exact Or.inr ⟨e, rfl⟩

theorem ensures_ok {a : α} {Q : α → Prop} (h : Q a) : Ensures (ok a : Outcome ε α) Q :=
  Or.inl ⟨a, rfl, h⟩

theorem ensures_err (e : ε) (Q : α → Prop) : Ensures (err e : Outcome ε α) Q := Or.inr ⟨e, rfl⟩

theorem Ensures.bind {x : Outcome ε α} {f : α → Outcome ε β} {P : α → Prop} {Q : β → Prop}
    (hx : Ensures x P) (hf : ∀ a, P a → Ensures (f a) Q) : Ensures (x >>= f) Q := by
  rcases hx with ⟨a, rfl, ha⟩ | ⟨e, rfl⟩
  · exact hf a ha
  · exact ensures_err e Q

theorem Ensures.imp {x : Outcome ε α} {P Q : α → Prop} (hx : Ensures x P) (h : ∀ a, P a → Q a) :
    Ensures x Q :=
  hx.imp_left fun ⟨a, ha, hp⟩ => ⟨a, ha, h a hp⟩

theorem Ensures.settled {x : Outcome ε α} {Q : α → Prop} (hx : Ensures x Q) : Settled x :=
  (ensures_iff.mp hx).1

theorem ensures_okOr (x : Option α) (e : ε) : Ensures (okOr x e) fun a => x = some a :=
  ensures_iff.mpr ⟨settled_okOr x e, fun _ => okOr_eq_ok.mp⟩

/-! ## Loops over lists -/

theorem forM_eq_ok {l : List α} {f : α → Outcome ε Unit} :
    l.forM f = ok () ↔ ∀ a ∈ l, f a = ok () := by
  induction l with
  | nil => exact ⟨fun _ => nofun, fun _ => rfl⟩
  | cons a l ih =>
    change (f a >>= fun _ => l.forM f) = ok () ↔ _
    rw [bind_eq_ok, List.forall_mem_cons, ← ih]
    exact ⟨fun ⟨_, ha, hl⟩ => ⟨ha, hl⟩, fun ⟨ha, hl⟩ => ⟨(), ha, hl⟩⟩

theorem settled_forM {l : List α} {f : α → Outcome ε Unit} (h : ∀ a ∈ l, Settled (f a)) :
    Settled (l.forM f) := by
  induction l with
  | nil => exact settled_ok ()
  | cons a l ih =>
    change Settled (f a >>= fun _ => l.forM f)
    exact (h a List.mem_cons_self).bind fun _ _ => ih fun b hb => h b (List.mem_cons_of_mem a hb)

theorem mapM_eq_map {l : List α} {f : α → Outcome ε β} {g : α → β} (h : ∀ a ∈ l, f a = ok (g a)) :
    l.mapM f = ok (l.map g) := by
  induction l with
  | nil => rfl
  | cons a l ih =>
    rw [List.mapM_cons, h a List.mem_cons_self, ih fun b hb => h b (List.mem_cons_of_mem a hb)]
    rfl

/-! ## Arithmetic -/

/-- Subtraction of unsigned integers, which panics instead of going below zero. -/
def sub (a b : ℕ) : Outcome ε ℕ := if b ≤ a then ok (a - b) else panic

theorem sub_of_le {a b : ℕ} (h : b ≤ a) : (sub a b : Outcome ε ℕ) = ok (a - b) := if_pos h

/-- Addition of 64-bit integers, which panics instead of wrapping around. -/
def add (a b : ℕ) : Outcome ε ℕ := if a + b < 2 ^ 64 then ok (a + b) else panic

theorem add_of_lt {a b : ℕ} (h : a + b < 2 ^ 64) : (add a b : Outcome ε ℕ) = ok (a + b) := if_pos h

theorem add_eq_ok {a b c : ℕ} : (add a b : Outcome ε ℕ) = ok c ↔ a + b < 2 ^ 64 ∧ c = a + b := by
  rw [add]
  split_ifs with h
  · rw [ok.injEq, eq_comm, and_iff_right h]
  · exact ⟨nofun, fun hsum => absurd hsum.1 h⟩

def add32 (a b : ℕ) : Outcome ε ℕ := if a + b < 2 ^ 32 then ok (a + b) else panic

theorem add32_of_lt {a b : ℕ} (h : a + b < 2 ^ 32) : (add32 a b : Outcome ε ℕ) = ok (a + b) :=
  if_pos h

theorem add32_eq_ok {a b c : ℕ} :
    (add32 a b : Outcome ε ℕ) = ok c ↔ a + b < 2 ^ 32 ∧ c = a + b := by
  rw [add32]
  split_ifs with h
  · rw [ok.injEq, eq_comm, and_iff_right h]
  · exact ⟨nofun, fun hsum => absurd hsum.1 h⟩

/-- Division of unsigned integers, which panics on a divisor of zero. -/
def div (a b : ℕ) : Outcome ε ℕ := if b = 0 then panic else ok (a / b)

/-- `usize::checked_sub`. -/
def checkedSub (a b : ℕ) : Option ℕ := if b ≤ a then some (a - b) else none

/-- `usize::checked_add`, on 64 bits. -/
def checkedAdd (a b : ℕ) : Option ℕ := if a + b < 2 ^ 64 then some (a + b) else none

theorem checkedAdd_of_lt {a b : ℕ} (h : a + b < 2 ^ 64) : checkedAdd a b = some (a + b) := if_pos h

theorem checkedAdd_eq_some {a b c : ℕ} : checkedAdd a b = some c ↔ a + b < 2 ^ 64 ∧ c = a + b := by
  rw [checkedAdd]
  split_ifs with h
  · rw [Option.some.injEq, eq_comm, and_iff_right h]
  · exact ⟨nofun, fun hsum => absurd hsum.1 h⟩

/-! ## Slices -/

/-- Reading `xs[i]`. -/
def index (xs : List α) (i : ℕ) : Outcome ε α :=
  match xs[i]? with
  | some a => ok a
  | none => panic

theorem index_of_getElem? {xs : List α} {i : ℕ} {a : α} (h : xs[i]? = some a) :
    (index xs i : Outcome ε α) = ok a := by
  simp [index, h]

theorem index_eq_ok {xs : List α} {i : ℕ} {a : α} :
    (index xs i : Outcome ε α) = ok a ↔ xs[i]? = some a := by
  unfold index
  cases h : xs[i]? <;> simp

/-- Writing `xs[i] = a`. -/
def write (xs : List α) (i : ℕ) (a : α) : Outcome ε (List α) :=
  if i < xs.length then ok (xs.set i a) else panic

theorem write_of_lt {xs : List α} {i : ℕ} (h : i < xs.length) (a : α) :
    (write xs i a : Outcome ε (List α)) = ok (xs.set i a) := if_pos h

theorem index_append {xs ys : List α} {i : ℕ} (h : i = xs.length) (a : α) :
    (index (xs ++ a :: ys) i : Outcome ε α) = ok a :=
  index_of_getElem? (by simp [h])

theorem write_append (xs ys : List α) {i : ℕ} (h : i = xs.length) (a b : α) :
    (write (xs ++ a :: ys) i b : Outcome ε (List α)) = ok (xs ++ b :: ys) := by
  rw [write_of_lt (by simp [h]), h, List.set_append_right _ _ le_rfl]
  simp

/-- The sub-slice `xs[start..stop]`. -/
def slice (xs : List α) (start stop : ℕ) : Outcome ε (List α) :=
  if start ≤ stop ∧ stop ≤ xs.length then ok ((xs.take stop).drop start) else panic

theorem slice_of_le {xs : List α} {start stop : ℕ} (h₁ : start ≤ stop) (h₂ : stop ≤ xs.length) :
    (slice xs start stop : Outcome ε (List α)) = ok ((xs.take stop).drop start) := if_pos ⟨h₁, h₂⟩

theorem slice_eq_ok {xs ys : List α} {start stop : ℕ} :
    (slice xs start stop : Outcome ε (List α)) = ok ys ↔
      start ≤ stop ∧ stop ≤ xs.length ∧ ys = (xs.take stop).drop start := by
  rw [slice]
  split_ifs with h
  · rw [ok.injEq, eq_comm, ← and_assoc, and_iff_right h]
  · exact ⟨nofun, fun hbounds => absurd ⟨hbounds.1, hbounds.2.1⟩ h⟩

theorem slice_append {xs a b c : List α} {start stop : ℕ} (h : xs = a ++ (b ++ c))
    (ha : start = a.length) (hb : stop = a.length + b.length) :
    (slice xs start stop : Outcome ε (List α)) = ok b := by
  subst h ha hb
  rw [slice_of_le (Nat.le_add_right _ _) (by simp)]
  simp [List.take_append]

/-- `xs[start..start + src.len()].copy_from_slice(src)`. -/
def copyFromSlice (xs : List α) (start : ℕ) (src : List α) : Outcome ε (List α) :=
  if start + src.length ≤ xs.length then
    ok (xs.take start ++ src ++ xs.drop (start + src.length))
  else panic

theorem copyFromSlice_of_le {xs src : List α} {start : ℕ} (h : start + src.length ≤ xs.length) :
    (copyFromSlice xs start src : Outcome ε (List α)) =
      ok (xs.take start ++ src ++ xs.drop (start + src.length)) := if_pos h

theorem copyFromSlice_append (xs ys src : List α) {start : ℕ} (h : start = xs.length)
    (hl : src.length ≤ ys.length) :
    (copyFromSlice (xs ++ ys) start src : Outcome ε (List α)) =
      ok (xs ++ src ++ ys.drop src.length) := by
  subst h
  rw [copyFromSlice_of_le (by simpa using hl)]
  simp

/-- `array.copy_from_slice(xs)` over a whole array of `n` elements. -/
def exactly (n : ℕ) (xs : List α) : Outcome ε (List.Vector α n) :=
  if h : xs.length = n then ok ⟨xs, h⟩ else panic

theorem exactly_of_length {n : ℕ} {xs : List α} (h : xs.length = n) :
    (exactly n xs : Outcome ε (List.Vector α n)) = ok ⟨xs, h⟩ := dif_pos h

/-- `Result::map_err`. -/
def mapErr {ε' : Type} (f : ε → ε') : Outcome ε α → Outcome ε' α
  | ok a => ok a
  | err e => err (f e)
  | panic => panic
  | running => running

theorem Settled.mapErr {ε' : Type} {f : ε → ε'} {x : Outcome ε α} (hx : Settled x) :
    Settled (mapErr f x) := by
  rcases hx with ⟨a, rfl⟩ | ⟨e, rfl⟩
  · exact settled_ok a
  · exact settled_err (f e)

@[simp] theorem mapErr_ok {ε' : Type} (f : ε → ε') (a : α) : mapErr f (ok a) = ok a := rfl

theorem mapErr_eq_ok {ε' : Type} {f : ε → ε'} {x : Outcome ε α} {a : α} : mapErr f x = ok a ↔ x = ok a := by
  cases x <;> simp [mapErr]

end Outcome
end NxObject
