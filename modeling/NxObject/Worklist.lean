import NxObject.Outcome

/-!
# Stacks of work

A loop pops an item, works it off, which may push further items, and ends once the stack is empty. An
invariant that every item keeps holds in the end, and the loop ends if what an item pushes weighs less than
the item.
-/
namespace NxObject.Worklist
open Outcome

variable {ε σ τ : Type} (step : σ → τ → Outcome ε (σ × List τ))

/-- Work off a stack, the top of which is its head. The item that was pushed last is popped first. -/
def run : ℕ → σ → List τ → Outcome ε σ
  | _, s, [] => ok s
  | 0, _, _ :: _ => running
  | fuel + 1, s, item :: stack => do
    let (s, pushed) ← step s item
    run fuel s (pushed.reverse ++ stack)

variable {step} {Inv : σ → List τ → Prop} {Fails : ε → Prop} {weight : τ → ℕ}

/-- What working off the top of a stack is to do: to keep the invariant and push less than was popped, or
to fail. -/
def Keeps (step : σ → τ → Outcome ε (σ × List τ)) (Inv : σ → List τ → Prop) (Fails : ε → Prop)
    (weight : τ → ℕ) : Prop :=
  ∀ s item stack, Inv s (item :: stack) →
    (∃ s' pushed, step s item = ok (s', pushed) ∧ Inv s' (pushed.reverse ++ stack) ∧
      (pushed.map weight).sum < weight item) ∨ ∃ e, step s item = err e ∧ Fails e

/-- A loop whose steps keep the invariant runs out of fuel, or ends with nothing left to do or with one of the
failures. -/
theorem run_cases (hstep : Keeps step Inv Fails weight) (fuel : ℕ) {s : σ} {stack : List τ} (h : Inv s stack) :
    (run step fuel s stack = running ∧ fuel ≤ (stack.map weight).sum) ∨
    (∃ s', run step fuel s stack = ok s' ∧ Inv s' []) ∨ ∃ e, run step fuel s stack = err e ∧ Fails e := by
  induction fuel generalizing s stack with
  | zero =>
    cases stack with
    | nil => exact Or.inr (Or.inl ⟨s, rfl, h⟩)
    | cons item stack => exact Or.inl ⟨rfl, Nat.zero_le _⟩
  | succ fuel ih =>
    cases stack with
    | nil => exact Or.inr (Or.inl ⟨s, rfl, h⟩)
    | cons item stack =>
      rw [run]
      rcases hstep s item stack h with ⟨s', pushed, hok, hinv, hlt⟩ | ⟨e, herr, he⟩
      · rw [hok, ok_bind]
        refine (ih hinv).imp_left fun ⟨hrun, hle⟩ => ⟨hrun, ?_⟩
        rw [List.map_append, List.sum_append, List.map_reverse, List.sum_reverse] at hle
        rw [List.map_cons, List.sum_cons]
        omega
      · rw [herr]
        exact Or.inr (Or.inr ⟨e, rfl, he⟩)

/-- With fuel for all the weight on the stack the loop ends. -/
theorem run_of_keeps (hstep : Keeps step Inv Fails weight) {fuel : ℕ} {s : σ} {stack : List τ}
    (hfuel : (stack.map weight).sum < fuel) (h : Inv s stack) :
    (∃ s', run step fuel s stack = ok s' ∧ Inv s' []) ∨ ∃ e, run step fuel s stack = err e ∧ Fails e :=
  (run_cases hstep fuel h).resolve_left fun ⟨_, hle⟩ => absurd hfuel (Nat.not_lt.mpr hle)

/-- What the loop ends with keeps the invariant. -/
theorem run_eq_ok (hstep : Keeps step Inv Fails weight) {fuel : ℕ} {s s' : σ} {stack : List τ} (h : Inv s stack)
    (hrun : run step fuel s stack = ok s') : Inv s' [] := by
  rcases run_cases hstep fuel h with ⟨hrunning, -⟩ | ⟨s'', hok, hinv⟩ | ⟨e, herr, -⟩
  · rw [hrun] at hrunning
    cases hrunning
  · rw [hrun] at hok
    cases hok
    exact hinv
  · rw [hrun] at herr
    cases herr

end NxObject.Worklist
