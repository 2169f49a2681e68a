import Mathlib.Logic.Basic

/-!
# Stateful computations that can throw

`EStateM` keeps the state that a computation has reached when it throws. These are the rules by
which a run is taken apart along its binds.
-/

namespace StateExcept

universe u

variable {ε σ α β : Type u} {x : EStateM ε σ α} {f : α → EStateM ε σ β} {s t : σ} {a : α} {b : β}
  {e : ε}

/-- The state a run ends in, thrown or not. -/
def finalState : EStateM.Result ε σ α → σ
  | .ok _ s => s
  | .error _ s => s

@[simp]
theorem finalState_ok : finalState (.ok a s : EStateM.Result ε σ α) = s := rfl

@[simp]
theorem finalState_error : finalState (.error e s : EStateM.Result ε σ α) = s := rfl

/-- What a run has thrown. -/
def thrown : EStateM.Result ε σ α → Option ε
  | .ok _ _ => none
  | .error e _ => some e

theorem eq_error_of_thrown {r : EStateM.Result ε σ α} (h : thrown r = some e) :
    r = .error e (finalState r) := by
  cases r with
  | ok a s => cases h
  | error e' s =>
      cases h
      rfl

theorem run_bind_of_ok (h : x.run s = .ok a t) : (x >>= f).run s = (f a).run t := by
  rw [EStateM.run_bind, h]

theorem run_bind_of_error (h : x.run s = .error e t) : (x >>= f).run s = .error e t := by
  rw [EStateM.run_bind, h]

theorem finalState_run_bind_pure (g : α → β) :
    finalState ((x >>= fun a => pure (g a)).run s) = finalState (x.run s) := by
  rw [EStateM.run_bind]
  cases hx : x.run s with
  | ok a t => simp
  | error e t => simp

theorem run_bind_eq_ok :
    (x >>= f).run s = .ok b t ↔ ∃ a u, x.run s = .ok a u ∧ (f a).run u = .ok b t := by
  rw [EStateM.run_bind]
  cases hx : x.run s with
  | ok a u =>
      constructor
      · intro h
        exact ⟨a, u, rfl, h⟩
      · rintro ⟨a', u', heq, h⟩
        cases heq
        exact h
  | error e u => simp

theorem run_bind_eq_error :
    (x >>= f).run s = .error e t ↔
      x.run s = .error e t ∨ ∃ a u, x.run s = .ok a u ∧ (f a).run u = .error e t := by
  rw [EStateM.run_bind]
  cases hx : x.run s with
  | ok a u =>
      constructor
      · intro h
        exact Or.inr ⟨a, u, rfl, h⟩
      · rintro (heq | ⟨a', u', heq, h⟩)
        · cases heq
        · cases heq
          exact h
  | error e u => simp

end StateExcept
