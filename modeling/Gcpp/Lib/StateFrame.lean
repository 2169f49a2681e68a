import Gcpp.Lib.StateExcept
import Mathlib.Order.Defs.Unbundled

/-!
# What a computation leaves alone

A frame relates the state before a computation to the one that it ends in, thrown or not. A
reflexive and transitive one is kept by a computation whose steps keep it.
-/

namespace StateExcept

universe u

variable {ε σ α β : Type u} {rel : σ → σ → Prop} {x : EStateM ε σ α} {f : α → EStateM ε σ β}

def Frames (rel : σ → σ → Prop) (x : EStateM ε σ α) : Prop :=
  ∀ s, rel s (finalState (x.run s))

namespace Frames

theorem of_ok (h : Frames rel x) {s t : σ} {a : α} (hrun : x.run s = .ok a t) : rel s t := by
  have hrel := h s
  rwa [hrun] at hrel

theorem of_error (h : Frames rel x) {s t : σ} {e : ε} (hrun : x.run s = .error e t) : rel s t := by
  have hrel := h s
  rwa [hrun] at hrel

theorem pure [Std.Refl rel] (a : α) : Frames rel (pure a : EStateM ε σ α) :=
  fun s => refl_of rel s

theorem throw [Std.Refl rel] (e : ε) : Frames rel (throw e : EStateM ε σ α) :=
  fun s => refl_of rel s

theorem modify {g : σ → σ} (h : ∀ s, rel s (g s)) :
    Frames rel (modify g : EStateM ε σ PUnit) := h

/-- The state that is read is the one that the rest starts in. -/
theorem get_bind {f : σ → EStateM ε σ β} (hf : ∀ s, rel s (finalState ((f s).run s))) :
    Frames rel (get >>= f) := hf

/-- What follows may rely on the outcome that it follows. -/
theorem bind_of_run [IsTrans σ rel] (hx : Frames rel x)
    (hf : ∀ s a t, x.run s = .ok a t → rel t (finalState ((f a).run t))) : Frames rel (x >>= f) := by
  intro s
  have hfirst := hx s
  rw [EStateM.run_bind]
  cases hrun : x.run s with
  | ok a t =>
      rw [hrun] at hfirst
      exact trans_of rel hfirst (hf s a t hrun)
  | error e t =>
      rw [hrun] at hfirst
      exact hfirst

theorem bind [IsTrans σ rel] (hx : Frames rel x) (hf : ∀ a, Frames rel (f a)) :
    Frames rel (x >>= f) :=
  bind_of_run hx fun _ a t _ => hf a t

end Frames

end StateExcept
