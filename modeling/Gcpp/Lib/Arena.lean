import Mathlib.Logic.Function.Basic

/-!
# Claims on an arena

Several owners hold spans of one address range, each at most one. A new span may be claimed where no
other lies, which is what a bump index is for; a span can change hands and can be given up. As long
as nothing else happens, no two owners share a byte.
-/

namespace Arena

structure Span where
  start : Nat
  size : Nat
deriving DecidableEq

def Span.Disjoint (a b : Span) : Prop := a.start + a.size ≤ b.start ∨ b.start + b.size ≤ a.start

theorem Span.Disjoint.symm {a b : Span} (h : a.Disjoint b) : b.Disjoint a := Or.symm h

theorem Span.Disjoint.start_ne {a b : Span} (h : a.Disjoint b) (ha : 0 < a.size)
    (hb : 0 < b.size) : a.start ≠ b.start := by
  rcases h with h | h <;> omega

variable {κ : Type}

/-- What every owner holds. -/
abbrev Claims (κ : Type) := κ → Option Span

/-- No two owners share a byte. -/
def Apart (claims : Claims κ) : Prop :=
  ∀ a b spanA spanB, claims a = some spanA → claims b = some spanB → a ≠ b → spanA.Disjoint spanB

variable {claims claims' : Claims κ}

/-- Spans may change hands and may be given up: every claim was one before, of an owner of its
own. -/
theorem Apart.handOver (h : Apart claims) (origin : κ → κ)
    (horigin : ∀ a span, claims' a = some span → claims (origin a) = some span)
    (hinj : ∀ a b, claims' a ≠ none → claims' b ≠ none → origin a = origin b → a = b) :
    Apart claims' := by
  intro a b spanA spanB ha hb hne
  refine h _ _ spanA spanB (horigin a spanA ha) (horigin b spanB hb) fun heq => hne ?_
  exact hinj a b (by rw [ha]; exact Option.some_ne_none _) (by rw [hb]; exact Option.some_ne_none _)
    heq

theorem Apart.mono (h : Apart claims)
    (hsub : ∀ a span, claims' a = some span → claims a = some span) : Apart claims' :=
  h.handOver id hsub fun _ _ _ _ heq => heq

theorem Apart.take (h : Apart claims) (owner : κ) (span : Span)
    (hnew : ∀ a spanA, claims' a = some spanA →
      (a = owner ∧ spanA = span) ∨ (a ≠ owner ∧ claims a = some spanA))
    (hfree : ∀ a spanA, a ≠ owner → claims a = some spanA → spanA.Disjoint span) :
    Apart claims' := by
  intro a b spanA spanB ha hb hne
  rcases hnew a spanA ha with ⟨rfl, rfl⟩ | ⟨hane, ha⟩
  · rcases hnew b spanB hb with ⟨rfl, rfl⟩ | ⟨hbne, hb⟩
    · exact absurd rfl hne
    · exact (hfree b spanB hbne hb).symm
  · rcases hnew b spanB hb with ⟨rfl, rfl⟩ | ⟨_, hb⟩
    · exact hfree a spanA hane ha
    · exact h a b spanA spanB ha hb hne

end Arena
