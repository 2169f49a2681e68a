import Mathlib.Logic.Basic

/-!
# Tracing a graph

A graph of objects whose edges go through locations: a root is a location, an object has locations
as its fields, and a location holds at most the objects it targets. A tracer marks objects and keeps
a set of pending locations. As long as everything pending comes from a root or a marked object, and
every such location is pending or settled, what it has marked in the end is what is reachable.
-/

namespace Tracing

universe u v

structure PointerGraph (Loc : Type u) (Obj : Type v) where
  root : Loc → Prop
  field : Obj → Loc → Prop
  target : Loc → Obj → Prop

variable {Loc : Type u} {Obj : Type v} {g : PointerGraph Loc Obj}

/-- The objects that a path from a root leads to. -/
inductive PointerGraph.Reach (g : PointerGraph Loc Obj) : Obj → Prop
  | root {l : Loc} {x : Obj} (hroot : g.root l) (htarget : g.target l x) : Reach g x
  | field {x y : Obj} {l : Loc} (hx : Reach g x) (hfield : g.field x l) (htarget : g.target l y) :
      Reach g y

/-- A set that contains what the roots target, and with an object what its fields target, contains
everything reachable. -/
theorem PointerGraph.Reach.mem_of_closed {closed : Obj → Prop}
    (hroot : ∀ l x, g.root l → g.target l x → closed x)
    (hfield : ∀ x l y, closed x → g.field x l → g.target l y → closed y) {x : Obj}
    (h : g.Reach x) : closed x := by
  induction h with
  | root hl htarget => exact hroot _ _ hl htarget
  | field _ hl htarget ih => exact hfield _ _ _ ih hl htarget

/-- The locations a tracer has met: the roots whose turn has come, and the fields of the objects it
has marked. -/
def PointerGraph.Met (g : PointerGraph Loc Obj) (handled : Loc → Prop) (marked : Obj → Prop)
    (l : Loc) : Prop :=
  handled l ∨ ∃ x, marked x ∧ g.field x l

theorem PointerGraph.Met.mono {handled handled' : Loc → Prop} {marked marked' : Obj → Prop}
    {l : Loc}
    (h : g.Met handled marked l) (hhandled : ∀ l, handled l → handled' l)
    (hmarked : ∀ x, marked x → marked' x) : g.Met handled' marked' l :=
  h.imp (hhandled l) fun ⟨x, hx, hl⟩ => ⟨x, hmarked x hx, hl⟩

/-- The invariant of a tracer. -/
structure Traced (g : PointerGraph Loc Obj) (handled : Loc → Prop) (marked : Obj → Prop)
    (pending settled : Loc → Prop) : Prop where
  roots : ∀ l, handled l → g.root l
  sound : ∀ x, marked x → g.Reach x
  origin : ∀ l, pending l → g.Met handled marked l
  grey : ∀ l, g.Met handled marked l → pending l ∨ settled l

namespace Traced

variable {handled handled' : Loc → Prop} {marked marked' : Obj → Prop}
  {pending pending' settled settled' : Loc → Prop}

theorem start (hhandled : ∀ l, ¬ handled l) (hmarked : ∀ x, ¬ marked x)
    (hpending : ∀ l, ¬ pending l) : Traced g handled marked pending settled where
  roots := fun l hl => absurd hl (hhandled l)
  sound := fun x hx => absurd hx (hmarked x)
  origin := fun l hl => absurd hl (hpending l)
  grey := fun l hl => hl.elim (fun hl => absurd hl (hhandled l)) fun ⟨x, hx, _⟩ =>
    absurd hx (hmarked x)

theorem reach_of_met (h : Traced g handled marked pending settled) {l : Loc} {x : Obj}
    (hl : g.Met handled marked l) (htarget : g.target l x) : g.Reach x := by
  rcases hl with hhandled | ⟨y, hy, hfield⟩
  · exact .root (h.roots l hhandled) htarget
  · exact .field (h.sound y hy) hfield htarget

theorem push (h : Traced g handled marked pending settled) {l : Loc} (hroot : g.root l)
    (hhandled : ∀ k, handled' k ↔ k = l ∨ handled k)
    (hpending : ∀ k, pending' k → k = l ∨ pending k)
    (hsettled : ∀ k, pending k ∨ settled k ∨ k = l → pending' k ∨ settled' k) :
    Traced g handled' marked pending' settled' where
  roots := fun k hk => by
    rcases (hhandled k).mp hk with rfl | hk
    · exact hroot
    · exact h.roots k hk
  sound := h.sound
  origin := fun k hk => by
    rcases hpending k hk with rfl | hk
    · exact Or.inl ((hhandled k).mpr (Or.inl rfl))
    · exact (h.origin k hk).mono (fun j hj => (hhandled j).mpr (Or.inr hj)) fun _ hx => hx
  grey := fun k hk => by
    apply hsettled
    rcases hk with hk | hk
    · rcases (hhandled k).mp hk with rfl | hk
      · exact Or.inr (Or.inr rfl)
      · exact (h.grey k (Or.inl hk)).imp id Or.inl
    · exact (h.grey k (Or.inr hk)).imp id Or.inl

theorem drop (h : Traced g handled marked pending settled)
    (hpending : ∀ k, pending' k → pending k)
    (hsettled : ∀ k, g.Met handled marked k → pending k ∨ settled k → pending' k ∨ settled' k) :
    Traced g handled marked pending' settled' where
  roots := h.roots
  sound := h.sound
  origin := fun k hk => h.origin k (hpending k hk)
  grey := fun k hk => hsettled k hk (h.grey k hk)

/-- The object that a pending location targets is marked, and its fields are pending from then
on. -/
theorem mark (h : Traced g handled marked pending settled) {l : Loc} {y : Obj} (hl : pending l)
    (htarget : g.target l y) (hmarked : ∀ x, marked' x ↔ x = y ∨ marked x)
    (hpending : ∀ k, pending' k → pending k ∨ g.field y k)
    (hfields : ∀ k, g.field y k → pending' k)
    (hsettled : ∀ k, g.Met handled marked k → pending k ∨ settled k → pending' k ∨ settled' k) :
    Traced g handled marked' pending' settled' where
  roots := h.roots
  sound := fun x hx => by
    rcases (hmarked x).mp hx with rfl | hx
    · exact h.reach_of_met (h.origin l hl) htarget
    · exact h.sound x hx
  origin := fun k hk => by
    rcases hpending k hk with hk | hk
    · exact (h.origin k hk).mono (fun _ hj => hj) fun x hx => (hmarked x).mpr (Or.inr hx)
    · exact Or.inr ⟨y, (hmarked y).mpr (Or.inl rfl), hk⟩
  grey := fun k hk => by
    rcases hk with hk | ⟨x, hx, hk⟩
    · exact hsettled k (Or.inl hk) (h.grey k (Or.inl hk))
    · rcases (hmarked x).mp hx with rfl | hx
      · exact Or.inl (hfields k hk)
      · exact hsettled k (Or.inr ⟨x, hx, hk⟩) (h.grey k (Or.inr ⟨x, hx, hk⟩))

/-- **A tracer that has run out of work has marked what is reachable.** -/
theorem marked_iff_reach (h : Traced g handled marked pending settled)
    (hall : ∀ l, g.root l → handled l) (hempty : ∀ l, ¬ pending l)
    (hsettled : ∀ l x, settled l → g.target l x → marked x) {x : Obj} :
    marked x ↔ g.Reach x := by
  have hmet : ∀ l y, g.Met handled marked l → g.target l y → marked y := fun l y hl htarget =>
    hsettled l y ((h.grey l hl).resolve_left (hempty l)) htarget
  constructor
  · exact h.sound x
  · exact PointerGraph.Reach.mem_of_closed (fun l y hl => hmet l y (Or.inl (hall l hl)))
      fun y l z hy hl => hmet l z (Or.inr ⟨y, hy, hl⟩)

end Traced

end Tracing
