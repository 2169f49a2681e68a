import Mathlib.Data.List.Nodup
import Mathlib.Logic.Function.Basic

/-!
# Operations on single keys

A store gives every key a value, and an operation changes the value of its key, by what that value
is and by nothing else. After a run, every key has what its own operations have made of it, so the
order matters only among operations on one key.
-/

namespace Keyed

variable {κ β : Type} [DecidableEq κ]

structure Op (κ β : Type) where
  key : κ
  change : β → β

def apply (σ : κ → β) (op : Op κ β) : κ → β := Function.update σ op.key (op.change (σ op.key))

def run (ops : List (Op κ β)) (σ : κ → β) : κ → β := ops.foldl apply σ

variable {ops ops' : List (Op κ β)} {σ : κ → β} {k : κ}

theorem apply_self (σ : κ → β) (op : Op κ β) : apply σ op op.key = op.change (σ op.key) :=
  Function.update_self ..

theorem apply_of_ne (σ : κ → β) {op : Op κ β} (h : k ≠ op.key) : apply σ op k = σ k :=
  Function.update_of_ne h ..

/-- The operations on one key, in order. -/
def opsAt (ops : List (Op κ β)) (k : κ) : List (Op κ β) := ops.filter fun op => op.key = k

/-- **A key has what its own operations make of it.** -/
theorem run_apply (ops : List (Op κ β)) (k : κ) :
    ∀ σ, run ops σ k = (opsAt ops k).foldl (fun value op => op.change value) (σ k) := by
  induction ops with
  | nil => exact fun σ => rfl
  | cons op ops ih =>
      intro σ
      rw [run, List.foldl_cons, ← run, ih, opsAt, opsAt]
      by_cases hkey : op.key = k
      · rw [List.filter_cons_of_pos (by simpa using hkey), List.foldl_cons, ← hkey, apply_self]
      · rw [List.filter_cons_of_neg (by simpa using hkey), apply_of_ne σ (Ne.symm hkey)]

theorem run_of_ne (h : ∀ op ∈ ops, op.key ≠ k) : run ops σ k = σ k := by
  have hnone : opsAt ops k = [] := by
    apply List.filter_eq_nil_iff.mpr
    intro op hop
    simpa using h op hop
  rw [run_apply, hnone, List.foldl_nil]

/-- What no change makes a difference to, no run does. -/
theorem run_invariant {γ : Type} (view : β → γ)
    (h : ∀ op ∈ ops, ∀ value, view (op.change value) = view value) :
    view (run ops σ k) = view (σ k) := by
  induction ops generalizing σ with
  | nil => rfl
  | cons op ops ih =>
      rw [run, List.foldl_cons, ← run, ih fun op hop => h op (List.mem_cons_of_mem _ hop)]
      by_cases hkey : k = op.key
      · rw [hkey, apply_self, h op List.mem_cons_self]
      · rw [apply_of_ne σ hkey]

/-- **Only the order at each key matters.** -/
theorem run_congr (h : ∀ k, opsAt ops k = opsAt ops' k) : run ops σ = run ops' σ := by
  funext k
  rw [run_apply, run_apply, h]

/-- Where every key occurs once, any order has the same for each key. -/
theorem filter_key_perm {ι : Type} {key : ι → κ} {items items' : List ι}
    (hperm : items.Perm items') (hnodup : (items.map key).Nodup) (k : κ) :
    (items.filter fun item => key item = k) = items'.filter fun item => key item = k := by
  have hfiltered := hperm.filter fun item => decide (key item = k)
  cases hat : items.filter fun item => key item = k with
  | nil =>
      rw [hat] at hfiltered
      exact hfiltered.nil_eq
  | cons item rest =>
      have hkey : ∀ other ∈ item :: rest, key other = k := by
        intro other hother
        rw [← hat, List.mem_filter] at hother
        simpa using hother.2
      have hdistinct : ((item :: rest).map key).Nodup := by
        rw [← hat]
        exact hnodup.sublist (List.filter_sublist.map key)
      have hsingle : rest = [] := by
        apply List.eq_nil_iff_forall_not_mem.mpr
        intro other hother
        have hsame : key other = key item :=
          (hkey other (List.mem_cons_of_mem _ hother)).trans (hkey item List.mem_cons_self).symm
        rw [List.map_cons, List.nodup_cons] at hdistinct
        exact hdistinct.1 (hsame ▸ List.mem_map_of_mem hother)
      rw [hat, hsingle] at hfiltered
      rw [hsingle]
      exact hfiltered.singleton_eq

end Keyed
