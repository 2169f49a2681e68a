import Gcpp.CopyCollector
import Mathlib.Logic.Relation

/-!
# Runs of the heap

The operations on a collector one after the other, from the state its constructor leaves. Between
two operations the program may do with the memory as it likes, so every operation finds an arbitrary
memory, and a collection finds arbitrary roots.
-/

namespace Gcpp

open ByteMemory StateExcept

/-- The state of a new collector. -/
def State.initial (mem : Memory) : State :=
  { nexts := fun _ => 0, spaceNum := .zero, metadata := ∅, mem }

/-- An allocation of one of the admitted sizes and alignments, whether it returns or throws, or a
collection that completes normally. -/
inductive HeapStep (cfg : Config) (policy : GenPolicy) (admits : Nat → Nat → Prop) :
    State → State → Prop
  | alloc (s : State) (mem : Memory) (gcRoots : List Nat) (size alignment : Nat)
      (hadmits : admits size alignment) :
      HeapStep cfg policy admits s
        (finalState ((alloc cfg policy gcRoots size alignment).run { s with mem }))
  | collect (s : State) (mem : Memory) (gcRoots extraRoots : List Nat)
      (result : Visited × List FatPtr) (t : State)
      (hrun : (asyncCollect cfg policy gcRoots extraRoots).run { s with mem } = .ok result t) :
      HeapStep cfg policy admits s t

/-- The states that the admitted operations lead to. -/
def HeapReachable (cfg : Config) (policy : GenPolicy) (admits : Nat → Nat → Prop) (s : State) :
    Prop :=
  ∃ mem, Relation.ReflTransGen (HeapStep cfg policy admits) (State.initial mem) s

theorem HeapReachable.induction {cfg : Config} {policy : GenPolicy} {admits : Nat → Nat → Prop}
    {inv : State → Prop} (hinit : ∀ mem, inv (State.initial mem))
    (hstep : ∀ s t, inv s → HeapStep cfg policy admits s t → inv t) {s : State}
    (h : HeapReachable cfg policy admits s) : inv s := by
  obtain ⟨mem, hrun⟩ := h
  induction hrun with
  | refl => exact hinit mem
  | tail _ hlast ih => exact hstep _ _ ih hlast

/-! ### A collector to look at -/

/-- Two blocks of two pages. -/
def Config.sample : Config where
  pageSize := 4096
  size := 8192
  base
    | .zero => 65536
    | .one => 131072
  pageSize_pos := by decide
  pageSize_dvd := by decide
  size_lt := by decide
  base_pos := by rintro (_ | _) <;> decide
  base_aligned := by rintro (_ | _) <;> decide
  base_lt := by rintro (_ | _) <;> decide
  spaces_disjoint := by decide

def GenPolicy.copying : GenPolicy where
  needPromotion := fun _ => true
  promote := fun ptr _ => ptr

end Gcpp
