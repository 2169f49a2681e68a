import Gcpp.Lib.ObjectStore
import Gcpp.HeapRun
import Gcpp.ObjectGraph

/-!
# Runs of a program that holds its objects in root slots

The program allocates, copies and clears its root slots, writes bytes through them and lets
collections run. What it can see of an object is what it reads through a root slot.
-/

namespace Gcpp

open ByteMemory StateExcept ObjectStore

/-- The collector, and the root slots that are in use. -/
structure Program where
  heap : State
  roots : List Nat

abbrev RootEvent := Event Nat UInt8

/-- The slot is one of the root slots in use, or can become one. -/
structure Usable (cfg : Config) (roots : List Nat) (slot : Nat) : Prop where
  apart : RootApart cfg slot
  disjoint : ∀ root ∈ roots, root = slot ∨ root + gcPtrSize ≤ slot ∨ slot + gcPtrSize ≤ root

variable (cfg : Config) (policy : GenPolicy)

/-- The steps of the program. A slot that is assigned counts as a root slot from then on; a
collection is given the root slots in any order and any number of times. -/
inductive ProgramStep : Program → RootEvent → Program → Prop
  | alloc (p : Program) (gcRoots : List Nat) (size alignment slot : Nat) (ptr : FatPtr) (t : State)
      (hsmall : SmallAlignment alignment) (hslot : Usable cfg p.roots slot)
      (hrun : (alloc cfg policy gcRoots size alignment).run p.heap = .ok ptr t) :
      ProgramStep p (.alloc slot size)
        { heap := { t with mem := writeFatPtr t.mem slot ptr }, roots := p.roots.insert slot }
  | allocFailed (p : Program) (gcRoots : List Nat) (size alignment : Nat) (e : Halt) (t : State)
      (hsmall : SmallAlignment alignment)
      (hrun : (alloc cfg policy gcRoots size alignment).run p.heap = .error e t) :
      ProgramStep p .allocFailed { p with heap := t }
  | copy (p : Program) (dst src : Nat) (hsrc : src ∈ p.roots) (hdst : Usable cfg p.roots dst) :
      ProgramStep p (.copy dst src)
        { heap := { p.heap with mem := move p.heap.mem dst src gcPtrSize }
          roots := p.roots.insert dst }
  | clear (p : Program) (slot : Nat) (hslot : Usable cfg p.roots slot) :
      ProgramStep p (.clear slot)
        { heap := { p.heap with mem := writeFatPtr p.heap.mem slot (FatPtr.ofAddr 0) }
          roots := p.roots.insert slot }
  | write (p : Program) (slot offset : Nat) (byte : UInt8) (ptr : FatPtr) (data : MetaData)
      (hslot : slot ∈ p.roots) (hload : atomicLoad p.heap.mem slot = some ptr)
      (hdata : p.heap.metadata.lookup ptr = some data) (hoffset : offset < data.size) :
      ProgramStep p (.write slot offset byte)
        { p with heap := { p.heap with
          mem := Function.update p.heap.mem (ptr.asPtr + offset) byte } }
  | collect (p : Program) (gcRoots extraRoots : List Nat) (result : Visited × List FatPtr)
      (t : State) (hroots : ∀ slot, slot ∈ gcRoots ++ extraRoots ↔ slot ∈ p.roots)
      (hrun : (asyncCollect cfg policy gcRoots extraRoots).run p.heap = .ok result t) :
      ProgramStep p .collect { p with heap := t }
  | drop (p : Program) (slot : Nat) :
      ProgramStep p (.drop slot) { p with roots := p.roots.filter (· ≠ slot) }

/-- A run from a new collector and no root slots, with the events of its steps. -/
inductive ProgramRun : List RootEvent → Program → Prop
  | start (mem : Memory) : ProgramRun [] { heap := .initial mem, roots := [] }
  | step {events : List RootEvent} {p q : Program} {e : RootEvent} (hrun : ProgramRun events p)
      (hstep : ProgramStep cfg policy p e q) : ProgramRun (events ++ [e]) q

end Gcpp
