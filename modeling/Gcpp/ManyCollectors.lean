import Gcpp.RootRun

/-!
# Several collectors in one process

Every collector has its own fields, and all of them have the memory and the root slots in common:
`GC_GET_ROOTS` knows nothing about collectors, so a collection is given the slots that hold pointers
of the others as well.
-/

namespace Gcpp

open ByteMemory StateExcept ObjectStore

variable {ι : Type}

/-- The collectors. Each block comes from a `new` of its own. -/
structure Collectors (ι : Type) where
  cfg : ι → Config
  policy : ι → GenPolicy
  apart : ∀ i, SpacesApart (cfg i)
  disjoint : ∀ i j, i ≠ j → ∀ a b,
    (cfg i).base a + (cfg i).heapSize + 8 ≤ (cfg j).base b ∨
      (cfg j).base b + (cfg j).heapSize + 8 ≤ (cfg i).base a

/-- The fields of a collector that change. -/
structure Fields where
  nexts : SpaceNum → Nat
  spaceNum : SpaceNum
  metadata : AssocMap FatPtr MetaData

def State.fields (s : State) : Fields :=
  { nexts := s.nexts, spaceNum := s.spaceNum, metadata := s.metadata }

structure Shared (ι : Type) where
  fields : ι → Fields
  mem : Memory
  roots : List Nat

namespace Shared

def initial (mem : Memory) : Shared ι where
  fields := fun _ => (State.initial mem).fields
  mem := mem
  roots := []

/-- What the calls of a collector run on. -/
def view (p : Shared ι) (i : ι) : State :=
  { nexts := (p.fields i).nexts
    spaceNum := (p.fields i).spaceNum
    metadata := (p.fields i).metadata
    mem := p.mem }

def program (p : Shared ι) (i : ι) : Program := { heap := p.view i, roots := p.roots }

/-- A call of a collector has ended in the state `t`. -/
def leave [DecidableEq ι] (p : Shared ι) (i : ι) (t : State) : Shared ι :=
  { p with fields := Function.update p.fields i t.fields, mem := t.mem }

def assign (p : Shared ι) (slot : Nat) (mem : Memory) : Shared ι :=
  { p with mem, roots := p.roots.insert slot }

end Shared

variable [DecidableEq ι] (cs : Collectors ι)

/-- The steps of a program with these collectors, as in `ProgramStep`. -/
inductive SharedStep : Shared ι → RootEvent → Shared ι → Prop
  | alloc (p : Shared ι) (i : ι) (gcRoots : List Nat) (size alignment slot : Nat) (ptr : FatPtr)
      (t : State) (hsmall : SmallAlignment alignment)
      (hslot : ∀ j, Usable (cs.cfg j) p.roots slot)
      (hrun : (alloc (cs.cfg i) (cs.policy i) gcRoots size alignment).run (p.view i) =
        .ok ptr t) :
      SharedStep p (.alloc slot size) ((p.leave i t).assign slot (writeFatPtr t.mem slot ptr))
  | allocFailed (p : Shared ι) (i : ι) (gcRoots : List Nat) (size alignment : Nat) (e : Halt)
      (t : State) (hsmall : SmallAlignment alignment)
      (hrun : (alloc (cs.cfg i) (cs.policy i) gcRoots size alignment).run (p.view i) =
        .error e t) :
      SharedStep p .allocFailed (p.leave i t)
  | copy (p : Shared ι) (dst src : Nat) (hsrc : src ∈ p.roots)
      (hdst : ∀ j, Usable (cs.cfg j) p.roots dst) :
      SharedStep p (.copy dst src) (p.assign dst (move p.mem dst src gcPtrSize))
  | clear (p : Shared ι) (slot : Nat) (hslot : ∀ j, Usable (cs.cfg j) p.roots slot) :
      SharedStep p (.clear slot) (p.assign slot (writeFatPtr p.mem slot (FatPtr.ofAddr 0)))
  | write (p : Shared ι) (i : ι) (slot offset : Nat) (byte : UInt8) (ptr : FatPtr)
      (data : MetaData) (hslot : slot ∈ p.roots) (hload : atomicLoad p.mem slot = some ptr)
      (hdata : (p.fields i).metadata.lookup ptr = some data) (hoffset : offset < data.size) :
      SharedStep p (.write slot offset byte)
        { p with mem := Function.update p.mem (ptr.asPtr + offset) byte }
  | collect (p : Shared ι) (i : ι) (gcRoots extraRoots : List Nat)
      (result : Visited × List FatPtr) (t : State)
      (hroots : ∀ slot, slot ∈ gcRoots ++ extraRoots ↔ slot ∈ p.roots)
      (hrun : (asyncCollect (cs.cfg i) (cs.policy i) gcRoots extraRoots).run (p.view i) =
        .ok result t) :
      SharedStep p .collect (p.leave i t)
  | drop (p : Shared ι) (slot : Nat) :
      SharedStep p (.drop slot) { p with roots := p.roots.filter (· ≠ slot) }

/-- A run from new collectors and no root slots. -/
inductive SharedRun : List RootEvent → Shared ι → Prop
  | start (mem : Memory) : SharedRun [] (.initial mem)
  | step {events : List RootEvent} {p q : Shared ι} {e : RootEvent} (hrun : SharedRun events p)
      (hstep : SharedStep cs p e q) : SharedRun (events ++ [e]) q

end Gcpp
