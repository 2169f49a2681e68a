import Gcpp.Interleaving
import Gcpp.Proof.Accounting

/-!
# Capacity

Runs in which only the room in the spaces is at stake: all alignments are 1, an allocation registers
its block in the step in which it reserves it, and root slots are filled by allocations, cleared and
updated by the task, but not copied. Threads take blocks from the current space up to
`m_max_alloc_size`, and the task takes blocks from the same space up to `m_heap_size`.
-/

namespace Gcpp.Concurrent

open AssocMap

variable {cfg : Config} {roots : RootSlots cfg}

def Action.plain : Action roots → Bool
  | .alloc _ req => req.alignment == 1
  | .load _ _ _ => false
  | _ => true

/-- A thread that has reserved a block goes on to register it. -/
def Sys.settle (s : Sys roots) (t : ThreadId) : Sys roots :=
  match s.threads t with
  | .reserved req space index => s.register t req space index
  | _ => s

def promptStep (a : Action roots) (s : Sys roots) : Option (Sys roots) :=
  if a.plain then
    (step a s).map fun u => match a with
      | .step t => u.settle t
      | _ => u
  else none

/-- The bytes of the objects that lie in a space. -/
def spaceSize (cfg : Config) (space : SpaceNum) (metadata : AssocMap FatPtr MetaData) : Nat :=
  weightSum (inside cfg space) metadata

/-- `reserve_space` has found room for the copy, and `alloc_no_constraints` will not refuse it. -/
def Stage.Roomy (cfg : Config) : Stage → Prop
  | .check _ _ oldData index => ∃ i, index = some i ∧ oldData.size + i < cfg.heapSize
  | .register _ _ oldData index => ∃ i, index = some i ∧ oldData.size + i < cfg.heapSize
  | _ => True

structure CopiesFit (s : Sys roots) : Prop where
  roomy : ∀ r, s.worker = some r → r.stage.Roomy cfg
  succeeded : s.failures = []

/-- The object that is about to be copied and the objects that lie in the current space have
together fewer bytes than the space. -/
def Fits (s : Sys roots) : Action roots → Prop
  | .worker => ∀ r p ptrVal oldData, s.worker = some r → r.stage = .reserve p ptrVal oldData →
      spaceSize cfg r.toSpace s.heap.metadata + oldData.size < cfg.heapSize
  | _ => True

/-- What a run starts from: the current space is filled with objects and nothing else, and the other
one is empty. A new collector is like this. -/
structure Packed (s : Sys roots) : Prop extends Steady s where
  unit : ∀ {ptr data}, s.heap.metadata.lookup ptr = some data → data.alignment = 1
  full : s.heap.nexts s.heap.spaceNum = spaceSize cfg s.heap.spaceNum s.heap.metadata
  otherNext : s.heap.nexts s.heap.spaceNum.flip = 0

theorem packed_sampleStart : Packed sampleStart :=
  { steady_sampleStart with
    unit := fun hdata => by cases hdata
    full := rfl
    otherNext := rfl }

end Gcpp.Concurrent
