import Gcpp.CopyCollector
import Gcpp.Lib.CasLoop

/-!
# Reserving space without a lock

`reserve_space` as the threads see it under `ConcurrentGCPolicy`, where the bump index is atomic:
the load before the loop, and then one compare-exchange for every round. The copies of the task and
the allocations of the mutators use the same index, under their own limits.
-/

namespace Gcpp

open CasLoop

variable (cfg : Config)

/-- The arguments of a call: an allocation passes `m_max_alloc_size` as its limit, a copy
`m_heap_size`. -/
structure Reservation where
  size : Nat
  alignment : Nat
  maxAllocSize : Nat
  size_pos : 0 < size
  size_le : size ≤ cfg.heapSize
  aligned : SmallAlignment alignment
  limit : maxAllocSize = cfg.maxAllocSize ∨ maxAllocSize = cfg.heapSize

variable {cfg}

/-- One round of the loop, from the index `next` that was read last. -/
def reserveRound (toSpace : SpaceNum) (req : Reservation cfg) (next : Nat) : Decision Nat Nat :=
  match calcAlignmentBytes (cfg.base toSpace + next) req.alignment with
  | none => .diverge
  | some paddingBytes =>
      if next + req.size + paddingBytes > req.maxAllocSize then .giveUp
      else .replace (next + req.size + paddingBytes) (next + paddingBytes)

abbrev Reserving (cfg : Config) := CasLoop.State (Reservation cfg) Nat Nat

abbrev ReserveAction (cfg : Config) := CasLoop.Action (Reservation cfg)

/-- The state after the actions, when the index was `next` before the first call. -/
def runReserving (toSpace : SpaceNum) (next : Nat) (actions : List (ReserveAction cfg)) :
    Option (Reserving cfg) :=
  Machine.run (CasLoop.step (reserveRound toSpace)) actions (CasLoop.State.initial next)

/-- The block that a call has returned: its offset in the space, and its size. -/
def returnedBlock (e : Finished (Reservation cfg) Nat Nat) : Option (Nat × Nat) :=
  e.result.map fun index => (index, e.req.size)

end Gcpp
