import Gcpp.Interleaving

/-!
# Patient programs

A program is patient when its calls overlap neither with each other nor with the collections that
they start: a thread takes a step only while no other thread is in a call and no collection is
queued or running. The tests of the collector are like this, since they wait for the future of every
collection. `SerialGCPolicy` leaves a program nothing else to do.
-/

namespace Gcpp.Concurrent

open ByteMemory StateExcept

variable {cfg : Config} {roots : RootSlots cfg}

namespace Sys

/-- No collection is under way, and no thread but this one is in a call. -/
def Alone (s : Sys roots) (t : ThreadId) : Prop := s.Quiet ∧ ∀ u, u ≠ t → s.threads u = .idle

/-- No collection is under way, and no thread is in a call. -/
def AtRest (s : Sys roots) : Prop := s.Quiet ∧ ∀ t, s.threads t = .idle

end Sys

/-- A step that does not overlap with the call of another thread, or with a collection. -/
def Patient (s : Sys roots) : Action roots → Prop
  | .alloc t _ | .collect t _ | .load t _ _ | .step t => s.Alone t
  | .clear _ => s.AtRest
  | .worker => True

/-- The action starts nothing: a thread or the worker goes on. -/
def Action.GoesOn : Action roots → Prop
  | .step _ | .worker => True
  | _ => False

/-- What `SafePtr` asks for: a size that is no smaller than the alignment. -/
def Action.Fitting : Action roots → Prop
  | .alloc _ req => SmallAlignment req.alignment ∧ req.alignment ≤ req.size
  | _ => True

/-! ### The same calls under `SerialGCPolicy` -/

/-- What an allocation returns is stored in a root slot. What it throws is caught. -/
def stored (slot : Nat) : EStateM.Result Halt State FatPtr → State
  | .ok ptr s => { s with mem := writeFatPtr s.mem slot ptr }
  | .error _ s => s

/-- The whole call that the action starts. Its collections find all root slots. -/
def Action.serial (policy : GenPolicy) : Action roots → State → State
  | .alloc _ req, s =>
      stored req.slot ((Gcpp.alloc cfg policy roots.slots req.size req.alignment).run s)
  | .collect _ neededSpace, s => finalState ((Gcpp.collect cfg policy roots.slots neededSpace).run s)
  | .load _ src dst, s =>
      match atomicLoad s.mem src with
      | some value => { s with mem := atomicUpdate s.mem dst value }
      | none => s
  | .clear slot, s => { s with mem := atomicUpdate s.mem slot (FatPtr.ofAddr 0) }
  | .step _, s => s
  | .worker, s => s

/-- The calls that a run starts, one after the other. -/
def serialRun (policy : GenPolicy) (actions : List (Action roots)) (s : State) : State :=
  actions.foldl (fun s a => a.serial policy s) s

end Gcpp.Concurrent
