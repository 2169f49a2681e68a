import Gcpp.Interleaving

/-!
# The front end

`GC` is what programs call: `GC::alloc` looks whether there is room, collects if there is none, and
looks again before it calls the collector. The threads below call nothing of the collector but
through `GC`; the two looks are two loads each, and everything else goes on in between.
-/

namespace Gcpp

namespace FrontEnd

open Concurrent

variable {cfg : Config}

/-- The default argument of `collect`, the largest `size_t`. -/
def sizeMax : Nat := 2 ^ 64 - 1

/-- Where a thread stands in `GC::alloc`: before one of the two loads of `free_space`, in the call of
`GC::collect` or of the collector's `alloc`. It is `again` after the collection. -/
inductive Front (roots : RootSlots cfg) where
  | idle
  | loadSpace (req : Request roots) (again : Bool)
  | loadNext (req : Request roots) (again : Bool) (space : SpaceNum)
  | collect (req : Request roots)
  | alloc (req : Request roots)
  | badAlloc

structure FrontState (roots : RootSlots cfg) where
  sys : Sys roots
  fronts : ThreadId → Front roots

/-- A thread calls `GC::alloc` or `GC::collect`, loads a pointer to store it in another root slot, or
takes the next step of the function of the collector that it is in (`inner`), or of `GC::alloc`
(`front`). -/
inductive FrontAction (roots : RootSlots cfg) where
  | gcAlloc (t : ThreadId) (req : Request roots)
  | gcCollect (t : ThreadId)
  | load (t : ThreadId) (src dst : roots.Slot)
  | clear (slot : roots.Slot)
  | front (t : ThreadId)
  | inner (t : ThreadId)
  | worker

variable {roots : RootSlots cfg}

namespace FrontState

def initial (roots : RootSlots cfg) (mem : ByteMemory.Memory) : FrontState roots where
  sys := Sys.initial roots mem
  fronts := fun _ => .idle

def setFront (s : FrontState roots) (t : ThreadId) (pc : Front roots) : FrontState roots :=
  { s with fronts := Function.update s.fronts t pc }

/-- A step of the collector, and where the thread stands after it. -/
def call (s : FrontState roots) (a : Action roots) : Option (FrontState roots) :=
  (Concurrent.step a s.sys).map fun sys => { s with sys }

def idle (s : FrontState roots) (t : ThreadId) : Bool :=
  match s.fronts t, s.sys.threads t with
  | .idle, .idle => true
  | _, _ => false

/-- The next step of `GC::alloc`. -/
def stepFront (s : FrontState roots) (t : ThreadId) : Option (FrontState roots) :=
  match s.fronts t with
  | .idle => none
  | .loadSpace req again => some (s.setFront t (.loadNext req again s.sys.heap.spaceNum))
  | .loadNext req again space =>
      let free := spaceLeft cfg (s.sys.heap.nexts space)
      if free < req.size then
        if again then some (s.setFront t .badAlloc)
        else (s.call (.collect t sizeMax)).map fun s => s.setFront t (.collect req)
      else (s.call (.alloc t req)).map fun s => s.setFront t (.alloc req)
  | .collect req =>
      match s.sys.threads t with
      | .idle => some (s.setFront t (.loadSpace req true))
      | _ => none
  | .alloc _ =>
      match s.sys.threads t with
      | .idle => some (s.setFront t .idle)
      | _ => none
  | .badAlloc => some (s.setFront t .idle)

end FrontState

/-- One step of the whole. An exception of the collector's `alloc` passes through `GC::alloc`. -/
def step : FrontAction roots → FrontState roots → Option (FrontState roots)
  | .gcAlloc t req, s => if s.idle t then some (s.setFront t (.loadSpace req false)) else none
  | .gcCollect t, s => if s.idle t then s.call (.collect t sizeMax) else none
  | .load t src dst, s => if s.idle t then s.call (.load t src dst) else none
  | .clear slot, s => s.call (.clear slot)
  | .front t, s => s.stepFront t
  | .inner t, s => s.call (.step t)
  | .worker, s => s.call .worker

end FrontEnd

end Gcpp
