import Gcpp.Interleaving

/-!
# The locked region of `collect`

The machine of `Concurrent` runs this region in one step. Here it is taken apart: the thread that
holds the lock passes the check, and `async_collect` counts itself, flips the spaces, restarts the
bump index and queues its task one after the other, while every step that needs no lock goes on.
-/

namespace Gcpp.Concurrent

variable {cfg : Config} {roots : RootSlots cfg}

/-- The step is a region that holds the lock, or has one in it. -/
def Thread.locks : Thread roots → Bool
  | .attempt _ _ => true
  | .reserved _ _ _ => true
  | .collect _ _ .lock => true
  | _ => false

def Running.locks (r : Running) : Bool :=
  match r.stage with
  | .tested _ ptrVal => (r.visited.lookup ptrVal).isNone
  | .found _ _ | .copy _ _ | .lookup _ _ | .check _ _ _ _ | .register _ _ _ _ | .erase _ _ => true
  | .sweep => true
  | _ => false

/-- Where the thread that holds the lock stands: before the call or the store it is named for. From
`increment` to `decrement` it is in `async_collect`, and `limit` is the test of `ThreadCounter`. -/
inductive RegionPc where
  | check
  | increment
  | limit
  | flip
  | resetNext (fromSpace toSpace : SpaceNum)
  | doCollection (toSpace : SpaceNum)
  | decrement (future : Nat)
  | assign (future : Nat)
  | unlock
deriving DecidableEq

/-- `terminated` is set when an exception leaves `async_collect`, which is `noexcept`. -/
structure Locked (roots : RootSlots cfg) where
  sys : Sys roots
  holder : Option (ThreadId × RegionPc)
  tcount : Nat
  terminated : Bool

/-- A thread takes the lock in `collect`, the one that holds it takes its next step, or something
else happens. -/
inductive LockedAction (roots : RootSlots cfg) where
  | enter (t : ThreadId)
  | region
  | other (a : Action roots)

namespace Locked

/-- Nobody holds the lock. -/
def free (s : Sys roots) : Locked roots where
  sys := s
  holder := none
  tcount := 0
  terminated := false

def initial (roots : RootSlots cfg) (mem : ByteMemory.Memory) : Locked roots :=
  free (Sys.initial roots mem)

def enter (s : Locked roots) (t : ThreadId) : Option (Locked roots) :=
  match s.holder, s.sys.threads t with
  | none, .collect _ _ .lock => some { s with holder := some (t, .check) }
  | _, _ => none

/-- What the thread that leaves the region goes on with. -/
def resume (s : Sys roots) (t : ThreadId) : Thread roots :=
  match s.threads t with
  | .collect _ (some (req, retries)) _ => .attempt req retries
  | _ => .idle

def neededSpace (s : Sys roots) (t : ThreadId) : Nat :=
  match s.threads t with
  | .collect needed _ _ => needed
  | _ => 0

/-- The next step in the region. -/
def stepRegion (s : Locked roots) (t : ThreadId) : RegionPc → Locked roots
  | .check =>
      let pc := if s.sys.Flips (neededSpace s.sys t) then RegionPc.increment else .unlock
      { s with holder := some (t, pc) }
  | .increment => { s with tcount := s.tcount + 1, holder := some (t, .limit) }
  | .limit =>
      if s.tcount > 1 then { s with terminated := true } else { s with holder := some (t, .flip) }
  | .flip =>
      let space := s.sys.heap.spaceNum
      { s with
        sys := { s.sys with heap := { s.sys.heap with spaceNum := space.flip } }
        holder := some (t, .resetNext space space.flip) }
  | .resetNext fromSpace toSpace =>
      let nexts := Function.update s.sys.heap.nexts fromSpace 0
      { s with
        sys := { s.sys with heap := { s.sys.heap with nexts } }
        holder := some (t, .doCollection toSpace) }
  | .doCollection toSpace =>
      let future := s.sys.finished + s.sys.worker.toList.length + s.sys.tasks.length
      { s with
        sys := { s.sys with tasks := s.sys.tasks ++ [toSpace] }
        holder := some (t, .decrement future) }
  | .decrement future => { s with tcount := s.tcount - 1, holder := some (t, .assign future) }
  | .assign future =>
      { s with
        sys := { s.sys with collectResult := some future }
        holder := some (t, .unlock) }
  | .unlock => { s with sys := s.sys.setThread t (resume s.sys t), holder := none }

/-- The step has to wait for the lock, or it is the region itself. -/
def blocks (s : Locked roots) : Action roots → Bool
  | .step t => match s.sys.threads t with
      | .collect _ _ .lock => true
      | thread => s.holder.isSome && thread.locks
  | .worker => s.holder.isSome && s.sys.worker.any Running.locks
  | _ => false

def step (a : LockedAction roots) (s : Locked roots) : Option (Locked roots) :=
  if s.terminated then none
  else match a with
    | .enter t => s.enter t
    | .region => s.holder.map fun (t, pc) => s.stepRegion t pc
    | .other a =>
        if s.blocks a then none
        else (Concurrent.step a s.sys).map fun sys => { s with sys }

end Locked

end Gcpp.Concurrent
