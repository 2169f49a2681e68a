import Gcpp.Lib.Machine
import Gcpp.GcScan
import Gcpp.ObjectGraph

/-!
# The collector under `ConcurrentGCPolicy`

Any number of threads allocate, call `collect` and move pointers between root slots, while the tasks
of collections run one after the other on a thread of their own. A step is a region that holds the
lock, or an access to an atomic variable or to a pointer slot outside of one; what lies between two
such steps touches nothing that is shared and is part of the step before it. An object is scanned in
one step. `forward_ptr` takes its copy branch.
-/

namespace Gcpp

open ByteMemory

/-- The root slots. `GC_GET_ROOTS` reports them all. -/
structure RootSlots (cfg : Config) where
  slots : List Nat
  apart : ∀ slot ∈ slots, RootApart cfg slot
  disjoint : ∀ a ∈ slots, ∀ b ∈ slots, a = b ∨ a + gcPtrSize ≤ b ∨ b + gcPtrSize ≤ a

abbrev RootSlots.Slot {cfg : Config} (roots : RootSlots cfg) := { slot : Nat // slot ∈ roots.slots }

namespace Concurrent

variable {cfg : Config}

/-- The arguments of `alloc`, and the root slot in which its result is stored. -/
structure Request (roots : RootSlots cfg) where
  size : Nat
  alignment : Nat
  slot : roots.Slot

/-- Where a thread stands in `collect`: before a look at `m_collect_result`, in the condition of the
loop (`test`) or in its body (`wait`), before one of the two loads of `free_space`, blocked until a
task has finished, or before the locked region. -/
inductive CollectPc where
  | test
  | loadSpace
  | loadNext (space : SpaceNum)
  | wait
  | waiting (task : Nat)
  | lock
deriving DecidableEq

/-- Where a thread stands: before the locked region of `alloc_attempt` (`attempt`), before
`alloc_no_constraints` (`reserved`), in a `collect` that the program has called or an attempt that
goes on afterwards, or with a pointer in hand that it has loaded from a root slot and is to store in
another one (`assign`). -/
inductive Thread (roots : RootSlots cfg) where
  | idle
  | attempt (req : Request roots) (retries : Nat)
  | reserved (req : Request roots) (space : SpaceNum) (index : Nat)
  | collect (neededSpace : Nat) (resume : Option (Request roots × Nat)) (pc : CollectPc)
  | assign (dst : roots.Slot) (value : FatPtr)
  | thrown (e : Halt)

/-- Where a task stands. In `forward_ptr`, `p` is the slot whose turn it is and `ptrVal` what was
read from it; at `found` the object is about to be looked up and scanned. From `copy` to `erase` the
task is in `copy`, before the call that the stage is named for, or with `i` bytes copied. -/
inductive Stage where
  | roots
  | forward
  | tested (p : Nat) (ptrVal : FatPtr)
  | found (p : Nat) (ptrVal : FatPtr)
  | copy (p : Nat) (ptrVal : FatPtr)
  | lookup (p : Nat) (ptrVal : FatPtr)
  | reserve (p : Nat) (ptrVal : FatPtr) (oldData : MetaData)
  | check (p : Nat) (ptrVal : FatPtr) (oldData : MetaData) (index : Option Nat)
  | register (p : Nat) (ptrVal : FatPtr) (oldData : MetaData) (index : Option Nat)
  | words (p : Nat) (ptrVal : FatPtr) (oldData : MetaData) (newObj : FatPtr) (i : Nat)
  | exchange (p : Nat) (ptrVal newObj : FatPtr)
  | erase (ptrVal newObj : FatPtr)
  | sweep
deriving DecidableEq

/-- The local variables of a running task. -/
structure Running where
  toSpace : SpaceNum
  visited : Visited
  roots : List Nat
  stack : List Nat
  stage : Stage

/-- All that the threads share, and where they stand. Tasks are numbered in the order in which they
are queued. `tasks` has the `to_space` of every task that is queued, `collectResult` the number of
the task whose future `m_collect_result` is, and `failures` the exceptions that the `finished` tasks
have ended with. -/
structure Sys (roots : RootSlots cfg) where
  heap : State
  threads : ThreadId → Thread roots
  tasks : List SpaceNum
  worker : Option Running
  collectResult : Option Nat
  finished : Nat
  failures : List Halt

/-- What can happen next. A `load` is the first half of copying the pointer in one root slot to
another, and `clear` overwrites a root slot; the others start a call, or are the next step of a
thread or of the task. -/
inductive Action (roots : RootSlots cfg) where
  | alloc (t : ThreadId) (req : Request roots)
  | collect (t : ThreadId) (neededSpace : Nat)
  | load (t : ThreadId) (src dst : roots.Slot)
  | clear (slot : roots.Slot)
  | step (t : ThreadId)
  | worker

variable {roots : RootSlots cfg}

namespace Sys

/-- No collection is queued or running. -/
def Quiet (s : Sys roots) : Prop := s.tasks = [] ∧ s.worker = none

/-- `!m_collect_result.valid()`, or the future is ready. -/
def resultReady (s : Sys roots) : Bool :=
  match s.collectResult with
  | none => true
  | some task => task < s.finished

def setThread (s : Sys roots) (t : ThreadId) (pc : Thread roots) : Sys roots :=
  { s with threads := Function.update s.threads t pc }

/-- `async_collect`: the task is queued behind those that are there. -/
def asyncCollect (s : Sys roots) : Sys roots :=
  { s with
    heap := flipSpaces s.heap
    tasks := s.tasks ++ [s.heap.spaceNum.flip]
    collectResult := some (s.finished + s.worker.toList.length + s.tasks.length) }

/-! ### The steps of a thread -/

/-- The locked region of `alloc_attempt`, and what follows from its outcome. -/
def attempt (s : Sys roots) (t : ThreadId) (req : Request roots) (retries : Nat) : Sys roots :=
  match (reserveAttempt cfg req.size req.alignment).run s.heap with
  | .ok (space, some index) heap => { s with heap }.setThread t (.reserved req space index)
  | .ok (_, none) heap =>
      match retries with
      | 0 => { s with heap }.setThread t (.thrown .badAlloc)
      | retries + 1 =>
          { s with heap }.setThread t (.collect req.size (some (req, retries)) .test)
  | .error e heap => { s with heap }.setThread t (.thrown e)

/-- `alloc_no_constraints`, and the store of what `alloc` returns. -/
def register (s : Sys roots) (t : ThreadId) (req : Request roots) (space : SpaceNum) (index : Nat) :
    Sys roots :=
  match (allocNoConstraints cfg space { size := req.size, alignment := req.alignment }
      index).run s.heap with
  | .ok ptr heap =>
      { s with heap := { heap with mem := writeFatPtr heap.mem req.slot ptr } }.setThread t .idle
  | .error e heap => { s with heap }.setThread t (.thrown e)

/-- A collection starts in the locked region of `collect`. -/
def Flips (s : Sys roots) (neededSpace : Nat) : Prop :=
  freeSpace cfg s.heap < neededSpace ∧ s.resultReady = true

instance (s : Sys roots) (neededSpace : Nat) : Decidable (s.Flips neededSpace) :=
  inferInstanceAs (Decidable (_ ∧ _))

def collectLocked (s : Sys roots) (t : ThreadId) (neededSpace : Nat)
    (resume : Option (Request roots × Nat)) : Sys roots :=
  (if s.Flips neededSpace then s.asyncCollect else s).setThread t <|
    match resume with
    | none => .idle
    | some (req, retries) => .attempt req retries

def collect (s : Sys roots) (t : ThreadId) (neededSpace : Nat)
    (resume : Option (Request roots × Nat)) : CollectPc → Option (Sys roots)
  | .test =>
      let pc := if s.resultReady then CollectPc.lock else .loadSpace
      some (s.setThread t (.collect neededSpace resume pc))
  | .loadSpace => some (s.setThread t (.collect neededSpace resume (.loadNext s.heap.spaceNum)))
  | .loadNext space =>
      let free := spaceLeft cfg (s.heap.nexts space)
      let pc := if free < neededSpace then CollectPc.wait else .lock
      some (s.setThread t (.collect neededSpace resume pc))
  | .wait => s.collectResult.map fun task =>
      s.setThread t (.collect neededSpace resume (.waiting task))
  | .waiting task =>
      if task < s.finished then some (s.setThread t (.collect neededSpace resume .test)) else none
  | .lock => some (s.collectLocked t neededSpace resume)

/-- `calc_alignment_bytes` never returns to `alloc_attempt`. -/
def Hangs (s : Sys roots) (req : Request roots) : Prop :=
  calcAlignmentBytes (cfg.base s.heap.spaceNum + s.heap.nexts s.heap.spaceNum) req.alignment = none

instance (s : Sys roots) (req : Request roots) : Decidable (s.Hangs req) :=
  inferInstanceAs (Decidable (_ = _))

/-- The next step of a thread. A thread that has caught an exception goes on. One that would never
come out of the locked region of `alloc_attempt` does not go into it. -/
def stepThread (s : Sys roots) (t : ThreadId) : Option (Sys roots) :=
  match s.threads t with
  | .idle => none
  | .attempt req retries => if s.Hangs req then none else some (s.attempt t req retries)
  | .reserved req space index => some (s.register t req space index)
  | .collect neededSpace resume pc => s.collect t neededSpace resume pc
  | .assign dst value =>
      some ({ s with heap := { s.heap with mem := atomicUpdate s.heap.mem dst value } }.setThread t
        .idle)
  | .thrown _ => some (s.setThread t .idle)

/-- `alloc`, up to its first locked region. -/
def startAlloc (s : Sys roots) (t : ThreadId) (req : Request roots) : Sys roots :=
  if req.size = 0 ∨ req.size > cfg.maxAllocSize then s.setThread t (.thrown .badAlloc)
  else s.setThread t (.attempt req 1)

def startLoad (s : Sys roots) (t : ThreadId) (src dst : roots.Slot) : Sys roots :=
  match atomicLoad s.heap.mem src with
  | some value => s.setThread t (.assign dst value)
  | none => s.setThread t (.thrown (.runtimeError "Invalid pointer"))

end Sys

/-! ### The steps of a task -/

/-- One step of a running task. Without a result the task has finished. -/
def Running.step (cfg : Config) (r : Running) : GcM (Option Running) :=
  match r.stage with
  | .roots =>
      match r.roots with
      | [] => pure (some { r with stage := .sweep })
      | root :: rest => do
          let s ← get
          match testPtr s.mem root with
          | some ptr =>
              if contains cfg ptr.asPtr then
                pure (some { r with roots := rest, stack := [root], stage := .forward })
              else pure (some { r with roots := rest })
          | none => pure (some { r with roots := rest })
  | .forward =>
      match r.stack with
      | [] => pure (some { r with stage := .roots })
      | p :: stack => do
          let s ← get
          match testPtr s.mem p with
          | none => pure (some { r with stack })
          | some ptrVal => pure (some { r with stack, stage := .tested p ptrVal })
  | .tested p ptrVal =>
      match r.visited.lookup ptrVal with
      | some forwarded => do
          modify fun s => { s with mem := (compareExchange s.mem p ptrVal forwarded).2 }
          pure (some { r with stage := .forward })
      | none => do
          let s ← get
          match s.metadata.lookup ptrVal with
          | none => pure (some { r with stage := .forward })
          | some _ => do
              let space ← getSpaceNum cfg ptrVal
              if space = r.toSpace then pure (some { r with stage := .forward })
              else pure (some { r with stage := .found p ptrVal })
  | .found p ptrVal => do
      let metaData ← metadataAt ptrVal
      let s ← get
      match scanMemory s.mem ptrVal.asPtr (ptrVal.asPtr + metaData.size) with
      | none => throw .hang
      | some slots =>
          pure (some { r with stack := slots.reverse ++ r.stack, stage := .copy p ptrVal })
  | .copy p ptrVal => do
      let space ← getSpaceNum cfg ptrVal
      if space = r.toSpace then
        pure (some { r with
          visited := AssocMap.emplace ptrVal ptrVal r.visited
          stage := .forward })
      else pure (some { r with stage := .lookup p ptrVal })
  | .lookup p ptrVal => do
      let oldData ← metadataAt ptrVal
      pure (some { r with stage := .reserve p ptrVal oldData })
  | .reserve p ptrVal oldData => do
      -- the step is the compare-exchange that succeeds, or the load that leaves no room
      let index ← reserveSpace cfg oldData.size r.toSpace oldData.alignment cfg.heapSize
      pure (some { r with stage := .check p ptrVal oldData index })
  | .check p ptrVal oldData index => do
      checkOverlappingAlloc cfg index r.toSpace oldData.size
      pure (some { r with stage := .register p ptrVal oldData index })
  | .register p ptrVal oldData index =>
      match index with
      | none => throw .badAlloc
      | some index => do
          let newObj ← allocNoConstraints cfg r.toSpace oldData index
          pure (some { r with stage := .words p ptrVal oldData newObj 0 })
  | .words p ptrVal oldData newObj i =>
      if i < oldData.size then do
        let width := cpyWidth (ptrVal.asPtr + i)
        modify fun s => { s with mem := move s.mem (newObj.asPtr + i) (ptrVal.asPtr + i) width }
        pure (some { r with stage := .words p ptrVal oldData newObj (i + width) })
      else pure (some { r with stage := .exchange p ptrVal newObj })
  | .exchange p ptrVal newObj => do
      modify fun s => { s with mem := (compareExchange s.mem p ptrVal newObj).2 }
      pure (some { r with stage := .erase ptrVal newObj })
  | .erase ptrVal newObj => do
      modify fun s => { s with metadata := s.metadata.erase ptrVal }
      pure (some { r with
        visited := AssocMap.emplace ptrVal newObj r.visited
        stage := .forward })
  | .sweep => do
      sweep cfg r.toSpace r.visited
      pure none

namespace Sys

/-- The next step of the thread that runs the tasks: `GC_GET_ROOTS` at the start of one, or a step
of the running one. What a task throws is stored in its future; in a loop that never ends it stays
where it is. -/
def stepWorker (s : Sys roots) : Option (Sys roots) :=
  match s.worker with
  | none =>
      match s.tasks with
      | [] => none
      | toSpace :: tasks =>
          let r := { toSpace, visited := ∅, roots := roots.slots, stack := [], stage := .roots }
          some { s with tasks, worker := some r }
  | some r =>
      match (r.step cfg).run s.heap with
      | .ok (some r) heap => some { s with heap, worker := some r }
      | .ok none heap => some { s with heap, worker := none, finished := s.finished + 1 }
      | .error .hang _ => none
      | .error e heap => some { s with
          heap
          worker := none
          finished := s.finished + 1
          failures := e :: s.failures }

/-- The worker starts a task, or goes on with the one it has, which may end or throw. -/
inductive WorkerMove (s : Sys roots) : Sys roots → Prop
  | start (toSpace : SpaceNum) (tasks : List SpaceNum) (hworker : s.worker = none)
      (htasks : s.tasks = toSpace :: tasks) :
      WorkerMove s { s with
        tasks
        worker := some
          { toSpace, visited := ∅, roots := roots.slots, stack := [], stage := .roots } }
  | next (r r' : Running) (heap : State) (hworker : s.worker = some r)
      (hrun : (r.step cfg).run s.heap = .ok (some r') heap) :
      WorkerMove s { s with heap, worker := some r' }
  | finish (r : Running) (heap : State) (hworker : s.worker = some r)
      (hrun : (r.step cfg).run s.heap = .ok none heap) :
      WorkerMove s { s with heap, worker := none, finished := s.finished + 1 }
  | fail (r : Running) (e : Halt) (heap : State) (hworker : s.worker = some r)
      (hrun : (r.step cfg).run s.heap = .error e heap) (hends : e ≠ .hang) :
      WorkerMove s { s with
        heap
        worker := none
        finished := s.finished + 1
        failures := e :: s.failures }

theorem workerMove {s t : Sys roots} (hstep : s.stepWorker = some t) : s.WorkerMove t := by
  rw [stepWorker] at hstep
  cases hworker : s.worker with
  | none =>
      rw [hworker] at hstep
      cases htasks : s.tasks with
      | nil =>
          rw [htasks] at hstep
          cases hstep
      | cons toSpace tasks =>
          rw [htasks] at hstep
          cases hstep
          exact .start toSpace tasks hworker htasks
  | some r =>
      simp only [hworker] at hstep
      cases hrun : (r.step cfg).run s.heap with
      | ok next heap =>
          rw [hrun] at hstep
          cases next with
          | some r' =>
              cases hstep
              exact .next r r' heap hworker hrun
          | none =>
              cases hstep
              exact .finish r heap hworker hrun
      | error e heap =>
          rw [hrun] at hstep
          cases e with
          | hang => cases hstep
          | badAlloc | badOptionalAccess | outOfRange | runtimeError =>
              cases hstep
              exact .fail r _ heap hworker hrun (by rintro ⟨⟩)

end Sys

def step : Action roots → Sys roots → Option (Sys roots)
  | .alloc t req, s =>
      match s.threads t with
      | .idle => some (s.startAlloc t req)
      | _ => none
  | .collect t neededSpace, s =>
      match s.threads t with
      | .idle => some (s.setThread t (.collect neededSpace none .test))
      | _ => none
  | .load t src dst, s =>
      match s.threads t with
      | .idle => some (s.startLoad t src dst)
      | _ => none
  | .clear slot, s =>
      some { s with heap := { s.heap with
        mem := atomicUpdate s.heap.mem slot (FatPtr.ofAddr 0) } }
  | .step t, s => s.stepThread t
  | .worker, s => s.stepWorker

end Concurrent

end Gcpp
