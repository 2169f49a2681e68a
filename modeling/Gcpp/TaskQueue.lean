import Gcpp.Lib.Machine
import Gcpp.GcScan

/-!
# The worker thread `Task`

`Task` runs what `push_work` gives it on a thread of its own. The queue is guarded by `m_in_mut`;
the worker waits for `m_input` while the queue is empty, and gives the lock up while a task runs. A
step is an access to the queue or the stop flag, taking or releasing the lock, or a notification. A
thread that waits may also wake up without one.
-/

namespace Gcpp

namespace TaskQueue

/-- A `packaged_task`: the function, and which shared state its future refers to. -/
structure Packaged (F : Type) where
  fn : F
  shared : Nat
deriving DecidableEq

/-- Where the worker stands in `do_work`: the test of the outer loop, the lock, `m_tasks.empty()`,
the wait that follows it, blocked in the wait, woken up but without the lock, the test of the stop
token that follows, and then the way of a task: moved out of the queue, the lock released, run, the
lock taken again, the front popped, and the lock released at the end of the scope. -/
inductive WorkerPc (F : Type) where
  | loop
  | lock
  | test
  | wait
  | blocked
  | woken
  | retest
  | take
  | unlock (task : Packaged F)
  | call (task : Packaged F)
  | running (task : Packaged F)
  | relock (task : Packaged F)
  | pop (task : Packaged F)
  | release
  | done

/-- Where a call of `push_work` stands. -/
inductive PushPc (F : Type) where
  | lock (f : F)
  | emplace (f : F)
  | getFuture (f : F)
  | unlock (f : F) (future : Nat)
  | notify (f : F) (future : Nat)

/-- Where `~Task` stands: `joining` is after `notify_all`. -/
inductive DtorPc where
  | alive
  | requestStop
  | notifyAll
  | joining
deriving DecidableEq

inductive Holder where
  | worker
  | pusher (t : ThreadId)
deriving DecidableEq

/-- The members of a `Task`, where the worker stands, and the calls of `push_work` that are under
way. A task that has been moved out of the queue leaves `none` in it. The lists at the end say what
has happened: the tasks in the order in which they were pushed, started and finished, and the
futures that `push_work` has returned. -/
structure TaskState (F : Type) where
  inMut : Option Holder
  tasks : List (Option (Packaged F))
  stopRequested : Bool
  worker : WorkerPc F
  pushers : AssocMap ThreadId (PushPc F)
  dtor : DtorPc
  results : Nat → Option F
  pushed : List (Packaged F)
  started : List (Packaged F)
  finished : List (Packaged F)
  futures : List (F × Nat)

/-- What can happen next: a thread calls `push_work`, a thread or the worker takes its next step,
the worker wakes up without a notification, or `~Task` takes its next step. -/
inductive TaskAction (F : Type) where
  | pushWork (t : ThreadId) (f : F)
  | push (t : ThreadId)
  | worker
  | spurious
  | destroy

variable {F : Type}

namespace TaskState

/-- A `Task` whose constructor has started the worker. -/
def initial : TaskState F where
  inMut := none
  tasks := []
  stopRequested := false
  worker := .loop
  pushers := ∅
  dtor := .alive
  results := fun _ => none
  pushed := []
  started := []
  finished := []
  futures := []

def hasWork (s : TaskState F) : Bool := !s.tasks.isEmpty

/-- The lock is taken by the one who asks for it. -/
def acquire (s : TaskState F) (holder : Holder) : Option (TaskState F) :=
  match s.inMut with
  | none => some { s with inMut := some holder }
  | some _ => none

def setPusher (s : TaskState F) (t : ThreadId) (pc : PushPc F) : TaskState F :=
  { s with pushers := s.pushers.insert t pc }

/-- `notify_one` and `notify_all`: only the worker ever waits. -/
def notify (s : TaskState F) : TaskState F :=
  match s.worker with
  | .blocked => { s with worker := .woken }
  | _ => s

/-- The next step of `do_work`. -/
def stepWorker (s : TaskState F) : Option (TaskState F) :=
  match s.worker with
  | .loop => some { s with worker := if s.stopRequested then .done else .lock }
  | .lock => (s.acquire .worker).map fun s => { s with worker := .test }
  | .test => some { s with worker := if s.tasks.isEmpty then .wait else .take }
  | .wait => some { s with inMut := none, worker := .blocked }
  | .blocked => none
  | .woken => (s.acquire .worker).map fun s => { s with worker := .retest }
  | .retest =>
      if s.stopRequested then some { s with inMut := none, worker := .done }
      else some { s with worker := .test }
  | .take =>
      match s.tasks with
      | some task :: tasks => some { s with tasks := none :: tasks, worker := .unlock task }
      | _ => none
  | .unlock task => some { s with inMut := none, worker := .call task }
  | .call task => some { s with started := s.started ++ [task], worker := .running task }
  | .running task => some { s with
      results := Function.update s.results task.shared (some task.fn)
      finished := s.finished ++ [task]
      worker := .relock task }
  | .relock task => (s.acquire .worker).map fun s => { s with worker := .pop task }
  | .pop _ => some { s with tasks := s.tasks.tail, worker := .release }
  | .release => some { s with inMut := none, worker := .loop }
  | .done => none

/-- The next step of a call of `push_work`. -/
def stepPusher (s : TaskState F) (t : ThreadId) : PushPc F → Option (TaskState F)
  | .lock f => (s.acquire (.pusher t)).map fun s => s.setPusher t (.emplace f)
  | .emplace f =>
      let task := { fn := f, shared := s.pushed.length }
      some ({ s with tasks := s.tasks ++ [some task], pushed := s.pushed ++ [task] }.setPusher t
        (.getFuture f))
  | .getFuture f =>
      match s.tasks.getLast? with
      | some (some task) => some (s.setPusher t (.unlock f task.shared))
      | _ => none
  | .unlock f future => some ({ s with inMut := none }.setPusher t (.notify f future))
  | .notify f future => some { s.notify with
      pushers := s.pushers.erase t
      futures := s.futures ++ [(f, future)] }

/-- The next step of `~Task`, which is called when all calls of `push_work` have returned. -/
def stepDtor (s : TaskState F) : Option (TaskState F) :=
  match s.dtor with
  | .alive => if s.pushers.entries = [] then some { s with dtor := .requestStop } else none
  | .requestStop => some { s with stopRequested := true, dtor := .notifyAll }
  | .notifyAll => some { s.notify with dtor := .joining }
  | .joining => none

end TaskState

open TaskState

/-- One step of the whole. Nobody calls `push_work` once `~Task` has been called. -/
def step : TaskAction F → TaskState F → Option (TaskState F)
  | .pushWork t f, s =>
      match s.dtor, s.pushers.lookup t with
      | .alive, none => some (s.setPusher t (.lock f))
      | _, _ => none
  | .push t, s => (s.pushers.lookup t).bind (s.stepPusher t)
  | .worker, s => s.stepWorker
  | .spurious, s =>
      match s.worker with
      | .blocked => some { s with worker := .woken }
      | _ => none
  | .destroy, s => s.stepDtor

end TaskQueue

end Gcpp
