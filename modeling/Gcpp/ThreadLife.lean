import Gcpp.GcScan

/-!
# The lifetimes of threads

`GCRoots` keeps a stack range for every thread that has called it, and drops none. Threads come and
go, and the id of a thread that has exited may be given to a new one. A call of `update_stack_range`
takes the lock once if the thread has an entry, and a second time to insert one; `get_roots` takes
it once more to scan.
-/

namespace Gcpp

/-- The addresses of a stack, from `lo` up to `hi`. -/
structure StackBlock where
  lo : Nat
  hi : Nat

/-- What a running thread can have in its frame pointer and its stack pointer. -/
def StackBlock.Holds (stack : StackBlock) (basePtr sp : Nat) : Prop :=
  stack.lo + redZoneSize ≤ sp ∧ sp ≤ basePtr ∧ basePtr < stack.hi

instance (stack : StackBlock) (basePtr sp : Nat) : Decidable (stack.Holds basePtr sp) :=
  inferInstanceAs (Decidable (_ ∧ _))

/-- Where a thread stands: in `update_stack_range` it may be between the two locks, and `scan` is
`get_roots` before its own. -/
inductive CallPc where
  | idle
  | insert (basePtr sp : Nat) (roots : Bool)
  | scan

/-- A thread that is alive, with the base pointers that it has passed to `GCRoots`. -/
structure LiveThread where
  stack : StackBlock
  pc : CallPc
  passed : List Nat

structure Registry where
  live : ThreadId → Option LiveThread
  ranges : StackRanges

namespace Registry

def empty : Registry where
  live := fun _ => none
  ranges := ∅

def setThread (s : Registry) (id : ThreadId) (thread : Option LiveThread) : Registry :=
  { s with live := Function.update s.live id thread }

/-- What follows `update_stack_range`. -/
def afterUpdate (roots : Bool) : CallPc := if roots then .scan else .idle

/-- The first locked region of `update_stack_range`. -/
def enter (s : Registry) (id : ThreadId) (thread : LiveThread) (basePtr sp : Nat) (roots : Bool) :
    Registry :=
  let thread := { thread with passed := basePtr :: thread.passed }
  match s.ranges.lookup id with
  | some _ =>
      { s with ranges := updateStackRange s.ranges id basePtr sp }.setThread id
        (some { thread with pc := afterUpdate roots })
  | none => s.setThread id (some { thread with pc := .insert basePtr sp roots })

/-- The region that inserts a range. -/
def insertRange (s : Registry) (id : ThreadId) (thread : LiveThread) (basePtr sp : Nat)
    (roots : Bool) : Registry :=
  { s with ranges := AssocMap.emplace id (basePtr, sp) s.ranges }.setThread id
    (some { thread with pc := afterUpdate roots })

end Registry

/-- What threads do. A call is one of `update_stack_range`, or of `get_roots`. -/
inductive LifeEvent where
  | start (id : ThreadId) (stack : StackBlock)
  | call (id : ThreadId) (basePtr sp : Nat) (roots : Bool)
  | resume (id : ThreadId)
  | exit (id : ThreadId)

def lifeStep : LifeEvent → Registry → Option Registry
  | .start id stack, s =>
      match s.live id with
      | none => some (s.setThread id (some { stack, pc := .idle, passed := [] }))
      | some _ => none
  | .call id basePtr sp roots, s => do
      let thread ← s.live id
      match thread.pc with
      | .idle =>
          if thread.stack.Holds basePtr sp then some (s.enter id thread basePtr sp roots) else none
      | _ => none
  | .resume id, s => do
      let thread ← s.live id
      match thread.pc with
      | .idle => none
      | .insert basePtr sp roots => some (s.insertRange id thread basePtr sp roots)
      | .scan => some (s.setThread id (some { thread with pc := .idle }))
  | .exit id, s => do
      let thread ← s.live id
      match thread.pc with
      | .idle => some (s.setThread id none)
      | _ => none

/-- Every range that a scan would go over lies in the stack of a thread that is alive, and begins at
a base pointer that this thread has passed. -/
def Registry.RangesSound (s : Registry) : Prop :=
  ∀ id stackStart stackEnd, s.ranges.lookup id = some (stackStart, stackEnd) →
    ∃ thread, s.live id = some thread ∧ thread.stack.lo + redZoneSize ≤ stackEnd ∧
      stackStart < thread.stack.hi ∧ stackStart ∈ thread.passed

/-- A thread that exits has no range. -/
def LeavesNothing (s : Registry) : LifeEvent → Prop
  | .exit id => ∀ thread, s.live id = some thread → thread.pc = .idle → s.ranges.lookup id = none
  | _ => True

end Gcpp
