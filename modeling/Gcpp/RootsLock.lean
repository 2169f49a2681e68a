import Gcpp.GcScan
import Gcpp.Lib.SharedMutex

/-!
# The lock of `GCRoots`

The calls of `update_stack_range` and `get_roots` on the singleton, by any number of threads, as the
steps that they take under `m_mutex`. Threads with an entry update it as shared owners: the two
assignments to an entry are two steps, and other threads may come in between. A thread without an
entry gives the mutex back and takes it again as the exclusive owner to insert one; a scan is made by
an exclusive owner. The mutex does not keep anyone from writing to the stacks, so every load of a
scan is a step of its own. Each alone, an update is an event of `Process`.
-/

namespace Gcpp.RootsLock

open ByteMemory SharedMutex

/-- A call of `update_stack_range`, or of `get_roots`, which begins with one. -/
structure Call where
  basePtr : Nat
  sp : Nat
  roots : Bool

/-- Where the loops of a scan are: the entries that are still to come, in the one under way the slot
whose turn it is and the end, whether the first word of that slot has been read and is the header,
and what has been found. -/
structure Scan where
  rest : List ThreadId
  cursor : Option (Nat × Nat)
  header : Bool
  found : List Nat

def Scan.start (ranges : StackRanges) : Scan where
  rest := ranges.keys
  cursor := none
  header := false
  found := []

/-- The slot that `scan_memory` begins with. -/
def scanBegin (start : Nat) : Nat :=
  let alignedStart := start - start % gcPtrAlignment
  if alignedStart = start then alignedStart else (alignedStart + gcPtrAlignment) % 2 ^ 64

/-- The next step of a scan, with one load at most: the entry of the next stack, a word of the slot,
or the test at the end of one. -/
def Scan.read (m : Memory) (ranges : StackRanges) (k : Scan) : Option Scan :=
  match k.cursor with
  | none =>
      match k.rest with
      | [] => none
      | id :: rest =>
          (ranges.lookup id).map fun range =>
            let start := scanBegin ((range.2 + 2 ^ 64 - redZoneSize) % 2 ^ 64)
            { k with rest, cursor := some (start, (range.1 + 1) % 2 ^ 64) }
  | some (ptr, stop) =>
      let next := some ((ptr + gcPtrAlignment) % 2 ^ 64, stop)
      if k.header then
        let isPtr := (load64 m (ptr + 8) &&& ptrTagMask) = ptrTag
        let found := if isPtr then k.found ++ [ptr] else k.found
        some { k with cursor := next, header := false, found }
      else if (ptr + gcPtrSize) % 2 ^ 64 < stop then
        if load64 m ptr = ptrHeader then some { k with header := true }
        else some { k with cursor := next }
      else some { k with cursor := none }

/-- Where a thread stands. Outside of a call it has what the last one has returned. -/
inductive Pc where
  | idle (result : Option (List Nat))
  | lockShared (c : Call)
  | test (c : Call)
  | storeStart (c : Call)
  | storeEnd (c : Call)
  | unlockShared (c : Call) (existingRecord : Bool)
  | lockInsert (c : Call)
  | insert (c : Call)
  | unlockInsert (c : Call)
  | lockScan (c : Call)
  | scan (c : Call) (k : Scan)
  | unlockScan (totalLocalRoots : List Nat)
  | lockResult (totalLocalRoots : List Nat)
  | unlockResult (totalLocalRoots : List Nat)

/-- How the thread owns the mutex. -/
def Pc.mode : Pc → Mode
  | .test _ | .storeStart _ | .storeEnd _ | .unlockShared _ _ | .unlockResult _ => .shared
  | .insert _ | .unlockInsert _ | .scan _ _ | .unlockScan _ => .exclusive
  | .idle _ | .lockShared _ | .lockInsert _ | .lockScan _ | .lockResult _ => .none

structure Sys where
  mem : Memory
  roots : GCRoots
  mutex : SharedMutex ThreadId
  threads : ThreadId → Pc

inductive Action where
  | write (mem : Memory)
  | call (t : ThreadId) (c : Call)
  | step (t : ThreadId)
  | read (t : ThreadId)

/-- What follows `update_stack_range`. -/
def afterUpdate (c : Call) : Pc := if c.roots then .lockScan c else .idle none

namespace Sys

def setThread (s : Sys) (t : ThreadId) (pc : Pc) : Sys :=
  { s with threads := Function.update s.threads t pc }

def setRange (s : Sys) (t : ThreadId) (range : Nat × Nat) : Sys :=
  { s with roots := { s.roots with stackRanges := s.roots.stackRanges.insert t range } }

/-- The next step of a thread. `none` is a wait for the mutex, or for the end of a scan. -/
def stepThread (s : Sys) (t : ThreadId) : Option Sys :=
  match s.threads t with
  | .idle _ => none
  | .lockShared c =>
      (s.mutex.lockShared t).map fun mutex => { s with mutex }.setThread t (.test c)
  | .test c =>
      match s.roots.stackRanges.lookup t with
      | some (stackStart, stackEnd) =>
          if c.basePtr ≤ stackStart ∧ c.sp = stackEnd then
            some (s.setThread t (.unlockShared c true))
          else some (s.setThread t (.storeStart c))
      | none => some (s.setThread t (.unlockShared c false))
  | .storeStart c => do
      let (stackStart, stackEnd) ← s.roots.stackRanges.lookup t
      some ((s.setRange t (max stackStart c.basePtr, stackEnd)).setThread t (.storeEnd c))
  | .storeEnd c => do
      let (stackStart, _) ← s.roots.stackRanges.lookup t
      some ((s.setRange t (stackStart, c.sp)).setThread t (.unlockShared c true))
  | .unlockShared c existingRecord =>
      let pc := if existingRecord then afterUpdate c else .lockInsert c
      some ({ s with mutex := s.mutex.unlockShared t }.setThread t pc)
  | .lockInsert c => (s.mutex.lock t).map fun mutex => { s with mutex }.setThread t (.insert c)
  | .insert c =>
      let stackRanges := AssocMap.emplace t (c.basePtr, c.sp) s.roots.stackRanges
      some ({ s with roots := { s.roots with stackRanges } }.setThread t (.unlockInsert c))
  | .unlockInsert c => some ({ s with mutex := s.mutex.unlock }.setThread t (afterUpdate c))
  | .lockScan c =>
      (s.mutex.lock t).map fun mutex =>
        { s with mutex }.setThread t (.scan c (.start s.roots.stackRanges))
  | .scan _ k =>
      if k.rest = [] ∧ k.cursor = none then some (s.setThread t (.unlockScan k.found)) else none
  | .unlockScan totalLocalRoots =>
      some ({ s with mutex := s.mutex.unlock }.setThread t (.lockResult totalLocalRoots))
  | .lockResult totalLocalRoots =>
      (s.mutex.lockShared t).map fun mutex =>
        { s with mutex }.setThread t (.unlockResult totalLocalRoots)
  | .unlockResult totalLocalRoots =>
      some ({ s with mutex := s.mutex.unlockShared t }.setThread t
        (.idle (some (s.roots.globalRoots ++ totalLocalRoots))))

/-- The next step of a thread in its scan. -/
def readThread (s : Sys) (t : ThreadId) : Option Sys :=
  match s.threads t with
  | .scan c k => (k.read s.mem s.roots.stackRanges).map fun k => s.setThread t (.scan c k)
  | _ => none

def initial (globalRoots : List Nat) (mem : Memory) : Sys where
  mem := mem
  roots := { globalRoots, stackRanges := ∅ }
  mutex := .free
  threads := fun _ => .idle none

end Sys

def step : Action → Sys → Option Sys
  | .write mem, s => some { s with mem }
  | .call t c, s =>
      match s.threads t with
      | .idle _ => some (s.setThread t (.lockShared c))
      | _ => none
  | .step t, s => s.stepThread t
  | .read t, s => s.readThread t

/-! ### The updates as events -/

/-- The step in which the update that a call begins with takes effect. -/
def emits : Action → Sys → List ScanEvent
  | .write mem, _ => [.write mem]
  | .call _ _, _ => []
  | .step t, s =>
      match s.threads t with
      | .test c =>
          match s.roots.stackRanges.lookup t with
          | some (stackStart, stackEnd) =>
              if c.basePtr ≤ stackStart ∧ c.sp = stackEnd then
                [.updateStackRange t c.basePtr c.sp]
              else []
          | none => []
      | .storeEnd c | .insert c => [.updateStackRange t c.basePtr c.sp]
      | _ => []
  | .read _, _ => []

/-- The events of a run, each when it takes place. -/
def happened (globalRoots : List Nat) (mem : Memory) (actions : List Action) : List ScanEvent :=
  Machine.outputs step emits actions (Sys.initial globalRoots mem)

/-- The event that a thread asks for. -/
def Action.events (t : ThreadId) : Action → List ScanEvent
  | .call u c => if u = t then [.updateStackRange t c.basePtr c.sp] else []
  | _ => []

def ofThread (t : ThreadId) : ScanEvent → Bool
  | .write _ => false
  | .updateStackRange u _ _ | .getRoots u _ _ => u == t

def Action.isStepOf (t : ThreadId) : Action → Bool
  | .step u => u == t
  | _ => false

def Action.isReadOf (t : ThreadId) : Action → Bool
  | .read u => u == t
  | _ => false

def Action.isCallOf (t : ThreadId) : Action → Bool
  | .call u _ => u == t
  | _ => false

/-- How many reads the scan of a stack takes at most: two for each slot, and one at each end. -/
def stackReads (ranges : StackRanges) (id : ThreadId) : Nat :=
  match ranges.lookup id with
  | some (stackStart, stackEnd) => (stackStart + 1 - (stackEnd - redZoneSize)) / 4 + 2
  | none => 0

def scanReads (ranges : StackRanges) : Nat := (ranges.keys.map (stackReads ranges)).sum

/-- The slots of the stacks, as the table has them. -/
def Swept (ranges : StackRanges) (a : Nat) : Prop :=
  ∃ id stackStart stackEnd, ranges.lookup id = some (stackStart, stackEnd) ∧
    8 ∣ a ∧ stackEnd - redZoneSize ≤ a ∧ a + gcPtrSize ≤ stackStart

end Gcpp.RootsLock
