import Gcpp.MemProt

/-!
# The table of heaps, used by several threads

The threads of a process construct their collectors at the same time, and faults come in between.
Nothing but the counter is atomic, so the calls of `register_heap` and of the handler go step by step
here: each step is one access to the counter or to one half of an entry, or a call of `sigaction`,
and they take effect in the order in which they are made. The assignment to an entry writes its start
first. Both calls of `sigaction` stand in an `assert`, so a build without assertions makes neither.
-/

namespace Gcpp.SharedRegistry

/-- Where a thread stands: outside of the two functions, in `register_heap`, or in the handler. An
abort is the end. -/
inductive Pc where
  | idle
  | search (range : HeapRange) (i : Nat)
  | compareStart (range : HeapRange) (i : Nat)
  | compareEnd (range : HeapRange) (i : Nat)
  | reserve (range : HeapRange)
  | storeStart (range : HeapRange) (idx : Fin 128)
  | storeEnd (range : HeapRange) (idx : Fin 128)
  | query (range : HeapRange) (idx : Fin 128)
  | install (range : HeapRange) (idx : Fin 128)
  | loadCount (addr : Nat)
  | testStart (addr heapCounts i : Nat)
  | testEnd (addr heapCounts i : Nat)
  | aborted (addr : Nat)

/-- `asserts` tells whether the build has assertions, `installed` whether `segfault_handler` is the
handler of SIGSEGV. -/
structure Sys where
  registry : HeapRegistry
  threads : Nat → Pc
  asserts : Bool
  installed : Bool

inductive Action where
  | register (t start len : Nat)
  | fault (t addr : Nat)
  | step (t : Nat)

/-- One half of an entry is written. -/
def setStart (r : HeapRegistry) (idx : Fin 128) (start : Nat) : HeapRegistry :=
  { r with heaps := r.heaps.set idx (start, (r.heaps.get idx).2) }

def setEnd (r : HeapRegistry) (idx : Fin 128) (stop : Nat) : HeapRegistry :=
  { r with heaps := r.heaps.set idx ((r.heaps.get idx).1, stop) }

namespace Sys

def setThread (s : Sys) (t : Nat) (pc : Pc) : Sys :=
  { s with threads := Function.update s.threads t pc }

/-- `is_segfault_handler_registered`. -/
def isSegfaultHandlerRegistered (s : Sys) : Bool := s.asserts && s.installed

/-- The next step of a thread. `none` is a read behind the end of the table, for a thread that is in
one of the functions. The exception of `at` leaves `register_heap` without an entry. -/
def stepThread (s : Sys) (t : Nat) : Option Sys :=
  match s.threads t with
  | .idle => none
  | .search range i =>
      some (s.setThread t (if i < s.registry.count then .compareStart range i else .reserve range))
  | .compareStart range i =>
      s.registry.heaps[i]?.map fun heap =>
        s.setThread t (if heap.1 = range.1 then .compareEnd range i else .search range (i + 1))
  | .compareEnd range i =>
      s.registry.heaps[i]?.map fun heap =>
        s.setThread t (if heap.2 = range.2 then .idle else .search range (i + 1))
  | .reserve range =>
      let idx := s.registry.count
      some ({ s with registry := { s.registry with count := idx + 1 } }.setThread t
        (if h : idx < 128 then .storeStart range ⟨idx, h⟩ else .idle))
  | .storeStart range idx =>
      some ({ s with registry := setStart s.registry idx range.1 }.setThread t
        (.storeEnd range idx))
  | .storeEnd range idx =>
      some ({ s with registry := setEnd s.registry idx range.2 }.setThread t (.query range idx))
  | .query range idx =>
      some (s.setThread t (if s.isSegfaultHandlerRegistered then .idle else .install range idx))
  | .install _ _ => some ({ s with installed := s.asserts || s.installed }.setThread t .idle)
  | .loadCount addr => some (s.setThread t (.testStart addr s.registry.count 0))
  | .testStart addr heapCounts i =>
      if i < heapCounts then
        s.registry.heaps[i]?.map fun heap =>
          s.setThread t (if addr ≥ heap.1 then .testEnd addr heapCounts i
            else .testStart addr heapCounts (i + 1))
      else some (s.setThread t (.aborted addr))
  | .testEnd addr heapCounts i =>
      s.registry.heaps[i]?.map fun heap =>
        s.setThread t (if addr < heap.2 then .idle else .testStart addr heapCounts (i + 1))
  | .aborted _ => none

def initial (asserts : Bool) : Sys where
  registry := .empty
  threads := fun _ => .idle
  asserts := asserts
  installed := false

end Sys

/-- A fault without the handler ends the process. -/
def step : Action → Sys → Option Sys
  | .register t start len, s =>
      match s.threads t with
      | .idle => some (s.setThread t (.search (heapRange start len) 0))
      | _ => none
  | .fault t addr, s =>
      match s.threads t with
      | .idle => some (s.setThread t (if s.installed then .loadCount addr else .aborted addr))
      | _ => none
  | .step t, s => s.stepThread t

/-! ### What the calls are about -/

def Action.asked : Action → List HeapRange
  | .register _ start len => [heapRange start len]
  | _ => []

/-- The heap that an action is the last step of a call for: the call finds it or has stored it. -/
def returns : Action → Sys → List HeapRange
  | .step t, s =>
      match s.threads t with
      | .compareEnd range i =>
          match s.registry.heaps[i]? with
          | some heap => if heap.2 = range.2 then [range] else []
          | none => []
      | .query range _ => if s.isSegfaultHandlerRegistered then [range] else []
      | .install range _ => [range]
      | _ => []
  | _, _ => []

/-- The heaps that calls have returned for in a run. -/
def registered (asserts : Bool) (actions : List Action) : List HeapRange :=
  Machine.outputs step returns actions (.initial asserts)

end Gcpp.SharedRegistry
