import Gcpp.Interleaving

/-!
# Writes during a collection

A thread writes to an object in two steps: it loads the root slot, and it stores at the address that
it has loaded. Any number of threads do so while the task of one collection runs, and any time may
pass between the two steps.
-/

namespace Gcpp

open ByteMemory

/-- The object that a slot holds. -/
def State.objectAt (s : State) (slot : Nat) : Option (FatPtr × MetaData) :=
  (testPtr s.mem slot).bind fun ptr => (s.metadata.lookup ptr).map fun data => (ptr, data)

namespace Concurrent

variable {cfg : Config} {roots : RootSlots cfg}

/-- `loaded` has the slot that a thread has loaded last and the pointer that it has found there, and
`written` the bytes of every object as the program has written them last. Objects go by the pointers
to them when the collection starts. No step depends on `written`. -/
structure WriteSys (roots : RootSlots cfg) where
  sys : Sys roots
  loaded : ThreadId → Option (roots.Slot × FatPtr)
  written : FatPtr → Memory

inductive WriteAction (roots : RootSlots cfg) where
  | load (t : ThreadId) (slot : roots.Slot)
  | store (t : ThreadId) (offset width value : Nat)
  | worker

namespace WriteSys

/-- A collection has been started, and its task is queued. -/
def start (s : Sys roots) : WriteSys roots where
  sys := s.asyncCollect
  loaded := fun _ => none
  written := fun obj i => s.heap.mem (obj.asPtr + i)

def setMem (w : WriteSys roots) (mem : Memory) : WriteSys roots :=
  { w with sys := { w.sys with heap := { w.sys.heap with mem } } }

def load (w : WriteSys roots) (t : ThreadId) (slot : roots.Slot) : Option (WriteSys roots) :=
  (atomicLoad w.sys.heap.mem slot).map fun ptr =>
    { w with loaded := Function.update w.loaded t (some (slot, ptr)) }

/-- A word inside the object is written. -/
def store (origin : State) (w : WriteSys roots) (t : ThreadId) (offset width value : Nat) :
    Option (WriteSys roots) :=
  match w.loaded t with
  | none => none
  | some (slot, ptr) =>
      match origin.objectAt slot with
      | none => none
      | some (obj, data) =>
          if width ≤ 8 ∧ offset + width ≤ data.size then
            some { w.setMem (ByteMemory.store w.sys.heap.mem (ptr.asPtr + offset) value width) with
              written := Function.update w.written obj
                (ByteMemory.store (w.written obj) offset value width) }
          else none

/-- The collection has come to its end, and not by an exception. -/
structure Finished (w : WriteSys roots) : Prop where
  quiet : w.sys.Quiet
  succeeded : w.sys.failures = []

end WriteSys

/-- `origin` is the heap when the collection starts. -/
def writeStep (origin : State) : WriteAction roots → WriteSys roots → Option (WriteSys roots)
  | .load t slot, w => w.load t slot
  | .store t offset width value, w => w.store origin t offset width value
  | .worker, w => w.sys.stepWorker.map fun sys => { w with sys }

/-- What is read through a root slot is what the program has written last. -/
def DataKept (origin : State) (w : WriteSys roots) : Prop :=
  ∀ slot ∈ roots.slots, ∀ obj data, origin.objectAt slot = some (obj, data) →
    ∃ ptr, atomicLoad w.sys.heap.mem slot = some ptr ∧
      ∀ i < data.size, w.sys.heap.mem (ptr.asPtr + i) = w.written obj i

/-- Where the task has copied a byte of an object to that it has not yet erased. -/
def Stage.copied : Stage → FatPtr → Nat → Option FatPtr
  | .words _ ptrVal _ newObj done, ptr, i =>
      if ptr = ptrVal ∧ i < done then some newObj else none
  | .exchange _ ptrVal newObj, ptr, _ => if ptr = ptrVal then some newObj else none
  | .erase ptrVal newObj, ptr, _ => if ptr = ptrVal then some newObj else none
  | _, _, _ => none

/-- A store is not too late: the object it goes to is still registered, and the bytes are none that
the task has already copied from there. -/
def Lands (w : WriteSys roots) : WriteAction roots → Prop
  | .store t offset width _ => ∀ held ∈ w.loaded t, held.2 ∈ w.sys.heap.metadata ∧
      ∀ r ∈ w.sys.worker, ∀ i < width, r.stage.copied held.2 (offset + i) = none
  | _ => True

instance (w : WriteSys roots) : ∀ a : WriteAction roots, Decidable (Lands w a)
  | .load _ _ => inferInstanceAs (Decidable True)
  | .store t offset width _ => inferInstanceAs (Decidable (∀ held ∈ w.loaded t,
      held.2 ∈ w.sys.heap.metadata ∧
        ∀ r ∈ w.sys.worker, ∀ i < width, r.stage.copied held.2 (offset + i) = none))
  | .worker => inferInstanceAs (Decidable True)

end Concurrent

end Gcpp
