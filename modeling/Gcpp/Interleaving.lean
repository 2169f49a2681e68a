import Gcpp.Concurrent
import Gcpp.HeapRun

/-!
# What an interleaving has to respect

Four things can go wrong while a collection runs, each with a step that does it: the spaces are
flipped back under an allocation that has reserved its block, an object is registered in the space
that is being left after the task has passed its root slot, a pointer into that space is stored in
such a slot, or a copy finds no room. A step is careful if it is none of these.
-/

namespace Gcpp.Concurrent

open ByteMemory

variable {cfg : Config} {roots : RootSlots cfg}

namespace Sys

/-- A task will still test the slot: it has not started, or has the slot before it. -/
def WillTest (s : Sys roots) (slot : Nat) : Prop :=
  s.tasks ≠ [] ∨ ∃ r, s.worker = some r ∧ (slot ∈ r.roots ∨ slot ∈ r.stack)

/-- The running task has copied the object. -/
def Forwarded (s : Sys roots) (ptr : FatPtr) : Prop := ∃ r, s.worker = some r ∧ ptr ∈ r.visited

/-- No allocation has a block reserved in the space that becomes the current one. -/
def FlipInTime (s : Sys roots) : Prop :=
  ∀ t req index, s.threads t ≠ .reserved req s.heap.spaceNum.flip index

/-- The block lies in the current space, or the slot for it is still to be tested. -/
def RegisterInTime (s : Sys roots) (req : Request roots) (space : SpaceNum) : Prop :=
  space = s.heap.spaceNum ∨ s.WillTest req.slot

/-- The pointer is none into the heap, or the object is still there or copied, and it lies in the
current space or the slot for it is still to be tested. -/
def StoreInTime (s : Sys roots) (dst : Nat) (value : FatPtr) : Prop :=
  contains cfg value.asPtr = false ∨
    ((value ∈ s.heap.metadata ∨ s.Forwarded value) ∧
      (findSpace cfg value.asPtr = some s.heap.spaceNum ∨ s.WillTest dst))

end Sys

/-- There is room for a copy, and a byte more. -/
def HasRoom (cfg : Config) (s : State) (toSpace : SpaceNum) (data : MetaData) : Prop :=
  ∃ padding, calcAlignmentBytes (cfg.base toSpace + s.nexts toSpace) data.alignment = some padding ∧
    s.nexts toSpace + data.size + padding < cfg.heapSize

def CarefulThread (s : Sys roots) : Thread roots → Prop
  | .reserved req space _ => s.RegisterInTime req space
  | .collect neededSpace _ .lock => s.Flips neededSpace → s.FlipInTime
  | .assign dst value => s.StoreInTime dst value
  | _ => True

def CarefulTask (cfg : Config) (s : State) (r : Running) : Prop :=
  match r.stage with
  | .reserve _ _ oldData => HasRoom cfg s r.toSpace oldData
  | _ => True

def Careful (s : Sys roots) : Action roots → Prop
  | .step t => CarefulThread s (s.threads t)
  | .worker => ∀ r, s.worker = some r → CarefulTask cfg s.heap r
  | _ => True

/-! ### Kinds of actions -/

def Action.Allocates : Action roots → Prop
  | .alloc _ _ => True
  | _ => False

def Action.Assigns : Action roots → Prop
  | .load _ _ _ => True
  | .clear _ => True
  | _ => False

/-! ### Where a run starts -/

/-- No operation is under way, the objects lie apart below the bump index of the current space, and
a root slot refers to no other address of the heap. A new collector is like this as long as no root
slot refers into its spaces. -/
structure Steady (s : Sys roots) : Prop where
  idle : ∀ t, s.threads t = .idle
  quiet : s.Quiet
  ready : s.resultReady = true
  succeeded : s.failures = []
  pos : ∀ {ptr data}, s.heap.metadata.lookup ptr = some data → 0 < data.size
  lo : ∀ {ptr data}, s.heap.metadata.lookup ptr = some data →
    cfg.base s.heap.spaceNum ≤ ptr.asPtr
  hi : ∀ {ptr data}, s.heap.metadata.lookup ptr = some data →
    ptr.asPtr + data.size ≤ cfg.base s.heap.spaceNum + s.heap.nexts s.heap.spaceNum
  nextLe : s.heap.nexts s.heap.spaceNum ≤ cfg.heapSize
  apart : ∀ p dp q dq, s.heap.metadata.lookup p = some dp → s.heap.metadata.lookup q = some dq →
    p ≠ q → p.asPtr + dp.size ≤ q.asPtr ∨ q.asPtr + dq.size ≤ p.asPtr
  held : ∀ slot ∈ roots.slots, ∀ ptr, testPtr s.heap.mem slot = some ptr →
    contains cfg ptr.asPtr = true → ptr ∈ s.heap.metadata

def Sys.initial (roots : RootSlots cfg) (mem : Memory) : Sys roots where
  heap := State.initial mem
  threads := fun _ => .idle
  tasks := []
  worker := none
  collectResult := none
  finished := 0
  failures := []

/-! ### A collector to look at -/

/-- Two root slots, far below the spaces. -/
def sampleRoots : RootSlots Config.sample where
  slots := [1024, 2048]
  apart := by
    intro slot hslot space
    have hbelow : ∀ slot ∈ [1024, 2048], slot + gcPtrSize ≤ 65536 := by decide
    have hle := hbelow slot hslot
    cases space with
    | zero => exact Or.inl hle
    | one => exact Or.inl (hle.trans (by decide))
  disjoint := by decide

def firstSlot : sampleRoots.Slot := ⟨1024, by decide⟩
def secondSlot : sampleRoots.Slot := ⟨2048, by decide⟩

/-- A new collector, with null in both root slots. -/
def sampleStart : Sys sampleRoots :=
  .initial sampleRoots
    (writeFatPtr (writeFatPtr (fun _ => 0) 1024 (FatPtr.ofAddr 0)) 2048 (FatPtr.ofAddr 0))

theorem steady_sampleStart : Steady sampleStart where
  idle := fun _ => rfl
  quiet := ⟨rfl, rfl⟩
  ready := rfl
  succeeded := rfl
  pos := fun hdata => by cases hdata
  lo := fun hdata => by cases hdata
  hi := fun hdata => by cases hdata
  nextLe := Nat.zero_le _
  apart := fun _ _ _ _ hp => by cases hp
  held := by
    intro slot hslot ptr hptr hcontains
    have hnull : ∀ slot ∈ [1024, 2048],
        testPtr sampleStart.heap.mem slot = some (FatPtr.ofAddr 0) := by
      decide
    rw [hnull slot hslot] at hptr
    cases hptr
    exact absurd hcontains (by decide)

/-- The second root slot holds an object of 8 bytes. -/
def sampleFilled : Sys sampleRoots :=
  let ptr := FatPtr.ofAddr 65536
  { sampleStart with
    heap :=
      { nexts := fun space => if space = .zero then 8 else 0
        spaceNum := .zero
        metadata := AssocMap.emplace ptr { size := 8, alignment := 8 } ∅
        mem := writeFatPtr sampleStart.heap.mem 2048 ptr } }

theorem steady_sampleFilled : Steady sampleFilled := by
  have hlookup : ∀ {ptr data}, sampleFilled.heap.metadata.lookup ptr = some data →
      ptr = FatPtr.ofAddr 65536 ∧ data = { size := 8, alignment := 8 } := by
    intro ptr data hdata
    change (AssocMap.emplace _ _ ∅).lookup ptr = some data at hdata
    rw [AssocMap.lookup_emplace rfl] at hdata
    split at hdata
    · rename_i hptr
      cases hdata
      exact ⟨hptr, rfl⟩
    · cases hdata
  refine
    { idle := fun _ => rfl
      quiet := ⟨rfl, rfl⟩
      ready := rfl
      succeeded := rfl
      pos := fun hdata => ?_
      lo := fun hdata => ?_
      hi := fun hdata => ?_
      nextLe := by decide
      apart := fun p _ q _ hp hq hne => absurd ((hlookup hp).1.trans (hlookup hq).1.symm) hne
      held := ?_ }
  · obtain ⟨rfl, rfl⟩ := hlookup hdata
    decide
  · obtain ⟨rfl, rfl⟩ := hlookup hdata
    decide
  · obtain ⟨rfl, rfl⟩ := hlookup hdata
    decide
  · intro slot hslot ptr hptr hcontains
    have hslots : ∀ slot ∈ [1024, 2048],
        testPtr sampleFilled.heap.mem slot = some (FatPtr.ofAddr 0) ∨
          testPtr sampleFilled.heap.mem slot = some (FatPtr.ofAddr 65536) := by
      decide +kernel
    rcases hslots slot hslot with hnull | hheld
    · rw [hnull] at hptr
      cases hptr
      exact absurd hcontains (by decide)
    · rw [hheld] at hptr
      cases hptr
      decide

end Gcpp.Concurrent
