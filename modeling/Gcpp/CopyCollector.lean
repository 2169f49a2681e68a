import Gcpp.SeqCstCpy
import Gcpp.Lib.AssocMap
import Gcpp.Lib.StateExcept
import Mathlib.Logic.Function.Basic

/-!
# The copying collector

`CopyingCollector` under `SerialGCPolicy`: the locks are empty, the bump indices are plain integers
and a collection runs to its end inside the call that starts it. Every function is a computation on
the collector's fields and the process memory, and keeps what it has written when it throws.
-/

namespace Gcpp

open ByteMemory

inductive SpaceNum where
  | zero
  | one
deriving DecidableEq

/-- The other space: `flip_space` xors the space number with 1. -/
def SpaceNum.flip : SpaceNum → SpaceNum
  | .zero => .one
  | .one => .zero

def pageSizeCeil (pageSize size : Nat) : Nat := (size + pageSize - 1) / pageSize * pageSize

/-- What the constructor fixes: `size` is its argument, and the spaces are two blocks of
`page_size_ceil(size)` bytes from `new(page_size_align())`. The addresses the process uses leave the
tag byte of a pointer free. -/
structure Config where
  pageSize : Nat
  size : Nat
  base : SpaceNum → Nat
  pageSize_pos : 0 < pageSize
  pageSize_dvd : 256 ∣ pageSize
  size_lt : size < ptrMask
  base_pos : ∀ space, 0 < base space
  base_aligned : ∀ space, pageSize ∣ base space
  base_lt : ∀ space, base space + pageSizeCeil pageSize size ≤ 2 ^ 56
  spaces_disjoint : base .zero + pageSizeCeil pageSize size ≤ base .one ∨
    base .one + pageSizeCeil pageSize size ≤ base .zero

namespace Config

def heapSize (cfg : Config) : Nat := pageSizeCeil cfg.pageSize cfg.size

def maxAllocSize (cfg : Config) : Nat := cfg.size / 2

end Config

/-- The fields that change, and the memory of the process. -/
structure State where
  nexts : SpaceNum → Nat
  spaceNum : SpaceNum
  metadata : AssocMap FatPtr MetaData
  mem : Memory

/-- How a call ends when it does not return: one of the exceptions, or a loop that never ends. -/
inductive Halt where
  | badAlloc
  | badOptionalAccess
  | outOfRange
  | runtimeError (what : String)
  | hang
deriving DecidableEq

abbrev GcM := EStateM Halt State

/-- The generation policy. The collector asks it whether an object is due for promotion and lets it
promote; `true` sends `forward_ptr` to its copy branch. -/
structure GenPolicy where
  needPromotion : FatPtr → Bool
  promote : FatPtr → MetaData → FatPtr

abbrev Visited := AssocMap FatPtr FatPtr

/-- The search of `calc_alignment_bytes`. Its counter is a `uint8_t`: once it has taken all 256
values it starts over, and `none` says that the search never ends. -/
def calcAlignmentLoop (curPtr alignment : Nat) : Nat → Nat → Option Nat
  | 0, _ => none
  | rounds + 1, alignmentBytes =>
      if ((curPtr + alignmentBytes) &&& ((alignment + (2 ^ 64 - 1)) % 2 ^ 64)) ≠ 0 then
        calcAlignmentLoop curPtr alignment rounds (alignmentBytes + 1)
      else some alignmentBytes

def calcAlignmentBytes (curPtr alignment : Nat) : Option Nat :=
  calcAlignmentLoop curPtr alignment 256 0

/-- The alignments that this search can serve from every address. -/
def SmallAlignment (alignment : Nat) : Prop := ∃ k ≤ 8, alignment = 2 ^ k

variable (cfg : Config)

/-- What `free_space` makes of the bump index that it has loaded. -/
def spaceLeft (next : Nat) : Nat := if next ≥ cfg.maxAllocSize then 0 else cfg.maxAllocSize - next

theorem spaceLeft_eq (next : Nat) : spaceLeft cfg next = cfg.maxAllocSize - next := by
  unfold spaceLeft
  split <;> omega

def freeSpace (s : State) : Nat := spaceLeft cfg (s.nexts s.spaceNum)

def contains (ptr : Nat) : Bool :=
  (ptr ≥ cfg.base .zero && ptr < cfg.base .zero + cfg.heapSize) ||
    (ptr ≥ cfg.base .one && ptr < cfg.base .one + cfg.heapSize)

/-- The space whose block an address lies in. -/
def findSpace (addr : Nat) : Option SpaceNum :=
  if addr ≥ cfg.base .zero ∧ addr < cfg.base .zero + cfg.heapSize then some .zero
  else if addr ≥ cfg.base .one ∧ addr < cfg.base .one + cfg.heapSize then some .one
  else none

def getSpaceNum (ptr : FatPtr) : GcM SpaceNum :=
  match findSpace cfg ptr.asPtr with
  | some space => pure space
  | none => throw (.runtimeError "Collector does not manage given ptr")

/-- `reserve_space`. Nothing else moves the bump index, so the compare-exchange succeeds the first
time. -/
def reserveSpace (size : Nat) (toSpace : SpaceNum) (alignment maxAllocSize : Nat) :
    GcM (Option Nat) := do
  let s ← get
  let next := s.nexts toSpace
  match calcAlignmentBytes (cfg.base toSpace + next) alignment with
  | none => throw .hang
  | some paddingBytes =>
      if next + size + paddingBytes > maxAllocSize then
        pure none
      else do
        set { s with nexts := Function.update s.nexts toSpace (next + size + paddingBytes) }
        pure (some (next + paddingBytes))

/-- The test that `check_overlapping_alloc` makes for one entry, the new block starting at
`addr`. -/
def overlaps (addr size : Nat) (fPtr : FatPtr) (data : MetaData) : Bool :=
  (fPtr.asPtr ≤ addr && fPtr.asPtr + data.size > addr) ||
    (addr ≤ fPtr.asPtr && addr + size > fPtr.asPtr)

/-- `check_overlapping_alloc`. The optional is unwrapped in the loop body, so an empty one throws as
soon as there is an entry to compare with. -/
def checkOverlappingAlloc (index : Option Nat) (space : SpaceNum) (size : Nat) : GcM Unit := do
  let s ← get
  if s.metadata.entries.isEmpty then
    pure ()
  else
    match index with
    | none => throw .badOptionalAccess
    | some index =>
        if s.metadata.entries.any fun e => overlaps (cfg.base space + index) size e.1 e.2 then
          throw (.runtimeError "Heap corruption")
        else pure ()

def allocNoConstraints (toSpace : SpaceNum) (metaData : MetaData) (index : Nat) : GcM FatPtr :=
  if metaData.size + index ≥ cfg.heapSize then
    throw .badAlloc
  else do
    let ptr := FatPtr.ofAddr (cfg.base toSpace + index)
    modify fun s => { s with metadata := AssocMap.emplace ptr metaData s.metadata }
    pure ptr

def metadataAt (ptr : FatPtr) : GcM MetaData := do
  let s ← get
  match s.metadata.lookup ptr with
  | some metaData => pure metaData
  | none => throw .outOfRange

/-- `copy`. The slot to update is given by its address. -/
def copy (toUpdate : Nat) (toSpace : SpaceNum) (ptr : FatPtr) : GcM FatPtr := do
  let space ← getSpaceNum cfg ptr
  if space = toSpace then
    pure ptr
  else do
    let oldData ← metadataAt ptr
    let index ← reserveSpace cfg oldData.size toSpace oldData.alignment cfg.heapSize
    checkOverlappingAlloc cfg index toSpace oldData.size
    match index with
    | none => throw .badAlloc
    | some index => do
        let newObj ← allocNoConstraints cfg toSpace oldData index
        modify fun s => { s with mem := seqCstCpy s.mem newObj.asPtr ptr.asPtr oldData.size }
        modify fun s => { s with mem := (compareExchange s.mem toUpdate ptr newObj).2 }
        modify fun s => { s with metadata := s.metadata.erase ptr }
        pure newObj

variable (policy : GenPolicy)

/-- One round of the loop in `forward_ptr`, for the slot `p` that was on top of the stack. The
result is the new stack, its top first, and the new map. -/
def forwardIter (toSpace : SpaceNum) (p : Nat) (stack : List Nat) (visited : Visited) :
    GcM (List Nat × Visited) := do
  let s ← get
  match testPtr s.mem p with
  | none => pure (stack, visited)
  | some ptrVal =>
      match visited.lookup ptrVal with
      | some forwarded => do
          set { s with mem := (compareExchange s.mem p ptrVal forwarded).2 }
          pure (stack, visited)
      | none =>
          match s.metadata.lookup ptrVal with
          | none => pure (stack, visited)
          | some metaData => do
              let space ← getSpaceNum cfg ptrVal
              if space = toSpace then
                pure (stack, visited)
              else
                match scanMemory s.mem ptrVal.asPtr (ptrVal.asPtr + metaData.size) with
                | none => throw .hang
                | some slots => do
                    let newPtr ← if policy.needPromotion ptrVal then copy cfg p toSpace ptrVal
                      else pure (policy.promote ptrVal metaData)
                    pure (slots.reverse ++ stack, AssocMap.emplace ptrVal newPtr visited)

/-- The loop of `forward_ptr`, for at most `rounds` rounds. -/
def forwardLoop (toSpace : SpaceNum) : Nat → List Nat → Visited → GcM Visited
  | _, [], visited => pure visited
  | 0, _ :: _, _ => throw .hang
  | rounds + 1, p :: stack, visited => do
      let next ← forwardIter cfg policy toSpace p stack visited
      forwardLoop toSpace rounds next.1 next.2

/-- A number of rounds that `forward_ptr` stays within: an object is scanned at most once, and holds
at most one slot for every 8 of its bytes. -/
def forwardRounds (metadata : AssocMap FatPtr MetaData) : Nat :=
  1 + AssocMap.weightSum (fun _ data => data.size / 8 + 1) metadata

def forwardPtr (toSpace : SpaceNum) (ptr : Nat) (visited : Visited) : GcM Visited := do
  let s ← get
  forwardLoop cfg policy toSpace (forwardRounds s.metadata) [ptr] visited

/-- The loop of the collection over the filtered roots. The view is lazy: a root is tested when its
turn comes. -/
def forwardRoots (toSpace : SpaceNum) : List Nat → Visited → GcM Visited
  | [], visited => pure visited
  | root :: roots, visited => do
      let s ← get
      match testPtr s.mem root with
      | some ptr =>
          if contains cfg ptr.asPtr then do
            let visited ← forwardPtr cfg policy toSpace root visited
            forwardRoots toSpace roots visited
          else forwardRoots toSpace roots visited
      | none => forwardRoots toSpace roots visited

/-- The entries that the sweep collects into `to_remove`. -/
def sweepKeys (toSpace : SpaceNum) (visited : Visited) : List FatPtr → GcM (List FatPtr)
  | [] => pure []
  | ptr :: rest => do
      let space ← getSpaceNum cfg ptr
      let toRemove ← sweepKeys toSpace visited rest
      pure (if space ≠ toSpace ∧ ptr ∉ visited then ptr :: toRemove else toRemove)

def sweep (toSpace : SpaceNum) (visited : Visited) : GcM Unit := do
  let s ← get
  let toRemove ← sweepKeys cfg toSpace visited s.metadata.keys
  modify fun s => { s with metadata := AssocMap.eraseAll toRemove s.metadata }

/-- What a collection does before its task is started: flip the spaces, and restart the bump index
of the space that is left. -/
def flipSpaces (s : State) : State :=
  { s with spaceNum := s.spaceNum.flip, nexts := Function.update s.nexts s.spaceNum 0 }

/-- The task of a collection, with the roots that `GC_GET_ROOTS` found. Nothing is ever pushed to
`promoted`. -/
def collectionTask (toSpace : SpaceNum) (gcRoots extraRoots : List Nat) :
    GcM (Visited × List FatPtr) := do
  let visited ← forwardRoots cfg policy toSpace (gcRoots ++ extraRoots) ∅
  sweep cfg toSpace visited
  pure (visited, [])

/-- `async_collect`. The result is what the future holds, an exception included, together with the
local map of the task. -/
def asyncCollect (gcRoots extraRoots : List Nat) : GcM (Visited × List FatPtr) := do
  let s ← get
  set (flipSpaces s)
  collectionTask cfg policy s.spaceNum.flip gcRoots extraRoots

/-- `collect`: a collection unless there is room enough, whose future nobody reads. No earlier
collection is ever pending here. -/
def collect (gcRoots : List Nat) (neededSpace : Nat) : GcM Unit := do
  let s ← get
  if freeSpace cfg s < neededSpace then
    set (StateExcept.finalState ((asyncCollect cfg policy gcRoots []).run s))
  else pure ()

/-- The locked region at the start of `alloc_attempt`. -/
def reserveAttempt (size alignment : Nat) : GcM (SpaceNum × Option Nat) := do
  let s ← get
  let index ← reserveSpace cfg size s.spaceNum alignment cfg.maxAllocSize
  checkOverlappingAlloc cfg index s.spaceNum size
  pure (s.spaceNum, index)

/-- `alloc_attempt`, with the number of attempts that may still follow this one. -/
def allocAttempt (gcRoots : List Nat) (size alignment : Nat) : Nat → GcM FatPtr
  | 0 => do
      let reserved ← reserveAttempt cfg size alignment
      match reserved.2 with
      | none => throw .badAlloc
      | some index => allocNoConstraints cfg reserved.1 { size, alignment } index
  | retries + 1 => do
      let reserved ← reserveAttempt cfg size alignment
      match reserved.2 with
      | none => do
          collect cfg policy gcRoots size
          allocAttempt gcRoots size alignment retries
      | some index => allocNoConstraints cfg reserved.1 { size, alignment } index

/-- `alloc`. A collection that it performs finds the roots `gcRoots`. -/
def alloc (gcRoots : List Nat) (size alignment : Nat) : GcM FatPtr :=
  if size = 0 ∨ size > cfg.maxAllocSize then throw .badAlloc
  else allocAttempt cfg policy gcRoots size alignment 1

end Gcpp
