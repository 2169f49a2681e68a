import Gcpp.Lib.Machine
import Mathlib.Data.Vector.Basic
import Mathlib.Logic.Function.Basic

/-!
# Memory protection

The table of registered heaps, which the handler of SIGSEGV goes through, and the objects that
restrict the protection of the pages of a region for as long as they are locked.
-/

namespace Gcpp

/-! ### The registered heaps -/

/-- A heap: its start, and the address behind its end. -/
abbrev HeapRange := Nat × Nat

/-- `g_heaps` and `g_heap_count`. -/
structure HeapRegistry where
  heaps : Vector HeapRange 128
  count : Nat

def HeapRegistry.empty : HeapRegistry where
  heaps := Vector.replicate 128 (0, 0)
  count := 0

/-- The loops over the first `rounds` entries from `i` on: whether one of them passes the test. The
entries are read without a check, and `none` is a read behind the end of the table. -/
def anyHeap (heaps : Vector HeapRange 128) (test : HeapRange → Bool) : Nat → Nat → Option Bool
  | 0, _ => some false
  | rounds + 1, i =>
      match heaps[i]? with
      | none => none
      | some heap => if test heap then some true else anyHeap heaps test rounds (i + 1)

/-- How a call of `register_heap` ends; `undefined` stands for the read behind the table. -/
inductive RegisterEnd where
  | returned
  | outOfRange
  | undefined
deriving DecidableEq

def heapRange (start len : Nat) : HeapRange := (start, (start + len) % 2 ^ 64)

/-- `register_heap`. The counter is incremented before `at` checks the index. -/
def registerHeap (r : HeapRegistry) (start len : Nat) : RegisterEnd × HeapRegistry :=
  match anyHeap r.heaps (· == heapRange start len) r.count 0 with
  | none => (.undefined, r)
  | some true => (.returned, r)
  | some false =>
      if h : r.count < 128 then
        (.returned, { heaps := r.heaps.set r.count (heapRange start len), count := r.count + 1 })
      else (.outOfRange, { r with count := r.count + 1 })

/-- `segfault_handler`: whether it returns, or else aborts. -/
def segfaultHandler (r : HeapRegistry) (addr : Nat) : Option Bool :=
  anyHeap r.heaps (fun heap => addr ≥ heap.1 && addr < heap.2) r.count 0

/-! ### Protected regions -/

inductive ProtectionMode where
  | readOnly
  | writeOnly
  | readWrite
deriving DecidableEq

/-- The fields of a `RegionProtection`. A null start is 0. -/
structure RegionProtection where
  regionStart : Nat
  regionSize : Nat
  oldProt : ProtectionMode
  newProt : ProtectionMode
  locked : Bool
deriving DecidableEq

/-- A call of `mprotect`. -/
structure Mprotect where
  start : Nat
  size : Nat
  mode : ProtectionMode
deriving DecidableEq

/-- The protection of every page, the objects that are alive, and the calls of `mprotect` so far. -/
structure Regions where
  pages : Nat → ProtectionMode
  objects : Nat → Option RegionProtection
  calls : List Mprotect

def Regions.initial : Regions where
  pages := fun _ => .readWrite
  objects := fun _ => none
  calls := []

variable (pageSize : Nat)

def pageAlignedFloor (addr : Nat) : Nat := addr / pageSize * pageSize

/-- The page has a byte in common with the region. -/
def Overlaps (start size page : Nat) : Prop :=
  page * pageSize < start + size ∧ start < (page + 1) * pageSize

instance (start size page : Nat) : Decidable (Overlaps pageSize start size page) :=
  inferInstanceAs (Decidable (_ ∧ _))

namespace Regions

/-- `mprotect` does not fail, and acts on whole pages. -/
def mprotect (s : Regions) (start size : Nat) (mode : ProtectionMode) : Regions :=
  { s with
    pages := fun page => if Overlaps pageSize start size page then mode else s.pages page
    calls := s.calls ++ [{ start, size, mode }] }

def setObject (s : Regions) (id : Nat) (o : Option RegionProtection) : Regions :=
  { s with objects := Function.update s.objects id o }

/-- `RegionProtection::lock`, for the object `o` with the given id. -/
def lockObject (s : Regions) (id : Nat) (o : RegionProtection) : Regions :=
  if o.regionStart ≠ 0 then
    let s := if o.locked then s else s.mprotect pageSize o.regionStart o.regionSize o.newProt
    s.setObject id (some { o with locked := true })
  else s

/-- `RegionProtection::unlock`. -/
def unlockObject (s : Regions) (id : Nat) (o : RegionProtection) : Regions :=
  if o.regionStart ≠ 0 then
    let s := if o.locked then s.mprotect pageSize o.regionStart o.regionSize o.oldProt else s
    s.setObject id (some { o with locked := false })
  else s

/-- The constructor, for the region from `start` to `stop`. -/
def construct (s : Regions) (id start stop : Nat) (mode : ProtectionMode) : Regions :=
  let o : RegionProtection :=
    { regionStart := pageAlignedFloor pageSize start
      regionSize := stop - pageAlignedFloor pageSize start
      oldProt := .readWrite
      newProt := mode
      locked := false }
  (s.setObject id (some o)).lockObject pageSize id o

def regionReadonly (s : Regions) (id start len : Nat) : Regions :=
  s.construct pageSize id start (start + len) .readOnly

def regionWriteonly (s : Regions) (id start len : Nat) : Regions :=
  s.construct pageSize id start (start + len) .writeOnly

/-- The move constructor, from the object `o` with the id `src`. -/
def moveConstruct (s : Regions) (dst src : Nat) (o : RegionProtection) : Regions :=
  (s.setObject dst (some o)).setObject src (some { o with locked := false, regionStart := 0 })

/-- The destructor, and the end of the object. -/
def destroy (s : Regions) (id : Nat) (o : RegionProtection) : Regions :=
  (s.unlockObject pageSize id o).setObject id none

/-! ### Move assignment -/

/-- Why a move assignment does not return: an object is used that is not alive, or the calls are
nested too deep. -/
inductive AssignError where
  | notAlive
  | tooDeep
deriving DecidableEq

def object (s : Regions) (id : Nat) : Except AssignError RegionProtection :=
  match s.objects id with
  | some o => .ok o
  | none => .error .notAlive

/-- `std::swap`, for a type with the given move assignment. The ids from `top` on are free; the
first of them is the temporary object. -/
def swap (assign : Nat → Nat → Nat → Regions → Except AssignError Regions) (top a b : Nat)
    (s : Regions) : Except AssignError Regions := do
  let s := s.moveConstruct top a (← s.object a)
  let s ← assign (top + 1) a b s
  let s ← assign (top + 1) b top s
  return s.destroy pageSize top (← s.object top)

/-- `RegionProtection::operator=`, where calls of it can be nested up to the given depth. -/
def moveAssign : Nat → Nat → Nat → Nat → Regions → Except AssignError Regions
  | 0, _, _, _, _ => .error .tooDeep
  | depth + 1, top, this, other, s => do
      let s := s.moveConstruct top other (← s.object other)
      let s ← s.swap pageSize (moveAssign depth) (top + 1) this top
      return s.destroy pageSize top (← s.object top)

end Regions

/-! ### Runs -/

/-- What a program can do with protections. -/
inductive RegionAction where
  | regionReadonly (id start len : Nat)
  | regionWriteonly (id start len : Nat)
  | move (dst src : Nat)
  | lock (id : Nat)
  | unlock (id : Nat)
  | destroy (id : Nat)

/-- An object is constructed under an id that is not in use, and only objects that are alive are
used. -/
def Regions.step : RegionAction → Regions → Option Regions
  | .regionReadonly id start len, s =>
      match s.objects id with
      | none => some (s.regionReadonly pageSize id start len)
      | some _ => none
  | .regionWriteonly id start len, s =>
      match s.objects id with
      | none => some (s.regionWriteonly pageSize id start len)
      | some _ => none
  | .move dst src, s =>
      match s.objects dst, s.objects src with
      | none, some o => some (s.moveConstruct dst src o)
      | _, _ => none
  | .lock id, s => (s.objects id).map (s.lockObject pageSize id)
  | .unlock id, s => (s.objects id).map (s.unlockObject pageSize id)
  | .destroy id, s => (s.objects id).map (s.destroy pageSize id)

/-! ### What the program has asked for -/

/-- The bytes that an object has been constructed for, as they have been passed, the mode, and
whether they have been unlocked since. -/
structure Region where
  start : Nat
  len : Nat
  mode : ProtectionMode
  locked : Bool
deriving DecidableEq

/-- What happens to the regions that the objects stand for. A move hands the region over. -/
def RegionAction.grant : RegionAction → (Nat → Option Region) → Nat → Option Region
  | .regionReadonly id start len, given =>
      Function.update given id (some { start, len, mode := .readOnly, locked := true })
  | .regionWriteonly id start len, given =>
      Function.update given id (some { start, len, mode := .writeOnly, locked := true })
  | .move dst src, given => Function.update (Function.update given dst (given src)) src none
  | .lock id, given =>
      Function.update given id ((given id).map fun r => { r with locked := true })
  | .unlock id, given =>
      Function.update given id ((given id).map fun r => { r with locked := false })
  | .destroy id, given => Function.update given id none

/-- The objects and the pages, and beside them the regions that the objects stand for. Nothing that
the code computes goes into the latter. -/
structure RegionsRun where
  regions : Regions
  given : Nat → Option Region

def RegionsRun.initial : RegionsRun where
  regions := .initial
  given := fun _ => none

def RegionsRun.step (action : RegionAction) (w : RegionsRun) : Option RegionsRun :=
  (Regions.step pageSize action w.regions).map fun regions =>
    { regions, given := action.grant w.given }

/-- The page has a byte of the region. -/
def Region.Touches (r : Region) (page : Nat) : Prop :=
  ∃ addr, r.start ≤ addr ∧ addr < r.start + r.len ∧ addr / pageSize = page

/-- The pages from that of the first byte up to the end of the region, unless the first one is page 0.
An empty region has one if it does not start where a page does. -/
def Region.Covers (r : Region) (page : Nat) : Prop :=
  r.start / pageSize ≠ 0 ∧ r.start / pageSize ≤ page ∧ page * pageSize < r.start + r.len

end Gcpp
