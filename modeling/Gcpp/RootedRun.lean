import Gcpp.GcScan
import Gcpp.RootRun

/-!
# Runs in which the roots have to be found

The program of `RootRun` together with `GCRoots`: its threads report their stack ranges, as they do
at the start of every `alloc`, and what a collection is given is what `get_roots` finds at that
moment. The rest of the process writes wherever it likes, except to the objects and to the root
slots.
-/

namespace Gcpp

open ByteMemory StateExcept ObjectStore

/-- Where the stacks lie, and what `/proc/self/maps` shows. No stack and no mapped file overlaps a
block of the collector. -/
structure Surroundings (cfg : Config) where
  maps : List (List Char)
  lo : ThreadId → Nat
  hi : ThreadId → Nat
  hi_le : ∀ t, hi t + gcPtrSize ≤ 2 ^ 64
  stackApart : ∀ t space, hi t ≤ cfg.base space ∨ cfg.base space + cfg.heapSize + 8 ≤ lo t
  globalsApart : ∀ m globals, scanGlobals m maps = some globals →
    ∀ slot ∈ globals, RootApart cfg slot

variable {cfg : Config}

/-- A thread passes a base pointer of its stack and has its stack pointer there. -/
structure Surroundings.OnStack (env : Surroundings cfg) (id : ThreadId) (basePtr sp : Nat) :
    Prop where
  redZone : env.lo id + redZoneSize ≤ sp
  sp_le : sp ≤ basePtr
  base_le : basePtr ≤ env.hi id

structure Rooted where
  program : Program
  gInstance : Option GCRoots

/-- The slot is one of the global roots, or lies between the red zone of a thread and the largest
base that the thread has reported. -/
def GCRoots.Covers (roots : GCRoots) (slot : Nat) : Prop :=
  slot ∈ roots.globalRoots ∨ 8 ∣ slot ∧ ∃ t stackStart stackEnd,
    roots.stackRanges.lookup t = some (stackStart, stackEnd) ∧
      stackEnd - redZoneSize ≤ slot ∧ slot + gcPtrSize ≤ stackStart

variable (env : Surroundings cfg) (policy : GenPolicy)

/-- `GC_UPDATE_STACK_RANGE`. -/
def Rooted.report (p : Rooted) (id : ThreadId) (basePtr sp : Nat) : Option Rooted := do
  let roots ← getInstance p.gInstance p.program.heap.mem env.maps
  let ranges := updateStackRange roots.stackRanges id basePtr sp
  some { p with gInstance := some { roots with stackRanges := ranges } }

/-- `GC_GET_ROOTS`. -/
def Rooted.getRoots (p : Rooted) (id : ThreadId) (basePtr sp : Nat) :
    Option (GCRoots × List Nat) := do
  let roots ← getInstance p.gInstance p.program.heap.mem env.maps
  Gcpp.getRoots p.program.heap.mem roots id basePtr sp

/-- The steps, with the events of the object store that they are. A step of the program that does
not call the collector is a step of `ProgramStep`. -/
inductive RootedStep : Rooted → List RootEvent → Rooted → Prop
  | report (p q : Rooted) (id : ThreadId) (basePtr sp : Nat) (hstack : env.OnStack id basePtr sp)
      (hreport : p.report env id basePtr sp = some q) : RootedStep p [] q
  | elsewhere (p : Rooted) (mem : Memory)
      (hblocks : ∀ space x, cfg.base space ≤ x → x < cfg.base space + cfg.heapSize →
        mem x = p.program.heap.mem x)
      (hslots : ∀ slot ∈ p.program.roots, ∀ i < gcPtrSize,
        mem (slot + i) = p.program.heap.mem (slot + i)) :
      RootedStep p [] { p with program := { p.program with heap := { p.program.heap with mem } } }
  | program (p : Rooted) (e : RootEvent) (q : Program) (hcollect : e ≠ .collect)
      (hstep : ProgramStep cfg policy p.program e q) : RootedStep p [e] { p with program := q }
  | collect (p : Rooted) (id : ThreadId) (basePtr sp : Nat) (roots : GCRoots)
      (gcRoots : List Nat) (result : Visited × List FatPtr) (t : State)
      (hstack : env.OnStack id basePtr sp)
      (hfound : p.getRoots env id basePtr sp = some (roots, gcRoots))
      (hcovered : ∀ slot ∈ p.program.roots, roots.Covers slot)
      (hrun : (asyncCollect cfg policy gcRoots []).run p.program.heap = .ok result t) :
      RootedStep p [.collect]
        { program := { p.program with heap := t }, gInstance := some roots }

/-- A run of a process in which nothing has been allocated and no range reported yet. -/
inductive RootedRun : List RootEvent → Rooted → Prop
  | start (mem : Memory) :
      RootedRun [] { program := { heap := .initial mem, roots := [] }, gInstance := none }
  | step {events more : List RootEvent} {p q : Rooted} (hrun : RootedRun events p)
      (hstep : RootedStep env policy p more q) : RootedRun (events ++ more) q

end Gcpp
