import Gcpp.Lib.Machine
import Mathlib.Algebra.Group.Nat.Hom
import Mathlib.Logic.Function.Basic

/-!
# Safe pointers to arrays

`SafePtr<T[]>` keeps a pointer and a length, in two fields. An array that is pointed to stays alive,
so the arrays are a list that only grows, and a pointer is an index into it.
-/

namespace Gcpp

/-- What becomes of `new (place) T[size]` if the elements do not fit into the address space. The
language has it yield a null pointer, as that allocation function does not throw, but compilers also
throw, or go on with the place. -/
inductive OversizedNew where
  | null
  | throws
  | unchecked
deriving DecidableEq

/-- The element type, with its size and its default value, the compiler, and the largest allocation
of the collector. -/
structure ArrayEnv (α : Type) where
  elemSize : Nat
  elemSize_pos : 0 < elemSize
  fill : α
  oversized : OversizedNew
  maxAllocSize : Nat

/-- The two fields; `none` is the null pointer. -/
structure SafeArray where
  ptr : Option Nat
  size : Nat
deriving DecidableEq

inductive ArrayError where
  | badAlloc
  | badArrayNewLength
  | outOfRange
  | undefined
deriving DecidableEq

/-- The arrays that have been allocated, and the safe pointers that are alive. -/
structure ArrayStore (α : Type) where
  arrays : List (List α)
  vars : Nat → Option SafeArray

def ArrayStore.initial {α : Type} : ArrayStore α where
  arrays := []
  vars := fun _ => none

variable {α : Type} (env : ArrayEnv α)

namespace ArrayStore

def setVar (s : ArrayStore α) (x : Nat) (v : SafeArray) : ArrayStore α :=
  { s with vars := Function.update s.vars x (some v) }

/-! ### Allocation -/

/-- The bytes that are asked for, in the arithmetic of `size_t`. -/
def allocBytes (size : Nat) : Nat := env.elemSize * size % 2 ^ 64

/-- `GC::alloc` throws, for one of the bounds that it checks or because there is not enough room. -/
def AllocThrows (size : Nat) (enough : Bool) : Prop :=
  allocBytes env size = 0 ∨ env.maxAllocSize < allocBytes env size ∨ enough = false

instance (size : Nat) (enough : Bool) : Decidable (AllocThrows env size enough) :=
  inferInstanceAs (Decidable (_ ∨ _ ∨ _))

/-- The array behind the others. -/
def push (s : ArrayStore α) (elems : List α) : Option Nat × ArrayStore α :=
  (some s.arrays.length, { s with arrays := s.arrays ++ [elems] })

/-- `new (GC::alloc(sizeof(T) * size)) T[size]`. -/
def newArray (s : ArrayStore α) (size : Nat) (enough : Bool) :
    Except ArrayError (Option Nat × ArrayStore α) :=
  if AllocThrows env size enough then .error .badAlloc
  else if env.elemSize * size < 2 ^ 64 then .ok (s.push (List.replicate size env.fill))
  else match env.oversized with
    | .null => .ok (none, s)
    | .throws => .error .badArrayNewLength
    | .unchecked => .ok (s.push (List.replicate (allocBytes env size / env.elemSize) env.fill))

/-! ### Elements -/

/-- `operator[]`, read. -/
def index (s : ArrayStore α) (v : SafeArray) (i : Nat) : Except ArrayError α :=
  match v.ptr.bind fun p => s.arrays[p]?.bind fun elems => elems[i]? with
  | some a => .ok a
  | none => .error .undefined

/-- `operator[]`, written. -/
def setIndex (s : ArrayStore α) (v : SafeArray) (i : Nat) (a : α) :
    Except ArrayError (ArrayStore α) :=
  match v.ptr with
  | none => .error .undefined
  | some p =>
      match s.arrays[p]? with
      | none => .error .undefined
      | some elems =>
          if i < elems.length then .ok { s with arrays := s.arrays.set p (elems.set i a) }
          else .error .undefined

/-- `at`, read. -/
def atIndex (s : ArrayStore α) (v : SafeArray) (i : Nat) : Except ArrayError α :=
  if v.size ≤ i then .error .outOfRange else s.index v i

/-- `at`, written. -/
def setAtIndex (s : ArrayStore α) (v : SafeArray) (i : Nat) (a : α) :
    Except ArrayError (ArrayStore α) :=
  if v.size ≤ i then .error .outOfRange else s.setIndex v i a

/-- The loop of `clone`: so many elements from index `i` on. -/
def copyElements (dst src : SafeArray) : Nat → Nat → ArrayStore α → Except ArrayError (ArrayStore α)
  | 0, _, s => .ok s
  | rounds + 1, i, s => do
      let a ← s.index src i
      let s ← s.setIndex dst i a
      copyElements dst src rounds (i + 1) s

def clone (s : ArrayStore α) (v : SafeArray) (enough : Bool) :
    Except ArrayError (SafeArray × ArrayStore α) := do
  let (ptr, s) ← s.newArray env v.size enough
  let res : SafeArray := { ptr, size := v.size }
  let s ← copyElements res v v.size 0 s
  return (res, s)

end ArrayStore

/-! ### Runs -/

/-- What a program can do with safe pointers. The constructor from `nullptr` leaves the length as it
is found in memory. -/
inductive ArrayAction (α : Type) where
  | construct (x : Nat)
  | constructNull (x found : Nat)
  | constructSize (x size : Nat) (enough : Bool)
  | copy (x y : Nat)
  | assign (x y : Nat)
  | assignNull (x : Nat)
  | clone (x y : Nat) (enough : Bool)
  | setAtIndex (x i : Nat) (a : α)

/-- An exception leaves the safe pointers as they are; behind what is undefined nothing is known. -/
def ArrayStore.ended (s : ArrayStore α) : Except ArrayError (ArrayStore α) → Option (ArrayStore α)
  | .ok t => some t
  | .error .undefined => none
  | .error _ => some s

/-- Only safe pointers that are alive are used. -/
def ArrayStore.step : ArrayAction α → ArrayStore α → Option (ArrayStore α)
  | .construct x, s => some (s.setVar x { ptr := none, size := 0 })
  | .constructNull x found, s => some (s.setVar x { ptr := none, size := found })
  | .constructSize x size enough, s => s.ended do
      let (ptr, s) ← s.newArray env size enough
      return s.setVar x { ptr, size }
  | .copy x y, s => (s.vars y).map (s.setVar x)
  | .assign x y, s => (s.vars x).bind fun _ => (s.vars y).map (s.setVar x)
  | .assignNull x, s => (s.vars x).map fun v => s.setVar x { v with ptr := none }
  | .clone x y enough, s => (s.vars y).bind fun v => s.ended do
      let (res, s) ← s.clone env v enough
      return s.setVar x res
  | .setAtIndex x i a, s => (s.vars x).bind fun v => s.ended (s.setAtIndex v i a)

end Gcpp
