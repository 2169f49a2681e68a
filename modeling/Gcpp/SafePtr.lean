import Gcpp.GcScan

/-!
# Safe pointers on the stack

A thread tells `GCRoots` about its stack at the places where the code asks it to, with the frame
pointer that is read there. The stack is modelled by its frames, each with its base pointer and the
slots of the safe pointers that it holds; the functions that create a safe pointer are the calls,
updates and returns that their code performs.
-/

namespace Gcpp

/-- An active frame. The innermost comes first. -/
structure Frame where
  base : Nat
  held : List Nat
deriving DecidableEq

/-- What the stack of a thread goes through. The last three are the macros that report a base
pointer, with the stack pointer that `update_stack_range` reads. -/
inductive StackOp where
  | call (base : Nat)
  | ret
  | hold (depth slot : Nat)
  | update (sp : Nat)
  | updateNested1 (sp : Nat)
  | getRoots (sp : Nat)

/-- A frame comes to hold a safe pointer, in a slot between its base and what lies below it. -/
def holdAt : Nat → List Frame → Nat → Nat → Option (List Frame)
  | _, [], _, _ => none
  | lower, frame :: frames, 0, slot =>
      if lower ≤ slot ∧ slot + gcPtrSize ≤ frame.base then
        some ({ frame with held := slot :: frame.held } :: frames)
      else none
  | _, frame :: frames, depth + 1, slot =>
      (holdAt frame.base frames depth slot).map (frame :: ·)

/-- The stack pointer lies below the innermost frame and what it holds. -/
def spBelow (sp : Nat) : List Frame → Bool
  | [] => false
  | frame :: _ => sp ≤ frame.base && frame.held.all fun slot => sp ≤ slot

/-- The frames after an operation that is possible on them. -/
def nextFrames (frames : List Frame) : StackOp → Option (List Frame)
  | .call base =>
      match frames with
      | [] => some [{ base, held := [] }]
      | frame :: _ =>
          if base < frame.base ∧ frame.held.all (fun slot => base ≤ slot) then
            some ({ base, held := [] } :: frames)
          else none
  | .ret =>
      match frames with
      | [] => none
      | _ :: frames => some frames
  | .hold depth slot => holdAt 0 frames depth slot
  | .update sp => if spBelow sp frames then some frames else none
  | .updateNested1 sp => if spBelow sp frames ∧ 2 ≤ frames.length then some frames else none
  | .getRoots sp => if spBelow sp frames then some frames else none

/-- What an operation reports to `update_stack_range`: the base pointer that its macro reads, and
the stack pointer. The word at a frame's base is the base of its caller. -/
def reported (frames : List Frame) : StackOp → Option (Nat × Nat)
  | .update sp => frames.head?.map fun frame => (frame.base, sp)
  | .updateNested1 sp => frames.tail.head?.map fun frame => (frame.base, sp)
  | .getRoots sp => frames.head?.map fun frame => (frame.base, sp)
  | _ => none

/-- The stack of a thread, and the ranges as `GCRoots` has them. -/
structure ThreadStack where
  frames : List Frame
  ranges : StackRanges

def ThreadStack.empty : ThreadStack := { frames := [], ranges := ∅ }

def ThreadStack.exec (id : ThreadId) (s : ThreadStack) (op : StackOp) : Option ThreadStack :=
  (nextFrames s.frames op).map fun frames =>
    { frames
      ranges := match reported s.frames op with
        | some (basePtr, sp) => updateStackRange s.ranges id basePtr sp
        | none => s.ranges }

def ThreadStack.run (id : ThreadId) (s : ThreadStack) (ops : List StackOp) : Option ThreadStack :=
  Machine.run (fun op s => s.exec id op) ops s

/-! ### The functions that create a safe pointer -/

/-- One run of `GC::alloc`: the base of its frame, and base and stack pointer of the calls it makes.
Without the second one it has thrown for want of space. -/
structure AllocCall where
  base : Nat
  collect : Option (Nat × Nat)
  alloc : Option (Nat × Nat)

def gcCollect (base sp : Nat) : List StackOp := [.call base, .update sp, .ret]

def collectorAlloc (base sp : Nat) : List StackOp := [.call base, .updateNested1 sp, .ret]

def gcAlloc (c : AllocCall) : List StackOp :=
  .call c.base ::
    (c.collect.elim [] (fun (base, sp) => gcCollect base sp) ++
      c.alloc.elim [] (fun (base, sp) => collectorAlloc base sp) ++ [.ret])

/-- A call of a function that creates a safe pointer, with the bases of the frames it makes and the
stack pointers it has when it updates the range itself. -/
inductive Creation where
  | constructor (base : Nat) (c : AllocCall)
  | make (base : Nat) (c : AllocCall)
  | clone (base : Nat) (c : AllocCall)
  | arrayConstructor (base : Nat) (c : AllocCall) (sp : Nat)
  | arrayMake (base constructorBase : Nat) (c : AllocCall) (sp : Nat)
  | arrayClone (base : Nat) (c : AllocCall)
  | makeSafe (base sp makeBase : Nat) (c : AllocCall)
  | arrayMakeSafe (base sp makeBase constructorBase : Nat) (c : AllocCall) (constructorSp : Nat)

/-- What the function does before the object is constructed, which runs code of the program. -/
def Creation.enter : Creation → List StackOp
  | .constructor base c => .call base :: gcAlloc c
  | .make base c => .call base :: gcAlloc c
  | .clone base c => .call base :: gcAlloc c
  | .arrayConstructor base c _ => .call base :: gcAlloc c
  | .arrayMake base constructorBase c _ => .call base :: .call constructorBase :: gcAlloc c
  | .arrayClone base c => .call base :: gcAlloc c
  | .makeSafe base sp makeBase c =>
      .call base :: .updateNested1 sp :: .call makeBase :: gcAlloc c
  | .arrayMakeSafe base sp makeBase constructorBase c _ =>
      .call base :: .updateNested1 sp :: .call makeBase :: .call constructorBase :: gcAlloc c

def Creation.leave : Creation → List StackOp
  | .constructor _ _ => [.ret]
  | .make _ _ => [.ret]
  | .clone _ _ => [.ret]
  | .arrayConstructor _ _ sp => [.updateNested1 sp, .ret]
  | .arrayMake _ _ _ sp => [.updateNested1 sp, .ret, .ret]
  | .arrayClone _ _ => [.ret]
  | .makeSafe _ _ _ _ => [.ret, .ret]
  | .arrayMakeSafe _ _ _ _ _ constructorSp => [.updateNested1 constructorSp, .ret, .ret, .ret]

/-- What a program does with its stack. -/
inductive StackEvent where
  | call (base : Nat)
  | ret
  | hold (depth slot : Nat)
  | enter (c : Creation)
  | leave (c : Creation)
  | getRoots (sp : Nat)

def StackEvent.ops : StackEvent → List StackOp
  | .call base => [.call base]
  | .ret => [.ret]
  | .hold depth slot => [.hold depth slot]
  | .enter c => c.enter
  | .leave c => c.leave
  | .getRoots sp => [.getRoots sp]

def stackOps (events : List StackEvent) : List StackOp := events.flatMap StackEvent.ops

end Gcpp
