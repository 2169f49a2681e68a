import Mathlib.Logic.Function.Basic

/-!
# An object store

What a heap with named slots is for: a slot designates an object or nothing, an object has a size,
and every byte of it is the one last written. Objects are numbered in the order in which they are
created and are never moved or given up. An implementation is compared with the store event by
event.
-/

namespace ObjectStore

universe u v

variable {Slot : Type u} {Byte : Type v}

/-- What a program does with its slots and objects. -/
inductive Event (Slot : Type u) (Byte : Type v) where
  | alloc (slot : Slot) (size : Nat)
  | allocFailed
  | copy (dst src : Slot)
  | clear (slot : Slot)
  | write (slot : Slot) (offset : Nat) (byte : Byte)
  | collect
  | drop (slot : Slot)

def Event.target : Event Slot Byte → Option Slot
  | .alloc slot _ => some slot
  | .copy dst _ => some dst
  | .clear slot => some slot
  | .drop slot => some slot
  | _ => none

/-- The store. A byte that was never written has no value. -/
structure Store (Slot : Type u) (Byte : Type v) where
  next : Nat
  root : Slot → Option Nat
  size : Nat → Nat
  content : Nat → Nat → Option Byte

namespace Store

def empty : Store Slot Byte where
  next := 0
  root := fun _ => none
  size := fun _ => 0
  content := fun _ _ => none

/-- What the event puts into its target. -/
def assigned (store : Store Slot Byte) : Event Slot Byte → Option Nat
  | .alloc _ _ => some store.next
  | .copy _ src => store.root src
  | _ => none

def nextAfter (store : Store Slot Byte) : Event Slot Byte → Nat
  | .alloc _ _ => store.next + 1
  | _ => store.next

def sizeAfter (store : Store Slot Byte) : Event Slot Byte → Nat → Nat
  | .alloc _ size => Function.update store.size store.next size
  | _ => store.size

def contentAfter (store : Store Slot Byte) : Event Slot Byte → Nat → Nat → Option Byte
  | .alloc _ _ => Function.update store.content store.next fun _ => none
  | .write slot offset byte => fun o k =>
      if store.root slot = some o ∧ k = offset then some byte else store.content o k
  | _ => store.content

/-- Every object that a slot designates has been created. -/
def Numbered (store : Store Slot Byte) : Prop := ∀ slot o, store.root slot = some o → o < store.next

theorem numbered_empty : (empty : Store Slot Byte).Numbered := fun _ _ h => by cases h

theorem next_le_nextAfter (store : Store Slot Byte) (e : Event Slot Byte) :
    store.next ≤ store.nextAfter e := by
  cases e with
  | alloc => exact Nat.le_succ _
  | _ => exact Nat.le_refl _

variable [DecidableEq Slot]

def apply (store : Store Slot Byte) (e : Event Slot Byte) : Store Slot Byte where
  next := store.nextAfter e
  root := fun slot => if e.target = some slot then store.assigned e else store.root slot
  size := store.sizeAfter e
  content := store.contentAfter e

def after (events : List (Event Slot Byte)) : Store Slot Byte := events.foldl apply empty

theorem after_concat (events : List (Event Slot Byte)) (e : Event Slot Byte) :
    after (events ++ [e]) = (after events).apply e := by
  rw [after, List.foldl_append, after, List.foldl_cons, List.foldl_nil]

/-- Only an assignment changes what a slot designates. -/
theorem root_apply_of_ne (store : Store Slot Byte) {e : Event Slot Byte} {slot : Slot}
    (h : e.target ≠ some slot) : (store.apply e).root slot = store.root slot :=
  if_neg h

theorem root_apply_of_eq (store : Store Slot Byte) {e : Event Slot Byte} {slot : Slot}
    (h : e.target = some slot) : (store.apply e).root slot = store.assigned e :=
  if_pos h

theorem Numbered.apply {store : Store Slot Byte} (h : store.Numbered) (e : Event Slot Byte) :
    (store.apply e).Numbered := by
  intro slot o ho
  have hle := store.next_le_nextAfter e
  by_cases htarget : e.target = some slot
  · rw [root_apply_of_eq store htarget] at ho
    cases e with
    | alloc =>
        cases ho
        exact Nat.lt_succ_self _
    | copy dst src => exact h src o ho
    | _ => cases ho
  · rw [root_apply_of_ne store htarget] at ho
    exact Nat.lt_of_lt_of_le (h slot o ho) hle

end Store

end ObjectStore
