import Gcpp.GcBase
import Gcpp.Lib.AssocMap
import Gcpp.Lib.Machine

/-!
# Finding the roots

`GCRoots` keeps the pointer slots of the data segment, found once when the singleton is built, and
for every thread the largest stack range it has reported. The roots of a collection are the former
and what a scan of the latter finds.
-/

namespace Gcpp

open ByteMemory

/-! ### The lines of `/proc/self/maps` -/

def npos : Nat := 2 ^ 64 - 1

def blank : Char := Char.ofNat 32

def find (line : List Char) (c : Char) : Nat := (line.findIdx? (· == c)).getD npos

/-- `std::string::substr`: `none` is the exception for a position behind the end. -/
def substr (line : List Char) (pos count : Nat) : Option (List Char) :=
  if pos ≤ line.length then some ((line.drop pos).take count) else none

def hexDigit (c : Char) : Option Nat :=
  if '0' ≤ c ∧ c ≤ '9' then some (c.toNat - 48)
  else if 'a' ≤ c ∧ c ≤ 'f' then some (c.toNat - 87)
  else if 'A' ≤ c ∧ c ≤ 'F' then some (c.toNat - 55)
  else none

/-- The value of the hexadecimal digits that a text starts with. -/
def parseHex : Nat → List Char → Nat
  | value, [] => value
  | value, c :: rest =>
      match hexDigit c with
      | some digit => parseHex (16 * value + digit) rest
      | none => value

/-- `std::stoull` with base 16, for a text without blanks, sign or prefix: `none` is the exception
when there is no digit or the value is too large. -/
def stoull (text : List Char) : Option Nat :=
  match text.head?.bind hexDigit with
  | none => none
  | some _ => if parseHex 0 text < 2 ^ 64 then some (parseHex 0 text) else none

/-- The body of the loop of `scan_globals`. The function is `noexcept`: `none` is the end of the
process, or a scan that never ends. -/
def scanGlobalsLine (m : Memory) (line : List Char) : Option (List Nat) :=
  if find line '/' ≠ npos then do
    let access ← substr line ((find line blank + 1) % 2 ^ 64) 4
    if find access 'r' ≠ npos ∧ find access 'x' = npos then do
      let addrMidpt := find line '-'
      let addrStart ← substr line 0 addrMidpt
      let addrEnd ← substr line ((addrMidpt + 1) % 2 ^ 64)
        ((find line blank + 2 * 2 ^ 64 - addrMidpt - 1) % 2 ^ 64)
      let dataStart ← stoull addrStart
      let dataEnd ← stoull addrEnd
      scanMemory m dataStart dataEnd
    else some []
  else some []

/-- What a loop pushes to a vector, round after round, unless a round does not return. -/
def appendAll {α β : Type} (f : α → Option (List β)) : List α → Option (List β)
  | [] => some []
  | x :: xs =>
      match f x, appendAll f xs with
      | some found, some rest => some (found ++ rest)
      | _, _ => none

def scanGlobals (m : Memory) (maps : List (List Char)) : Option (List Nat) :=
  appendAll (scanGlobalsLine m) maps

/-! ### The singleton -/

abbrev ThreadId := Nat

/-- The largest stack start and the latest stack end of every thread. -/
abbrev StackRanges := AssocMap ThreadId (Nat × Nat)

structure GCRoots where
  globalRoots : List Nat
  stackRanges : StackRanges

def GCRoots.build (m : Memory) (maps : List (List Char)) : Option GCRoots :=
  (scanGlobals m maps).map fun globalRoots => { globalRoots, stackRanges := ∅ }

def getInstance (gInstance : Option GCRoots) (m : Memory) (maps : List (List Char)) :
    Option GCRoots :=
  match gInstance with
  | some roots => some roots
  | none => GCRoots.build m maps

/-- `update_stack_range`, on the ranges. The stack pointer is read in the function. -/
def updateStackRange (ranges : StackRanges) (id : ThreadId) (basePtr sp : Nat) : StackRanges :=
  match ranges.lookup id with
  | some (stackStart, stackEnd) =>
      if basePtr ≤ stackStart ∧ sp = stackEnd then ranges
      else ranges.insert id (max stackStart basePtr, sp)
  | none => ranges.insert id (basePtr, sp)

def scanLocals (m : Memory) (ranges : StackRanges) (id : ThreadId) : Option (List Nat) :=
  match ranges.lookup id with
  | some (stackStart, stackEnd) =>
      scanMemory m ((stackEnd + 2 ^ 64 - redZoneSize) % 2 ^ 64) ((stackStart + 1) % 2 ^ 64)
  | none => none

def getRoots (m : Memory) (roots : GCRoots) (id : ThreadId) (basePtr sp : Nat) :
    Option (GCRoots × List Nat) :=
  let roots := { roots with stackRanges := updateStackRange roots.stackRanges id basePtr sp }
  (appendAll (scanLocals m roots.stackRanges) roots.stackRanges.keys).map fun totalLocalRoots =>
    (roots, roots.globalRoots ++ totalLocalRoots)

/-! ### Runs -/

/-- The process: its memory, and the singleton once it has been built. -/
structure Process where
  mem : Memory
  gInstance : Option GCRoots

/-- What can happen in a process: its memory changes in any way, or a thread calls one of the two
functions, with the base pointer it passes and the stack pointer it has. -/
inductive ScanEvent where
  | write (mem : Memory)
  | updateStackRange (id : ThreadId) (basePtr sp : Nat)
  | getRoots (id : ThreadId) (basePtr sp : Nat)

variable (maps : List (List Char))

def Process.exec (p : Process) : ScanEvent → Option (Process × List Nat)
  | .write mem => some ({ p with mem }, [])
  | .updateStackRange id basePtr sp => do
      let roots ← getInstance p.gInstance p.mem maps
      let ranges := Gcpp.updateStackRange roots.stackRanges id basePtr sp
      some ({ p with gInstance := some { roots with stackRanges := ranges } }, [])
  | .getRoots id basePtr sp => do
      let roots ← getInstance p.gInstance p.mem maps
      let (roots, result) ← Gcpp.getRoots p.mem roots id basePtr sp
      some ({ p with gInstance := some roots }, result)

def Process.run (p : Process) (events : List ScanEvent) : Option Process :=
  Machine.run (fun e p => (p.exec maps e).map Prod.fst) events p

end Gcpp
