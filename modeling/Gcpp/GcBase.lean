import Gcpp.Lib.ByteMemory
import Mathlib.Data.Nat.Bitwise

/-!
# Fat pointers

A managed pointer is two words: a constant header and the address, whose most significant byte
holds a tag. Both tests together say which 16 bytes of memory are taken for a pointer slot, and the
collector learns about pointers in no other way.
-/

namespace Gcpp

open ByteMemory

/-- `static_cast<uintptr_t>('poin') << 32 | 'ters'`. -/
def ptrHeader : Nat := (0x706f696e <<< 32) ||| 0x74657273

def ptrTagByte : Nat := 0x9F
def ptrTag : Nat := ptrTagByte <<< 56
def ptrTagMask : Nat := 0xFF <<< 56
def ptrMask : Nat := (1 <<< 56) - 1

def gcPtrSize : Nat := 16
def gcPtrAlignment : Nat := 8
def redZoneSize : Nat := 128

theorem and_ptrMask (w : Nat) : w &&& ptrMask = w % 2 ^ 56 := by
  rw [ptrMask, Nat.one_shiftLeft, Nat.and_two_pow_sub_one_eq_mod]

theorem ptrTag_eq : ptrTag = 2 ^ 56 * 0x9F := by decide

theorem or_ptrTag {p : Nat} (h : p < 2 ^ 56) : p ||| ptrTag = ptrTag + p := by
  rw [ptrTag_eq, Nat.or_comm, ← Nat.two_pow_add_eq_or_of_lt h]

/-- The tag test looks at byte 7 of the word and at nothing else. -/
theorem and_ptrTagMask (w : Nat) : w &&& ptrTagMask = 2 ^ 56 * (w / 2 ^ 56 % 256) := by
  have hbyte : w / 2 ^ 56 % 256 = (w >>> 56) &&& 0xFF := by
    rw [Nat.shiftRight_eq_div_pow]
    exact (Nat.and_two_pow_sub_one_eq_mod (w / 2 ^ 56) 8).symm
  rw [hbyte, Nat.mul_comm, ← Nat.shiftLeft_eq, ptrTagMask]
  apply Nat.eq_of_testBit_eq
  intro i
  simp only [Nat.testBit_and, Nat.testBit_shiftLeft, Nat.testBit_shiftRight]
  by_cases hi : 56 ≤ i
  · simp [hi, Nat.add_sub_cancel' hi]
  · simp [hi]

theorem and_ptrTagMask_eq_iff (w : Nat) : w &&& ptrTagMask = ptrTag ↔ w / 2 ^ 56 % 256 = 0x9F := by
  rw [and_ptrTagMask, ptrTag_eq]
  exact Nat.mul_right_inj (by decide)

/-! ### Pointer values -/

/-- The address word of a managed pointer: it carries the tag, so a value of this type is one that
`atomic_load` accepts. The header is the same constant in every pointer. -/
@[ext]
structure FatPtr where
  mPtr : Nat
  mPtr_lt : mPtr < 2 ^ 64
  tagged : mPtr &&& ptrTagMask = ptrTag
deriving DecidableEq

namespace FatPtr

def ofAddr (ptr : Nat) : FatPtr where
  mPtr := (ptr &&& ptrMask) ||| ptrTag
  mPtr_lt := by
    have hlow := Nat.mod_lt ptr (show 0 < 2 ^ 56 by decide)
    rw [and_ptrMask, or_ptrTag hlow, ptrTag_eq]
    omega
  tagged := by
    have hlow := Nat.mod_lt ptr (show 0 < 2 ^ 56 by decide)
    rw [and_ptrMask, or_ptrTag hlow, and_ptrTagMask_eq_iff, ptrTag_eq]
    omega

/-- The address without the tag, which is what `get_gc_ptr`, `as_ptr` and the conversion to
`uintptr_t` return. -/
def asPtr (p : FatPtr) : Nat := p.mPtr &&& ptrMask

theorem asPtr_lt (p : FatPtr) : p.asPtr < 2 ^ 56 := by
  rw [asPtr, and_ptrMask]
  exact Nat.mod_lt _ (by decide)

theorem mPtr_eq (p : FatPtr) : p.mPtr = ptrTag + p.asPtr := by
  have hlt := p.mPtr_lt
  have htag := (and_ptrTagMask_eq_iff p.mPtr).mp p.tagged
  rw [asPtr, and_ptrMask, ptrTag_eq]
  omega

@[simp]
theorem asPtr_ofAddr (ptr : Nat) : (ofAddr ptr).asPtr = ptr % 2 ^ 56 := by
  have hlow := Nat.mod_lt ptr (show 0 < 2 ^ 56 by decide)
  have hword : (ofAddr ptr).mPtr = ptrTag + ptr % 2 ^ 56 := by
    change (ptr &&& ptrMask) ||| ptrTag = _
    rw [and_ptrMask, or_ptrTag hlow]
  rw [(ofAddr ptr).mPtr_eq] at hword
  exact Nat.add_left_cancel hword

theorem asPtr_ofAddr_of_lt {ptr : Nat} (h : ptr < 2 ^ 56) : (ofAddr ptr).asPtr = ptr := by
  rw [asPtr_ofAddr, Nat.mod_eq_of_lt h]

theorem asPtr_injective : Function.Injective asPtr := by
  intro p q h
  apply FatPtr.ext
  rw [p.mPtr_eq, q.mPtr_eq, h]

@[simp]
theorem ofAddr_asPtr (p : FatPtr) : ofAddr p.asPtr = p :=
  asPtr_injective (asPtr_ofAddr_of_lt p.asPtr_lt)

end FatPtr

/-! ### Slots in memory -/

def load64 (m : Memory) (a : Nat) : Nat := load m a 8
def store64 (m : Memory) (a : Nat) (value : Nat) : Memory := store m a value 8

def maybePtr (m : Memory) (a : Nat) : Bool :=
  load64 m a == ptrHeader && (load64 m (a + 8) &&& ptrTagMask) == ptrTag

/-- `FatPtr::test_ptr`: both words are read, and the copy is what is tested and returned. -/
def testPtr (m : Memory) (a : Nat) : Option FatPtr :=
  if h : load64 m a = ptrHeader ∧ (load64 m (a + 8) &&& ptrTagMask) = ptrTag then
    some { mPtr := load64 m (a + 8), mPtr_lt := load_lt m (a + 8) 8, tagged := h.2 }
  else none

/-- `FatPtr::atomic_load` and the conversions built on it: only the address word of the slot is
read, and `none` is the "Invalid pointer" exception. -/
def atomicLoad (m : Memory) (a : Nat) : Option FatPtr :=
  if h : (load64 m (a + 8) &&& ptrTagMask) = ptrTag then
    some { mPtr := load64 m (a + 8), mPtr_lt := load_lt m (a + 8) 8, tagged := h }
  else none

def atomicUpdate (m : Memory) (a : Nat) (other : FatPtr) : Memory := store64 m (a + 8) other.mPtr

/-- `FatPtr::compare_exchange`: `none` when the slot was updated, else the value found in it. -/
def compareExchange (m : Memory) (a : Nat) (expected desired : FatPtr) : Option FatPtr × Memory :=
  if load64 m (a + 8) = expected.mPtr then (none, store64 m (a + 8) desired.mPtr)
  else (some (FatPtr.ofAddr (load64 m (a + 8))), m)

/-- Copy assignment of a `FatPtr`: both words of the slot are written. -/
def writeFatPtr (m : Memory) (a : Nat) (value : FatPtr) : Memory :=
  store64 (store64 m a ptrHeader) (a + 8) value.mPtr

/-! ### Scanning -/

/-- The loop of `scan_memory` in 64-bit arithmetic. The cursor is a multiple of 8, so after `2 ^ 61`
rounds it has taken every value it can take: `none` says that the loop never ends. -/
def scanLoop (m : Memory) (stop : Nat) : Nat → Nat → Option (List Nat)
  | 0, _ => none
  | rounds + 1, ptr =>
      if (ptr + gcPtrSize) % 2 ^ 64 < stop then
        (scanLoop m stop rounds ((ptr + gcPtrAlignment) % 2 ^ 64)).map fun found =>
          if maybePtr m ptr then ptr :: found else found
      else some []

/-- `scan_memory`: the addresses the callback is called on, in order. -/
def scanMemory (m : Memory) (start stop : Nat) : Option (List Nat) :=
  let alignedStart := start - start % gcPtrAlignment
  let start := if alignedStart = start then alignedStart
    else (alignedStart + gcPtrAlignment) % 2 ^ 64
  scanLoop m stop (2 ^ 61 + 1) start

/-- Metadata of a managed object. -/
@[ext]
structure MetaData where
  size : Nat
  alignment : Nat
deriving DecidableEq

end Gcpp
