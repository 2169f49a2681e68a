import Mathlib.Tactic.Ring

/-!
# Byte-addressed memory

A memory gives every address a byte. Words are little-endian, and every write is described by the
range of addresses it covers, so that a frame fact is always a fact about two ranges.
-/

namespace ByteMemory

abbrev Memory := Nat → UInt8

/-- The little-endian value of the `width` bytes from `a` on. -/
def load (m : Memory) (a : Nat) : Nat → Nat
  | 0 => 0
  | width + 1 => (m a).toNat + 256 * load m (a + 1) width

/-- Write the `width` low bytes of `value`, little-endian, from `a` on. -/
def store (m : Memory) (a value width : Nat) : Memory := fun x =>
  if a ≤ x ∧ x < a + width then UInt8.ofNat (value / 256 ^ (x - a)) else m x

/-- Read `width` bytes from `src` on, then write them from `dst` on. -/
def move (m : Memory) (dst src width : Nat) : Memory := fun x =>
  if dst ≤ x ∧ x < dst + width then m (src + (x - dst)) else m x

def AgreeOn (m m' : Memory) (a width : Nat) : Prop := ∀ i < width, m (a + i) = m' (a + i)

section Load

variable {m m' : Memory} {a width : Nat}

theorem load_lt (m : Memory) (a width : Nat) : load m a width < 256 ^ width := by
  induction width generalizing a with
  | zero => simp [load]
  | succ width ih =>
      have hbyte := (m a).toNat_lt
      have hrest := ih (a + 1)
      rw [load, pow_succ]
      omega

/-- Equal bytes make equal words, wherever they lie. -/
theorem load_of_bytes {b : Nat} (h : ∀ i < width, m (a + i) = m' (b + i)) :
    load m a width = load m' b width := by
  induction width generalizing a b with
  | zero => rfl
  | succ width ih =>
      have hhead : m a = m' b := h 0 (by omega)
      have htail : ∀ i < width, m (a + 1 + i) = m' (b + 1 + i) := by
        intro i hi
        have := h (i + 1) (by omega)
        rwa [show a + (i + 1) = a + 1 + i by omega, show b + (i + 1) = b + 1 + i by omega] at this
      rw [load, load, hhead, ih htail]

theorem load_congr (h : AgreeOn m m' a width) : load m a width = load m' a width := load_of_bytes h

theorem toNat_eq_load_div (m : Memory) (a : Nat) {width i : Nat} (hi : i < width) :
    (m (a + i)).toNat = load m a width / 256 ^ i % 256 := by
  induction width generalizing a i with
  | zero => omega
  | succ width ih =>
      have hbyte := (m a).toNat_lt
      cases i with
      | zero =>
          rw [load, pow_zero, Nat.div_one, Nat.add_zero]
          omega
      | succ i =>
          rw [show a + (i + 1) = a + 1 + i by omega, ih (a + 1) (by omega), load, pow_succ',
            ← Nat.div_div_eq_div_mul]
          congr 2
          omega

theorem load_eq_of_bytes {value : Nat}
    (h : ∀ i < width, (m (a + i)).toNat = value / 256 ^ i % 256) :
    load m a width = value % 256 ^ width := by
  induction width generalizing a value with
  | zero => simp [load, Nat.mod_one]
  | succ width ih =>
      have hhead : (m a).toNat = value % 256 := by simpa using h 0 (by omega)
      have htail : load m (a + 1) width = value / 256 % 256 ^ width := by
        refine ih fun i hi => ?_
        have := h (i + 1) (by omega)
        rwa [show a + (i + 1) = a + 1 + i by omega, pow_succ', ← Nat.div_div_eq_div_mul] at this
      rw [load, hhead, htail, pow_succ', Nat.mod_mul]

end Load

section Store

variable {m m' : Memory} {a b value width n : Nat}

theorem store_outside {x : Nat} (h : x < a ∨ a + width ≤ x) : store m a value width x = m x := by
  rw [store, if_neg (by omega)]

theorem store_of_ne {x : Nat} (h : ∀ i < width, x ≠ a + i) : store m a value width x = m x := by
  refine store_outside ?_
  by_contra hinside
  exact h (x - a) (by omega) (by omega)

theorem store_inside {x : Nat} (hlo : a ≤ x) (hhi : x < a + width) :
    store m a value width x = UInt8.ofNat (value / 256 ^ (x - a)) := if_pos ⟨hlo, hhi⟩

theorem agreeOn_store (h : b + n ≤ a ∨ a + width ≤ b) :
    AgreeOn (store m a value width) m b n := by
  intro i hi
  exact store_outside (by omega)

theorem load_store_self (m : Memory) (a : Nat) (h : value < 256 ^ width) :
    load (store m a value width) a width = value := by
  have hbytes : ∀ i < width, (store m a value width (a + i)).toNat = value / 256 ^ i % 256 := by
    intro i hi
    rw [store, if_pos (by omega), Nat.add_sub_cancel_left, UInt8.toNat_ofNat']
  rw [load_eq_of_bytes hbytes, Nat.mod_eq_of_lt h]

theorem load_store_of_disjoint (h : b + n ≤ a ∨ a + width ≤ b) :
    load (store m a value width) b n = load m b n :=
  load_congr (agreeOn_store h)

end Store

section Move

variable {m : Memory} {dst src width : Nat}

theorem move_outside {x : Nat} (h : x < dst ∨ dst + width ≤ x) : move m dst src width x = m x := by
  rw [move, if_neg (by omega)]

theorem move_inside {i : Nat} (h : i < width) : move m dst src width (dst + i) = m (src + i) := by
  rw [move, if_pos (by omega), Nat.add_sub_cancel_left]

end Move

namespace AgreeOn

variable {m m' m'' : Memory} {a b width n : Nat}

theorem refl (m : Memory) (a width : Nat) : AgreeOn m m a width := fun _ _ => rfl

theorem symm (h : AgreeOn m m' a width) : AgreeOn m' m a width := fun i hi => (h i hi).symm

theorem trans (h : AgreeOn m m' a width) (h' : AgreeOn m' m'' a width) :
    AgreeOn m m'' a width := fun i hi => (h i hi).trans (h' i hi)

theorem mono (h : AgreeOn m m' a width) (hlo : a ≤ b) (hhi : b + n ≤ a + width) :
    AgreeOn m m' b n := by
  intro i hi
  have := h (b - a + i) (by omega)
  rwa [show a + (b - a + i) = b + i by omega] at this

end AgreeOn

end ByteMemory
