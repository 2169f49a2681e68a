import Mathlib.Order.Bounds.Basic
import Mathlib.Data.Nat.ModEq

/-!
# Alignment

The padding from a number to the next multiple of an alignment, in unbounded arithmetic. The
alignment is any positive number.
-/

namespace Align

variable {a : Nat}

/-- The distance from `x` to the next multiple of `a`. -/
def padding (a x : Nat) : Nat := (a - x % a) % a

theorem dvd_add_padding (ha : 0 < a) (x : Nat) : a ∣ x + padding a x := by
  have hle : x % a ≤ a := (Nat.mod_lt x ha).le
  apply Nat.dvd_of_mod_eq_zero
  calc (x + padding a x) % a
    _ = (x + (a - x % a)) % a := Nat.add_mod_mod _ _ _
    _ = (x % a + (a - x % a)) % a := (Nat.mod_add_mod _ _ _).symm
    _ = 0 := by rw [Nat.add_sub_cancel' hle, Nat.mod_self]

theorem padding_le_of_dvd (ha : 0 < a) {j : Nat} (hdvd : a ∣ x + j) : padding a x ≤ j := by
  have hlt := Nat.mod_lt x ha
  by_cases hzero : x % a = 0
  · rw [padding, hzero, Nat.sub_zero, Nat.mod_self]
    exact Nat.zero_le j
  · by_contra hj
    rw [padding, Nat.mod_eq_of_lt (by omega)] at hj
    have hsum : (x % a + j) % a = 0 := by
      rw [Nat.mod_add_mod]
      exact Nat.mod_eq_zero_of_dvd hdvd
    rw [Nat.mod_eq_of_lt (by omega)] at hsum
    omega

theorem isLeast_padding (ha : 0 < a) (x : Nat) : IsLeast {j | a ∣ x + j} (padding a x) :=
  ⟨dvd_add_padding ha x, fun _ hdvd => padding_le_of_dvd ha hdvd⟩

end Align
