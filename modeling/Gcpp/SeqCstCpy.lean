import Gcpp.GcBase

/-!
# The word-wise copy

`seq_cst_cpy` moves 8, 4, 2 or 1 bytes at a time. The width is chosen from the alignment of the
source address alone, never from what is left to copy, so the last move can write past the end of
the destination.
-/

namespace Gcpp

open ByteMemory

def isAlignedTo (ptr alignment : Nat) : Bool := (ptr &&& (alignment - 1)) == 0

def cpyWidth (src : Nat) : Nat :=
  if isAlignedTo src 8 then 8
  else if isAlignedTo src 4 then 4
  else if isAlignedTo src 2 then 2
  else 1

/-- The loop of `seq_cst_cpy`. Every round copies at least one byte, so `size` rounds are enough. -/
def seqCstCpyLoop (dst src size : Nat) : Nat → Nat → Memory → Memory
  | 0, _, m => m
  | rounds + 1, i, m =>
      if i < size then
        let width := cpyWidth (src + i)
        seqCstCpyLoop dst src size rounds (i + width) (move m (dst + i) (src + i) width)
      else m

/-- `seq_cst_cpy`. The byte loop after the word loop starts with `i ≥ size` and copies nothing. -/
def seqCstCpy (m : Memory) (dst src size : Nat) : Memory := seqCstCpyLoop dst src size size 0 m

theorem cpyWidth_pos (src : Nat) : 0 < cpyWidth src := by
  unfold cpyWidth
  split_ifs <;> decide

theorem cpyWidth_le (src : Nat) : cpyWidth src ≤ 8 := by
  unfold cpyWidth
  split_ifs <;> decide

section Spec

variable {m : Memory} {dst src size : Nat}

theorem seqCstCpyLoop_outside {x : Nat} (rounds : Nat) :
    ∀ (i : Nat) (m : Memory), (x < dst + i ∨ dst + size + 7 ≤ x) →
      seqCstCpyLoop dst src size rounds i m x = m x := by
  induction rounds with
  | zero => intro i m _; rfl
  | succ rounds ih =>
      intro i m hx
      rw [seqCstCpyLoop]
      split
      · have hwidth := cpyWidth_le (src + i)
        rw [ih _ _ (by omega)]
        exact move_outside (by omega)
      · rfl

theorem seqCstCpyLoop_inside (hapart : src + size ≤ dst ∨ dst + size + 7 ≤ src) (rounds : Nat) :
    ∀ (i : Nat) (m : Memory), size ≤ i + rounds →
      ∀ j, i ≤ j → j < size → seqCstCpyLoop dst src size rounds i m (dst + j) = m (src + j) := by
  induction rounds with
  | zero => intro i m hrounds j hij hj; omega
  | succ rounds ih =>
      intro i m hrounds j hij hj
      have hpos := cpyWidth_pos (src + i)
      have hwidth := cpyWidth_le (src + i)
      rw [seqCstCpyLoop, if_pos (by omega)]
      by_cases hdone : j < i + cpyWidth (src + i)
      · rw [seqCstCpyLoop_outside rounds _ _ (Or.inl (by omega)),
          show dst + j = dst + i + (j - i) by omega, move_inside (by omega)]
        congr 1
        omega
      · rw [ih _ _ (by omega) j (by omega) hj]
        exact move_outside (by omega)

/-- No byte outside the destination and the 7 bytes after it changes. -/
theorem seqCstCpy_outside {x : Nat} (h : x < dst ∨ dst + size + 7 ≤ x) :
    seqCstCpy m dst src size x = m x :=
  seqCstCpyLoop_outside size 0 m (by omega)

theorem agreeOn_seqCstCpy {b n : Nat} (h : b + n ≤ dst ∨ dst + size + 7 ≤ b) :
    AgreeOn (seqCstCpy m dst src size) m b n := by
  intro i hi
  exact seqCstCpy_outside (by omega)

/-- The destination holds what the source held. -/
theorem seqCstCpy_inside (hapart : src + size ≤ dst ∨ dst + size + 7 ≤ src) {j : Nat}
    (hj : j < size) : seqCstCpy m dst src size (dst + j) = m (src + j) :=
  seqCstCpyLoop_inside hapart size 0 m (by omega) j (by omega) hj

end Spec

end Gcpp
