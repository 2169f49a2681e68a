import Gcpp.SeqCstCpy

/-!
# What `seq_cst_cpy` writes

The loop ends, and it copies every byte that it is asked to copy. Its last move is as wide as the
source address allows, whatever is left to copy: it takes up to 7 bytes from behind the source along
and writes them behind the destination.
-/

namespace Gcpp

open ByteMemory

/-- The loop of `seq_cst_cpy` from the offset `i` on ends, with the memory `m'`. -/
inductive CpyLoop (dst src size : Nat) : Nat → Memory → Memory → Prop
  | stop {i : Nat} {m : Memory} (h : ¬ i < size) : CpyLoop dst src size i m m
  | round {i : Nat} {m m' : Memory} (h : i < size)
      (hrest : CpyLoop dst src size (i + cpyWidth (src + i))
        (move m (dst + i) (src + i) (cpyWidth (src + i))) m') : CpyLoop dst src size i m m'

/-- What is expected of a copy. -/
structure CpyContract (m : Memory) (dst src size : Nat) (m' : Memory) : Prop where
  copied : ∀ i < size, m' (dst + i) = m (src + i)
  frame : ∀ x, x < dst ∨ dst + size ≤ x → m' x = m x

/-! ### The last move -/

/-- The least multiple of `k` from `x` on. -/
def roundUp (k x : Nat) : Nat := (x + k - 1) / k * k

/-- Where the last move from `src` ends, which is the first one to reach `stop`: the moves go to a
multiple of 2, of 4 and of 8, and on in words. -/
def lastStop (src stop : Nat) : Nat :=
  if stop ≤ roundUp 2 src then roundUp 2 src
  else if stop ≤ roundUp 4 src then roundUp 4 src
  else roundUp 8 stop

/-- Where the last move begins. -/
def lastStart (src stop : Nat) : Nat :=
  if stop ≤ roundUp 2 src then src
  else if stop ≤ roundUp 4 src then roundUp 2 src
  else max (roundUp 4 src) (roundUp 8 stop - 8)

/-- The offset of the last move. -/
def lastMove (src size : Nat) : Nat := lastStart src (src + size) - src

/-- The offset behind the last move. -/
def cpyEnd (src size : Nat) : Nat := if size = 0 then 0 else lastStop src (src + size) - src

/-- The address whose byte the last move finds at `src + j`: where the source is followed by the
destination, what is found there has been copied before. -/
def lastSource (dst src size j : Nat) : Nat :=
  if dst ≤ src + j ∧ src + j < dst + lastMove src size then src + (src + j - dst) else src + j

theorem isAlignedTo_iff (ptr k : Nat) : isAlignedTo ptr (2 ^ k) = true ↔ 2 ^ k ∣ ptr := by
  rw [isAlignedTo, beq_iff_eq, Nat.and_two_pow_sub_one_eq_mod, Nat.dvd_iff_mod_eq_zero]

/-- The width of a move says how its source is aligned. -/
theorem cpyWidth_cases (ptr : Nat) :
    (cpyWidth ptr = 8 ∧ ptr % 8 = 0) ∨ (cpyWidth ptr = 4 ∧ ptr % 8 = 4) ∨
      (cpyWidth ptr = 2 ∧ ptr % 4 = 2) ∨ (cpyWidth ptr = 1 ∧ ptr % 2 = 1) := by
  have hword := isAlignedTo_iff ptr 3
  have hlong := isAlignedTo_iff ptr 2
  have hshort := isAlignedTo_iff ptr 1
  unfold cpyWidth
  split_ifs with h8 h4 h2
  · exact Or.inl ⟨rfl, Nat.mod_eq_zero_of_dvd (hword.mp h8)⟩
  · refine Or.inr (Or.inl ⟨rfl, ?_⟩)
    have h4 := hlong.mp h4
    have h8 := mt hword.mpr h8
    omega
  · refine Or.inr (Or.inr (Or.inl ⟨rfl, ?_⟩))
    have h2 := hshort.mp h2
    have h4 := mt hlong.mpr h4
    omega
  · refine Or.inr (Or.inr (Or.inr ⟨rfl, ?_⟩))
    have h2 := mt hshort.mpr h2
    omega

theorem roundUp_spec {k x : Nat} (hk : 0 < k) :
    k ∣ roundUp k x ∧ x ≤ roundUp k x ∧ roundUp k x < x + k := by
  have hdiv := Nat.div_add_mod (x + k - 1) k
  have hmod := Nat.mod_lt (x + k - 1) hk
  rw [Nat.mul_comm] at hdiv
  exact ⟨Nat.dvd_mul_left k _, by unfold roundUp; omega, by unfold roundUp; omega⟩

/-- From a multiple of 4 on the moves end with the first word that reaches the end. -/
theorem last_of_long {ptr stop : Nat} (h : ptr % 4 = 0) (hlt : ptr < stop) :
    lastStop ptr stop = roundUp 8 stop ∧ lastStart ptr stop = max ptr (roundUp 8 stop - 8) := by
  have hshort : roundUp 2 ptr = ptr := by unfold roundUp; omega
  have hlong : roundUp 4 ptr = ptr := by unfold roundUp; omega
  rw [lastStop, lastStart, hshort, hlong]
  simp only [if_neg (Nat.not_le.mpr hlt), and_self]

/-- From an even address a short comes before. -/
theorem last_of_short {ptr stop : Nat} (h : ptr % 4 = 2) (hlt : ptr < stop) :
    lastStop ptr stop = (if stop ≤ ptr + 2 then ptr + 2 else roundUp 8 stop) ∧
      lastStart ptr stop =
        if stop ≤ ptr + 2 then ptr else max (ptr + 2) (roundUp 8 stop - 8) := by
  have hshort : roundUp 2 ptr = ptr := by unfold roundUp; omega
  have hlong : roundUp 4 ptr = ptr + 2 := by unfold roundUp; omega
  rw [lastStop, lastStart, hshort, hlong]
  simp only [if_neg (Nat.not_le.mpr hlt), and_self]

/-- A move that does not come to the end leaves the last one where it is. -/
theorem last_of_move {ptr stop : Nat} (hmore : ptr + cpyWidth ptr < stop) :
    lastStop (ptr + cpyWidth ptr) stop = lastStop ptr stop ∧
      lastStart (ptr + cpyWidth ptr) stop = lastStart ptr stop := by
  obtain ⟨hdvd, hle, _⟩ := roundUp_spec (k := 8) (x := stop) (by decide)
  rcases cpyWidth_cases ptr with ⟨hwidth, hmod⟩ | ⟨hwidth, hmod⟩ | ⟨hwidth, hmod⟩ | ⟨hwidth, hmod⟩ <;>
    rw [hwidth] at hmore ⊢
  · obtain ⟨hstop, hstart⟩ := last_of_long (show ptr % 4 = 0 by omega) (show ptr < stop by omega)
    obtain ⟨hstop', hstart'⟩ := last_of_long (show (ptr + 8) % 4 = 0 by omega) hmore
    rw [hstop, hstart, hstop', hstart']
    exact ⟨rfl, by omega⟩
  · obtain ⟨hstop, hstart⟩ := last_of_long (show ptr % 4 = 0 by omega) (show ptr < stop by omega)
    obtain ⟨hstop', hstart'⟩ := last_of_long (show (ptr + 4) % 4 = 0 by omega) hmore
    rw [hstop, hstart, hstop', hstart']
    exact ⟨rfl, by omega⟩
  · obtain ⟨hstop, hstart⟩ := last_of_short hmod (show ptr < stop by omega)
    obtain ⟨hstop', hstart'⟩ := last_of_long (show (ptr + 2) % 4 = 0 by omega) hmore
    rw [hstop, hstart, hstop', hstart', if_neg (by omega), if_neg (by omega)]
    exact ⟨rfl, rfl⟩
  · have hshort : roundUp 2 (ptr + 1) = roundUp 2 ptr := by unfold roundUp; omega
    have hlong : roundUp 4 (ptr + 1) = roundUp 4 ptr := by unfold roundUp; omega
    have hnext : roundUp 2 ptr = ptr + 1 := by unfold roundUp; omega
    rw [lastStop, lastStop, lastStart, lastStart, hshort, hlong, hnext]
    simp only [if_neg (Nat.not_le.mpr hmore), and_self]

/-- One that does is the last. -/
theorem last_of_end {ptr stop : Nat} (hlt : ptr < stop) (hend : stop ≤ ptr + cpyWidth ptr) :
    lastStop ptr stop = ptr + cpyWidth ptr ∧ lastStart ptr stop = ptr := by
  obtain ⟨hdvd, hle, hnear⟩ := roundUp_spec (k := 8) (x := stop) (by decide)
  rcases cpyWidth_cases ptr with ⟨hwidth, hmod⟩ | ⟨hwidth, hmod⟩ | ⟨hwidth, hmod⟩ | ⟨hwidth, hmod⟩ <;>
    rw [hwidth] at hend ⊢
  · obtain ⟨hstop, hstart⟩ := last_of_long (show ptr % 4 = 0 by omega) hlt
    rw [hstop, hstart]
    omega
  · obtain ⟨hstop, hstart⟩ := last_of_long (show ptr % 4 = 0 by omega) hlt
    rw [hstop, hstart]
    omega
  · obtain ⟨hstop, hstart⟩ := last_of_short hmod hlt
    rw [hstop, hstart, if_pos hend, if_pos hend]
    exact ⟨rfl, rfl⟩
  · have hnext : roundUp 2 ptr = ptr + 1 := by unfold roundUp; omega
    rw [lastStop, lastStart, hnext, if_pos hend, if_pos hend]
    exact ⟨rfl, rfl⟩

section Loop

variable {m m' : Memory} {dst src size i : Nat}

/-- The offset of the last move, when the loop has come to the offset `i`. -/
def lastMoveFrom (src size : Nat) : Nat → Nat → Nat
  | 0, i => i
  | rounds + 1, i =>
      if i + cpyWidth (src + i) < size then lastMoveFrom src size rounds (i + cpyWidth (src + i))
      else i

/-- The last move of the loop is the one of the closed form. -/
theorem lastMoveFrom_eq (src rounds : Nat) : ∀ i, i < size → size ≤ i + rounds →
    src + lastMoveFrom src size rounds i = lastStart (src + i) (src + size) ∧
      src + lastMoveFrom src size rounds i +
        cpyWidth (src + lastMoveFrom src size rounds i) = lastStop (src + i) (src + size) := by
  induction rounds with
  | zero => exact fun i hi hrounds => absurd hrounds (by omega)
  | succ rounds ih =>
      intro i hi hrounds
      have hpos := cpyWidth_pos (src + i)
      rw [lastMoveFrom]
      split
      · rename_i hmore
        obtain ⟨hstop, hstart⟩ :=
          last_of_move (show src + i + cpyWidth (src + i) < src + size by omega)
        rw [← hstop, ← hstart, Nat.add_assoc src i]
        exact ih _ hmore (by omega)
      · rename_i hend
        obtain ⟨hstop, hstart⟩ := last_of_end (show src + i < src + size by omega)
          (show src + size ≤ src + i + cpyWidth (src + i) by omega)
        exact ⟨hstart.symm, hstop.symm⟩

theorem lastMove_eq (hsize : 0 < size) : lastMove src size = lastMoveFrom src size size 0 := by
  have hlast := (lastMoveFrom_eq src size 0 hsize (by omega)).1
  rw [Nat.add_zero] at hlast
  rw [lastMove, ← hlast, Nat.add_sub_cancel_left]

theorem cpyEnd_eq (hsize : 0 < size) :
    cpyEnd src size = lastMove src size + cpyWidth (src + lastMove src size) := by
  have hlast := (lastMoveFrom_eq src size 0 hsize (by omega)).2
  rw [Nat.add_zero, ← lastMove_eq hsize] at hlast
  rw [cpyEnd, if_neg hsize.ne', ← hlast]
  omega

theorem le_lastMoveFrom (rounds : Nat) : ∀ i, i ≤ lastMoveFrom src size rounds i := by
  induction rounds with
  | zero => exact fun i => le_rfl
  | succ rounds ih =>
      intro i
      rw [lastMoveFrom]
      split
      · exact (Nat.le_add_right _ _).trans (ih _)
      · exact le_rfl

theorem lastMoveFrom_lt (rounds : Nat) : ∀ i, i < size → lastMoveFrom src size rounds i < size := by
  induction rounds with
  | zero => exact fun i hi => hi
  | succ rounds ih =>
      intro i hi
      rw [lastMoveFrom]
      split
      · exact ih _ ‹_›
      · exact hi

theorem cpyLoop_seqCstCpyLoop (rounds : Nat) : ∀ (i : Nat) (m : Memory), size ≤ i + rounds →
    CpyLoop dst src size i m (seqCstCpyLoop dst src size rounds i m) := by
  induction rounds with
  | zero =>
      intro i m hrounds
      exact .stop (by omega)
  | succ rounds ih =>
      intro i m hrounds
      have hpos := cpyWidth_pos (src + i)
      rw [seqCstCpyLoop]
      split
      · exact .round ‹_› (ih _ _ (by omega))
      · exact .stop ‹_›

/-- The loop determines its result. -/
theorem CpyLoop.unique {m₁ m₂ : Memory} (h₁ : CpyLoop dst src size i m m₁)
    (h₂ : CpyLoop dst src size i m m₂) : m₁ = m₂ := by
  induction h₁ with
  | stop hstop =>
      cases h₂ with
      | stop => rfl
      | round hround => exact absurd hround hstop
  | round hround _ ih =>
      cases h₂ with
      | stop hstop => exact absurd hround hstop
      | round _ hrest => exact ih hrest

/-- **The bytes that the loop writes**, from the offset `i` on, and no others. -/
theorem seqCstCpyLoop_apply (hdisjoint : src + size ≤ dst ∨ dst + size ≤ src) (rounds : Nat) :
    ∀ (i : Nat) (m : Memory), i < size → size ≤ i + rounds →
      let last := lastMoveFrom src size rounds i
      (∀ j, i ≤ j → j < last + cpyWidth (src + last) →
        seqCstCpyLoop dst src size rounds i m (dst + j) =
          m (if dst + i ≤ src + j ∧ src + j < dst + last then src + (src + j - dst) else src + j)) ∧
      (∀ x, x < dst + i ∨ dst + (last + cpyWidth (src + last)) ≤ x →
        seqCstCpyLoop dst src size rounds i m x = m x) ∧
      size ≤ last + cpyWidth (src + last) := by
  induction rounds with
  | zero => intro i m hi hrounds; omega
  | succ rounds ih =>
      intro i m hi hrounds
      have hpos := cpyWidth_pos (src + i)
      rw [seqCstCpyLoop, if_pos hi, lastMoveFrom]
      by_cases hmore : i + cpyWidth (src + i) < size
      · -- a move inside of the destination: the source is as it was
        rw [if_pos hmore]
        obtain ⟨hwritten, houtside, hend⟩ := ih (i + cpyWidth (src + i))
          (move m (dst + i) (src + i) (cpyWidth (src + i))) hmore (by omega)
        have hlast : lastMoveFrom src size rounds (i + cpyWidth (src + i)) < size :=
          lastMoveFrom_lt rounds _ hmore
        have hle : i + cpyWidth (src + i) ≤
            lastMoveFrom src size rounds (i + cpyWidth (src + i)) := le_lastMoveFrom rounds _
        dsimp only at hwritten houtside hend ⊢
        generalize lastMoveFrom src size rounds (i + cpyWidth (src + i)) = last at *
        generalize cpyWidth (src + i) = width at *
        refine ⟨fun j hij hj => ?_, fun x hx => ?_, hend⟩
        · by_cases hdone : j < i + width
          · rw [houtside _ (Or.inl (by omega)), if_neg (by omega),
              show dst + j = dst + i + (j - i) by omega, move_inside (by omega)]
            congr 1
            omega
          · rw [hwritten j (by omega) hj]
            by_cases hcopied : dst + i ≤ src + j ∧ src + j < dst + last
            · rw [if_pos hcopied]
              by_cases hlate : dst + (i + width) ≤ src + j ∧ src + j < dst + last
              · rw [if_pos hlate]
                exact move_outside (by omega)
              · rw [if_neg hlate, show src + j = dst + i + (src + j - dst - i) by omega,
                  move_inside (by omega)]
                congr 1
                omega
            · rw [if_neg hcopied, if_neg (by omega)]
              exact move_outside (by omega)
        · rw [houtside x (by omega)]
          exact move_outside (by omega)
      · -- the last move
        rw [if_neg hmore]
        have hstop : ∀ m', seqCstCpyLoop dst src size rounds (i + cpyWidth (src + i)) m' = m' := by
          intro m'
          cases rounds with
          | zero => rfl
          | succ rounds => rw [seqCstCpyLoop, if_neg hmore]
        rw [hstop]
        dsimp only
        refine ⟨fun j hij hj => ?_, fun x hx => ?_, by omega⟩
        · rw [if_neg (by omega), show dst + j = dst + i + (j - i) by omega, move_inside (by omega)]
          congr 1
          omega
        · exact move_outside (by omega)

theorem seqCstCpy_copied (m : Memory) (hdisjoint : src + size ≤ dst ∨ dst + size ≤ src)
    (hi : i < size) : seqCstCpy m dst src size (dst + i) = m (src + i) := by
  obtain ⟨hwritten, _, hend⟩ := seqCstCpyLoop_apply hdisjoint size 0 m (by omega) (by omega)
  have hlast : lastMoveFrom src size size 0 < size := lastMoveFrom_lt size 0 (by omega)
  rw [seqCstCpy, hwritten i (Nat.zero_le i) (by omega), if_neg (by omega)]

theorem seqCstCpy_overrun (m : Memory) (hdisjoint : src + size ≤ dst ∨ dst + size ≤ src) {j : Nat}
    (hj : j < cpyEnd src size) :
    seqCstCpy m dst src size (dst + j) = m (lastSource dst src size j) := by
  have hpos : 0 < size := Nat.pos_of_ne_zero fun hzero => by
    rw [cpyEnd, if_pos hzero] at hj
    omega
  rw [cpyEnd_eq hpos, lastMove_eq hpos] at hj
  have hwritten := (seqCstCpyLoop_apply hdisjoint size 0 m hpos (by omega)).1
  rw [lastSource, lastMove_eq hpos]
  exact hwritten j (Nat.zero_le j) hj

theorem seqCstCpy_beyond (m : Memory) (hdisjoint : src + size ≤ dst ∨ dst + size ≤ src) {x : Nat}
    (hx : x < dst ∨ dst + cpyEnd src size ≤ x) : seqCstCpy m dst src size x = m x := by
  rcases Nat.eq_zero_or_pos size with rfl | hpos
  · rfl
  · rw [cpyEnd_eq hpos, lastMove_eq hpos] at hx
    have houtside := (seqCstCpyLoop_apply hdisjoint size 0 m hpos (by omega)).2.1
    exact houtside x hx

/-- **`seq_cst_cpy` meets its contract as far as its last move does no harm**: what that move writes
behind the destination is what lies there already. -/
theorem seqCstCpy_contract_iff (m : Memory) (hdisjoint : src + size ≤ dst ∨ dst + size ≤ src) :
    (∃ m', CpyLoop dst src size 0 m m' ∧ CpyContract m dst src size m') ↔
      ∀ j, size ≤ j → j < cpyEnd src size → m (dst + j) = m (lastSource dst src size j) := by
  have hends : CpyLoop dst src size 0 m (seqCstCpy m dst src size) :=
    cpyLoop_seqCstCpyLoop size 0 m (by omega)
  constructor
  · rintro ⟨m', hloop, hcontract⟩ j hge hlt
    obtain rfl := hloop.unique hends
    calc m (dst + j) = seqCstCpy m dst src size (dst + j) :=
          (hcontract.frame _ (Or.inr (by omega))).symm
      _ = m (lastSource dst src size j) := seqCstCpy_overrun m hdisjoint hlt
  · intro hharmless
    refine ⟨_, hends, fun i hi => seqCstCpy_copied m hdisjoint hi, fun x hx => ?_⟩
    by_cases hbeyond : x < dst ∨ dst + cpyEnd src size ≤ x
    · exact seqCstCpy_beyond m hdisjoint hbeyond
    · obtain ⟨j, rfl⟩ : ∃ j, x = dst + j := ⟨x - dst, by omega⟩
      calc seqCstCpy m dst src size (dst + j) = m (lastSource dst src size j) :=
            seqCstCpy_overrun m hdisjoint (by omega)
        _ = m (dst + j) := (hharmless j (by omega) (by omega)).symm

end Loop

/-- Bytes 1 below the address 100 and bytes 0 above. -/
def sampleBytes : Memory := fun x => if x < 100 then 1 else 0

theorem seqCstCpy_contract_iff_word :
    ∃ m', CpyLoop 128 64 8 0 sampleBytes m' ∧ CpyContract sampleBytes 128 64 8 m' := by
  apply (seqCstCpy_contract_iff sampleBytes (by omega)).mpr
  intro j hge hlt
  exact absurd hlt (by change ¬ j < 8; omega)

/-- **A copy of one byte overwrites seven others** when its source is aligned to 8. -/
theorem one_byte_copy_overruns :
    ¬ ∀ (m : Memory) (dst src size : Nat), src + size ≤ dst ∨ dst + size ≤ src →
      ∃ m', CpyLoop dst src size 0 m m' ∧ CpyContract m dst src size m' := by
  intro h
  obtain ⟨m', hloop, hcontract⟩ := h sampleBytes 128 64 1 (by omega)
  obtain rfl := hloop.unique (cpyLoop_seqCstCpyLoop 1 0 sampleBytes (by omega))
  have hkept := hcontract.frame 129 (by omega)
  revert hkept
  decide

/-! ### How far the last move reaches -/

/-- When the last move writes nothing behind the destination. -/
theorem cpyEnd_le_iff (src size : Nat) :
    cpyEnd src size ≤ size ↔ size = 0 ∨ 8 ∣ src + size ∨ (4 ∣ src + size ∧ size ≤ 3) ∨
      (2 ∣ src + size ∧ size ≤ 1) := by
  unfold cpyEnd lastStop roundUp
  split_ifs <;> omega

theorem cpyEnd_lt (src size : Nat) : cpyEnd src size < size + 8 := by
  unfold cpyEnd lastStop roundUp
  split_ifs <;> omega

end Gcpp
