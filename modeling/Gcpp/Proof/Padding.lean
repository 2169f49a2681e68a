import Gcpp.Proof.Allocation
import Gcpp.HeapRun
import Gcpp.Lib.Align

/-!
# The padding search beyond 256

`alloc` takes any alignment, and the counter of `calc_alignment_bytes` is a `uint8_t`. The search
finds the least padding when that is a byte. From any other address it comes back to where it
started, and `reserve_space` never returns.
-/

namespace Gcpp

open StateExcept Align

variable {cfg : Config} {curPtr alignment result exponent : Nat}

theorem and_alignment_mask (hexponent : exponent < 64) (p : Nat) :
    p &&& ((2 ^ exponent + (2 ^ 64 - 1)) % 2 ^ 64) = p % 2 ^ exponent := by
  have hpos := Nat.two_pow_pos exponent
  have hlt : 2 ^ exponent < 2 ^ 64 := Nat.pow_lt_pow_right (by decide) hexponent
  have hmask : (2 ^ exponent + (2 ^ 64 - 1)) % 2 ^ 64 = 2 ^ exponent - 1 := by
    calc (2 ^ exponent + (2 ^ 64 - 1)) % 2 ^ 64
      _ = (2 ^ exponent - 1 + 2 ^ 64) % 2 ^ 64 := by congr 1; omega
      _ = 2 ^ exponent - 1 := by rw [Nat.add_mod_right, Nat.mod_eq_of_lt (by omega)]
  rw [hmask, Nat.and_two_pow_sub_one_eq_mod]

/-- The search stops at the first value that passes its test. -/
theorem calcAlignmentLoop_first (rounds : Nat) :
    ∀ start, calcAlignmentLoop curPtr alignment rounds start = some result →
      result < start + rounds ∧ ∀ j, start ≤ j → j < result →
        (curPtr + j) &&& ((alignment + (2 ^ 64 - 1)) % 2 ^ 64) ≠ 0 := by
  induction rounds with
  | zero =>
      intro start h
      cases h
  | succ rounds ih =>
      intro start h
      rw [calcAlignmentLoop] at h
      split at h
      · rename_i hfails
        obtain ⟨hlt, hbefore⟩ := ih (start + 1) h
        refine ⟨by omega, fun j hle hj => ?_⟩
        by_cases hstart : j = start
        · rw [hstart]
          exact hfails
        · exact hbefore j (by omega) hj
      · cases h
        exact ⟨by omega, fun j hle hj => absurd hj (Nat.not_lt.mpr hle)⟩

/-- **The search is exact for a padding of one byte**, and fails for any other. -/
theorem calcAlignmentBytes_eq_some_iff (hexponent : exponent < 64) :
    calcAlignmentBytes curPtr (2 ^ exponent) = some result ↔
      result = padding (2 ^ exponent) curPtr ∧ result < 256 := by
  have hpos := Nat.two_pow_pos exponent
  constructor
  · intro h
    obtain ⟨_, hpasses⟩ := calcAlignmentLoop_eq_some 256 0 h
    obtain ⟨hlt, hbefore⟩ := calcAlignmentLoop_first 256 0 h
    rw [and_alignment_mask hexponent] at hpasses
    refine ⟨Nat.le_antisymm (Nat.le_of_not_lt fun hless => ?_) ?_, by omega⟩
    · have hfails := hbefore _ (Nat.zero_le _) hless
      rw [and_alignment_mask hexponent] at hfails
      exact hfails (Nat.mod_eq_zero_of_dvd (dvd_add_padding hpos curPtr))
    · exact padding_le_of_dvd hpos (Nat.dvd_of_mod_eq_zero hpasses)
  · rintro ⟨rfl, hlt⟩
    have hpasses : (curPtr + padding (2 ^ exponent) curPtr) &&&
        ((2 ^ exponent + (2 ^ 64 - 1)) % 2 ^ 64) = 0 := by
      rw [and_alignment_mask hexponent]
      exact Nat.mod_eq_zero_of_dvd (dvd_add_padding hpos curPtr)
    obtain ⟨found, hle, hfound⟩ :=
      calcAlignmentLoop_exists hpasses 256 0 (Nat.zero_le _) (by omega)
    obtain ⟨_, hzero⟩ := calcAlignmentLoop_eq_some 256 0 hfound
    rw [and_alignment_mask hexponent] at hzero
    have hleast := padding_le_of_dvd hpos (Nat.dvd_of_mod_eq_zero hzero)
    rw [calcAlignmentBytes, hfound, Nat.le_antisymm hle hleast]

theorem calcAlignmentBytes_eq_none_iff (hexponent : exponent < 64) :
    calcAlignmentBytes curPtr (2 ^ exponent) = none ↔ 256 ≤ padding (2 ^ exponent) curPtr := by
  constructor
  · intro hnone
    by_contra hlt
    have hsome := (calcAlignmentBytes_eq_some_iff hexponent).mpr ⟨rfl, Nat.lt_of_not_le hlt⟩
    rw [hnone] at hsome
    cases hsome
  · intro hle
    by_contra hsome
    obtain ⟨found, hfound⟩ := Option.ne_none_iff_exists'.mp hsome
    obtain ⟨rfl, hlt⟩ := (calcAlignmentBytes_eq_some_iff hexponent).mp hfound
    omega

/-- What the search is for, from one address: it returns the least padding, and a reservation whose
block would start there uses exactly that padding. -/
structure AlignsExactly (curPtr alignment : Nat) : Prop where
  search : ∃ paddingBytes, calcAlignmentBytes curPtr alignment = some paddingBytes ∧
    IsLeast {k | alignment ∣ curPtr + k} paddingBytes
  reserve : ∀ (cfg : Config) (s : State) (toSpace : SpaceNum) (size limit : Nat),
    cfg.base toSpace + s.nexts toSpace = curPtr →
    ∃ paddingBytes, IsLeast {k | alignment ∣ curPtr + k} paddingBytes ∧
      (reserveSpace cfg size toSpace alignment limit).run s =
        if s.nexts toSpace + size + paddingBytes > limit then .ok none s
        else .ok (some (s.nexts toSpace + paddingBytes))
          (s.bump toSpace (s.nexts toSpace + size + paddingBytes))

/-- **When the search is exact.** For every address and every power of two, the alignment is met
with the least padding if and only if that padding is at most 255. -/
theorem alignsExactly_iff (hexponent : exponent < 64) :
    AlignsExactly curPtr (2 ^ exponent) ↔
      (2 ^ exponent - curPtr % 2 ^ exponent) % 2 ^ exponent ≤ 255 := by
  have hleast := isLeast_padding (Nat.two_pow_pos exponent) curPtr
  constructor
  · intro h
    obtain ⟨paddingBytes, hsome, _⟩ := h.search
    obtain ⟨rfl, hlt⟩ := (calcAlignmentBytes_eq_some_iff hexponent).mp hsome
    exact Nat.le_of_lt_succ hlt
  · intro hle
    have hsome := (calcAlignmentBytes_eq_some_iff hexponent).mpr ⟨rfl, Nat.lt_succ_of_le hle⟩
    refine { search := ⟨_, hsome, hleast⟩, reserve := fun cfg s toSpace size limit hptr => ?_ }
    rw [← hptr] at hsome
    exact ⟨_, hleast, hptr ▸ run_reserveSpace size limit hsome⟩

theorem alignsExactly_iff_small :
    AlignsExactly 65537 (2 ^ 6) ↔ (2 ^ 6 - 65537 % 2 ^ 6) % 2 ^ 6 ≤ 255 :=
  alignsExactly_iff (by decide)

/-- After an allocation of one byte, one with the alignment 512 never ends. -/
theorem alignsExactly_fails :
    ¬ ∀ curPtr < 2 ^ 56, ∀ exponent < 64, AlignsExactly curPtr (2 ^ exponent) := by
  intro h
  obtain ⟨paddingBytes, hsome, _⟩ := (h 65537 (by decide) 9 (by decide)).search
  obtain ⟨rfl, hlt⟩ := (calcAlignmentBytes_eq_some_iff (by decide)).mp hsome
  revert hlt
  decide

end Gcpp
