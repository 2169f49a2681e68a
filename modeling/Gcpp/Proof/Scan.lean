import Gcpp.Proof.Slots

/-!
# What a scan reports

Below the top of the address space the cursor never wraps, and `scan_memory` reports the aligned
slots that end strictly before the end it is given.
-/

namespace Gcpp

open ByteMemory

variable {m m' : Memory} {start stop a : Nat}

/-- The slots a scan of `[start, stop)` is to find: the source's loop wants `a + 16 < stop`. -/
def InScan (m : Memory) (start stop a : Nat) : Prop :=
  8 ∣ a ∧ start ≤ a ∧ a + 16 < stop ∧ maybePtr m a = true

/-- A round at which neither sum wraps. -/
theorem scanLoop_succ (m : Memory) (stop rounds : Nat) {ptr : Nat} (h : ptr + 24 ≤ 2 ^ 64) :
    scanLoop m stop (rounds + 1) ptr =
      if ptr + 16 < stop then
        (scanLoop m stop rounds (ptr + 8)).map fun found =>
          if maybePtr m ptr then ptr :: found else found
      else some [] := by
  have hwrap : (ptr + gcPtrSize) % 2 ^ 64 = ptr + 16 := Nat.mod_eq_of_lt (by
    change ptr + 16 < _
    omega)
  have hnext : (ptr + gcPtrAlignment) % 2 ^ 64 = ptr + 8 := Nat.mod_eq_of_lt (by
    change ptr + 8 < _
    omega)
  rw [scanLoop, hwrap, hnext]

/-- The loop begins at the first multiple of 8 in the range. -/
theorem scanMemory_eq_scanLoop (m : Memory) (stop : Nat) (h : start + 8 ≤ 2 ^ 64) :
    ∃ first, 8 ∣ first ∧ start ≤ first ∧ first < start + 8 ∧
      scanMemory m start stop = scanLoop m stop (2 ^ 61 + 1) first := by
  have hsize : gcPtrAlignment = 8 := rfl
  rw [scanMemory]
  by_cases haligned : start - start % gcPtrAlignment = start
  · simp only [haligned, if_true]
    rw [hsize] at haligned
    exact ⟨start, by omega, le_rfl, by omega, rfl⟩
  · simp only [haligned, if_false]
    rw [hsize] at haligned ⊢
    have hround : (start - start % 8 + 8) % 2 ^ 64 = start - start % 8 + 8 :=
      Nat.mod_eq_of_lt (by omega)
    rw [hround]
    exact ⟨_, by omega, by omega, by omega, rfl⟩

theorem scanLoop_spec (hstop : stop + 8 ≤ 2 ^ 64) (rounds : Nat) :
    ∀ ptr : Nat, 8 ∣ ptr → ptr < stop + 8 → ptr + 24 ≤ 2 ^ 64 → stop + 8 ≤ ptr + 8 * rounds →
      ∃ found, scanLoop m stop rounds ptr = some found ∧ (∀ a, a ∈ found ↔ InScan m ptr stop a) ∧
        8 * found.length ≤ stop - ptr := by
  induction rounds with
  | zero => intro ptr _ _ _ hrounds; omega
  | succ rounds ih =>
      intro ptr hdvd hptr hbound hrounds
      rw [scanLoop_succ m stop rounds hbound]
      by_cases hin : ptr + 16 < stop
      · obtain ⟨found, hfound, hmem, hlength⟩ := ih (ptr + 8) (by omega) (by omega) (by omega)
          (by omega)
        rw [if_pos hin, hfound]
        refine ⟨_, rfl, fun a => ?_, ?_⟩
        swap
        · cases maybePtr m ptr <;> simp <;> omega
        have hsplit : InScan m ptr stop a ↔
            (a = ptr ∧ maybePtr m ptr = true) ∨ InScan m (ptr + 8) stop a := by
          unfold InScan
          constructor
          · rintro ⟨ha, hle, hlt, hslot⟩
            by_cases heq : a = ptr
            · exact Or.inl ⟨heq, heq ▸ hslot⟩
            · exact Or.inr ⟨ha, by omega, hlt, hslot⟩
          · rintro (⟨rfl, hslot⟩ | ⟨ha, hle, hlt, hslot⟩)
            · exact ⟨hdvd, le_rfl, hin, hslot⟩
            · exact ⟨ha, by omega, hlt, hslot⟩
        rw [hsplit, ← hmem a]
        cases hslot : maybePtr m ptr <;> simp
      · rw [if_neg hin]
        refine ⟨[], rfl, fun a => ?_, Nat.zero_le _⟩
        simp only [List.not_mem_nil, false_iff]
        rintro ⟨_, hle, hlt, _⟩
        omega

/-- **A scan is exact.** It ends, and reports exactly the slots of the range. -/
theorem scanMemory_spec_of_start (m : Memory) (hle : start ≤ stop) (hstop : stop + 8 ≤ 2 ^ 64)
    (hstart : start + 24 ≤ 2 ^ 64) :
    ∃ found, scanMemory m start stop = some found ∧ (∀ a, a ∈ found ↔ InScan m start stop a) ∧
      8 * found.length ≤ stop - start := by
  obtain ⟨first, hdvd, hlo, hhi, hscan⟩ := scanMemory_eq_scanLoop m stop
    (show start + 8 ≤ 2 ^ 64 by omega)
  obtain ⟨found, hfound, hmem, hlength⟩ := scanLoop_spec (m := m) hstop (2 ^ 61 + 1) first hdvd
    (by omega) (by omega) (by omega)
  refine ⟨found, hscan.trans hfound, fun a => (hmem a).trans ?_, by omega⟩
  unfold InScan
  constructor
  · rintro ⟨ha, hge, hlt, hslot⟩
    exact ⟨ha, by omega, hlt, hslot⟩
  · rintro ⟨ha, hge, hlt, hslot⟩
    exact ⟨ha, by omega, hlt, hslot⟩

theorem scanMemory_spec (m : Memory) (hle : start ≤ stop) (hstop : stop + 24 ≤ 2 ^ 64) :
    ∃ found, scanMemory m start stop = some found ∧ (∀ a, a ∈ found ↔ InScan m start stop a) ∧
      8 * found.length ≤ stop - start :=
  scanMemory_spec_of_start m hle (by omega) (by omega)

theorem mem_of_scanMemory {found : List Nat} (hscan : scanMemory m start stop = some found)
    (hle : start ≤ stop) (hstop : stop + 24 ≤ 2 ^ 64) : a ∈ found ↔ InScan m start stop a := by
  obtain ⟨found', hfound', hmem, _⟩ := scanMemory_spec m hle hstop
  rw [hscan] at hfound'
  cases hfound'
  exact hmem a

theorem InScan.congr (h : AgreeOn m m' start (stop - start)) :
    InScan m start stop a ↔ InScan m' start stop a := by
  have hslot : start ≤ a → a + 16 < stop → maybePtr m a = maybePtr m' a := fun hlo hhi =>
    maybePtr_congr (h.mono hlo (by omega))
  constructor
  · rintro ⟨hdvd, hlo, hhi, hmaybe⟩
    exact ⟨hdvd, hlo, hhi, hslot hlo hhi ▸ hmaybe⟩
  · rintro ⟨hdvd, hlo, hhi, hmaybe⟩
    exact ⟨hdvd, hlo, hhi, (hslot hlo hhi).symm ▸ hmaybe⟩

end Gcpp
