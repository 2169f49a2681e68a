import Gcpp.Proof.Scan

/-!
# The end of a scan

`scan_memory` documents its end as exclusive, so a slot that ends exactly there is inside of the
range. The loop asks for `ptr + 16 < end` and leaves that slot out. Where the range begins in the
last 23 bytes of the address space the sum wraps, and the loop goes on through all of the memory.
-/

namespace Gcpp

open ByteMemory

variable {m : Memory} {start stop a : Nat}

/-- A slot in the range from `start` to the exclusive end `stop`. -/
def SlotWithin (m : Memory) (start stop a : Nat) : Prop :=
  8 ∣ a ∧ start ≤ a ∧ a + 16 ≤ stop ∧ maybePtr m a = true

/-- What is expected of a scan: it ends, and reports the slots of the range in order. -/
def ScanExact (m : Memory) (start stop : Nat) : Prop :=
  ∃ found, scanMemory m start stop = some found ∧ found.Pairwise (· < ·) ∧
    ∀ a, a ∈ found ↔ SlotWithin m start stop a

/-- The addresses at which the loop goes on, wherever it has begun. -/
def LoopGoesOn (stop a : Nat) : Prop := 8 ∣ a ∧ a < 2 ^ 64 ∧ (a + 16) % 2 ^ 64 < stop

theorem slotWithin_iff_inScan
    (hlast : 8 ∣ stop → start + 16 ≤ stop → maybePtr m (stop - 16) = false) :
    SlotWithin m start stop a ↔ InScan m start stop a := by
  constructor
  · rintro ⟨hdvd, hlo, hhi, hslot⟩
    refine ⟨hdvd, hlo, ?_, hslot⟩
    by_contra hend
    have hfalse := hlast (by omega) (by omega)
    rw [show stop - 16 = a by omega, hslot] at hfalse
    cases hfalse
  · rintro ⟨hdvd, hlo, hhi, hslot⟩
    exact ⟨hdvd, hlo, hhi.le, hslot⟩

/-! ### In order -/

theorem pairwise_of_scanLoop (hstop : stop + 8 ≤ 2 ^ 64) (rounds : Nat) :
    ∀ (ptr : Nat) (found : List Nat), 8 ∣ ptr → ptr < stop + 8 → ptr + 24 ≤ 2 ^ 64 →
      stop + 8 ≤ ptr + 8 * rounds → scanLoop m stop rounds ptr = some found →
      found.Pairwise (· < ·) := by
  induction rounds with
  | zero => intro ptr found _ _ _ hrounds; omega
  | succ rounds ih =>
      intro ptr found hdvd hptr hbound hrounds hfound
      rw [scanLoop_succ m stop rounds hbound] at hfound
      by_cases hin : ptr + 16 < stop
      · rw [if_pos hin] at hfound
        obtain ⟨rest, hrest, hmem, _⟩ := scanLoop_spec (m := m) hstop rounds (ptr + 8) (by omega)
          (by omega) (by omega) (by omega)
        have hsorted := ih (ptr + 8) rest (by omega) (by omega) (by omega) (by omega) hrest
        rw [hrest] at hfound
        obtain rfl := Option.some.inj hfound
        split
        · refine List.pairwise_cons.mpr ⟨fun b hb => ?_, hsorted⟩
          have hlo := ((hmem b).mp hb).2.1
          omega
        · exact hsorted
      · rw [if_neg hin] at hfound
        cases hfound
        exact List.Pairwise.nil

theorem pairwise_of_scanMemory (hle : start ≤ stop) (hstop : stop + 8 ≤ 2 ^ 64)
    (hstart : start + 24 ≤ 2 ^ 64) {found : List Nat} (h : scanMemory m start stop = some found) :
    found.Pairwise (· < ·) := by
  obtain ⟨first, hdvd, hlo, hhi, hscan⟩ := scanMemory_eq_scanLoop m stop
    (show start + 8 ≤ 2 ^ 64 by omega)
  rw [hscan] at h
  exact pairwise_of_scanLoop hstop _ _ _ hdvd (by omega) (by omega) (by omega) h

/-! ### At the end of the address space -/

/-- The loop that begins at the last slot of the address space meets every address at which it goes
on. -/
theorem scanMemory_wraps (hle : start ≤ stop) (hstop : stop + 16 ≤ 2 ^ 64)
    (hstart : 2 ^ 64 < start + 24) :
    ∃ found, scanMemory m start stop = some found ∧
      ∀ a, a ∈ found ↔ LoopGoesOn stop a ∧ maybePtr m a = true := by
  have hbegin : scanMemory m start stop = scanLoop m stop (2 ^ 61 + 1) (2 ^ 64 - 16) := by
    obtain ⟨first, hdvd, hlo, hhi, hscan⟩ := scanMemory_eq_scanLoop m stop
      (show start + 8 ≤ 2 ^ 64 by omega)
    rw [hscan, show first = 2 ^ 64 - 16 by omega]
  obtain ⟨rounds, hrounds⟩ : ∃ rounds, 2 ^ 61 + 1 = rounds + 1 + 1 := ⟨2 ^ 61 - 1, by omega⟩
  have hbelow : stop + 8 ≤ 2 ^ 64 := by omega
  obtain ⟨found, hfound, hmem, _⟩ := scanLoop_spec (m := m) hbelow rounds 0 (dvd_zero 8)
    (by omega) (by omega) (by omega)
  have hfirst : (2 ^ 64 - 16 + gcPtrSize) % 2 ^ 64 = 0 := by decide
  have hsecond : (2 ^ 64 - 16 + gcPtrAlignment) % 2 ^ 64 = 2 ^ 64 - 8 := by decide
  have hthird : (2 ^ 64 - 8 + gcPtrSize) % 2 ^ 64 = 8 := by decide
  have hwrapped : (2 ^ 64 - 8 + gcPtrAlignment) % 2 ^ 64 = 0 := by decide
  rw [hbegin, hrounds, scanLoop, hfirst, if_pos (by omega), hsecond, scanLoop, hthird,
    if_pos (by omega), hwrapped, hfound]
  refine ⟨_, rfl, fun a => ?_⟩
  have hsplit : LoopGoesOn stop a ∧ maybePtr m a = true ↔
      (a = 2 ^ 64 - 16 ∧ maybePtr m (2 ^ 64 - 16) = true) ∨
        (a = 2 ^ 64 - 8 ∧ maybePtr m (2 ^ 64 - 8) = true) ∨ InScan m 0 stop a := by
    unfold LoopGoesOn InScan
    constructor
    · rintro ⟨⟨hdvd, hlt, hgo⟩, hslot⟩
      by_cases hin : a + 16 < 2 ^ 64
      · rw [Nat.mod_eq_of_lt hin] at hgo
        exact Or.inr (Or.inr ⟨hdvd, Nat.zero_le a, hgo, hslot⟩)
      · by_cases hlast : a = 2 ^ 64 - 16
        · exact Or.inl ⟨hlast, hlast ▸ hslot⟩
        · have hlast' : a = 2 ^ 64 - 8 := by omega
          exact Or.inr (Or.inl ⟨hlast', hlast' ▸ hslot⟩)
    · rintro (⟨rfl, hslot⟩ | ⟨rfl, hslot⟩ | ⟨hdvd, _, hlt, hslot⟩)
      · exact ⟨⟨by omega, by omega, by omega⟩, hslot⟩
      · exact ⟨⟨by omega, by omega, by omega⟩, hslot⟩
      · exact ⟨⟨hdvd, by omega, by omega⟩, hslot⟩
  rw [hsplit, ← hmem a]
  generalize 2 ^ 64 - 16 = first
  generalize 2 ^ 64 - 8 = second
  cases hone : maybePtr m first <;> cases htwo : maybePtr m second <;> simp

/-! ### When a scan is exact -/

/-- **A scan is exact as long as no slot ends where the range ends**, and, where the range begins in
the last 23 bytes of the address space, no slot lies where the loop goes on. -/
theorem scanExact_iff (m : Memory) (hle : start ≤ stop) (hstop : stop + 16 ≤ 2 ^ 64) :
    ScanExact m start stop ↔
      (∀ a, 8 ∣ a → start ≤ a → a + 16 = stop → maybePtr m a = false) ∧
        (2 ^ 64 < start + 24 → ∀ a, LoopGoesOn stop a → maybePtr m a = false) := by
  by_cases hstart : start + 24 ≤ 2 ^ 64
  · obtain ⟨found, hfound, hmem, _⟩ := scanMemory_spec_of_start m hle (by omega) hstart
    constructor
    · rintro ⟨found', hfound', _, hexact⟩
      rw [hfound] at hfound'
      obtain rfl := Option.some.inj hfound'
      refine ⟨fun a hdvd hlo hhi => ?_, fun hlate => by omega⟩
      by_contra hslot
      have hin : a ∈ found := (hexact a).mpr ⟨hdvd, hlo, hhi.le, by simpa using hslot⟩
      have hlt := ((hmem a).mp hin).2.2.1
      omega
    · rintro ⟨hlast, _⟩
      refine ⟨found, hfound, pairwise_of_scanMemory hle (by omega) hstart hfound, fun a => ?_⟩
      rw [hmem a]
      apply (slotWithin_iff_inScan ?_).symm
      intro hdvd hroom
      exact hlast _ (by omega) (by omega) (by omega)
  · obtain ⟨found, hfound, hmem⟩ := scanMemory_wraps (m := m) hle hstop (by omega)
    -- the range is too short for a slot, so nothing may be found
    have hempty : ∀ a, ¬ SlotWithin m start stop a := by
      rintro a ⟨hdvd, hlo, hhi, _⟩
      omega
    constructor
    · rintro ⟨found', hfound', _, hexact⟩
      rw [hfound] at hfound'
      obtain rfl := Option.some.inj hfound'
      refine ⟨fun a hdvd hlo hhi => by omega, fun _ a hgo => ?_⟩
      by_contra hslot
      exact hempty a ((hexact a).mp ((hmem a).mpr ⟨hgo, by simpa using hslot⟩))
    · rintro ⟨_, hquiet⟩
      have hnone : ∀ a, a ∉ found := by
        intro a ha
        obtain ⟨hgo, hslot⟩ := (hmem a).mp ha
        rw [hquiet (by omega) a hgo] at hslot
        cases hslot
      obtain rfl := List.eq_nil_iff_forall_not_mem.mpr hnone
      exact ⟨[], hfound, List.Pairwise.nil, fun a => iff_of_false (hnone a) (hempty a)⟩

/-- A memory with one slot, at the address 4096. -/
def oneSlot : Memory := writeFatPtr (fun _ => 0) 4096 (FatPtr.ofAddr 65536)

theorem scanExact_iff_oneSlot : ScanExact oneSlot 4096 4120 := by
  apply (scanExact_iff oneSlot (by omega) (by omega)).mpr
  refine ⟨fun a _ _ hend => ?_, fun hlate => absurd hlate (by omega)⟩
  obtain rfl : a = 4104 := by omega
  decide

/-- **The last field of an object is missed**: the object fills 16 bytes, all of them the slot. -/
theorem last_field_missed :
    ¬ ∀ (m : Memory) (start stop : Nat), start ≤ stop → stop + 16 ≤ 2 ^ 64 →
      ScanExact m start stop := by
  intro h
  obtain ⟨found, hfound, _, hexact⟩ := h oneSlot 4096 4112 (by omega) (by omega)
  have hin : 4096 ∈ found := (hexact 4096).mpr ⟨by omega, le_rfl, le_rfl, by decide⟩
  have hlt := ((mem_of_scanMemory hfound (by omega) (by omega)).mp hin).2.2.1
  omega

end Gcpp
