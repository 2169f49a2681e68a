import Gcpp.GcBase
import Mathlib.Tactic.IntervalCases

/-!
# Pointer slots never overlap

A slot is 16 bytes long and is looked for at every address, so two candidates could share bytes.
They do not: no byte of the header is the tag, and the header's last byte occurs in it only once.
Writing a managed pointer into the address word of one slot therefore leaves every other slot as it
was, and creates and destroys none.
-/

namespace Gcpp

open ByteMemory

variable {m m' : Memory} {a b : Nat} {p q : FatPtr}

theorem maybePtr_iff :
    maybePtr m a = true ↔ load64 m a = ptrHeader ∧ (load64 m (a + 8) &&& ptrTagMask) = ptrTag := by
  simp [maybePtr]

theorem testPtr_eq_some_iff :
    testPtr m a = some p ↔ load64 m a = ptrHeader ∧ load64 m (a + 8) = p.mPtr := by
  rw [testPtr]
  constructor
  · intro h
    split at h
    · rename_i hslot
      rw [Option.some_inj] at h
      rw [← h]
      exact ⟨hslot.1, rfl⟩
    · cases h
  · rintro ⟨hheader, hword⟩
    have htag : (load64 m (a + 8) &&& ptrTagMask) = ptrTag := hword ▸ p.tagged
    rw [dif_pos ⟨hheader, htag⟩]
    exact congrArg some (FatPtr.ext hword)

theorem maybePtr_of_testPtr (h : testPtr m a = some p) : maybePtr m a = true := by
  obtain ⟨hheader, hword⟩ := testPtr_eq_some_iff.mp h
  exact maybePtr_iff.mpr ⟨hheader, hword ▸ p.tagged⟩

theorem maybePtr_iff_isSome : maybePtr m a = true ↔ (testPtr m a).isSome = true := by
  rw [maybePtr_iff, testPtr]
  split <;> simp_all

/-- The two tests agree. -/
theorem maybePtr_eq_isSome : maybePtr m a = (testPtr m a).isSome := by
  rw [Bool.eq_iff_iff]
  exact maybePtr_iff_isSome

theorem exists_testPtr (h : maybePtr m a = true) : ∃ v, testPtr m a = some v :=
  Option.isSome_iff_exists.mp (maybePtr_iff_isSome.mp h)

theorem atomicLoad_of_testPtr (h : testPtr m a = some p) : atomicLoad m a = some p := by
  obtain ⟨_, hword⟩ := testPtr_eq_some_iff.mp h
  rw [atomicLoad, dif_pos (hword ▸ p.tagged)]
  exact congrArg some (FatPtr.ext hword)

/-- The test looks at 16 bytes, wherever they lie. -/
theorem testPtr_of_bytes (h : ∀ i < 16, m (a + i) = m' (b + i)) : testPtr m a = testPtr m' b := by
  have hheader : load64 m a = load64 m' b := load_of_bytes fun i hi => h i (by omega)
  have hword : load64 m (a + 8) = load64 m' (b + 8) := load_of_bytes fun i hi => by
    have := h (8 + i) (by omega)
    rwa [← Nat.add_assoc, ← Nat.add_assoc] at this
  simp only [testPtr, hheader, hword]

theorem testPtr_congr (h : AgreeOn m m' a 16) : testPtr m a = testPtr m' a := testPtr_of_bytes h

theorem maybePtr_congr (h : AgreeOn m m' a 16) : maybePtr m a = maybePtr m' a := by
  rw [maybePtr_eq_isSome, maybePtr_eq_isSome, testPtr_congr h]

/-! ### No two slots share a byte -/

theorem header_byte (h : maybePtr m a = true) {i : Nat} (hi : i < 8) :
    (m (a + i)).toNat = ptrHeader / 256 ^ i % 256 := by
  rw [toNat_eq_load_div m a hi]
  exact congrArg (· / 256 ^ i % 256) (maybePtr_iff.mp h).1

theorem tag_byte (h : maybePtr m a = true) : (m (a + 15)).toNat = ptrTagByte := by
  have hbyte := toNat_eq_load_div m (a + 8) (show 7 < 8 by decide)
  have htag := (and_ptrTagMask_eq_iff _).mp (maybePtr_iff.mp h).2
  rw [show a + 8 + 7 = a + 15 by omega] at hbyte
  rw [hbyte]
  exact htag

theorem header_last_unique :
    ∀ i < 7, ptrHeader / 256 ^ i % 256 ≠ ptrHeader / 256 ^ 7 % 256 := by decide

theorem header_ne_tag : ∀ i < 8, ptrHeader / 256 ^ i % 256 ≠ ptrTagByte := by decide

theorem add_sixteen_le_of_lt (ha : maybePtr m a = true) (hb : maybePtr m b = true) (hlt : a < b) :
    a + 16 ≤ b := by
  by_contra hclose
  by_cases hshort : b < a + 8
  · -- byte 7 of the lower header is one of bytes 0 to 6 of the upper one
    have hlower := header_byte ha (show 7 < 8 by decide)
    have hupper := header_byte hb (show a + 7 - b < 8 by omega)
    rw [show b + (a + 7 - b) = a + 7 by omega] at hupper
    exact header_last_unique _ (by omega) (hupper.symm.trans hlower)
  · -- the lower slot's tag lies in the upper header
    have hlower := tag_byte ha
    have hupper := header_byte hb (show a + 15 - b < 8 by omega)
    rw [show b + (a + 15 - b) = a + 15 by omega] at hupper
    exact header_ne_tag _ (by omega) (hupper.symm.trans hlower)

/-- **Slots are disjoint.** Two different addresses that pass the pointer test, aligned or not, are
at least 16 bytes apart. -/
theorem slots_disjoint (ha : maybePtr m a = true) (hb : maybePtr m b = true) (hne : a ≠ b) :
    a + 16 ≤ b ∨ b + 16 ≤ a := by
  rcases Nat.lt_or_gt_of_ne hne with hlt | hgt
  · exact Or.inl (add_sixteen_le_of_lt ha hb hlt)
  · exact Or.inr (add_sixteen_le_of_lt hb ha hgt)

/-! ### Retargeting a slot -/

theorem load64_atomicUpdate_self : load64 (atomicUpdate m a p) (a + 8) = p.mPtr :=
  load_store_self m (a + 8) p.mPtr_lt

theorem agreeOn_atomicUpdate {width : Nat} (h : b + width ≤ a + 8 ∨ a + 16 ≤ b) :
    AgreeOn (atomicUpdate m a p) m b width :=
  agreeOn_store h

theorem testPtr_atomicUpdate_self (h : maybePtr m a = true) :
    testPtr (atomicUpdate m a p) a = some p := by
  refine testPtr_eq_some_iff.mpr ⟨?_, load64_atomicUpdate_self⟩
  rw [← (maybePtr_iff.mp h).1]
  exact load_congr (agreeOn_atomicUpdate (Or.inl le_rfl))

theorem testPtr_atomicUpdate_of_ne (h : maybePtr m a = true) (hne : b ≠ a) :
    testPtr (atomicUpdate m a p) b = testPtr m b := by
  by_cases hfar : a + 16 ≤ b ∨ b + 16 ≤ a
  · exact testPtr_congr (agreeOn_atomicUpdate (hfar.symm.imp (fun _ => by omega) id))
  · -- too close to a slot to be one, before and after the write
    have hafter : maybePtr (atomicUpdate m a p) a = true :=
      maybePtr_of_testPtr (testPtr_atomicUpdate_self h)
    have hnone : ∀ m'' : Memory, maybePtr m'' a = true → testPtr m'' b = none := by
      intro m'' hm
      by_contra hb
      exact hfar (slots_disjoint hm (maybePtr_iff_isSome.mpr (Option.isSome_iff_ne_none.mpr hb))
        hne.symm)
    rw [hnone _ hafter, hnone _ h]

/-- A compare-exchange that expects what the slot holds retargets it. -/
theorem compareExchange_of_testPtr (h : testPtr m a = some p) :
    compareExchange m a p q = (none, atomicUpdate m a q) := by
  rw [compareExchange, if_pos (testPtr_eq_some_iff.mp h).2, atomicUpdate]

/-- One that expects something else leaves the memory alone. -/
theorem compareExchange_of_ne {expected : FatPtr} (h : testPtr m a = some p) (hne : p ≠ expected) :
    (compareExchange m a expected q).2 = m := by
  have hword : load64 m (a + 8) ≠ expected.mPtr := by
    rw [(testPtr_eq_some_iff.mp h).2]
    exact fun hsame => hne (FatPtr.ext hsame)
  rw [compareExchange, if_neg hword]

theorem agreeOn_compareExchange {width : Nat} (h : b + width ≤ a + 8 ∨ a + 16 ≤ b) :
    AgreeOn (compareExchange m a p q).2 m b width := by
  rw [compareExchange]
  split
  · exact agreeOn_store h
  · exact AgreeOn.refl m b width

/-! ### Writing a slot -/

theorem agreeOn_writeFatPtr {width : Nat} (h : b + width ≤ a ∨ a + 16 ≤ b) :
    AgreeOn (writeFatPtr m a p) m b width :=
  (agreeOn_store (by omega)).trans (agreeOn_store (by omega))

theorem testPtr_writeFatPtr_self : testPtr (writeFatPtr m a p) a = some p := by
  refine testPtr_eq_some_iff.mpr ⟨?_, load_store_self _ (a + 8) p.mPtr_lt⟩
  rw [writeFatPtr, load64, store64, load_store_of_disjoint (Or.inl le_rfl)]
  exact load_store_self m a (by decide)

theorem testPtr_writeFatPtr_of_apart (h : b + 16 ≤ a ∨ a + 16 ≤ b) :
    testPtr (writeFatPtr m a p) b = testPtr m b :=
  testPtr_congr (agreeOn_writeFatPtr h)

end Gcpp
