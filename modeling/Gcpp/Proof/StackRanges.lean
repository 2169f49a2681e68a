import Gcpp.GcScan
import Gcpp.Proof.ScanEnd
import Mathlib.Data.List.Induction

/-!
# What the stack ranges remember

Of all that a thread has reported, its range keeps the largest base and the latest stack pointer:
the early return of `update_stack_range` leaves what would have been stored. The scan compensates
for its strict bound by one byte, so the roots are the slots between the two, the red zone included,
and no others.
-/

namespace Gcpp

open ByteMemory

variable {ranges : StackRanges} {id t : ThreadId}

/-! ### One call -/

theorem lookup_updateStackRange_of_ne {ranges : StackRanges} {other : ThreadId} (hne : other ≠ id)
    (basePtr sp : Nat) :
    (updateStackRange ranges id basePtr sp).lookup other = ranges.lookup other := by
  rw [updateStackRange]
  split
  · split
    · rfl
    · exact AList.lookup_insert_ne hne
  · exact AList.lookup_insert_ne hne

/-- The range of a thread after it has reported once more. -/
theorem lookup_updateStackRange {ranges : StackRanges} {stackStart stackEnd : Nat}
    (h : ranges.lookup id = some (stackStart, stackEnd)) (basePtr sp : Nat) :
    (updateStackRange ranges id basePtr sp).lookup id = some (max stackStart basePtr, sp) := by
  rw [updateStackRange, h]
  dsimp only
  split
  · rename_i hcovered
    rw [h, max_eq_left hcovered.1, hcovered.2]
  · exact AList.lookup_insert _

theorem lookup_updateStackRange_new (h : ranges.lookup id = none) (basePtr sp : Nat) :
    (updateStackRange ranges id basePtr sp).lookup id = some (basePtr, sp) := by
  rw [updateStackRange, h]
  exact AList.lookup_insert _

/-- `update_stack_range` without its early return. -/
def storeStackRange (ranges : StackRanges) (id : ThreadId) (basePtr sp : Nat) : StackRanges :=
  match ranges.lookup id with
  | some (stackStart, _) => ranges.insert id (max stackStart basePtr, sp)
  | none => ranges.insert id (basePtr, sp)

/-- **The early return changes nothing.** -/
theorem lookup_storeStackRange (ranges : StackRanges) (id : ThreadId) (basePtr sp : Nat)
    (t : ThreadId) :
    (updateStackRange ranges id basePtr sp).lookup t =
      (storeStackRange ranges id basePtr sp).lookup t := by
  by_cases hid : t = id
  · subst hid
    cases hold : ranges.lookup t with
    | none =>
        rw [lookup_updateStackRange_new hold, storeStackRange, hold]
        dsimp only
        rw [AList.lookup_insert]
    | some range =>
        rw [lookup_updateStackRange hold, storeStackRange, hold]
        dsimp only
        rw [AList.lookup_insert]
  · rw [lookup_updateStackRange_of_ne hid, storeStackRange]
    split
    · rw [AList.lookup_insert_ne hid]
    · rw [AList.lookup_insert_ne hid]

/-! ### All calls -/

/-- A call of `update_stack_range`: the thread, the base pointer that it passes, and the stack
pointer that is read in the function. -/
structure StackCall where
  id : ThreadId
  basePtr : Nat
  sp : Nat

def callsOf (calls : List StackCall) (t : ThreadId) : List StackCall :=
  calls.filter fun call => call.id = t

/-- The largest base that the thread has passed. -/
def maxBase (calls : List StackCall) (t : ThreadId) : Nat :=
  ((callsOf calls t).map StackCall.basePtr).foldl max 0

/-- What should be known of a thread after the calls: the largest base and the latest stack
pointer. -/
def rangeOf (calls : List StackCall) (t : ThreadId) : Option (Nat × Nat) :=
  (callsOf calls t).getLast?.map fun last => (maxBase calls t, last.sp)

def StackCall.record (ranges : StackRanges) (call : StackCall) : StackRanges :=
  updateStackRange ranges call.id call.basePtr call.sp

def recordCalls (calls : List StackCall) : StackRanges := calls.foldl StackCall.record ∅

theorem callsOf_append (calls : List StackCall) (call : StackCall) (t : ThreadId) :
    callsOf (calls ++ [call]) t =
      if call.id = t then callsOf calls t ++ [call] else callsOf calls t := by
  rw [callsOf, List.filter_append, ← callsOf]
  split
  · rename_i hid
    rw [List.filter_cons_of_pos (by simpa using hid), List.filter_nil]
  · rename_i hid
    rw [List.filter_cons_of_neg (by simpa using hid), List.filter_nil, List.append_nil]

theorem maxBase_append_self (calls : List StackCall) (call : StackCall) :
    maxBase (calls ++ [call]) call.id = max (maxBase calls call.id) call.basePtr := by
  rw [maxBase, callsOf_append, if_pos rfl, List.map_append, List.foldl_append, ← maxBase]
  rfl

theorem rangeOf_append_self (calls : List StackCall) (call : StackCall) :
    rangeOf (calls ++ [call]) call.id =
      some (max (maxBase calls call.id) call.basePtr, call.sp) := by
  rw [rangeOf, maxBase_append_self, callsOf_append, if_pos rfl, List.getLast?_concat]
  rfl

theorem rangeOf_append_of_ne (calls : List StackCall) {call : StackCall} (hne : call.id ≠ t) :
    rangeOf (calls ++ [call]) t = rangeOf calls t := by
  rw [rangeOf, rangeOf, maxBase, maxBase, callsOf_append, if_neg hne]

theorem rangeOf_isSome_iff {calls : List StackCall} :
    (rangeOf calls t).isSome ↔ ∃ call ∈ calls, call.id = t := by
  rw [rangeOf, Option.isSome_map, Option.isSome_iff_ne_none, ne_eq, List.getLast?_eq_none_iff,
    callsOf, List.filter_eq_nil_iff]
  simp

/-- **The map keeps the history.** -/
theorem lookup_recordCalls (calls : List StackCall) (t : ThreadId) :
    (recordCalls calls).lookup t = rangeOf calls t := by
  induction calls using List.reverseRecOn generalizing t with
  | nil => rfl
  | append_singleton calls call ih =>
      rw [recordCalls, List.foldl_append, ← recordCalls]
      change (updateStackRange (recordCalls calls) call.id call.basePtr call.sp).lookup t = _
      by_cases hid : call.id = t
      · subst hid
        rw [rangeOf_append_self]
        have hbefore := ih call.id
        cases hrange : rangeOf calls call.id with
        | none =>
            have hnone : callsOf calls call.id = [] := by
              rw [rangeOf, Option.map_eq_none_iff] at hrange
              exact List.getLast?_eq_none_iff.mp hrange
            rw [hrange] at hbefore
            rw [lookup_updateStackRange_new hbefore, maxBase, hnone]
            simp
        | some range =>
            rw [hrange] at hbefore
            obtain ⟨last, _, hlast⟩ := Option.map_eq_some_iff.mp hrange
            rw [lookup_updateStackRange hbefore, ← hlast]
      · rw [lookup_updateStackRange_of_ne (Ne.symm hid), rangeOf_append_of_ne calls hid, ih]

/-! ### The roots -/

/-- The values of a call on a stack: the red zone below the stack pointer is part of the address
space, and so is a slot that begins at the base. -/
structure StackCall.WellFormed (call : StackCall) : Prop where
  redZone_le : redZoneSize ≤ call.sp
  sp_le : call.sp ≤ call.basePtr
  base_le : call.basePtr + gcPtrSize ≤ 2 ^ 64

/-- The ranges that such calls leave. -/
def RangesWithin (ranges : StackRanges) : Prop :=
  ∀ t base sp, ranges.lookup t = some (base, sp) →
    redZoneSize ≤ sp ∧ sp ≤ base ∧ base + gcPtrSize ≤ 2 ^ 64

theorem RangesWithin.record (h : RangesWithin ranges) {call : StackCall} (hcall : call.WellFormed) :
    RangesWithin (call.record ranges) := by
  have hred := hcall.redZone_le
  have hsp := hcall.sp_le
  have hbase := hcall.base_le
  intro t base sp hrange
  rw [StackCall.record] at hrange
  by_cases hid : t = call.id
  · subst hid
    cases hold : ranges.lookup call.id with
    | none =>
        rw [lookup_updateStackRange_new hold] at hrange
        cases hrange
        exact ⟨hred, hsp, hbase⟩
    | some range =>
        obtain ⟨_, _, hmax⟩ := h call.id range.1 range.2 hold
        rw [lookup_updateStackRange hold] at hrange
        cases hrange
        exact ⟨hred, hsp.trans (le_max_right _ _), by omega⟩
  · rw [lookup_updateStackRange_of_ne hid] at hrange
    exact h t base sp hrange

theorem RangesWithin.recordCalls {calls : List StackCall} (hcalls : ∀ call ∈ calls, call.WellFormed) :
    RangesWithin (recordCalls calls) := by
  induction calls using List.reverseRecOn with
  | nil =>
      intro t base sp hrange
      cases hrange
  | append_singleton calls call ih =>
      rw [Gcpp.recordCalls, List.foldl_append, ← Gcpp.recordCalls]
      have hbefore := ih fun earlier hmem => hcalls earlier (List.mem_append_left _ hmem)
      exact hbefore.record (hcalls call (List.mem_append_right _ (List.mem_singleton_self call)))

/-- A thread's own scan. The byte that is added to the base makes up for the strict bound. -/
theorem scanLocals_exact (m : Memory) {base sp : Nat} (hwithin : RangesWithin ranges)
    (hrange : ranges.lookup t = some (base, sp)) :
    ∃ found, scanLocals m ranges t = some found ∧ found.Pairwise (· < ·) ∧
      ∀ a, a ∈ found ↔ SlotWithin m (sp - redZoneSize) base a := by
  obtain ⟨hred, hsp, hbase⟩ := hwithin t base sp hrange
  have hsize : gcPtrSize = 16 := rfl
  have hzone : redZoneSize = 128 := rfl
  rw [hsize] at hbase
  have hstart : (sp + 2 ^ 64 - redZoneSize) % 2 ^ 64 = sp - redZoneSize := by omega
  have hstop : (base + 1) % 2 ^ 64 = base + 1 := Nat.mod_eq_of_lt (by omega)
  obtain ⟨found, hfound, hmem, _⟩ := scanMemory_spec_of_start m
    (show sp - redZoneSize ≤ base + 1 by omega) (by omega) (by omega)
  rw [scanLocals, hrange]
  dsimp only
  rw [hstart, hstop]
  refine ⟨found, hfound, pairwise_of_scanMemory (by omega) (by omega) (by omega) hfound,
    fun a => (hmem a).trans ?_⟩
  unfold InScan SlotWithin
  rw [Nat.lt_succ_iff]

theorem appendAll_eq_flatMap {α β : Type} {f : α → Option (List β)} {found : α → List β}
    {xs : List α} (h : ∀ x ∈ xs, f x = some (found x)) : appendAll f xs = some (xs.flatMap found) := by
  induction xs with
  | nil => rfl
  | cons x xs ih =>
      obtain ⟨hx, hxs⟩ := List.forall_mem_cons.mp h
      rw [appendAll, hx, ih hxs, List.flatMap_cons]

theorem appendAll_eq_none {α β : Type} {f : α → Option (List β)} {xs : List α} {x : α}
    (hx : x ∈ xs) (hnone : f x = none) : appendAll f xs = none := by
  induction xs with
  | nil => cases hx
  | cons y xs ih =>
      rw [appendAll]
      rcases List.mem_cons.mp hx with rfl | hmem
      · rw [hnone]
      · rw [ih hmem]
        cases f y <;> rfl

/-- The roots are the global ones and then, thread by thread, exactly the slots on the stacks: those
between the lowest address below the latest stack pointer and the largest base. -/
def ReportsStacks (m : Memory) (globalRoots : List Nat) (calls : List StackCall)
    (result : List Nat) : Prop :=
  ∃ (threads : List ThreadId) (found : ThreadId → List Nat),
    threads.Nodup ∧ (∀ t, t ∈ threads ↔ ∃ call ∈ calls, call.id = t) ∧
    result = globalRoots ++ threads.flatMap found ∧
    ∀ t base sp, rangeOf calls t = some (base, sp) → (found t).Pairwise (· < ·) ∧
      ∀ a, a ∈ found t ↔ SlotWithin m (sp - redZoneSize) base a

theorem mem_keys_recordCalls {calls : List StackCall} :
    t ∈ (recordCalls calls).keys ↔ ∃ call ∈ calls, call.id = t := by
  rw [← rangeOf_isSome_iff, ← lookup_recordCalls, AList.lookup_isSome, AList.mem_keys]

theorem recordCalls_append (calls : List StackCall) (last : StackCall) :
    updateStackRange (recordCalls calls) last.id last.basePtr last.sp =
      recordCalls (calls ++ [last]) := by
  rw [recordCalls, recordCalls, List.foldl_append]
  rfl

theorem reportsStacks (m : Memory) (globalRoots : List Nat) {calls : List StackCall}
    (hcalls : ∀ call ∈ calls, call.WellFormed) :
    ∃ locals, appendAll (scanLocals m (recordCalls calls)) (recordCalls calls).keys = some locals ∧
      ReportsStacks m globalRoots calls (globalRoots ++ locals) := by
  have hwithin := RangesWithin.recordCalls hcalls
  have hfound : ∀ t ∈ (recordCalls calls).keys,
      scanLocals m (recordCalls calls) t =
        some ((scanLocals m (recordCalls calls) t).getD []) := by
    intro t ht
    obtain ⟨range, hrange⟩ :=
      Option.isSome_iff_exists.mp (AList.lookup_isSome.mpr (AList.mem_keys.mpr ht))
    obtain ⟨found, hscan, _⟩ := scanLocals_exact m hwithin hrange
    rw [hscan, Option.getD_some]
  refine ⟨_, appendAll_eq_flatMap hfound, (recordCalls calls).keys,
    fun t => (scanLocals m (recordCalls calls) t).getD [], (recordCalls calls).keys_nodup,
    fun t => mem_keys_recordCalls, rfl, fun t base sp hrange => ?_⟩
  rw [← lookup_recordCalls] at hrange
  obtain ⟨found, hscan, hsorted, hmem⟩ := scanLocals_exact m hwithin hrange
  dsimp only
  rw [hscan, Option.getD_some]
  exact ⟨hsorted, hmem⟩

/-- **The roots are exact.** After any calls of any threads, `get_roots` ends, and reports for every
thread that has ever called the slots of its largest range, one that ends at the base included. No
early return changes a range. -/
theorem getRoots_exact (m : Memory) (globalRoots : List Nat) (calls : List StackCall)
    (last : StackCall) (hcalls : ∀ call ∈ calls ++ [last], call.WellFormed) :
    (∃ roots result, getRoots m { globalRoots, stackRanges := recordCalls calls } last.id
        last.basePtr last.sp = some (roots, result) ∧
      (∀ t, roots.stackRanges.lookup t = rangeOf (calls ++ [last]) t) ∧
      ReportsStacks m globalRoots (calls ++ [last]) result) ∧
    ∀ ranges id basePtr sp t, (updateStackRange ranges id basePtr sp).lookup t =
      (storeStackRange ranges id basePtr sp).lookup t := by
  refine ⟨?_, lookup_storeStackRange⟩
  obtain ⟨locals, hlocals, hreports⟩ := reportsStacks m globalRoots hcalls
  refine ⟨{ globalRoots, stackRanges := recordCalls (calls ++ [last]) }, globalRoots ++ locals, ?_,
    fun t => lookup_recordCalls (calls ++ [last]) t, hreports⟩
  rw [getRoots]
  dsimp only
  rw [recordCalls_append, hlocals]
  rfl

theorem getRoots_exact_oneSlot :
    ∃ roots result, getRoots oneSlot
        { globalRoots := [], stackRanges := recordCalls [⟨0, 4112, 4096⟩, ⟨1, 8192, 8000⟩] }
        0 4104 4000 = some (roots, result) ∧
      ReportsStacks oneSlot [] [⟨0, 4112, 4096⟩, ⟨1, 8192, 8000⟩, ⟨0, 4104, 4000⟩] result := by
  have hcalls : ∀ call ∈ [(⟨0, 4112, 4096⟩ : StackCall), ⟨1, 8192, 8000⟩] ++ [⟨0, 4104, 4000⟩],
      call.WellFormed := by
    intro call hmem
    simp only [List.cons_append, List.nil_append, List.mem_cons, List.not_mem_nil, or_false] at hmem
    rcases hmem with rfl | rfl | rfl <;> exact ⟨by decide, by decide, by decide⟩
  obtain ⟨⟨roots, result, hrun, _, hreports⟩, _⟩ := getRoots_exact oneSlot [] _ _ hcalls
  exact ⟨roots, result, hrun, hreports⟩

/-! ### A base in the last word of the address space -/

/-- Every cursor is below the end, once it has wrapped. -/
theorem scanLoop_endless (m : Memory) (rounds : Nat) :
    ∀ ptr, 8 ∣ ptr → scanLoop m (2 ^ 64 - 7) rounds ptr = none := by
  induction rounds with
  | zero => exact fun _ _ => rfl
  | succ rounds ih =>
      intro ptr hdvd
      have hsize : gcPtrSize = 16 := rfl
      have hstep : gcPtrAlignment = 8 := rfl
      have hbelow : (ptr + gcPtrSize) % 2 ^ 64 < 2 ^ 64 - 7 := by omega
      rw [scanLoop, if_pos hbelow, ih _ (by omega)]
      rfl

/-- A base of 2 ^ 64 - 8 is aligned, and the scan up to it never ends. -/
theorem getRoots_hangs_at_last_word :
    ¬ ∀ (m : Memory) (globalRoots : List Nat) (calls : List StackCall) (last : StackCall),
      (∀ call ∈ calls ++ [last], 8 ∣ call.basePtr ∧ 8 ∣ call.sp ∧ redZoneSize ≤ call.sp ∧
        call.sp ≤ call.basePtr ∧ call.basePtr < 2 ^ 64) →
      ∃ roots result, getRoots m { globalRoots, stackRanges := recordCalls calls } last.id
          last.basePtr last.sp = some (roots, result) ∧
        ReportsStacks m globalRoots (calls ++ [last]) result := by
  intro h
  obtain ⟨roots, result, hrun, _⟩ := h (fun _ => 0) [] [] ⟨0, 2 ^ 64 - 8, 128⟩ (by
    intro call hmem
    cases List.mem_singleton.mp hmem
    decide)
  have hscan : scanMemory (fun _ => 0) 0 (2 ^ 64 - 7) = none :=
    scanLoop_endless _ _ 0 (dvd_zero 8)
  have hlocals : scanLocals (fun _ => 0) (recordCalls [⟨0, 2 ^ 64 - 8, 128⟩]) 0 = none := by
    rw [scanLocals, lookup_recordCalls]
    exact hscan
  have hmem : 0 ∈ (recordCalls [⟨0, 2 ^ 64 - 8, 128⟩]).keys :=
    mem_keys_recordCalls.mpr ⟨_, List.mem_singleton_self _, rfl⟩
  have hrecord := recordCalls_append [] ⟨0, 2 ^ 64 - 8, 128⟩
  rw [List.nil_append] at hrecord
  dsimp only at hrecord
  rw [getRoots] at hrun
  dsimp only at hrun
  rw [hrecord, appendAll_eq_none hmem hlocals] at hrun
  cases hrun

end Gcpp
