import Gcpp.MemProt
import Mathlib.Data.Finset.Card

/-!
# The table of heaps

`register_heap` counts a heap before `at` looks at the index. As long as no more than 128 ranges are
passed, the counter and the table agree. The next one throws with the counter past the table, and
both loops go on behind its end from then on.
-/

namespace Gcpp

variable {r : HeapRegistry}

/-! ### The loops -/

theorem anyHeap_eq {heaps : Vector HeapRange 128} {test : HeapRange → Bool} (rounds : Nat) :
    ∀ i, i + rounds ≤ 128 →
      anyHeap heaps test rounds i = some (((heaps.toList.drop i).take rounds).any test) := by
  induction rounds with
  | zero =>
      intro i _
      rw [anyHeap, List.take_zero, List.any_nil]
  | succ rounds ih =>
      intro i hi
      have hlt : i < heaps.toList.length := by
        rw [Vector.length_toList]
        omega
      have hread : heaps[i]? = some heaps.toList[i] := by
        rw [← Vector.getElem?_toList, List.getElem?_eq_getElem hlt]
      rw [anyHeap, hread, List.drop_eq_getElem_cons hlt, List.take_succ_cons, List.any_cons,
        ih (i + 1) (by omega)]
      dsimp only
      cases test heaps.toList[i] <;> rfl

/-- The entries in use. -/
def HeapRegistry.entries (r : HeapRegistry) : List HeapRange := r.heaps.toList.take r.count

theorem anyHeap_entries (h : r.count ≤ 128) (test : HeapRange → Bool) :
    anyHeap r.heaps test r.count 0 = some (r.entries.any test) := by
  rw [anyHeap_eq r.count 0 (by omega), List.drop_zero, HeapRegistry.entries]

/-- Every outcome of `register_heap` while the counter is in order. -/
theorem registerHeap_eq (h : r.count ≤ 128) (start len : Nat) :
    registerHeap r start len =
      if heapRange start len ∈ r.entries then (.returned, r)
      else if h : r.count < 128 then
        (.returned, { heaps := r.heaps.set r.count (heapRange start len), count := r.count + 1 })
      else (.outOfRange, { r with count := r.count + 1 }) := by
  have hsearch : r.entries.any (· == heapRange start len) = true ↔
      heapRange start len ∈ r.entries := by
    rw [List.any_beq']
    exact List.contains_iff_mem
  rw [registerHeap, anyHeap_entries h]
  by_cases hmem : heapRange start len ∈ r.entries
  · rw [hsearch.mpr hmem, if_pos hmem]
  · rw [Bool.eq_false_iff.mpr (hsearch.not.mpr hmem), if_neg hmem]

theorem entries_set (h : r.count < 128) (range : HeapRange) :
    HeapRegistry.entries { heaps := r.heaps.set r.count range, count := r.count + 1 } =
      r.entries ++ [range] := by
  have hlength : r.count < r.heaps.toList.length := by
    rw [Vector.length_toList]
    exact h
  rw [HeapRegistry.entries, HeapRegistry.entries, Vector.toList_set, List.take_set,
    List.take_succ_eq_append_getElem hlength,
    List.set_append_right _ _ (by rw [List.length_take]; exact Nat.min_le_left _ _)]
  simp [Nat.min_eq_left h.le]

/-! ### Runs -/

/-- A process that registers heaps. It is remembered which ranges have been registered, in order,
and how the last call has ended, with the registry that it found. -/
structure RegistryRun where
  registry : HeapRegistry
  ranges : List HeapRange
  last : Option (RegisterEnd × HeapRegistry)

def RegistryRun.initial : RegistryRun where
  registry := .empty
  ranges := []
  last := none

def addRange (ranges : List HeapRange) (range : HeapRange) : List HeapRange :=
  if range ∈ ranges then ranges else ranges ++ [range]

theorem addRange_nodup {ranges : List HeapRange} (h : ranges.Nodup) (range : HeapRange) :
    (addRange ranges range).Nodup := by
  rw [addRange]
  split
  · exact h
  · rename_i hnew
    rw [← List.concat_eq_append]
    exact h.concat hnew

theorem mem_addRange {ranges : List HeapRange} {range other : HeapRange} :
    other ∈ addRange ranges range ↔ other ∈ ranges ∨ other = range := by
  rw [addRange]
  split
  · rename_i hmem
    refine ⟨Or.inl, ?_⟩
    rintro (hother | rfl)
    · exact hother
    · exact hmem
  · rw [List.mem_append, List.mem_singleton]

theorem le_length_addRange (ranges : List HeapRange) (range : HeapRange) :
    ranges.length ≤ (addRange ranges range).length := by
  rw [addRange]
  split
  · exact le_rfl
  · rw [List.length_append]
    exact Nat.le_add_right _ _

/-- A call with the given start and length. -/
def RegistryRun.step (call : Nat × Nat) (s : RegistryRun) : Option RegistryRun :=
  let result := registerHeap s.registry call.1 call.2
  some
    { registry := result.2
      ranges := if result.1 = .returned then addRange s.ranges (heapRange call.1 call.2)
        else s.ranges
      last := some (result.1, s.registry) }

/-- What is expected in every state: the table holds the distinct ranges in order, a call that has
thrown has changed nothing, and no loop has left the table or can leave it. -/
structure RegistrySound (s : RegistryRun) : Prop where
  count_le : s.registry.count ≤ 128
  entries : s.registry.entries = s.ranges
  distinct : s.ranges.Nodup
  unchanged : ∀ before, s.last = some (.outOfRange, before) → s.registry = before
  searched : ∀ before, s.last ≠ some (.undefined, before)
  handler : ∀ addr, segfaultHandler s.registry addr ≠ none

theorem RegistrySound.initial : RegistrySound .initial where
  count_le := Nat.zero_le _
  entries := rfl
  distinct := List.nodup_nil
  unchanged := fun before h => by cases h
  searched := fun before h => by cases h
  handler := fun addr h => by cases h

/-- There is room for one more range, or the call repeats an old one. -/
def HasRoom (s : RegistryRun) (call : Nat × Nat) : Prop :=
  heapRange call.1 call.2 ∈ s.ranges ∨ s.ranges.length < 128

variable {s t : RegistryRun} {call : Nat × Nat}

theorem RegistrySound.length_ranges (h : RegistrySound s) :
    s.ranges.length = s.registry.count := by
  have hcount := h.count_le
  rw [← h.entries, HeapRegistry.entries, List.length_take, Vector.length_toList]
  exact Nat.min_eq_left hcount

/-- A call that finds room returns, and adds its range unless it is there. -/
theorem RegistrySound.register (h : RegistrySound s) (hroom : HasRoom s call) :
    ∃ r, registerHeap s.registry call.1 call.2 = (.returned, r) ∧ r.count ≤ 128 ∧
      r.entries = addRange s.ranges (heapRange call.1 call.2) := by
  have hcount := h.count_le
  rw [registerHeap_eq hcount, h.entries, addRange]
  by_cases hmem : heapRange call.1 call.2 ∈ s.ranges
  · rw [if_pos hmem, if_pos hmem]
    exact ⟨_, rfl, hcount, h.entries⟩
  · have hlt : s.registry.count < 128 := by
      have hshort := hroom.resolve_left hmem
      rwa [h.length_ranges] at hshort
    rw [if_neg hmem, if_neg hmem, dif_pos hlt, ← h.entries]
    exact ⟨_, rfl, hlt, entries_set hlt _⟩

theorem RegistrySound.step (h : RegistrySound s) (hroom : HasRoom s call)
    (hstep : RegistryRun.step call s = some t) :
    RegistrySound t ∧ t.ranges = addRange s.ranges (heapRange call.1 call.2) := by
  obtain ⟨r, hregister, hcount, hentries⟩ := h.register hroom
  rw [RegistryRun.step, hregister] at hstep
  cases hstep
  refine ⟨?_, by rw [if_pos rfl]⟩
  exact
    { count_le := hcount
      entries := by rw [if_pos rfl, hentries]
      distinct := by
        rw [if_pos rfl]
        exact addRange_nodup h.distinct _
      unchanged := fun before hlast => by cases hlast
      searched := fun before hlast => by cases hlast
      handler := fun addr => by
        rw [segfaultHandler, anyHeap_entries hcount]
        exact Option.some_ne_none _ }

/-- A call without room leaves the counter behind the table. -/
theorem hasRoom_of_sound (h : RegistrySound s)
    (hnext : ∀ t, RegistryRun.step call s = some t → RegistrySound t) : HasRoom s call := by
  by_contra hfull
  obtain ⟨hnew, hlong⟩ := not_or.mp hfull
  have hcount := h.count_le
  have hlength := h.length_ranges
  have hafter := (hnext _ rfl).count_le
  dsimp only at hafter
  rw [registerHeap_eq hcount, h.entries, if_neg hnew, dif_neg (by omega)] at hafter
  dsimp only at hafter
  omega

/-! ### The ranges that are passed -/

def passedRanges (calls : List (Nat × Nat)) : List HeapRange :=
  calls.map fun call => heapRange call.1 call.2

theorem le_length_foldl_addRange (passed : List HeapRange) :
    ∀ ranges : List HeapRange, ranges.length ≤ (passed.foldl addRange ranges).length := by
  induction passed with
  | nil => exact fun ranges => le_rfl
  | cons range passed ih =>
      intro ranges
      exact (le_length_addRange ranges range).trans (ih _)

theorem foldl_addRange (passed : List HeapRange) :
    ∀ ranges : List HeapRange, ranges.Nodup → (passed.foldl addRange ranges).Nodup ∧
      ∀ other, other ∈ passed.foldl addRange ranges ↔ other ∈ ranges ∨ other ∈ passed := by
  induction passed with
  | nil =>
      intro ranges hnodup
      exact ⟨hnodup, fun other => by simp⟩
  | cons range passed ih =>
      intro ranges hnodup
      obtain ⟨hrest, hmem⟩ := ih _ (addRange_nodup hnodup range)
      refine ⟨hrest, fun other => ?_⟩
      rw [List.foldl_cons, hmem, mem_addRange, List.mem_cons, or_assoc]

/-- Keeping each range once counts the distinct ones. -/
theorem length_distinct (passed : List HeapRange) :
    (passed.foldl addRange []).length = passed.toFinset.card := by
  obtain ⟨hnodup, hmem⟩ := foldl_addRange passed [] List.nodup_nil
  rw [← List.toFinset_card_of_nodup hnodup]
  congr 1
  ext range
  rw [List.mem_toFinset, List.mem_toFinset, hmem]
  simp

/-- The calls find room as long as the ranges, old and new, are at most 128. -/
theorem meets_hasRoom_iff (calls : List (Nat × Nat)) : ∀ s, RegistrySound s →
    (Machine.Meets RegistryRun.step HasRoom calls s ↔
      ((passedRanges calls).foldl addRange s.ranges).length ≤ 128) := by
  induction calls with
  | nil =>
      intro s h
      have hcount := h.count_le
      rw [← h.length_ranges] at hcount
      exact iff_of_true trivial hcount
  | cons call calls ih =>
      intro s h
      rw [passedRanges, List.map_cons, List.foldl_cons, ← passedRanges]
      by_cases hroom : HasRoom s call
      · obtain ⟨hsound, hranges⟩ := h.step hroom rfl
        rw [← hranges]
        exact (and_iff_right hroom).trans (ih _ hsound)
      · obtain ⟨hnew, hlong⟩ := not_or.mp hroom
        refine iff_of_false (fun hmeets => hroom hmeets.1) fun hle => ?_
        have hgrown := le_length_foldl_addRange (passedRanges calls)
          (addRange s.ranges (heapRange call.1 call.2))
        have hlonger : (addRange s.ranges (heapRange call.1 call.2)).length =
            s.ranges.length + 1 := by
          rw [addRange, if_neg hnew, List.length_append, List.length_singleton]
        omega

theorem always_sound_iff_meets (calls : List (Nat × Nat)) :
    Machine.Always RegistryRun.step RegistrySound calls .initial ↔
      Machine.Meets RegistryRun.step HasRoom calls .initial := by
  have hstep : ∀ call s t, RegistrySound s → HasRoom s call →
      RegistryRun.step call s = some t → RegistrySound t :=
    fun call s t hinv hroom hstep => (hinv.step hroom hstep).1
  have hneeded : ∀ call s, RegistrySound s →
      (∀ t, RegistryRun.step call s = some t → RegistrySound t) → HasRoom s call :=
    fun call s hinv hnext => hasRoom_of_sound hinv hnext
  exact Machine.always_iff_meets hstep (fun s hinv => hinv) hneeded RegistrySound.initial

/-- **When the registry is sound.** In every state that the calls lead through, the table holds the
ranges registered so far, in order, and nothing leaves it, if and only if the calls pass at most 128
distinct ranges. -/
theorem registry_sound_iff (calls : List (Nat × Nat)) :
    Machine.Always RegistryRun.step RegistrySound calls .initial ↔
      (passedRanges calls).toFinset.card ≤ 128 := by
  rw [← length_distinct, always_sound_iff_meets]
  exact meets_hasRoom_iff calls .initial RegistrySound.initial

/-- 129 heaps of one page. -/
def manyHeaps : List (Nat × Nat) := (List.range 129).map fun i => (4096 * i, 4096)

theorem nodup_manyHeaps : (passedRanges manyHeaps).Nodup := by
  have hinjective : Function.Injective fun i : Nat => heapRange (4096 * i) 4096 := by
    intro i j hij
    have hstart : 4096 * i = 4096 * j := congrArg Prod.fst hij
    omega
  rw [passedRanges, manyHeaps, List.map_map]
  exact List.nodup_range.map hinjective

/-- The last heap does not fit, and is counted. -/
theorem registry_unsound :
    ¬ ∀ calls, Machine.Always RegistryRun.step RegistrySound calls .initial := by
  intro h
  have hmeets := (always_sound_iff_meets manyHeaps).mp (h manyHeaps)
  have hlength := (meets_hasRoom_iff manyHeaps .initial RegistrySound.initial).mp hmeets
  have hcard : (passedRanges manyHeaps).toFinset.card = 129 := by
    rw [List.toFinset_card_of_nodup nodup_manyHeaps, passedRanges, manyHeaps, List.length_map,
      List.length_map, List.length_range]
  have hdistinct : ((passedRanges manyHeaps).foldl addRange []).length = 129 :=
    (length_distinct _).trans hcard
  exact absurd (hdistinct.symm.trans_le hlength) (by decide)

end Gcpp
