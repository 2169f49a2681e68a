import Gcpp.SharedRegistry
import Mathlib.Data.Finset.Card

/-!
# No heap is lost

An entry belongs to the thread that has counted it until both of its halves are written, and nobody
writes it again. The searches and the handler read entries in the middle of all this: what they take
for a match is a finished entry, as no heap starts or ends at address zero.
-/

namespace Gcpp.SharedRegistry

variable {s s' : Sys} {r r' : HeapRegistry} {pc : Pc} {t : Nat} {idx : Fin 128}
  {range : HeapRange} {asked : List HeapRange} {actions : List Action} {asserts : Bool}

/-! ### The places -/

/-- The entry that a thread has counted and is writing. -/
def Pc.slot : Pc → Option (Fin 128)
  | .storeStart _ idx | .storeEnd _ idx => some idx
  | _ => none

/-- The entry that a thread has counted, until its call returns. -/
def Pc.entry : Pc → Option (Fin 128)
  | .storeStart _ idx | .storeEnd _ idx | .query _ idx | .install _ idx => some idx
  | _ => none

theorem Pc.entry_of_slot (h : pc.slot = some idx) : pc.entry = some idx := by
  cases pc with
  | storeStart | storeEnd => exact h
  | _ => cases h

/-- The heap that a thread registers. -/
def Pc.about : Pc → Option HeapRange
  | .search range _ | .compareStart range _ | .compareEnd range _ | .reserve range
  | .storeStart range _ | .storeEnd range _ | .query range _ | .install range _ => some range
  | _ => none

/-- What a thread has found out, and what it relies on. -/
def PlaceOk (r : HeapRegistry) : Pc → Prop
  | .compareStart _ i => i < r.count
  | .compareEnd range i =>
      i < r.count ∧ ∀ idx : Fin 128, idx.val = i → range.1 ≠ 0 → (r.heaps.get idx).1 = range.1
  | .storeStart _ idx => idx < r.count ∧ r.heaps.get idx = (0, 0)
  | .storeEnd range idx => idx < r.count ∧ r.heaps.get idx = (range.1, 0)
  | .query range idx | .install range idx => idx < r.count ∧ r.heaps.get idx = range
  | .testStart _ heapCounts _ => heapCounts ≤ r.count
  | .testEnd _ heapCounts i => i < heapCounts ∧ heapCounts ≤ r.count
  | _ => True

theorem PlaceOk.entry_lt (h : PlaceOk r pc) (hentry : pc.entry = some idx) : idx < r.count := by
  cases pc with
  | storeStart | storeEnd | query | install =>
      cases hentry
      exact h.1
  | _ => cases hentry

/-- How the table changes when a thread writes the entry, or counts one more. A start that is there
stays. -/
structure Grows (slot : Option (Fin 128)) (r r' : HeapRegistry) : Prop where
  count : r.count ≤ r'.count
  others : ∀ idx : Fin 128, slot ≠ some idx → r'.heaps.get idx = r.heaps.get idx
  starts : ∀ idx : Fin 128, (r.heaps.get idx).1 ≠ 0 → (r'.heaps.get idx).1 = (r.heaps.get idx).1

theorem Grows.refl (slot : Option (Fin 128)) (r : HeapRegistry) : Grows slot r r :=
  ⟨le_rfl, fun _ _ => rfl, fun _ _ => rfl⟩

theorem PlaceOk.grows {slot : Option (Fin 128)} (h : PlaceOk r pc) (hgrows : Grows slot r r')
    (hother : ∀ idx, pc.entry = some idx → slot ≠ some idx) : PlaceOk r' pc := by
  have hcount := hgrows.count
  cases pc with
  | compareStart range i => exact lt_of_lt_of_le h hcount
  | compareEnd range i =>
      refine ⟨lt_of_lt_of_le h.1 hcount, fun idx hi hstart => ?_⟩
      have hfound := h.2 idx hi hstart
      rw [hgrows.starts idx (by rwa [hfound]), hfound]
  | storeStart range idx | storeEnd range idx | query range idx | install range idx =>
      refine ⟨lt_of_lt_of_le h.1 hcount, ?_⟩
      rw [hgrows.others idx (hother idx rfl)]
      exact h.2
  | testStart => exact le_trans h hcount
  | testEnd => exact ⟨h.1, h.2.trans hcount⟩
  | idle | search | reserve | loadCount | aborted => trivial

/-! ### The invariant -/

/-- The heaps that calls are about are `asked`. -/
structure Inv (s : Sys) (asked : List HeapRange) : Prop where
  place : ∀ t, PlaceOk s.registry (s.threads t)
  alone : ∀ t u idx, (s.threads t).entry = some idx → (s.threads u).entry = some idx → t = u
  unused : ∀ idx : Fin 128, s.registry.count ≤ idx → s.registry.heaps.get idx = (0, 0)
  used : ∀ idx : Fin 128, idx < s.registry.count → (∀ t, (s.threads t).slot ≠ some idx) →
    s.registry.heaps.get idx ∈ asked
  about : ∀ t range, (s.threads t).about = some range → range ∈ asked

theorem Inv.initial (asserts : Bool) : Inv (.initial asserts) [] where
  place _ := trivial
  alone _ _ _ h := by cases h
  unused idx _ := Vector.getElem_replicate idx.isLt
  used _ h := absurd h (Nat.not_lt_zero _)
  about _ _ h := by cases h

theorem Inv.mono {more : List HeapRange} (h : Inv s asked) : Inv s (asked ++ more) where
  place := h.place
  alone := h.alone
  unused := h.unused
  used idx hidx hfree := List.mem_append_left _ (h.used idx hidx hfree)
  about t range habout := List.mem_append_left _ (h.about t range habout)

theorem Inv.entry_lt (h : Inv s asked) (hentry : (s.threads t).entry = some idx) :
    idx < s.registry.count := (h.place t).entry_lt hentry

/-- A step of a thread, seen from the others. -/
structure Move (s : Sys) (t : Nat) (r' : HeapRegistry) (pc : Pc) (asked : List HeapRange) :
    Prop where
  grows : Grows (s.threads t).slot s.registry r'
  place : PlaceOk r' pc
  slot : ∀ idx, pc.slot = some idx → (s.threads t).slot = some idx ∨ s.registry.count ≤ idx
  entry : ∀ idx, pc.entry = some idx → (s.threads t).entry = some idx ∨ s.registry.count ≤ idx
  fresh : ∀ idx : Fin 128, s.registry.count ≤ idx → idx < r'.count → pc.slot = some idx
  stored : ∀ idx, (s.threads t).slot = some idx → pc.slot = some idx ∨ r'.heaps.get idx ∈ asked
  about : ∀ range, pc.about = some range → range ∈ asked

/-- A step that leaves the table as it is. -/
theorem Move.keeps (hslot : (s.threads t).slot = none) (hnew : pc.slot = none)
    (hentry : ∀ idx, pc.entry = some idx → (s.threads t).entry = some idx)
    (hplace : PlaceOk s.registry pc) (habout : ∀ range, pc.about = some range → range ∈ asked) :
    Move s t s.registry pc asked where
  grows := .refl _ _
  place := hplace
  slot idx h := by
    rw [hnew] at h
    cases h
  entry idx h := Or.inl (hentry idx h)
  fresh idx hle hlt := absurd hlt (Nat.not_lt.mpr hle)
  stored idx h := by
    rw [hslot] at h
    cases h
  about := habout

theorem Move.goes (hslot : (s.threads t).slot = none) (hnew : pc.entry = none)
    (hplace : PlaceOk s.registry pc) (habout : ∀ range, pc.about = some range → range ∈ asked) :
    Move s t s.registry pc asked := by
  have hentry : ∀ idx, pc.entry ≠ some idx := by
    rw [hnew]
    exact fun _ h => by cases h
  refine .keeps hslot (Option.eq_none_iff_forall_ne_some.mpr fun idx h => ?_)
    (fun idx h => absurd h (hentry idx)) hplace habout
  exact hentry idx (Pc.entry_of_slot h)

theorem Inv.of_move (h : Inv s asked) (hregistry : s'.registry = r')
    (hthreads : s'.threads = Function.update s.threads t pc) (hmove : Move s t r' pc asked) :
    Inv s' asked := by
  have hcount := hmove.grows.count
  -- the entry of somebody else is not the new one
  have hother : ∀ {u}, u ≠ t → ∀ idx, (s.threads u).entry = some idx → pc.entry ≠ some idx := by
    intro u hu idx hentry hnew
    rcases hmove.entry idx hnew with hold | hfresh
    · exact hu (h.alone u t idx hentry hold)
    · exact Nat.not_lt.mpr hfresh (h.entry_lt hentry)
  refine
    { place := fun u => ?_
      alone := fun u v idx hu hv => ?_
      unused := fun idx hidx => ?_
      used := fun idx hidx hfree => ?_
      about := fun u range habout => ?_ }
  · rw [hregistry, hthreads]
    by_cases hu : u = t
    · rw [hu, Function.update_self]
      exact hmove.place
    · rw [Function.update_of_ne hu]
      exact (h.place u).grows hmove.grows fun idx hentry hold =>
        hu (h.alone u t idx hentry (Pc.entry_of_slot hold))
  · rw [hthreads] at hu hv
    by_cases hut : u = t
    · by_cases hvt : v = t
      · rw [hut, hvt]
      · rw [hut, Function.update_self] at hu
        rw [Function.update_of_ne hvt] at hv
        exact absurd hu (hother hvt idx hv)
    · rw [Function.update_of_ne hut] at hu
      by_cases hvt : v = t
      · rw [hvt, Function.update_self] at hv
        exact absurd hv (hother hut idx hu)
      · rw [Function.update_of_ne hvt] at hv
        exact h.alone u v idx hu hv
  · rw [hregistry] at hidx ⊢
    have hold := hcount.trans hidx
    rw [hmove.grows.others idx fun hslot =>
      Nat.not_lt.mpr hold (h.entry_lt (Pc.entry_of_slot hslot))]
    exact h.unused idx hold
  · rw [hregistry] at hidx ⊢
    rw [hthreads] at hfree
    have hpc : pc.slot ≠ some idx := by
      have hself := hfree t
      rwa [Function.update_self] at hself
    by_cases hslot : (s.threads t).slot = some idx
    · exact (hmove.stored idx hslot).resolve_left hpc
    · rw [hmove.grows.others idx hslot]
      refine h.used idx (Nat.lt_of_not_le fun hle => hpc (hmove.fresh idx hle hidx)) fun u => ?_
      by_cases hu : u = t
      · rwa [hu]
      · have hself := hfree u
        rwa [Function.update_of_ne hu] at hself
  · rw [hthreads] at habout
    by_cases hu : u = t
    · rw [hu, Function.update_self] at habout
      exact hmove.about range habout
    · rw [Function.update_of_ne hu] at habout
      exact h.about u range habout

/-! ### The steps -/

theorem heap_of_read {i : Nat} {heap : HeapRange} (hread : r.heaps[i]? = some heap) :
    ∃ idx : Fin 128, idx.val = i ∧ r.heaps.get idx = heap := by
  obtain ⟨hlt, hheap⟩ := Vector.getElem?_eq_some_iff.mp hread
  exact ⟨⟨i, hlt⟩, rfl, hheap⟩

theorem get_set_self (heaps : Vector HeapRange 128) (idx : Fin 128) (heap : HeapRange) :
    (heaps.set idx heap idx.isLt).get idx = heap := Vector.getElem_set_self idx.isLt

theorem get_set_of_ne (heaps : Vector HeapRange 128) {other : Fin 128} (h : other ≠ idx)
    (heap : HeapRange) : (heaps.set idx heap idx.isLt).get other = heaps.get other :=
  Vector.getElem_set_ne idx.isLt other.isLt fun hval => h (Fin.ext hval.symm)

theorem setStart_self (idx : Fin 128) (start : Nat) :
    (setStart r idx start).heaps.get idx = (start, (r.heaps.get idx).2) := get_set_self _ _ _

theorem setStart_of_ne {other : Fin 128} (h : other ≠ idx) (start : Nat) :
    (setStart r idx start).heaps.get other = r.heaps.get other := get_set_of_ne _ h _

theorem setEnd_self (idx : Fin 128) (stop : Nat) :
    (setEnd r idx stop).heaps.get idx = ((r.heaps.get idx).1, stop) := get_set_self _ _ _

theorem setEnd_of_ne {other : Fin 128} (h : other ≠ idx) (stop : Nat) :
    (setEnd r idx stop).heaps.get other = r.heaps.get other := get_set_of_ne _ h _

theorem Move.storeStart (h : Inv s asked) (hthread : s.threads t = .storeStart range idx) :
    Move s t (setStart s.registry idx range.1) (.storeEnd range idx) asked := by
  have hplace := h.place t
  have habout := h.about t
  rw [hthread] at hplace habout
  obtain ⟨hlt, hempty⟩ := hplace
  refine
    { grows := ⟨le_rfl, fun other hother => ?_, fun other hother => ?_⟩
      place := ⟨hlt, ?_⟩
      slot := fun other hother => Or.inl (by rw [hthread]; exact hother)
      entry := fun other hother => Or.inl (by rw [hthread]; exact hother)
      fresh := fun other hle hother => absurd hother (Nat.not_lt.mpr hle)
      stored := fun other hother => Or.inl (by rw [hthread] at hother; exact hother)
      about := habout }
  · rw [hthread] at hother
    exact setStart_of_ne (fun heq => hother (by rw [heq]; rfl)) range.1
  · have hne : other ≠ idx := by
      rintro rfl
      rw [hempty] at hother
      exact hother rfl
    rw [setStart_of_ne hne]
  · rw [setStart_self, hempty]

theorem setEnd_of_storeEnd (hempty : r.heaps.get idx = (range.1, 0)) :
    (setEnd r idx range.2).heaps.get idx = range := by
  rw [setEnd_self, hempty]

theorem Move.storeEnd (h : Inv s asked) (hthread : s.threads t = .storeEnd range idx) :
    Move s t (setEnd s.registry idx range.2) (.query range idx) asked := by
  have hplace := h.place t
  have habout := h.about t range
  rw [hthread] at hplace habout
  obtain ⟨hlt, hhalf⟩ := hplace
  refine
    { grows := ⟨le_rfl, fun other hother => ?_, fun other hother => ?_⟩
      place := ⟨hlt, setEnd_of_storeEnd hhalf⟩
      slot := fun other hother => by cases hother
      entry := fun other hother => Or.inl (by rw [hthread]; exact hother)
      fresh := fun other hle hother => absurd hother (Nat.not_lt.mpr hle)
      stored := fun other hother => Or.inr ?_
      about := fun other hother => by cases hother; exact habout rfl }
  · rw [hthread] at hother
    exact setEnd_of_ne (fun heq => hother (by rw [heq]; rfl)) range.2
  · by_cases heq : other = idx
    · rw [heq, setEnd_self]
    · rw [setEnd_of_ne heq]
  · rw [hthread] at hother
    cases hother
    rw [setEnd_of_storeEnd hhalf]
    exact habout rfl

theorem Move.reserve (h : Inv s asked) (hthread : s.threads t = .reserve range) :
    Move s t { s.registry with count := s.registry.count + 1 }
      (if hidx : s.registry.count < 128 then .storeStart range ⟨s.registry.count, hidx⟩
        else .idle) asked := by
  have habout := h.about t range
  rw [hthread] at habout
  have hslot : ∀ idx, (s.threads t).slot ≠ some idx := by
    rw [hthread]
    nofun
  have hgrows : Grows (s.threads t).slot s.registry
      { s.registry with count := s.registry.count + 1 } :=
    ⟨Nat.le_succ _, fun _ _ => rfl, fun _ _ => rfl⟩
  split
  · rename_i hidx
    refine
      { grows := hgrows
        place := ⟨Nat.lt_succ_self _, h.unused ⟨_, hidx⟩ le_rfl⟩
        slot := fun other hother => ?_
        entry := fun other hother => ?_
        fresh := fun other hle hlt => ?_
        stored := fun other hother => absurd hother (hslot other)
        about := fun other hother => ?_ }
    · cases hother
      exact Or.inr le_rfl
    · cases hother
      exact Or.inr le_rfl
    · exact congrArg some (Fin.ext (Nat.le_antisymm hle (Nat.lt_succ_iff.mp hlt)))
    · cases hother
      exact habout rfl
  · rename_i hfull
    refine
      { grows := hgrows
        place := trivial
        slot := fun other hother => by cases hother
        entry := fun other hother => by cases hother
        fresh := fun other hle _ => absurd (lt_of_le_of_lt hle other.isLt) hfull
        stored := fun other hother => absurd hother (hslot other)
        about := fun other hother => by cases hother }

/-- **A step of a thread** in terms of what it writes. -/
theorem stepThread_move (h : Inv s asked) (hstep : s.stepThread t = some s') :
    ∃ r' pc, s'.registry = r' ∧ s'.threads = Function.update s.threads t pc ∧
      Move s t r' pc asked := by
  have hplace := h.place t
  have habout := h.about t
  rw [Sys.stepThread] at hstep
  cases hthread : s.threads t with
  | idle | aborted =>
      rw [hthread] at hstep
      cases hstep
  | search range i =>
      rw [hthread] at hstep habout
      cases hstep
      have hasked := habout range rfl
      refine ⟨_, _, rfl, rfl, ?_⟩
      split
      · rename_i hlt
        exact .goes (by rw [hthread]; rfl) rfl hlt fun _ hsome => by cases hsome; exact hasked
      · exact .goes (by rw [hthread]; rfl) rfl trivial fun _ hsome => by cases hsome; exact hasked
  | compareStart range i =>
      rw [hthread] at hstep hplace habout
      obtain ⟨heap, hread, rfl⟩ := Option.map_eq_some_iff.mp hstep
      have hasked := habout range rfl
      refine ⟨_, _, rfl, rfl, ?_⟩
      split
      · rename_i hstart
        refine .goes (by rw [hthread]; rfl) rfl ⟨hplace, fun idx hi _ => ?_⟩
          fun _ hsome => by cases hsome; exact hasked
        obtain ⟨other, hother, hheap⟩ := heap_of_read hread
        rw [Fin.ext (hi.trans hother.symm), hheap, hstart]
      · exact .goes (by rw [hthread]; rfl) rfl trivial fun _ hsome => by cases hsome; exact hasked
  | compareEnd range i =>
      rw [hthread] at hstep habout
      obtain ⟨heap, hread, rfl⟩ := Option.map_eq_some_iff.mp hstep
      have hasked := habout range rfl
      refine ⟨_, _, rfl, rfl, ?_⟩
      split
      · exact .goes (by rw [hthread]; rfl) rfl trivial fun _ hsome => by cases hsome
      · exact .goes (by rw [hthread]; rfl) rfl trivial fun _ hsome => by cases hsome; exact hasked
  | reserve range =>
      rw [hthread] at hstep
      cases hstep
      exact ⟨_, _, rfl, rfl, .reserve h hthread⟩
  | storeStart range idx =>
      rw [hthread] at hstep
      cases hstep
      exact ⟨_, _, rfl, rfl, .storeStart h hthread⟩
  | storeEnd range idx =>
      rw [hthread] at hstep
      cases hstep
      exact ⟨_, _, rfl, rfl, .storeEnd h hthread⟩
  | query range idx =>
      rw [hthread] at hstep hplace habout
      cases hstep
      have hasked := habout range rfl
      refine ⟨_, _, rfl, rfl, ?_⟩
      split
      · exact .goes (by rw [hthread]; rfl) rfl trivial fun _ hsome => by cases hsome
      · exact .keeps (by rw [hthread]; rfl) rfl (fun _ hsome => by rw [hthread]; exact hsome) hplace
          fun _ hsome => by cases hsome; exact hasked
  | install range idx =>
      rw [hthread] at hstep
      cases hstep
      exact ⟨_, _, rfl, rfl, .goes (by rw [hthread]; rfl) rfl trivial
        fun _ hsome => by cases hsome⟩
  | loadCount addr =>
      rw [hthread] at hstep
      cases hstep
      exact ⟨_, _, rfl, rfl, .goes (by rw [hthread]; rfl) rfl le_rfl fun _ hsome => by cases hsome⟩
  | testStart addr heapCounts i =>
      rw [hthread] at hstep hplace
      dsimp only at hstep
      split at hstep
      · rename_i hlt
        obtain ⟨heap, hread, rfl⟩ := Option.map_eq_some_iff.mp hstep
        refine ⟨_, _, rfl, rfl, ?_⟩
        split
        · exact .goes (by rw [hthread]; rfl) rfl ⟨hlt, hplace⟩ fun _ hsome => by cases hsome
        · exact .goes (by rw [hthread]; rfl) rfl hplace fun _ hsome => by cases hsome
      · cases hstep
        exact ⟨_, _, rfl, rfl, .goes (by rw [hthread]; rfl) rfl trivial fun _ hsome => by cases hsome⟩
  | testEnd addr heapCounts i =>
      rw [hthread] at hstep hplace
      obtain ⟨heap, hread, rfl⟩ := Option.map_eq_some_iff.mp hstep
      refine ⟨_, _, rfl, rfl, ?_⟩
      split
      · exact .goes (by rw [hthread]; rfl) rfl trivial fun _ hsome => by cases hsome
      · exact .goes (by rw [hthread]; rfl) rfl hplace.2 fun _ hsome => by cases hsome

/-- **An action** too, with the heap that it is about. -/
theorem step_move {a : Action} (h : Inv s asked) (hstep : step a s = some s') :
    ∃ t r' pc, s'.registry = r' ∧ s'.threads = Function.update s.threads t pc ∧
      Move s t r' pc (asked ++ a.asked) := by
  cases a with
  | register t start len =>
      rw [step] at hstep
      split at hstep
      · rename_i hidle
        cases hstep
        refine ⟨t, _, _, rfl, rfl, .goes (by rw [hidle]; rfl) rfl trivial fun range hsome => ?_⟩
        cases hsome
        exact List.mem_append_right _ (List.mem_singleton.mpr rfl)
      · cases hstep
  | fault t addr =>
      rw [step] at hstep
      split at hstep
      · rename_i hidle
        cases hstep
        refine ⟨t, _, _, rfl, rfl, ?_⟩
        split <;> exact .goes (by rw [hidle]; rfl) rfl trivial fun _ hsome => by cases hsome
      · cases hstep
  | step t =>
      obtain ⟨r', pc, hregistry, hthreads, hmove⟩ := stepThread_move h.mono hstep
      exact ⟨t, r', pc, hregistry, hthreads, hmove⟩

theorem Inv.step {a : Action} (h : Inv s asked) (hstep : SharedRegistry.step a s = some s') :
    Inv s' (asked ++ a.asked) := by
  obtain ⟨t, r', pc, hregistry, hthreads, hmove⟩ := step_move h hstep
  exact h.mono.of_move hregistry hthreads hmove

theorem Inv.of_run (hrun : Machine.run SharedRegistry.step actions (.initial asserts) = some s) :
    Inv s (actions.flatMap Action.asked) := by
  have hkept : ∀ a (taken : List Action) (u v : Sys), Inv u (taken.flatMap Action.asked) →
      SharedRegistry.step a u = some v → Inv v ((taken ++ [a]).flatMap Action.asked) := by
    intro a taken u v h hstep
    rw [List.flatMap_append, List.flatMap_singleton]
    exact h.step hstep
  exact Machine.run_trace hkept (.initial asserts) hrun

/-! ### A finished entry -/

/-- The heap has its entry, and nobody writes it. -/
structure Entered (s : Sys) (idx : Fin 128) (range : HeapRange) : Prop where
  lt : idx < s.registry.count
  entry : s.registry.heaps.get idx = range
  settled : ∀ t, (s.threads t).slot ≠ some idx

theorem Entered.of_move (h : Entered s idx range) (hregistry : s'.registry = r')
    (hthreads : s'.threads = Function.update s.threads t pc) (hmove : Move s t r' pc asked) :
    Entered s' idx range where
  lt := hregistry ▸ lt_of_lt_of_le h.lt hmove.grows.count
  entry := by
    rw [hregistry]
    exact (hmove.grows.others idx (h.settled t)).trans h.entry
  settled u := by
    rw [hthreads]
    by_cases hu : u = t
    · rw [hu, Function.update_self]
      intro hslot
      rcases hmove.slot idx hslot with hold | hfresh
      · exact h.settled t hold
      · exact Nat.not_lt.mpr hfresh h.lt
    · rw [Function.update_of_ne hu]
      exact h.settled u

theorem Entered.step {a : Action} (hinv : Inv s asked) (h : Entered s idx range)
    (hstep : SharedRegistry.step a s = some s') : Entered s' idx range := by
  obtain ⟨t, r', pc, hregistry, hthreads, hmove⟩ := step_move hinv hstep
  exact h.of_move hregistry hthreads hmove

/-- Both halves of an entry say that it is finished. -/
theorem Inv.settled (h : Inv s asked) (hstart : (s.registry.heaps.get idx).1 ≠ 0)
    (hend : (s.registry.heaps.get idx).2 ≠ 0) (t : Nat) : (s.threads t).slot ≠ some idx := by
  intro hslot
  have hplace := h.place t
  cases hthread : s.threads t with
  | storeStart range other =>
      rw [hthread] at hplace hslot
      cases hslot
      rw [hplace.2] at hstart
      exact hstart rfl
  | storeEnd range other =>
      rw [hthread] at hplace hslot
      cases hslot
      rw [hplace.2] at hend
      exact hend rfl
  | _ =>
      rw [hthread] at hslot
      cases hslot

/-- An entry that a thread has written itself is finished. -/
theorem Inv.entered (h : Inv s asked) (hentry : (s.threads t).entry = some idx)
    (hslot : (s.threads t).slot = none) (hheap : s.registry.heaps.get idx = range) :
    Entered s idx range := by
  refine ⟨h.entry_lt hentry, hheap, fun u hu => ?_⟩
  rw [h.alone u t idx (Pc.entry_of_slot hu) hentry, hslot] at hu
  cases hu

/-- A call that returns leaves its heap with an entry. -/
theorem entered_of_returns {a : Action} (h : Inv s asked)
    (hstep : SharedRegistry.step a s = some s') (hreturns : range ∈ returns a s)
    (hstart : range.1 ≠ 0) (hend : range.2 ≠ 0) : ∃ idx, Entered s' idx range := by
  cases a with
  | register | fault => cases hreturns
  | step t =>
      have hplace := h.place t
      rw [returns] at hreturns
      cases hthread : s.threads t with
      | compareEnd own i =>
          rw [hthread] at hplace hreturns
          dsimp only at hreturns
          cases hread : s.registry.heaps[i]? with
          | none =>
              rw [hread] at hreturns
              cases hreturns
          | some heap =>
              rw [hread] at hreturns
              dsimp only at hreturns
              split at hreturns
              · rename_i hsame
                rw [List.mem_singleton] at hreturns
                subst hreturns
                obtain ⟨idx, hi, hheap⟩ := heap_of_read hread
                have hfirst := hplace.2 idx hi hstart
                have hentry : s.registry.heaps.get idx = range :=
                  Prod.ext hfirst (by rw [hheap, hsame])
                have hentered : Entered s idx range :=
                  { lt := hi ▸ hplace.1
                    entry := hentry
                    settled := h.settled (by rwa [hentry]) (by rwa [hentry]) }
                exact ⟨idx, hentered.step h hstep⟩
              · cases hreturns
      | query own idx =>
          rw [hthread] at hplace hreturns
          dsimp only at hreturns
          split at hreturns
          · rw [List.mem_singleton] at hreturns
            subst hreturns
            have hentered : Entered s idx range :=
              h.entered (by rw [hthread]; rfl) (by rw [hthread]; rfl) hplace.2
            exact ⟨idx, hentered.step h hstep⟩
          · cases hreturns
      | install own idx =>
          rw [hthread] at hplace hreturns
          rw [List.mem_singleton] at hreturns
          subst hreturns
          have hentered : Entered s idx range :=
            h.entered (by rw [hthread]; rfl) (by rw [hthread]; rfl) hplace.2
          exact ⟨idx, hentered.step h hstep⟩
      | _ =>
          rw [hthread] at hreturns
          cases hreturns

theorem entered_of_registered (hrun : Machine.run step actions (.initial asserts) = some s)
    (hmem : range ∈ registered asserts actions) (hstart : range.1 ≠ 0) (hend : range.2 ≠ 0) :
    ∃ idx, Entered s idx range := by
  let holds : HeapRange → Sys → Prop := fun range s =>
    range.1 ≠ 0 → range.2 ≠ 0 → ∃ idx, Entered s idx range
  have hinv : ∀ a (u v : Sys), (∃ asked, Inv u asked) → step a u = some v →
      ∃ asked, Inv v asked := fun a u v ⟨asked, h⟩ hstep => ⟨_, h.step hstep⟩
  have hemit : ∀ a (u v : Sys) range, (∃ asked, Inv u asked) → step a u = some v →
      range ∈ returns a u → holds range v := fun a u v range ⟨asked, h⟩ hstep hreturns hstart hend =>
    entered_of_returns h hstep hreturns hstart hend
  have hkeep : ∀ a (u v : Sys) range, (∃ asked, Inv u asked) → step a u = some v →
      holds range u → holds range v := by
    rintro a u v range ⟨asked, h⟩ hstep hholds hstart hend
    obtain ⟨idx, hentered⟩ := hholds hstart hend
    exact ⟨idx, hentered.step h hstep⟩
  exact Machine.holds_of_mem_outputs hinv hemit hkeep ⟨[], .initial asserts⟩ hrun range (Or.inl hmem)
    hstart hend

/-! ### The counter -/

/-- A call that has not counted its heap yet. -/
def Pc.uncounted : Pc → Bool
  | .search _ _ | .compareStart _ _ | .compareEnd _ _ | .reserve _ => true
  | _ => false

/-- A call counts at most once. -/
def Counted (s : Sys) (calls : Nat) : Prop :=
  ∃ waiting : Finset Nat, (∀ t, (s.threads t).uncounted → t ∈ waiting) ∧
    s.registry.count + waiting.card ≤ calls

theorem Counted.of_threads {calls : Nat} (h : Counted s calls)
    (hthreads : s'.threads = Function.update s.threads t pc)
    (hcount : s'.registry.count = s.registry.count)
    (hpc : pc.uncounted → (s.threads t).uncounted) : Counted s' calls := by
  obtain ⟨waiting, hwaiting, hcard⟩ := h
  refine ⟨waiting, fun u => ?_, by rwa [hcount]⟩
  rw [hthreads]
  by_cases hu : u = t
  · rw [hu, Function.update_self]
    exact fun h => hwaiting t (hpc h)
  · rw [Function.update_of_ne hu]
    exact hwaiting u

theorem Counted.stepThread {calls : Nat} (h : Counted s calls)
    (hstep : s.stepThread t = some s') : Counted s' calls := by
  rw [Sys.stepThread] at hstep
  cases hthread : s.threads t with
  | idle | aborted =>
      rw [hthread] at hstep
      cases hstep
  | search =>
      rw [hthread] at hstep
      cases hstep
      exact h.of_threads rfl rfl fun _ => by rw [hthread]; rfl
  | compareStart | compareEnd =>
      rw [hthread] at hstep
      obtain ⟨_, _, rfl⟩ := Option.map_eq_some_iff.mp hstep
      exact h.of_threads rfl rfl fun _ => by rw [hthread]; rfl
  | reserve range =>
      rw [hthread] at hstep
      cases hstep
      obtain ⟨waiting, hwaiting, hcard⟩ := h
      have hmem : t ∈ waiting := hwaiting t (by rw [hthread]; rfl)
      have hpos := Finset.card_pos.mpr ⟨t, hmem⟩
      refine ⟨waiting.erase t, fun u huncounted => ?_, ?_⟩
      · rw [Sys.setThread] at huncounted
        dsimp only at huncounted
        by_cases hu : u = t
        · rw [hu, Function.update_self] at huncounted
          split at huncounted <;> cases huncounted
        · rw [Function.update_of_ne hu] at huncounted
          exact Finset.mem_erase.mpr ⟨hu, hwaiting u huncounted⟩
      · rw [Sys.setThread, Finset.card_erase_of_mem hmem]
        dsimp only
        omega
  | query =>
      rw [hthread] at hstep
      cases hstep
      refine h.of_threads rfl rfl fun hpc => ?_
      split at hpc <;> cases hpc
  | storeStart | storeEnd | install | loadCount =>
      rw [hthread] at hstep
      cases hstep
      exact h.of_threads rfl rfl fun hpc => by cases hpc
  | testStart addr heapCounts i =>
      rw [hthread] at hstep
      dsimp only at hstep
      split at hstep
      · obtain ⟨heap, _, rfl⟩ := Option.map_eq_some_iff.mp hstep
        refine h.of_threads rfl rfl fun hpc => ?_
        split at hpc <;> cases hpc
      · cases hstep
        exact h.of_threads rfl rfl fun hpc => by cases hpc
  | testEnd addr heapCounts i =>
      rw [hthread] at hstep
      obtain ⟨heap, _, rfl⟩ := Option.map_eq_some_iff.mp hstep
      refine h.of_threads rfl rfl fun hpc => ?_
      split at hpc <;> cases hpc

theorem Counted.step {a : Action} {calls : Nat} (h : Counted s calls)
    (hstep : SharedRegistry.step a s = some s') : Counted s' (calls + a.asked.length) := by
  cases a with
  | register t start len =>
      rw [SharedRegistry.step] at hstep
      split at hstep
      · cases hstep
        obtain ⟨waiting, hwaiting, hcard⟩ := h
        refine ⟨insert t waiting, fun u huncounted => ?_, ?_⟩
        · by_cases hu : u = t
          · exact Finset.mem_insert.mpr (Or.inl hu)
          · rw [Sys.setThread] at huncounted
            dsimp only at huncounted
            rw [Function.update_of_ne hu] at huncounted
            exact Finset.mem_insert_of_mem (hwaiting u huncounted)
        · have hinsert := Finset.card_insert_le t waiting
          change s.registry.count + _ ≤ calls + 1
          omega
      · cases hstep
  | fault t addr =>
      rw [SharedRegistry.step] at hstep
      split at hstep
      · cases hstep
        refine h.of_threads rfl rfl fun hpc => ?_
        split at hpc <;> cases hpc
      · cases hstep
  | step t => exact h.stepThread hstep

theorem count_le (hrun : Machine.run step actions (.initial asserts) = some s) :
    s.registry.count ≤ (actions.flatMap Action.asked).length := by
  have hkept : ∀ a (taken : List Action) (u v : Sys),
      Counted u (taken.flatMap Action.asked).length → step a u = some v →
        Counted v ((taken ++ [a]).flatMap Action.asked).length := by
    intro a taken u v h hstep
    rw [List.flatMap_append, List.flatMap_singleton, List.length_append]
    exact h.step hstep
  have hinitial : Counted (.initial asserts) (([] : List Action).flatMap Action.asked).length :=
    ⟨∅, fun _ h => (by cases h), le_rfl⟩
  have hcounted : Counted s (actions.flatMap Action.asked).length :=
    Machine.run_trace hkept hinitial hrun
  obtain ⟨waiting, -, hcard⟩ := hcounted
  omega

/-- As long as the counter stays in the table, nobody reads behind its end. -/
theorem Inv.goes_on (h : Inv s asked) (hcount : s.registry.count ≤ 128)
    (hbusy : s.threads t ≠ .idle) (halive : ∀ addr, s.threads t ≠ .aborted addr) :
    (s.stepThread t).isSome := by
  have hplace := h.place t
  have hread : ∀ {i}, i < s.registry.count → ∃ heap, s.registry.heaps[i]? = some heap :=
    fun hlt => ⟨_, Vector.getElem?_eq_getElem (lt_of_lt_of_le hlt hcount)⟩
  rw [Sys.stepThread]
  cases hthread : s.threads t with
  | idle => exact absurd hthread hbusy
  | aborted addr => exact absurd hthread (halive addr)
  | compareStart range i =>
      rw [hthread] at hplace
      obtain ⟨heap, hheap⟩ := hread hplace
      dsimp only
      rw [hheap]
      rfl
  | compareEnd range i =>
      rw [hthread] at hplace
      obtain ⟨heap, hheap⟩ := hread hplace.1
      dsimp only
      rw [hheap]
      rfl
  | testStart addr heapCounts i =>
      rw [hthread] at hplace
      dsimp only
      split
      · rename_i hlt
        obtain ⟨heap, hheap⟩ := hread (lt_of_lt_of_le hlt hplace)
        rw [hheap]
        rfl
      · rfl
  | testEnd addr heapCounts i =>
      rw [hthread] at hplace
      obtain ⟨heap, hheap⟩ := hread (lt_of_lt_of_le hplace.1 hplace.2)
      dsimp only
      rw [hheap]
      rfl
  | search | reserve | storeStart | storeEnd | query | install | loadCount => rfl

/-- **No heap is lost.** In every interleaving of calls and faults, a heap that a call has returned
for has an entry, no matter who has registered what in the meantime; an entry that nobody is writing
is a heap that has been passed, and there are no more entries than calls. Up to 128 calls nothing
behind the table is read. -/
theorem heaps_registered (asserts : Bool) (actions : List Action)
    (hrun : Machine.run step actions (.initial asserts) = some s) :
    (∀ range ∈ registered asserts actions, range.1 ≠ 0 → range.2 ≠ 0 →
      ∃ idx : Fin 128, idx < s.registry.count ∧ s.registry.heaps.get idx = range) ∧
    (∀ idx : Fin 128, idx < s.registry.count → (∀ t, (s.threads t).slot ≠ some idx) →
      s.registry.heaps.get idx ∈ actions.flatMap Action.asked) ∧
    s.registry.count ≤ (actions.flatMap Action.asked).length ∧
    ((actions.flatMap Action.asked).length ≤ 128 → ∀ t, s.threads t ≠ .idle →
      (∀ addr, s.threads t ≠ .aborted addr) → (s.stepThread t).isSome) := by
  have hinv := Inv.of_run hrun
  have hcount := count_le hrun
  refine ⟨fun range hmem hstart hend => ?_, hinv.used, hcount, fun hfits t hbusy halive =>
    hinv.goes_on (hcount.trans hfits) hbusy halive⟩
  obtain ⟨idx, hentered⟩ := entered_of_registered hrun hmem hstart hend
  exact ⟨idx, hentered.lt, hentered.entry⟩

/-- Two heaps are registered at the same time, and the first call has returned. -/
def sampleCalls : List Action :=
  .register 1 4096 4096 :: .register 2 8192 4096 :: [1, 2, 1, 2, 1, 1, 1, 1].map .step

theorem heaps_registered_sample :
    ∃ s, Machine.run step sampleCalls (.initial true) = some s ∧
      (∀ range ∈ registered true sampleCalls, range.1 ≠ 0 → range.2 ≠ 0 →
        ∃ idx : Fin 128, idx < s.registry.count ∧ s.registry.heaps.get idx = range) ∧
      (∀ idx : Fin 128, idx < s.registry.count → (∀ t, (s.threads t).slot ≠ some idx) →
        s.registry.heaps.get idx ∈ sampleCalls.flatMap Action.asked) ∧
      s.registry.count ≤ (sampleCalls.flatMap Action.asked).length ∧
      ((sampleCalls.flatMap Action.asked).length ≤ 128 → ∀ t, s.threads t ≠ .idle →
        (∀ addr, s.threads t ≠ .aborted addr) → (s.stepThread t).isSome) := by
  have hsome : (Machine.run step sampleCalls (.initial true)).isSome := by decide +kernel
  obtain ⟨s, hrun⟩ := Option.isSome_iff_exists.mp hsome
  exact ⟨s, hrun, heaps_registered true sampleCalls hrun⟩

/-! ### The handler -/

/-- The thread has not gone past the entry in its search for the address. -/
def Aims (addr : Nat) (idx : Fin 128) : Pc → Prop
  | .testStart own heapCounts i | .testEnd own heapCounts i =>
      own = addr → i ≤ idx ∧ idx < heapCounts
  | .aborted own => own ≠ addr
  | _ => True

theorem Aims.setThread {addr : Nat} (h : Aims addr idx (s.threads t)) (u : Nat)
    (hpc : Aims addr idx pc) : Aims addr idx ((s.setThread u pc).threads t) := by
  rw [Sys.setThread]
  dsimp only
  by_cases hu : t = u
  · rwa [hu, Function.update_self]
  · rwa [Function.update_of_ne hu]

theorem Aims.stepThread {addr : Nat} (hentered : Entered s idx range) (hstart : range.1 ≤ addr)
    (hend : addr < range.2) (h : Aims addr idx (s.threads t)) (hstep : s.stepThread t = some s') :
    Aims addr idx (s'.threads t) := by
  rw [Sys.stepThread] at hstep
  -- at the entry itself both comparisons succeed
  have hread : ∀ {i : Nat} {heap : HeapRange}, s.registry.heaps[i]? = some heap →
      i = idx.val → heap = range := by
    intro i heap hread hi
    obtain ⟨other, hother, hheap⟩ := heap_of_read hread
    rw [← hheap, Fin.ext (hother.trans hi), hentered.entry]
  have hset : ∀ {pc : Pc} {u : Sys}, Aims addr idx pc →
      Aims addr idx ((u.setThread t pc).threads t) := by
    intro pc u hpc
    rw [Sys.setThread]
    dsimp only
    rwa [Function.update_self]
  cases hthread : s.threads t with
  | idle | aborted =>
      rw [hthread] at hstep
      cases hstep
  | search =>
      rw [hthread] at hstep
      cases hstep
      refine hset ?_
      split <;> trivial
  | compareStart | compareEnd =>
      rw [hthread] at hstep
      obtain ⟨_, _, rfl⟩ := Option.map_eq_some_iff.mp hstep
      refine hset ?_
      split <;> trivial
  | reserve range =>
      rw [hthread] at hstep
      cases hstep
      refine hset ?_
      split <;> trivial
  | query =>
      rw [hthread] at hstep
      cases hstep
      refine hset ?_
      split <;> trivial
  | storeStart | storeEnd | install =>
      rw [hthread] at hstep
      cases hstep
      exact hset trivial
  | loadCount own =>
      rw [hthread] at hstep
      cases hstep
      exact hset fun _ => ⟨Nat.zero_le _, hentered.lt⟩
  | testStart own heapCounts i =>
      rw [hthread] at hstep h
      dsimp only at hstep
      split at hstep
      · obtain ⟨heap, hheap, rfl⟩ := Option.map_eq_some_iff.mp hstep
        refine hset ?_
        split
        · exact h
        · rename_i hbelow
          rintro rfl
          obtain ⟨hle, hlt⟩ := h rfl
          refine ⟨Nat.lt_of_le_of_ne hle fun hi => hbelow ?_, hlt⟩
          rw [hread hheap hi]
          exact hstart
      · rename_i hdone
        cases hstep
        refine hset ?_
        rintro rfl
        obtain ⟨hle, hlt⟩ := h rfl
        exact hdone (lt_of_le_of_lt hle hlt)
  | testEnd own heapCounts i =>
      rw [hthread] at hstep h
      obtain ⟨heap, hheap, rfl⟩ := Option.map_eq_some_iff.mp hstep
      refine hset ?_
      split
      · trivial
      · rename_i habove
        rintro rfl
        obtain ⟨hle, hlt⟩ := h rfl
        refine ⟨Nat.lt_of_le_of_ne hle fun hi => habove ?_, hlt⟩
        rw [hread hheap hi]
        exact hend

theorem Aims.step {addr : Nat} {a : Action} (hinv : Inv s asked) (hentered : Entered s idx range)
    (hinstalled : s.installed = true) (hstart : range.1 ≤ addr) (hend : addr < range.2)
    (h : Aims addr idx (s.threads t)) (hstep : SharedRegistry.step a s = some s') : Aims addr idx (s'.threads t) := by
  cases a with
  | register u start len =>
      rw [SharedRegistry.step] at hstep
      split at hstep
      · cases hstep
        exact h.setThread u trivial
      · cases hstep
  | fault u own =>
      rw [SharedRegistry.step, hinstalled] at hstep
      split at hstep
      · cases hstep
        exact h.setThread u trivial
      · cases hstep
  | step u =>
      by_cases hu : t = u
      · rw [← hu] at hstep
        exact h.stepThread hentered hstart hend hstep
      · obtain ⟨r', pc, -, hthreads, -⟩ := stepThread_move hinv hstep
        rwa [hthreads, Function.update_of_ne hu]

end Gcpp.SharedRegistry
