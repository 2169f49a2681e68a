import Gcpp.Proof.TaskSteps

/-!
# Collections against running threads

In a run whose steps are careful the collector keeps what the sequential one keeps: between
collections all objects lie in the current space, no object is lost that a root slot refers to, and
nothing is taken for a corruption of the heap. Without care each of the two races loses an object.
-/

namespace Gcpp.Concurrent

open ByteMemory Arena

variable {cfg : Config} {roots : RootSlots cfg} {s t : Sys roots} {actions : List (Action roots)}

/-! ### Every run -/

/-- **A careful step keeps the invariant.** -/
theorem Inv.step (h : Inv s) {a : Action roots} (hcareful : Careful s a)
    (hstep : step a s = some t) : Inv t := by
  cases a with
  | alloc id req =>
      rw [Concurrent.step] at hstep
      split at hstep
      · cases hstep
        exact h.startAlloc req
      · cases hstep
  | collect id neededSpace =>
      rw [Concurrent.step] at hstep
      split at hstep
      · cases hstep
        exact h.setThread (fun _ _ heq => by cases heq) rfl
      · cases hstep
  | load id src dst =>
      rw [Concurrent.step] at hstep
      split at hstep
      · cases hstep
        exact h.startLoad src dst
      · cases hstep
  | clear slot =>
      cases hstep
      exact h.clear slot.2
  | step id => exact h.stepThread hcareful hstep
  | worker => exact h.stepWorker hcareful hstep

theorem Steady.inv (h : Steady s) : Inv s where
  blocks :=
    { apart := fun a b spanA spanB ha hb hne => by
        cases a with
        | entry p =>
            obtain ⟨dp, hp, rfl⟩ := entryClaim_eq_some.mp ha
            cases b with
            | entry q =>
                obtain ⟨dq, hq, rfl⟩ := entryClaim_eq_some.mp hb
                exact h.apart p dp q dq hp hq fun heq => hne (congrArg Owner.entry heq)
            | thread id =>
                change (s.threads id).claim = _ at hb
                rw [h.idle id] at hb
                cases hb
            | task =>
                change s.worker.bind _ = _ at hb
                rw [h.quiet.2] at hb
                cases hb
        | thread id =>
            change (s.threads id).claim = _ at ha
            rw [h.idle id] at ha
            cases ha
        | task =>
            change s.worker.bind _ = _ at ha
            rw [h.quiet.2] at ha
            cases ha
      within := fun owner span hspan => by
        cases owner with
        | entry p =>
            obtain ⟨data, hdata, rfl⟩ := entryClaim_eq_some.mp hspan
            exact ⟨s.heap.spaceNum,
              { pos := h.pos hdata
                lo := h.lo hdata
                hi := (h.hi hdata).trans (Nat.add_le_add_left h.nextLe _)
                below := fun _ => h.hi hdata }⟩
        | thread id =>
            change (s.threads id).claim = _ at hspan
            rw [h.idle id] at hspan
            cases hspan
        | task =>
            change s.worker.bind _ = _ at hspan
            rw [h.quiet.2] at hspan
            cases hspan }
  threads := fun id => by
    rw [h.idle id]
    trivial
  queue := Or.inl ⟨h.quiet, h.ready⟩
  settled := fun _ ptr data hdata => by
    have hpos := h.pos hdata
    have hlo := h.lo hdata
    have hhi := h.hi hdata
    have hnext := h.nextLe
    exact findSpace_eq_some_iff.mpr ⟨hlo, by omega⟩
  running := fun r hr => by
    rw [h.quiet.2] at hr
    cases hr
  held := fun slot hslot w hw hcontains => by
    have hmem := h.held slot hslot w hw hcontains
    obtain ⟨data, hdata⟩ := Option.isSome_iff_exists.mp (AList.lookup_isSome.mpr hmem)
    have hpos := h.pos hdata
    have hlo := h.lo hdata
    have hhi := h.hi hdata
    have hnext := h.nextLe
    exact Or.inl ⟨findSpace_eq_some_iff.mpr ⟨hlo, by omega⟩, hmem⟩
  succeeded := h.succeeded

/-- **A careful run keeps the invariant.** -/
theorem Steady.inv_run (h : Steady s) (hcareful : Machine.Meets step Careful actions s)
    (hrun : Machine.run step actions s = some t) : Inv t :=
  Machine.run_induction (fun _ _ _ hinv hcond hstep => hinv.step hcond hstep) h.inv hcareful hrun

/-! ### A run to look at -/

/-- An allocation, the start of a collection, a copy of the pointer while it is queued, and the
first steps of its task. -/
def sampleRun : List (Action sampleRoots) :=
  [.alloc 1 { size := 8, alignment := 8, slot := firstSlot }, .step 1, .step 1,
    .collect 1 10000, .step 1, .step 1,
    .load 1 firstSlot secondSlot, .step 1,
    .worker, .worker, .worker]

theorem careful_sampleRun : Machine.Meets step Careful sampleRun sampleStart := by
  refine ⟨trivial, trivial, Or.inl rfl, trivial, trivial, ?_, trivial, ?_, ?_, ?_, ?_, trivial⟩
  · -- the flip: no thread has reserved anything
    intro _ id req index
    by_cases hid : id = 1
    · subst hid
      intro hthread
      cases hthread
    · have hother : ∀ {threads : ThreadId → Thread sampleRoots} {pc : Thread sampleRoots},
          threads id = .idle → Function.update threads 1 pc id = .idle := by
        intro threads pc hidle
        rw [Function.update_of_ne hid]
        exact hidle
      intro hthread
      cases (hother (hother (hother (hother (hother rfl))))).symm.trans hthread
  · -- the store: the task has not started
    exact Or.inr ⟨Or.inl (by decide +kernel), Or.inr (Or.inl (List.cons_ne_nil _ _))⟩
  · intro r hr
    cases hr
  · intro r hr
    cases hr
    trivial
  · intro r hr
    cases hr
    trivial

theorem isSome_sampleRun : (Machine.run step sampleRun sampleStart).isSome = true := by
  decide +kernel

/-! ### Allocation against collection -/

/-- The heap is as the sequential collector has it. -/
structure HeapSound (s : Sys roots) : Prop where
  placed : s.Quiet → ∀ ptr data, s.heap.metadata.lookup ptr = some data →
    cfg.base s.heap.spaceNum ≤ ptr.asPtr ∧
      ptr.asPtr + data.size ≤ cfg.base s.heap.spaceNum + s.heap.nexts s.heap.spaceNum
  kept : ∀ slot ∈ roots.slots, ∀ ptr, testPtr s.heap.mem slot = some ptr →
    contains cfg ptr.asPtr = true → ptr ∈ s.heap.metadata ∨ s.Forwarded ptr
  threadsSound : ∀ id, s.threads id ≠ .thrown (.runtimeError "Heap corruption")
  tasksSound : .runtimeError "Heap corruption" ∉ s.failures

theorem Inv.heapSound (h : Inv s) : HeapSound s where
  placed := fun hquiet ptr data hdata => by
    have hwithin := h.blocks.within_of_findSpace hdata (h.settled hquiet ptr data hdata)
    exact ⟨hwithin.lo, hwithin.below rfl⟩
  kept := fun slot hslot ptr hptr hcontains => by
    rcases h.held slot hslot ptr hptr hcontains with ⟨_, hmem⟩ | ⟨hlive, _⟩
    · exact Or.inl hmem
    · exact hlive
  threadsSound := fun id hthread => by
    have hok := h.threads id
    rw [hthread] at hok
    exact hok rfl
  tasksSound := by
    rw [h.succeeded]
    exact List.not_mem_nil

/-- **Allocations and collections do not disturb each other** in a run whose steps are careful: in
every state it reaches, the objects lie in the current space whenever no collection is under way, no
object that a root slot refers to has been dropped, and the overlap check has not failed. -/
theorem alloc_collect_sound (hsteady : Steady s)
    (hcareful : Machine.Meets step Careful actions s)
    (hrun : Machine.run step actions s = some t) : HeapSound t :=
  (hsteady.inv_run hcareful hrun).heapSound

theorem alloc_collect_sound_sample :
    ∃ t, Machine.run step sampleRun sampleStart = some t ∧ HeapSound t := by
  obtain ⟨t, hrun⟩ := Option.isSome_iff_exists.mp isSome_sampleRun
  exact ⟨t, hrun, alloc_collect_sound steady_sampleStart careful_sampleRun hrun⟩

/-- A thread has reserved its block when a collection flips the spaces, and registers it when the
collection has finished. -/
def lateRegistration : List (Action sampleRoots) :=
  [.alloc 1 { size := 8, alignment := 8, slot := firstSlot }, .step 1,
    .collect 2 10000, .step 2, .step 2,
    .worker, .worker, .worker, .worker, .worker,
    .step 1]

/-- **Without care an object is registered in the space that was left**, where no collection looks
for it. -/
theorem late_registration_misplaced :
    ¬ ∀ (s t : Sys sampleRoots) (actions : List (Action sampleRoots)), Steady s →
      (∀ a ∈ actions, ¬ a.Assigns) → Machine.run step actions s = some t → HeapSound t := by
  intro h
  have hkinds : ∀ a ∈ lateRegistration, ¬ a.Assigns := by
    simp [lateRegistration, Action.Assigns]
  have hview : (Machine.run step lateRegistration sampleStart).map (fun t =>
      (t.tasks, t.worker.isNone, t.heap.spaceNum,
        t.heap.metadata.lookup (FatPtr.ofAddr 65536))) =
      some ([], true, .one, some { size := 8, alignment := 8 }) := by
    decide +kernel
  obtain ⟨t, hrun, hview⟩ := Option.map_eq_some_iff.mp hview
  simp only [Prod.mk.injEq, Option.isNone_iff_eq_none] at hview
  obtain ⟨htasks, hworker, hspace, hdata⟩ := hview
  have hlo := ((h _ t _ steady_sampleStart hkinds hrun).placed ⟨htasks, hworker⟩ _ _ hdata).1
  rw [hspace] at hlo
  exact absurd hlo (by decide)

/-! ### Tracing against assignment -/

/-- The sweep removes nothing that a root slot refers to, and a collection that has finished has
updated all root slots. -/
structure RootsTraced (s : Sys roots) : Prop where
  swept : ∀ r t, s.worker = some r → r.stage = .sweep → s.stepWorker = some t →
    ∀ ptr ∈ s.heap.metadata, ptr ∉ t.heap.metadata → ∀ slot ∈ roots.slots,
      testPtr s.heap.mem slot ≠ some ptr
  finished : s.Quiet → ∀ slot ∈ roots.slots, ∀ ptr, testPtr s.heap.mem slot = some ptr →
    contains cfg ptr.asPtr = true →
      findSpace cfg ptr.asPtr = some s.heap.spaceNum ∧ ptr ∈ s.heap.metadata

theorem Inv.rootsTraced (h : Inv s) : RootsTraced s where
  swept := fun r t hworker hstage hstep ptr hmem hgone slot hslot hptr => by
    obtain ⟨heap, hrun, _, hlookup, _⟩ := h.task_sweep hworker hstage
    simp only [Sys.stepWorker, hworker, hrun, Option.some.injEq] at hstep
    subst hstep
    obtain ⟨data, hdata⟩ := Option.isSome_iff_exists.mp (AList.lookup_isSome.mpr hmem)
    obtain ⟨space, hspace⟩ := h.blocks.findSpace_ne_none hdata
    have hcontains : contains cfg ptr.asPtr = true := by
      rw [contains_iff, hspace]
      rfl
    obtain ⟨hcurrent, _⟩ := h.held_at_sweep hworker hstage hslot hptr hcontains
    refine hgone (AssocMap.mem_of_lookup (v := data) ?_)
    rw [hlookup, if_pos hcurrent]
    exact hdata
  finished := fun hquiet slot hslot ptr hptr hcontains =>
    (h.held slot hslot ptr hptr hcontains).resolve_right fun hpending =>
      hquiet.not_pending hpending.2

/-- **Nothing is hidden behind the scan** in a run whose steps are careful: in every state it
reaches, a sweep would remove no object that a root slot refers to, and if no collection is under
way then every root slot that refers into the heap refers to an object of the current space. -/
theorem roots_traced (hsteady : Steady s) (hcareful : Machine.Meets step Careful actions s)
    (hrun : Machine.run step actions s = some t) : RootsTraced t :=
  (hsteady.inv_run hcareful hrun).rootsTraced

theorem roots_traced_sample :
    ∃ t, Machine.run step sampleRun sampleStart = some t ∧ RootsTraced t := by
  obtain ⟨t, hrun⟩ := Option.isSome_iff_exists.mp isSome_sampleRun
  exact ⟨t, hrun, roots_traced steady_sampleStart careful_sampleRun hrun⟩

/-- The task has passed the first root slot when a thread copies the second one there and clears
it. -/
def hiddenPointer : List (Action sampleRoots) :=
  [.collect 2 10000, .step 2, .step 2,
    .worker, .worker,
    .load 1 secondSlot firstSlot, .step 1, .clear secondSlot,
    .worker, .worker]

/-- **Without care an object is lost that a root slot refers to**: its only reference has moved
behind the scan. -/
theorem hidden_pointer_lost :
    ¬ ∀ (s t : Sys sampleRoots) (actions : List (Action sampleRoots)), Steady s →
      (∀ a ∈ actions, ¬ a.Allocates) → Machine.run step actions s = some t → RootsTraced t := by
  intro h
  have hkinds : ∀ a ∈ hiddenPointer, ¬ a.Allocates := by
    simp [hiddenPointer, Action.Allocates]
  have hview : (Machine.run step hiddenPointer sampleFilled).map (fun t =>
      (t.worker.map (·.stage), testPtr t.heap.mem 1024,
        t.heap.metadata.lookup (FatPtr.ofAddr 65536),
        t.stepWorker.map fun u => u.heap.metadata.lookup (FatPtr.ofAddr 65536))) =
      some (some .sweep, some (FatPtr.ofAddr 65536), some { size := 8, alignment := 8 },
        some none) := by
    decide +kernel
  obtain ⟨t, hrun, hview⟩ := Option.map_eq_some_iff.mp hview
  simp only [Prod.mk.injEq, Option.map_eq_some_iff] at hview
  obtain ⟨⟨r, hworker, hstage⟩, hheld, hdata, ⟨u, hstep, hgone⟩⟩ := hview
  exact (h _ t _ steady_sampleFilled hkinds hrun).swept r u hworker hstage hstep _
    (AssocMap.mem_of_lookup hdata) (AssocMap.notMem_of_lookup hgone) 1024 (by decide) hheld

end Gcpp.Concurrent
