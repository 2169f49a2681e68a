import Gcpp.Proof.Frames
import Gcpp.Proof.OneCollection
import Gcpp.Proof.StepMoves
import Gcpp.Interleaving

/-!
# The space in use and the idle one

Every bump index that moves is that of the current space, and a collection leaves behind a space
whose bump index is zero. Nothing is assumed about how the steps interleave.
-/

namespace Gcpp

open StateExcept

variable {cfg : Config}

namespace Concurrent

open ByteMemory

variable {roots : RootSlots cfg} {s t : Sys roots} {a : Action roots}

/-- Where a thread stands in a `collect` that the program has called. -/
def Thread.collecting : Thread roots → Option (Nat × CollectPc)
  | .collect needed none pc => some (needed, pc)
  | _ => none

theorem Thread.collecting_eq_some {thread : Thread roots} {needed : Nat} {pc : CollectPc} :
    thread.collecting = some (needed, pc) ↔ thread = .collect needed none pc := by
  constructor
  · intro h
    unfold Thread.collecting at h
    split at h <;> cases h
    rfl
  · rintro rfl
    rfl

/-- What a step of a task can write: the slot that it updates, or the next word of a copy. -/
inductive TaskWrite (r : Running) (mem : Memory) : Memory → Prop
  | exchange (p : Nat) (expected desired : FatPtr)
      (hstage : r.stage = .tested p expected ∨ r.stage = .exchange p expected desired) :
      TaskWrite r mem (compareExchange mem p expected desired).2
  | word (p : Nat) (ptrVal : FatPtr) (oldData : MetaData) (newObj : FatPtr) (i : Nat)
      (hstage : r.stage = .words p ptrVal oldData newObj i) (hi : i < oldData.size) :
      TaskWrite r mem
        (move mem (newObj.asPtr + i) (ptrVal.asPtr + i) (cpyWidth (ptrVal.asPtr + i)))

/-- **The frame rule for a step of a task.** -/
theorem frames_task {rel : State → State → Prop} [Std.Refl rel] [IsTrans State rel] (r : Running)
    (hbump : ∀ (s : State) (next : Nat), s.nexts r.toSpace ≤ next → rel s (s.bump r.toSpace next))
    (hmem : ∀ (s : State) (mem : Memory), TaskWrite r s.mem mem → rel s { s with mem })
    (hregister : ∀ p ptr data index, r.stage = .register p ptr data (some index) →
      Frames rel (allocNoConstraints cfg r.toSpace data index))
    (herase : ∀ (s : State) (keys : List FatPtr),
      rel s { s with metadata := AssocMap.eraseAll keys s.metadata }) :
    Frames rel (r.step cfg) := by
  have hmodify : ∀ (g : State → Memory) (next : Option Running),
      (∀ s, TaskWrite r s.mem (g s)) →
      Frames rel (do modify fun s => { s with mem := g s }; pure next : GcM (Option Running)) :=
    fun g next hg =>
      Frames.bind (Frames.modify fun s => hmem s (g s) (hg s)) fun _ => Frames.pure next
  unfold Running.step
  cases hstage : r.stage with
  | roots =>
      cases r.roots with
      | nil => exact Frames.pure _
      | cons root rest =>
          apply Frames.get_bind
          intro s
          split
          · split <;> exact refl_of _ s
          · exact refl_of _ s
  | forward =>
      cases r.stack with
      | nil => exact Frames.pure _
      | cons p stack =>
          apply Frames.get_bind
          intro s
          split <;> exact refl_of _ s
  | tested p ptrVal =>
      dsimp only
      split
      · exact hmodify _ _ fun s => .exchange p ptrVal _ (Or.inl hstage)
      · apply Frames.get_bind
        intro s
        split
        · exact refl_of _ s
        · refine Frames.bind (frames_getSpaceNum ptrVal) (fun space => ?_) s
          split <;> exact Frames.pure _
  | found p ptrVal =>
      refine Frames.bind (frames_metadataAt ptrVal) fun data => ?_
      apply Frames.get_bind
      intro s
      split <;> exact refl_of _ s
  | copy p ptrVal =>
      refine Frames.bind (frames_getSpaceNum ptrVal) fun space => ?_
      split <;> exact Frames.pure _
  | lookup p ptrVal => exact Frames.bind (frames_metadataAt ptrVal) fun _ => Frames.pure _
  | reserve p ptrVal oldData =>
      exact Frames.bind (frames_reserveSpace hbump _ _ _) fun _ => Frames.pure _
  | check p ptrVal oldData index =>
      exact Frames.bind (frames_checkOverlappingAlloc index _ _) fun _ => Frames.pure _
  | register p ptrVal oldData index =>
      cases index with
      | none => exact Frames.throw _
      | some index =>
          exact Frames.bind (hregister p ptrVal oldData index hstage) fun _ => Frames.pure _
  | words p ptrVal oldData newObj i =>
      dsimp only
      split
      · rename_i hi
        exact hmodify _ _ fun s => .word p ptrVal oldData newObj i hstage hi
      · exact Frames.pure _
  | exchange p ptrVal newObj =>
      exact hmodify _ _ fun s => .exchange p ptrVal newObj (Or.inr hstage)
  | erase ptrVal newObj =>
      exact Frames.bind (Frames.modify fun s => herase s [ptrVal]) fun _ => Frames.pure _
  | sweep =>
      refine Frames.bind ?_ fun _ => Frames.pure _
      apply Frames.get_bind
      intro s
      exact Frames.bind (frames_sweepKeys r.toSpace r.visited s.metadata.keys)
        (fun keys => Frames.modify fun s => herase s keys) s

/-- A task moves the bump index of the space that it copies to. -/
theorem onlyBumps_task (r : Running) : Frames (OnlyBumps r.toSpace) (r.step cfg) :=
  frames_task r (fun s _ => OnlyBumps.bump s) (fun _ _ _ => .of_eq rfl rfl)
    (fun _ _ data index _ =>
      frames_allocNoConstraints (fun _ _ _ => .of_eq rfl rfl) r.toSpace data index)
    fun _ _ => .of_eq rfl rfl

/-! ### The steps of the system -/

/-- A step that leaves the queue of the tasks alone, moves at most the bump index of the current
space and adds to the table at most an object that an allocation has reserved the block for. -/
structure Aside (s t : Sys roots) : Prop where
  queue : SameQueue s t
  space : OnlyBumps s.heap.spaceNum s.heap t.heap
  entries : KeepsEntries s.heap t.heap
  added : ∀ ptr data, t.heap.metadata.lookup ptr = some data →
    s.heap.metadata.lookup ptr = some data ∨
      ∃ id req space index, s.threads id = .reserved req space index ∧
        data = { size := req.size, alignment := req.alignment } ∧
        data.size + index < cfg.heapSize

theorem Aside.of_eq (hqueue : SameQueue s t) (hspace : t.heap.spaceNum = s.heap.spaceNum)
    (hnexts : t.heap.nexts = s.heap.nexts) (hentries : t.heap.metadata = s.heap.metadata) :
    Aside s t where
  queue := hqueue
  space := .of_eq hspace hnexts
  entries := fun ptr data hdata => by rwa [hentries]
  added := fun ptr data hdata => Or.inl (by rwa [hentries] at hdata)

theorem Aside.attempt (s : Sys roots) (id : ThreadId) (req : Request roots) (retries : Nat) :
    Aside s (s.attempt id req retries) := by
  have hheap : (s.attempt id req retries).heap =
      finalState ((reserveAttempt cfg req.size req.alignment).run s.heap) := by
    unfold Sys.attempt
    cases (reserveAttempt cfg req.size req.alignment).run s.heap with
    | error e heap => rfl
    | ok reserved heap =>
        obtain ⟨space, _ | index⟩ := reserved
        · cases retries <;> rfl
        · rfl
  have hspace : OnlyBumps s.heap.spaceNum s.heap (s.attempt id req retries).heap := by
    rw [hheap]
    exact frames_reserveAttempt (fun u _ => OnlyBumps.bump u) req.size req.alignment
  have hsame : SameEntries s.heap (s.attempt id req retries).heap := by
    rw [hheap]
    exact frames_reserveAttempt (fun _ _ _ => rfl) req.size req.alignment
  exact
    { queue := .of_attempt s id req retries
      space := hspace
      entries := fun ptr data hdata => (congrArg (AList.lookup ptr) hsame).trans hdata
      added := fun ptr data hdata => Or.inl ((congrArg (AList.lookup ptr) hsame).symm.trans hdata) }

theorem Aside.register {id : ThreadId} {req : Request roots} {space : SpaceNum} {index : Nat}
    (hthread : s.threads id = .reserved req space index) :
    Aside s (s.register id req space index) := by
  have hqueue := SameQueue.of_register s id req space index
  by_cases hroom : req.size + index ≥ cfg.heapSize
  · have hheap : (s.register id req space index).heap = s.heap := by
      unfold Sys.register
      rw [run_allocNoConstraints, if_pos hroom]
      rfl
    exact .of_eq hqueue (congrArg _ hheap) (congrArg _ hheap) (congrArg _ hheap)
  · have hview : (s.register id req space index).heap.spaceNum = s.heap.spaceNum ∧
        (s.register id req space index).heap.nexts = s.heap.nexts ∧
        (s.register id req space index).heap.metadata =
          AssocMap.emplace (FatPtr.ofAddr (cfg.base space + index))
            { size := req.size, alignment := req.alignment } s.heap.metadata := by
      unfold Sys.register
      rw [run_allocNoConstraints, if_neg hroom]
      exact ⟨rfl, rfl, rfl⟩
    obtain ⟨hspace, hnexts, hmetadata⟩ := hview
    refine { queue := hqueue, space := .of_eq hspace hnexts, entries := ?_, added := ?_ }
    · intro ptr data hdata
      rw [hmetadata]
      exact AssocMap.lookup_emplace_of_some hdata
    · intro ptr data hdata
      rw [hmetadata] at hdata
      rcases AssocMap.of_lookup_emplace hdata with ⟨_, rfl⟩ | hold
      · exact Or.inr ⟨id, req, space, index, hthread, rfl, not_le.mp hroom⟩
      · exact Or.inl hold

/-- **What a step can do to the spaces.** -/
theorem step_cases (h : step a s = some t) :
    (a = .worker ∧ s.stepWorker = some t) ∨
      (∃ id needed resume, a = .step id ∧ s.threads id = .collect needed resume .lock ∧
        s.Flips needed ∧ t = s.collectLocked id needed resume) ∨
      (a ≠ .worker ∧ Aside s t) := by
  by_cases hworker : a = .worker
  · subst hworker
    exact Or.inl ⟨rfl, h⟩
  by_cases hlock : ∃ id needed resume, a = .step id ∧ s.threads id = .collect needed resume .lock
  · obtain ⟨id, needed, resume, rfl, hthread⟩ := hlock
    rw [step, Sys.stepThread, hthread] at h
    cases h
    by_cases hflips : s.Flips needed
    · exact Or.inr (Or.inl ⟨id, needed, resume, rfl, hthread, hflips, rfl⟩)
    · refine Or.inr (Or.inr ⟨hworker, ?_⟩)
      unfold Sys.collectLocked
      rw [if_neg hflips]
      exact .of_eq ⟨rfl, rfl, rfl, rfl⟩ rfl rfl rfl
  · have hqueue : SameQueue s t := .of_step h hworker fun id needed resume ha hthread =>
      hlock ⟨id, needed, resume, ha, hthread⟩
    refine Or.inr (Or.inr ⟨hworker, ?_⟩)
    cases a with
    | alloc id req =>
        rw [step] at h
        split at h <;> cases h
        refine .of_eq hqueue ?_ ?_ ?_ <;> unfold Sys.startAlloc <;> split <;> rfl
    | collect id needed =>
        rw [step] at h
        split at h <;> cases h
        exact .of_eq hqueue rfl rfl rfl
    | load id src dst =>
        rw [step] at h
        split at h <;> cases h
        refine .of_eq hqueue ?_ ?_ ?_ <;> unfold Sys.startLoad <;> split <;> rfl
    | clear slot =>
        cases h
        exact .of_eq hqueue rfl rfl rfl
    | worker => exact absurd rfl hworker
    | step id =>
        cases threadMove h with
        | attempt req retries => exact .attempt s id req retries
        | register req space index hthread => exact .register hthread
        | lock needed resume hthread => exact absurd ⟨id, needed, resume, rfl, hthread⟩ hlock
        | test | loadSpace | loadNext | wait | released | assign | caught =>
            exact .of_eq hqueue rfl rfl rfl

/-- The tasks copy to the current space, and the bump index of the other one is zero. -/
structure SpacesInv (s : Sys roots) : Prop where
  future : FutureKept s
  tasks : ∀ toSpace ∈ s.tasks, toSpace = s.heap.spaceNum
  running : ∀ r, s.worker = some r → r.toSpace = s.heap.spaceNum
  idle : s.heap.nexts s.heap.spaceNum.flip = 0

namespace SpacesInv

theorem initial (roots : RootSlots cfg) (mem : Memory) :
    SpacesInv (Sys.initial roots mem) where
  future := Or.inl ⟨rfl, rfl⟩
  tasks := nofun
  running := nofun
  idle := rfl

theorem aside (h : SpacesInv s) (hstep : Aside s t) : SpacesInv t where
  future := hstep.queue.futureKept h.future
  tasks := fun toSpace htask => by
    rw [hstep.queue.tasks] at htask
    rw [hstep.space.spaceNum]
    exact h.tasks toSpace htask
  running := fun r hr => by
    rw [hstep.queue.worker] at hr
    rw [hstep.space.spaceNum]
    exact h.running r hr
  idle := by
    rw [hstep.space.spaceNum, hstep.space.others _ (SpaceNum.flip_ne _)]
    exact h.idle

/-- A collection starts when none is under way. -/
theorem flips (h : SpacesInv s) {needed : Nat} (hflips : s.Flips needed) : s.Quiet :=
  Sys.quiet_iff.mpr (h.future.quiet hflips.2)

theorem collectLocked (h : SpacesInv s) (id : ThreadId) {needed : Nat}
    (resume : Option (Request roots × Nat)) (hflips : s.Flips needed) :
    SpacesInv (s.collectLocked id needed resume) := by
  obtain ⟨htasks, hworker⟩ := h.flips hflips
  unfold Sys.collectLocked
  rw [if_pos hflips]
  exact
    { future := Or.inr ⟨_, rfl, Or.inr (by
        simp [Sys.load, Sys.setThread, Sys.asyncCollect, htasks, hworker])⟩
      tasks := fun toSpace htask => by
        change toSpace ∈ s.tasks ++ [s.heap.spaceNum.flip] at htask
        rw [htasks, List.nil_append, List.mem_singleton] at htask
        exact htask
      running := fun r hr => by
        change s.worker = some r at hr
        rw [hworker] at hr
        cases hr
      idle := by
        change Function.update s.heap.nexts s.heap.spaceNum 0 s.heap.spaceNum.flip.flip = 0
        rw [SpaceNum.flip_flip, Function.update_self] }

/-- The space that was idle is empty when it becomes the current one. -/
theorem nexts_collectLocked (h : SpacesInv s) (id : ThreadId) {needed : Nat}
    (resume : Option (Request roots × Nat)) (hflips : s.Flips needed) :
    (s.collectLocked id needed resume).heap.nexts
      (s.collectLocked id needed resume).heap.spaceNum = 0 := by
  unfold Sys.collectLocked
  rw [if_pos hflips]
  exact (Function.update_of_ne (SpaceNum.flip_ne _) _ _).trans h.idle

/-- A task moves the bump index of the current space. -/
theorem heap_of_run (h : SpacesInv s) {r : Running} (hworker : s.worker = some r) :
    OnlyBumps s.heap.spaceNum s.heap (finalState ((r.step cfg).run s.heap)) := by
  rw [← h.running r hworker]
  exact onlyBumps_task r s.heap

theorem onlyBumps_worker (h : SpacesInv s) (hstep : s.stepWorker = some t) :
    OnlyBumps s.heap.spaceNum s.heap t.heap := by
  cases Sys.workerMove hstep with
  | start toSpace tasks hworker htasks => exact .of_eq rfl rfl
  | next r r' heap hworker hrun | finish r heap hworker hrun | fail r e heap hworker hrun =>
      have hheap := h.heap_of_run hworker
      rw [hrun] at hheap
      exact hheap

theorem worker (h : SpacesInv s) (hstep : s.stepWorker = some t) : SpacesInv t := by
  have hheap := h.onlyBumps_worker hstep
  have hidle : t.heap.nexts t.heap.spaceNum.flip = 0 := by
    rw [hheap.spaceNum, hheap.others _ (SpaceNum.flip_ne _)]
    exact h.idle
  refine { future := h.future.stepWorker hstep, tasks := ?_, running := ?_, idle := hidle }
  all_goals rw [hheap.spaceNum]
  · intro toSpace htask
    refine h.tasks toSpace ?_
    cases Sys.workerMove hstep with
    | start first tasks hworker htasks =>
        rw [htasks]
        exact List.mem_cons_of_mem first htask
    | next | finish | fail => exact htask
  · intro r hr
    cases Sys.workerMove hstep with
    | start first tasks hworker htasks =>
        cases hr
        exact h.tasks first (by rw [htasks]; exact List.mem_cons_self)
    | next r r' heap hworker hrun =>
        cases hr
        exact (taskMove hrun).toSpace.trans (h.running r hworker)
    | finish | fail => cases hr

theorem step (h : SpacesInv s) (hstep : Concurrent.step a s = some t) : SpacesInv t := by
  rcases step_cases hstep with ⟨_, hworker⟩ | ⟨id, needed, resume, _, _, hflips, rfl⟩ | ⟨_, haside⟩
  · exact h.worker hworker
  · exact h.collectLocked id resume hflips
  · exact h.aside haside

theorem run {actions : List (Action roots)} (h : SpacesInv s)
    (hrun : Machine.run Concurrent.step actions s = some t) : SpacesInv t :=
  Machine.run_invariant (fun _ _ _ hinv hstep => hinv.step hstep) h hrun

end SpacesInv

end Concurrent

end Gcpp
