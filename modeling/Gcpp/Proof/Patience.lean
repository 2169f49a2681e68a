import Gcpp.PatientRun
import Gcpp.Proof.CurrentSpace
import Gcpp.Proof.ThreadSteps
import Gcpp.Proof.Undisturbed

/-!
# Patient programs run as under `SerialGCPolicy`

What a patient program has started is due, and nothing can come in between: the heap that the whole
call leaves is settled when the call starts. Under way, the state owes the rest of the call to what
the heap will be once the task of a collection is done. Every step pays a part of it, and a program
at rest owes nothing.
-/

namespace Gcpp.Concurrent

open ByteMemory StateExcept

variable {cfg : Config} {policy : GenPolicy} {roots : RootSlots cfg} {s t : Sys roots}
  {a : Action roots} {id : ThreadId} {heap now : State}

/-! ### What is owed -/

/-- The worker is left with no task, and the heap is this one, if it runs alone. -/
def Settles (s : Sys roots) (heap : State) : Prop :=
  ∃ n u, Machine.run step (List.replicate n .worker) s = some u ∧ u.Quiet ∧ u.heap = heap

theorem Settles.of_quiet (h : s.Quiet) : Settles s s.heap := ⟨0, s, rfl, h, rfl⟩

theorem not_quiet_of_stepWorker (h : s.stepWorker = some t) : ¬ s.Quiet := fun hquiet =>
  not_stepWorker (Sys.quiet_iff.mp hquiet) h

theorem Settles.eq_of_quiet (h : Settles s heap) (hquiet : s.Quiet) : s.heap = heap := by
  obtain ⟨n, u, hrun, _, hheap⟩ := h
  cases n with
  | zero =>
      cases hrun
      exact hheap
  | succ n =>
      obtain ⟨v, hstep, _⟩ := Option.bind_eq_some_iff.mp hrun
      exact absurd hquiet (not_quiet_of_stepWorker hstep)

theorem Settles.stepWorker (h : Settles s heap) (hstep : s.stepWorker = some t) :
    Settles t heap := by
  obtain ⟨n, u, hrun, hquiet, hheap⟩ := h
  cases n with
  | zero =>
      cases hrun
      exact absurd hquiet (not_quiet_of_stepWorker hstep)
  | succ n =>
      obtain ⟨v, hfirst, hrun⟩ := Option.bind_eq_some_iff.mp hrun
      cases hstep.symm.trans hfirst
      exact ⟨n, u, hrun, hquiet, hheap⟩

/-- What an attempt may ask for. -/
def Request.Fits (req : Request roots) : Prop :=
  0 < req.size ∧ SmallAlignment req.alignment ∧ req.alignment ≤ req.size

/-- What is left of a call of `alloc`, from the heap it finds. -/
def allocRest (policy : GenPolicy) (req : Request roots) (retries : Nat) (now : State) : State :=
  stored req.slot ((allocAttempt cfg policy roots.slots req.size req.alignment retries).run now)

def registerRest (req : Request roots) (space : SpaceNum) (index : Nat) (now : State) :
    EStateM.Result Halt State FatPtr :=
  (allocNoConstraints cfg space { size := req.size, alignment := req.alignment } index).run now

def collectRest (roots : RootSlots cfg) (policy : GenPolicy) (needed : Nat) (now : State) : State :=
  finalState ((Gcpp.collect cfg policy roots.slots needed).run now)

def resumeRest (policy : GenPolicy) : Option (Request roots × Nat) → State → State
  | none, now => now
  | some (req, retries), now => allocRest policy req retries now

/-- Where the thread stands, the heap `now` becomes the heap `heap` by what is left of its call. -/
inductive Due (policy : GenPolicy) : Thread roots → State → State → Prop
  | idle (now : State) (hnow : Accounted cfg now) : Due policy .idle now now
  | thrown (e : Halt) (now : State) (hnow : Accounted cfg now) : Due policy (.thrown e) now now
  | attempt (req : Request roots) (retries : Nat) (now : State) (hnow : Accounted cfg now)
      (hfits : req.Fits) : Due policy (.attempt req retries) now (allocRest policy req retries now)
  | reserved (req : Request roots) (space : SpaceNum) (index : Nat) (now : State)
      (hleft : Accounted cfg (finalState (registerRest req space index now))) :
      Due policy (.reserved req space index) now (stored req.slot (registerRest req space index now))
  | collect (needed : Nat) (resume : Option (Request roots × Nat)) (pc : CollectPc) (now : State)
      (hnow : Accounted cfg now) (hpc : pc = .test ∨ pc = .lock)
      (hresume : ∀ req retries, resume = some (req, retries) → req.Fits) :
      Due policy (.collect needed resume pc) now
        (resumeRest policy resume (collectRest roots policy needed now))
  | assign (dst : roots.Slot) (value : FatPtr) (now : State) (hnow : Accounted cfg now) :
      Due policy (.assign dst value) now { now with mem := atomicUpdate now.mem dst value }

theorem Due.of_idle {thread : Thread roots} (h : Due policy thread now heap)
    (hidle : thread = .idle) : now = heap ∧ Accounted cfg now := by
  cases h with
  | idle _ hnow => exact ⟨rfl, hnow⟩
  | thrown | attempt | reserved | collect | assign => cases hidle

/-- Once the task is done, what is left of the call leads to the heap. No other thread is in a
call. -/
structure Follows (policy : GenPolicy) (id : ThreadId) (heap : State) (s : Sys roots) : Prop where
  spaces : SpacesInv s
  others : ∀ u, u ≠ id → s.threads u = .idle
  due : ∃ now, Settles s now ∧ Due policy (s.threads id) now heap

namespace Follows

theorem due_of_quiet (h : Follows policy id heap s) (hquiet : s.Quiet) :
    Due policy (s.threads id) s.heap heap := by
  obtain ⟨now, hsettles, hdue⟩ := h.due
  rwa [hsettles.eq_of_quiet hquiet]

theorem of_due (hspaces : SpacesInv s) (hquiet : s.Quiet)
    (hothers : ∀ u, u ≠ id → s.threads u = .idle) (hdue : Due policy (s.threads id) s.heap heap) :
    Follows policy id heap s where
  spaces := hspaces
  others := hothers
  due := ⟨s.heap, .of_quiet hquiet, hdue⟩

/-- A thread that nobody else overlaps with can be the one that owes. -/
theorem alone (h : Follows policy id heap s) {other : ThreadId} (halone : s.Alone other) :
    Follows policy other heap s := by
  by_cases hother : other = id
  · rwa [hother]
  · have hdue := h.due_of_quiet halone.1
    rw [halone.2 id (Ne.symm hother), ← h.others other hother] at hdue
    exact of_due h.spaces halone.1 halone.2 hdue

theorem worker (h : Follows policy id heap s) (hstep : s.stepWorker = some t) :
    Follows policy id heap t := by
  have hthreads := threads_stepWorker hstep
  obtain ⟨now, hsettles, hdue⟩ := h.due
  refine { spaces := h.spaces.worker hstep, others := fun u hu => ?_, due := ?_ }
  · rw [hthreads]
    exact h.others u hu
  · rw [hthreads]
    exact ⟨now, hsettles.stepWorker hstep, hdue⟩

end Follows

/-! ### The steps of a call -/

theorem FutureKept.ready (h : FutureKept s) (hquiet : s.Quiet) : s.resultReady = true := by
  have hload := Sys.quiet_iff.mp hquiet
  unfold Sys.resultReady
  rcases h with ⟨_, hnone⟩ | ⟨task, htask, ⟨_, hlt⟩ | ⟨hone, _⟩⟩
  · rw [hnone]
  · rw [htask]
    exact decide_eq_true hlt
  · omega

theorem run_allocAttempt_of_error {size alignment : Nat} {e : Halt} (gcRoots : List Nat)
    (hrun : (reserveAttempt cfg size alignment).run now = .error e heap) (retries : Nat) :
    (allocAttempt cfg policy gcRoots size alignment retries).run now = .error e heap := by
  cases retries <;> exact run_bind_of_error hrun

theorem run_allocAttempt_of_some {size alignment index : Nat} {space : SpaceNum}
    (gcRoots : List Nat)
    (hrun : (reserveAttempt cfg size alignment).run now = .ok (space, some index) heap)
    (retries : Nat) :
    (allocAttempt cfg policy gcRoots size alignment retries).run now =
      (allocNoConstraints cfg space { size, alignment } index).run heap := by
  cases retries <;> exact run_bind_of_ok hrun

/-- `collect` throws nothing. -/
theorem run_collect (policy : GenPolicy) (needed : Nat) (now : State) :
    (Gcpp.collect cfg policy roots.slots needed).run now =
      .ok () (collectRest roots policy needed now) := by
  unfold collectRest Gcpp.collect
  rw [EStateM.run_bind, EStateM.run_get]
  dsimp only
  split <;> rfl

/-- **The locked region of an attempt** pays for what it does. -/
theorem due_attempt {req : Request roots} (retries : Nat) (hnow : Accounted cfg s.heap)
    (hfits : req.Fits) :
    Due policy ((s.attempt id req retries).threads id) (s.attempt id req retries).heap
      (allocRest policy req retries s.heap) := by
  obtain ⟨hpos, hsmall, hle⟩ := hfits
  have hcases := run_reserveAttempt_cases req.size req.alignment
    fun padding _ => noOverlap_of_apart hpos fun _ _ hdata => hnow.apart hdata padding req.size
  unfold Sys.attempt
  rcases hcases with ⟨e, _, hrun⟩ | hrun | ⟨padding, hfit, hrun⟩
  · rw [hrun, allocRest, run_allocAttempt_of_error _ hrun]
    dsimp only
    rw [threads_setThread_self]
    exact .thrown e s.heap hnow
  · rw [hrun]
    cases retries with
    | zero =>
        rw [allocRest, allocAttempt, run_bind_of_ok hrun]
        dsimp only
        rw [threads_setThread_self]
        exact .thrown .badAlloc s.heap hnow
    | succ retries =>
        have hrest : allocRest policy req (retries + 1) s.heap =
            resumeRest policy (some (req, retries))
              (collectRest roots policy req.size s.heap) := by
          rw [allocRest, allocAttempt, run_bind_of_ok hrun]
          dsimp only
          rw [run_bind_of_ok (run_collect policy req.size s.heap)]
          rfl
        rw [hrest]
        dsimp only
        rw [threads_setThread_self]
        refine .collect req.size (some (req, retries)) .test s.heap hnow (Or.inl rfl) ?_
        rintro _ _ ⟨⟩
        exact ⟨hpos, hsmall, hle⟩
  · have hleft : Accounted cfg (finalState ((Gcpp.alloc cfg .copying [] req.size
        req.alignment).run s.heap)) :=
      hnow.step GenPolicy.copying_copies (.alloc s.heap s.heap.mem [] _ _ ⟨hsmall, hle⟩)
    rw [Gcpp.alloc, if_neg (by omega), run_allocAttempt_of_some _ hrun] at hleft
    rw [hrun, allocRest, run_allocAttempt_of_some _ hrun]
    dsimp only
    rw [threads_setThread_self]
    exact .reserved req _ _ _ hleft

theorem due_register {req : Request roots} (space : SpaceNum) (index : Nat)
    (hleft : Accounted cfg (finalState (registerRest req space index s.heap))) :
    Due policy ((s.register id req space index).threads id) (s.register id req space index).heap
      (stored req.slot (registerRest req space index s.heap)) := by
  unfold Sys.register
  unfold registerRest at hleft ⊢
  cases hrun : (allocNoConstraints cfg space { size := req.size, alignment := req.alignment }
      index).run s.heap with
  | ok ptr heap =>
      rw [hrun] at hleft
      dsimp only
      rw [threads_setThread_self]
      exact .idle _ (hleft.with_mem _)
  | error e heap =>
      rw [hrun] at hleft
      dsimp only
      rw [threads_setThread_self]
      exact .thrown e heap hleft

/-- Where a thread goes on after `collect`. -/
def resumed : Option (Request roots × Nat) → Thread roots
  | none => .idle
  | some (req, retries) => .attempt req retries

theorem collectLocked_of_flips {needed : Nat} (hflips : s.Flips needed)
    (resume : Option (Request roots × Nat)) :
    s.collectLocked id needed resume = (s.setThread id (resumed resume)).asyncCollect := by
  unfold Sys.collectLocked
  simp only [if_pos hflips]
  cases resume <;> rfl

theorem collectLocked_of_not_flips {needed : Nat} (hflips : ¬ s.Flips needed)
    (resume : Option (Request roots × Nat)) :
    s.collectLocked id needed resume = s.setThread id (resumed resume) := by
  unfold Sys.collectLocked
  simp only [if_neg hflips]
  cases resume <;> rfl

theorem due_resumed {resume : Option (Request roots × Nat)} (hnow : Accounted cfg now)
    (hresume : ∀ req retries, resume = some (req, retries) → req.Fits) :
    Due policy (resumed resume) now (resumeRest policy resume now) := by
  cases resume with
  | none => exact .idle now hnow
  | some call => exact .attempt call.1 call.2 now hnow (hresume _ _ rfl)

theorem collectRest_of_lt {needed : Nat} (hlt : freeSpace cfg now < needed)
    {result : Visited × List FatPtr}
    (hrun : (asyncCollect cfg policy roots.slots []).run now = .ok result heap) :
    collectRest roots policy needed now = heap := by
  unfold collectRest Gcpp.collect
  rw [EStateM.run_bind, EStateM.run_get]
  dsimp only
  rw [if_pos hlt, hrun]
  rfl

theorem collectRest_of_not_lt {needed : Nat} (hlt : ¬ freeSpace cfg now < needed) :
    collectRest roots policy needed now = now := by
  unfold collectRest Gcpp.collect
  rw [EStateM.run_bind, EStateM.run_get]
  dsimp only
  rw [if_neg hlt]
  rfl

/-- **The locked region of `collect`** pays for the collection that it starts, if it starts one. -/
theorem Follows.lock (hcopies : policy.Copies) {needed : Nat}
    {resume : Option (Request roots × Nat)} (h : Follows policy id heap s) (hquiet : s.Quiet)
    (hthread : s.threads id = .collect needed resume .lock) :
    Follows policy id heap (s.collectLocked id needed resume) := by
  have hdue := h.due_of_quiet hquiet
  have hstep : step (.step id) s = some (s.collectLocked id needed resume) := by
    rw [step, Sys.stepThread, hthread]
    rfl
  have hspaces := h.spaces.step hstep
  have hothers : ∀ u, u ≠ id → (s.collectLocked id needed resume).threads u = .idle :=
    fun u hu => (threads_stepThread hstep hu).trans (h.others u hu)
  rw [hthread] at hdue
  cases hdue with
  | collect _ _ _ _ hnow _ hresume =>
      by_cases hflips : s.Flips needed
      · obtain ⟨result, u, hcollect, hu⟩ := hnow.collect_total hcopies roots.slots []
        have hset : (s.setThread id (resumed resume)).Quiet := hquiet
        obtain ⟨n, hrun⟩ := run_asyncCollect_undisturbed hcopies hset hcollect
        rw [collectLocked_of_flips hflips] at hspaces hothers ⊢
        refine { spaces := hspaces, others := hothers, due := ⟨u, ⟨n, _, hrun, ?_, rfl⟩, ?_⟩ }
        · exact ⟨rfl, hquiet.2⟩
        · rw [collectRest_of_lt hflips.1 hcollect]
          exact (threads_setThread_self (s := s) (resumed resume)).symm ▸ due_resumed hu hresume
      · have hlt : ¬ freeSpace cfg s.heap < needed := fun hlt =>
          hflips ⟨hlt, h.spaces.future.ready hquiet⟩
        rw [collectLocked_of_not_flips hflips] at hspaces hothers ⊢
        refine of_due hspaces hquiet hothers ?_
        rw [threads_setThread_self, collectRest_of_not_lt hlt]
        exact due_resumed hnow hresume

/-- **A step of a thread** that nobody overlaps with. -/
theorem Follows.thread (hcopies : policy.Copies) (h : Follows policy id heap s) (hquiet : s.Quiet)
    (hstep : s.stepThread id = some t) : Follows policy id heap t := by
  have hdue := h.due_of_quiet hquiet
  by_cases hlock : ∃ needed resume, s.threads id = .collect needed resume .lock
  · obtain ⟨needed, resume, hthread⟩ := hlock
    rw [Sys.stepThread, hthread] at hstep
    cases hstep
    exact h.lock hcopies hquiet hthread
  · have hqueue : SameQueue s t := .of_step (a := .step id) hstep (by simp)
      fun other needed resume ha hthread => by
        cases ha
        exact hlock ⟨needed, resume, hthread⟩
    refine of_due (h.spaces.step (a := .step id) hstep) ?_
      (fun u hu => (threads_stepThread hstep hu).trans (h.others u hu)) ?_
    · unfold Sys.Quiet
      rw [hqueue.tasks, hqueue.worker]
      exact hquiet
    · cases hthread : s.threads id with
      | idle =>
          rw [Sys.stepThread, hthread] at hstep
          cases hstep
      | attempt req retries =>
          rw [Sys.stepThread, hthread] at hstep
          rw [hthread] at hdue
          obtain ⟨_, ⟨⟩⟩ := Option.ite_none_left_eq_some.mp hstep
          cases hdue with
          | attempt _ _ _ hnow hfits => exact due_attempt retries hnow hfits
      | reserved req space index =>
          rw [Sys.stepThread, hthread] at hstep
          rw [hthread] at hdue
          cases hstep
          cases hdue with
          | reserved _ _ _ _ hleft => exact due_register space index hleft
      | collect needed resume pc =>
          rw [Sys.stepThread, hthread] at hstep
          rw [hthread] at hdue
          cases hdue with
          | collect _ _ _ _ hnow hpc hresume =>
              rcases hpc with rfl | rfl
              · dsimp only at hstep
                rw [Sys.collect, h.spaces.future.ready hquiet] at hstep
                cases hstep
                rw [threads_setThread_self]
                exact .collect needed resume .lock _ hnow (Or.inr rfl) hresume
              · exact absurd ⟨needed, resume, hthread⟩ hlock
      | assign dst value =>
          rw [Sys.stepThread, hthread] at hstep
          rw [hthread] at hdue
          cases hstep
          cases hdue with
          | assign _ _ _ hnow =>
              rw [threads_setThread_self]
              exact .idle _ (hnow.with_mem _)
      | thrown e =>
          rw [Sys.stepThread, hthread] at hstep
          rw [hthread] at hdue
          cases hstep
          cases hdue with
          | thrown _ _ hnow =>
              rw [threads_setThread_self]
              exact .idle _ hnow

/-! ### The start of a call -/

/-- A thread that is idle starts a call: what it owes is the whole of it. -/
theorem Follows.start {pc : Thread roots} (h : Follows policy id now s) (halone : s.Alone id)
    (hspaces : SpacesInv (s.setThread id pc)) (hdue : Due policy pc s.heap heap) :
    Follows policy id heap (s.setThread id pc) := by
  refine of_due hspaces halone.1 (fun u hu => ?_) ?_
  · rw [threads_setThread_of_ne hu]
    exact h.others u hu
  · rw [threads_setThread_self]
    exact hdue

theorem due_alloc {req : Request roots} (hnow : Accounted cfg now)
    (hfitting : SmallAlignment req.alignment ∧ req.alignment ≤ req.size) :
    Due policy (if req.size = 0 ∨ req.size > cfg.maxAllocSize then .thrown .badAlloc
        else .attempt req 1) now (Action.serial policy (.alloc id req) now) := by
  rw [Action.serial, Gcpp.alloc]
  split
  · exact .thrown .badAlloc now hnow
  · exact .attempt req 1 now hnow ⟨by omega, hfitting⟩

/-- **A step of a patient program.** -/
theorem Follows.step (hcopies : policy.Copies) (h : Follows policy id heap s)
    (hpatient : Patient s a) (hfitting : a.Fitting) (hstep : Concurrent.step a s = some t) :
    ∃ id, Follows policy id (a.serial policy heap) t := by
  have hspaces := h.spaces.step hstep
  -- a thread that can start a call owes nothing
  have hidle : ∀ other, s.Alone other → s.threads other = .idle →
      Follows policy other heap s ∧ heap = s.heap ∧ Accounted cfg s.heap := by
    intro other halone hother
    obtain ⟨hheap, hnow⟩ := ((h.alone halone).due_of_quiet halone.1).of_idle hother
    exact ⟨h.alone halone, hheap.symm, hnow⟩
  cases a with
  | worker => exact ⟨id, h.worker hstep⟩
  | step other => exact ⟨other, (h.alone hpatient).thread hcopies hpatient.1 hstep⟩
  | alloc other req =>
      rw [Concurrent.step] at hstep
      split at hstep <;> cases hstep
      obtain ⟨hfollows, rfl, hnow⟩ := hidle _ hpatient ‹_›
      have hstart : s.startAlloc other req = s.setThread other
          (if req.size = 0 ∨ req.size > cfg.maxAllocSize then .thrown .badAlloc
            else .attempt req 1) := by
        unfold Sys.startAlloc
        split <;> rfl
      rw [hstart] at hspaces ⊢
      exact ⟨other, hfollows.start hpatient hspaces (due_alloc hnow hfitting)⟩
  | collect other needed =>
      rw [Concurrent.step] at hstep
      split at hstep <;> cases hstep
      obtain ⟨hfollows, rfl, hnow⟩ := hidle _ hpatient ‹_›
      exact ⟨other, hfollows.start hpatient hspaces
        (.collect needed none .test s.heap hnow (Or.inl rfl) fun _ _ h => by cases h)⟩
  | load other src dst =>
      rw [Concurrent.step] at hstep
      split at hstep <;> cases hstep
      obtain ⟨hfollows, rfl, hnow⟩ := hidle _ hpatient ‹_›
      refine ⟨other, ?_⟩
      rw [Action.serial]
      unfold Sys.startLoad at hspaces ⊢
      cases hload : atomicLoad s.heap.mem src with
      | some value =>
          rw [hload] at hspaces
          exact hfollows.start hpatient hspaces (.assign dst value s.heap hnow)
      | none =>
          rw [hload] at hspaces
          exact hfollows.start hpatient hspaces (.thrown _ s.heap hnow)
  | clear slot =>
      cases hstep
      obtain ⟨hquiet, hrest⟩ := hpatient
      obtain ⟨hfollows, rfl, hnow⟩ := hidle id ⟨hquiet, fun u _ => hrest u⟩ (hrest id)
      refine ⟨id, of_due hspaces hquiet hfollows.others ?_⟩
      change Due policy (s.threads id) _ _
      rw [hrest id]
      exact .idle _ (hnow.with_mem _)

theorem Follows.initial (policy : GenPolicy) (roots : RootSlots cfg) (mem : Memory)
    (id : ThreadId) : Follows policy id (State.initial mem) (Sys.initial roots mem) :=
  of_due (.initial roots mem) ⟨rfl, rfl⟩ (fun _ _ => rfl) (.idle _ (.initial cfg mem))

theorem Follows.run (hcopies : policy.Copies) {actions : List (Action roots)} :
    ∀ {id heap s}, Follows policy id heap s → (∀ a ∈ actions, a.Fitting) →
      Machine.Meets Concurrent.step Patient actions s →
      Machine.run Concurrent.step actions s = some t →
      ∃ id, Follows policy id (serialRun policy actions heap) t := by
  induction actions with
  | nil =>
      intro id heap s h _ _ hrun
      cases hrun
      exact ⟨id, h⟩
  | cons a actions ih =>
      rintro id heap s h hfitting ⟨hpatient, hmeets⟩ hrun
      obtain ⟨u, hstep, hrun⟩ := Option.bind_eq_some_iff.mp hrun
      rw [hstep] at hmeets
      obtain ⟨hfirst, hrest⟩ := List.forall_mem_cons.mp hfitting
      obtain ⟨other, hnext⟩ := h.step hcopies hpatient hfirst hstep
      exact ih hnext hrest hmeets hrun

/-! ### The end of a call -/

/-- The steps that a thread has before it at most, when it need not wait. -/
def Thread.stepsLeft : Thread roots → Nat
  | .idle => 0
  | .attempt _ retries => 3 * retries + 3
  | .reserved _ _ _ => 2
  | .collect _ resume pc => (if pc = .lock then 1 else 2) +
      match resume with
      | none => 0
      | some (_, retries) => 3 * retries + 3
  | .assign _ _ => 1
  | .thrown _ => 1

theorem Thread.idle_of_stepsLeft {thread : Thread roots} (h : thread.stepsLeft = 0) :
    thread = .idle := by
  cases thread with
  | idle => rfl
  | collect needed resume pc =>
      dsimp only [Thread.stepsLeft] at h
      split at h <;> omega
  | attempt | reserved | assign | thrown =>
      dsimp only [Thread.stepsLeft] at h
      omega

theorem stepsLeft_resumed {needed : Nat} (resume : Option (Request roots × Nat)) :
    (resumed resume).stepsLeft < (Thread.collect needed resume .lock).stepsLeft := by
  cases resume <;> simp [resumed, Thread.stepsLeft]

theorem stepsLeft_attempt (req : Request roots) (retries : Nat) :
    ((s.attempt id req retries).threads id).stepsLeft < (Thread.attempt req retries).stepsLeft := by
  unfold Sys.attempt
  split
  · rw [threads_setThread_self, Thread.stepsLeft, Thread.stepsLeft]
    omega
  · cases retries with
    | zero =>
        dsimp only
        rw [threads_setThread_self, Thread.stepsLeft, Thread.stepsLeft]
        omega
    | succ retries =>
        dsimp only
        rw [threads_setThread_self, Thread.stepsLeft, Thread.stepsLeft, if_neg (by decide)]
        omega
  · rw [threads_setThread_self, Thread.stepsLeft, Thread.stepsLeft]
    omega

/-- A thread that is in a call can go on, and comes nearer to its end. -/
theorem Follows.advance (h : Follows policy id heap s) (hquiet : s.Quiet)
    (hbusy : s.threads id ≠ .idle) :
    ∃ t, s.stepThread id = some t ∧
      (t.threads id).stepsLeft < (s.threads id).stepsLeft := by
  have hdue := h.due_of_quiet hquiet
  rw [Sys.stepThread]
  cases hthread : s.threads id with
  | idle => exact absurd hthread hbusy
  | attempt req retries =>
      rw [hthread] at hdue
      cases hdue with
      | attempt _ _ _ _ hfits =>
          exact ⟨_, if_neg (not_hangs_of_small hfits.2.1), stepsLeft_attempt req retries⟩
  | reserved req space index =>
      obtain ⟨now, pc, heq, hpc⟩ := register_eq s id req space index
      refine ⟨_, rfl, ?_⟩
      rw [heq, threads_setThread_self]
      rcases hpc with rfl | ⟨e, rfl⟩ <;> simp [Thread.stepsLeft]
  | collect needed resume pc =>
      rw [hthread] at hdue
      cases hdue with
      | collect _ _ _ _ _ hpc _ =>
          rcases hpc with rfl | rfl
          · refine ⟨_, rfl, ?_⟩
            rw [h.spaces.future.ready hquiet, threads_setThread_self]
            simp [Thread.stepsLeft]
          · refine ⟨_, rfl, ?_⟩
            have hgoes : (s.collectLocked id needed resume).threads id = resumed resume := by
              by_cases hflips : s.Flips needed
              · rw [collectLocked_of_flips hflips]
                exact threads_setThread_self _
              · rw [collectLocked_of_not_flips hflips]
                exact threads_setThread_self _
            rw [hgoes]
            exact stepsLeft_resumed resume
  | assign dst value =>
      refine ⟨_, rfl, ?_⟩
      rw [threads_setThread_self]
      simp [Thread.stepsLeft]
  | thrown e =>
      refine ⟨_, rfl, ?_⟩
      rw [threads_setThread_self]
      simp [Thread.stepsLeft]

theorem Follows.workers (n : Nat) : ∀ {s}, Follows policy id heap s →
    Machine.run Concurrent.step (List.replicate n .worker) s = some t →
    Follows policy id heap t ∧ t.threads = s.threads ∧
      Machine.Meets Concurrent.step Patient (List.replicate n .worker) s := by
  induction n with
  | zero =>
      intro s h hrun
      cases hrun
      exact ⟨h, rfl, trivial⟩
  | succ n ih =>
      intro s h hrun
      obtain ⟨u, hstep, hrun⟩ := Option.bind_eq_some_iff.mp hrun
      obtain ⟨ht, hthreads, hmeets⟩ := ih (h.worker hstep) hrun
      refine ⟨ht, hthreads.trans (threads_stepWorker hstep), trivial, ?_⟩
      rw [hstep]
      exact hmeets

/-- **A call that is under way can be ended**, and then the heap is the one that is due. -/
theorem Follows.ends (hcopies : policy.Copies) (n : Nat) : ∀ {s}, Follows policy id heap s →
    (s.threads id).stepsLeft < n → ∃ (more : List (Action roots)) (t : Sys roots),
      (∀ a ∈ more, a.GoesOn) ∧ Machine.Meets Concurrent.step Patient more s ∧
        Machine.run Concurrent.step more s = some t ∧ t.AtRest ∧ t.heap = heap := by
  induction n with
  | zero => exact fun _ hlt => absurd hlt (Nat.not_lt_zero _)
  | succ n ih =>
      intro s h hlt
      -- first the task, then a step of the thread
      obtain ⟨now, ⟨k, u, hworkers, hquiet, _⟩, _⟩ := h.due
      obtain ⟨hu, hthreads, hmeets⟩ := h.workers k hworkers
      have hgoes : ∀ a ∈ List.replicate k (.worker : Action roots), a.GoesOn := by
        intro a ha
        rw [List.eq_of_mem_replicate ha]
        trivial
      by_cases hidle : u.threads id = .idle
      · obtain ⟨hheap, _⟩ := (hu.due_of_quiet hquiet).of_idle hidle
        refine ⟨_, u, hgoes, hmeets, hworkers, ⟨hquiet, fun v => ?_⟩, hheap⟩
        by_cases hv : v = id
        · rw [hv, hidle]
        · exact hu.others v hv
      · obtain ⟨v, hstep, hless⟩ := hu.advance hquiet hidle
        rw [hthreads] at hless
        obtain ⟨more, t, hmore, hrest, hrun, hlast⟩ :=
          ih (hu.thread hcopies hquiet hstep) (by omega)
        have hnext : Concurrent.step (.step id) u = some v := hstep
        refine ⟨List.replicate k .worker ++ .step id :: more, t, ?_, ?_, ?_, hlast⟩
        · intro a ha
          rcases List.mem_append.mp ha with ha | ha
          · exact hgoes a ha
          · rcases List.mem_cons.mp ha with rfl | ha
            · trivial
            · exact hmore a ha
        · refine hmeets.append hworkers ⟨⟨hquiet, hu.others⟩, ?_⟩
          rw [hnext]
          exact hrest
        · rw [Machine.run_append, hworkers, Option.bind_some, Machine.run, hnext, Option.bind_some]
          exact hrun

variable {mem : Memory} {actions : List (Action roots)}

/-- **A patient program behaves as under `SerialGCPolicy`.** Every run can go on until no call and no
collection is under way, and whenever that is so, the heap is that of the same calls one after the
other. -/
theorem patient_run_is_serial (hcopies : policy.Copies) (hfitting : ∀ a ∈ actions, a.Fitting)
    (hpatient : Machine.Meets step Patient actions (Sys.initial roots mem))
    (hrun : Machine.run step actions (Sys.initial roots mem) = some s) :
    (s.AtRest → s.heap = serialRun policy actions (State.initial mem)) ∧
      ∃ (more : List (Action roots)) (t : Sys roots), (∀ a ∈ more, a.GoesOn) ∧
        Machine.Meets step Patient more s ∧ Machine.run step more s = some t ∧ t.AtRest ∧
          t.heap = serialRun policy actions (State.initial mem) := by
  obtain ⟨id, hfollows⟩ :=
    (Follows.initial policy roots mem 0).run hcopies hfitting hpatient hrun
  refine ⟨fun ⟨hquiet, hidle⟩ => ?_, hfollows.ends hcopies _ (Nat.lt_succ_self _)⟩
  exact ((hfollows.due_of_quiet hquiet).of_idle (hidle id)).1

/-! ### A program with one thread -/

/-- Only this thread takes steps, and only while no collection is under way. -/
def Waits (id : ThreadId) (s : Sys roots) : Action roots → Prop
  | .alloc t _ | .collect t _ | .load t _ _ | .step t => t = id ∧ s.tasks = [] ∧ s.worker = none
  | .clear _ => False
  | .worker => True

instance Waits.decidable (id : ThreadId) (s : Sys roots) : ∀ a, Decidable (Waits id s a)
  | .alloc _ _ | .collect _ _ | .load _ _ _ | .step _ => inferInstanceAs (Decidable (_ ∧ _ ∧ _))
  | .clear _ => isFalse nofun
  | .worker => isTrue trivial

theorem Waits.others (h : Waits id s a) (hstep : step a s = some t) {u : ThreadId} (hu : u ≠ id) :
    t.threads u = s.threads u := by
  cases a with
  | worker => rw [threads_stepWorker hstep]
  | step other =>
      obtain ⟨rfl, _⟩ := h
      exact threads_stepThread hstep hu
  | alloc other req =>
      obtain ⟨rfl, _⟩ := h
      rw [step] at hstep
      split at hstep <;> cases hstep
      unfold Sys.startAlloc
      split <;> exact threads_setThread_of_ne hu _
  | collect other needed =>
      obtain ⟨rfl, _⟩ := h
      rw [step] at hstep
      split at hstep <;> cases hstep
      exact threads_setThread_of_ne hu _
  | load other src dst =>
      obtain ⟨rfl, _⟩ := h
      rw [step] at hstep
      split at hstep <;> cases hstep
      unfold Sys.startLoad
      split <;> exact threads_setThread_of_ne hu _
  | clear slot => exact h.elim

theorem Waits.patient (h : Waits id s a) (hothers : ∀ u, u ≠ id → s.threads u = .idle) :
    Patient s a := by
  cases a with
  | worker => trivial
  | clear slot => exact h.elim
  | step | alloc | collect | load =>
      obtain ⟨rfl, hquiet⟩ := h
      exact ⟨hquiet, hothers⟩

/-- **A thread that waits for every collection** is patient, when it is the only one. -/
theorem patient_of_waits : ∀ {s}, (∀ u, u ≠ id → s.threads u = .idle) →
    Machine.Meets step (Waits id) actions s → Machine.run step actions s = some t →
    Machine.Meets step Patient actions s ∧ ∀ u, u ≠ id → t.threads u = .idle := by
  induction actions with
  | nil =>
      intro s hothers _ hrun
      cases hrun
      exact ⟨trivial, hothers⟩
  | cons a actions ih =>
      rintro s hothers ⟨hwaits, hrest⟩ hrun
      obtain ⟨u, hstep, hrun⟩ := Option.bind_eq_some_iff.mp hrun
      rw [hstep] at hrest
      obtain ⟨hmeets, hlast⟩ :=
        ih (fun v hv => (hwaits.others hstep hv).trans (hothers v hv)) hrest hrun
      refine ⟨⟨hwaits.patient hothers, ?_⟩, hlast⟩
      rw [hstep]
      exact hmeets

/-- The thread makes an object, has it collected, waits, and copies the pointer to it. -/
def samplePatient : List (Action sampleRoots) :=
  [.alloc 1 ⟨8, 8, firstSlot⟩, .step 1, .step 1, .collect 1 10000, .step 1, .step 1] ++
    List.replicate 18 .worker ++ [.load 1 firstSlot secondSlot, .step 1]

theorem patient_run_is_serial_sample :
    ∃ s, Machine.run step samplePatient sampleStart = some s ∧
      s.heap = serialRun .copying samplePatient sampleStart.heap := by
  have hview : (Machine.run step samplePatient sampleStart).map (fun s =>
      (decide (s.tasks = []), s.worker.isNone, (s.threads 1).stepsLeft)) =
        some (true, true, 0) := by
    decide +kernel
  have hwaits : Machine.Meets step (Waits 1) samplePatient sampleStart := by
    decide +kernel
  obtain ⟨s, hrun, hview⟩ := Option.map_eq_some_iff.mp hview
  simp only [Prod.mk.injEq, decide_eq_true_eq, Option.isNone_iff_eq_none] at hview
  obtain ⟨htasks, hworker, hleft⟩ := hview
  obtain ⟨hpatient, hothers⟩ := patient_of_waits (fun _ _ => rfl) hwaits hrun
  have hrest : s.AtRest := by
    refine ⟨⟨htasks, hworker⟩, fun u => ?_⟩
    by_cases hu : u = 1
    · rw [hu]
      exact Thread.idle_of_stepsLeft hleft
    · exact hothers u hu
  have hfitting : ∀ a ∈ samplePatient, a.Fitting := by
    intro a ha
    cases a with
    | alloc u req =>
        obtain ⟨_, rfl⟩ : u = 1 ∧ req = ⟨8, 8, firstSlot⟩ := by simpa [samplePatient] using ha
        exact ⟨⟨3, by decide, rfl⟩, le_rfl⟩
    | collect | load | clear | step | worker => trivial
  exact ⟨s, hrun, (patient_run_is_serial GenPolicy.copying_copies hfitting hpatient hrun).1 hrest⟩

end Gcpp.Concurrent
