import Gcpp.CollectLock

/-!
# One collection at a time

A thread that holds the lock has seen that the last collection has finished, and nobody can start
another one before it has queued its own. A thread that looks at `m_collect_result` outside of the
lock may be wrong about it, but looks again.
-/

namespace Gcpp.Concurrent

variable {cfg : Config} {roots : RootSlots cfg} {s t : Sys roots} {a : Action roots}

/-! ### The queue in the steps of the other parts -/

/-- The tasks, what has become of them, and the future that is kept are the same. -/
structure SameQueue (s t : Sys roots) : Prop where
  tasks : t.tasks = s.tasks
  worker : t.worker = s.worker
  collectResult : t.collectResult = s.collectResult
  finished : t.finished = s.finished

theorem SameQueue.of_attempt (s : Sys roots) (id : ThreadId) (req : Request roots) (retries : Nat) :
    SameQueue s (s.attempt id req retries) := by
  unfold Sys.attempt
  split
  · exact ⟨rfl, rfl, rfl, rfl⟩
  · split <;> exact ⟨rfl, rfl, rfl, rfl⟩
  · exact ⟨rfl, rfl, rfl, rfl⟩

theorem SameQueue.of_register (s : Sys roots) (id : ThreadId) (req : Request roots)
    (space : SpaceNum) (index : Nat) : SameQueue s (s.register id req space index) := by
  unfold Sys.register
  split <;> exact ⟨rfl, rfl, rfl, rfl⟩

theorem SameQueue.of_collect {id : ThreadId} {needed : Nat} {resume : Option (Request roots × Nat)}
    {pc : CollectPc} (h : s.collect id needed resume pc = some t) (hpc : pc ≠ .lock) :
    SameQueue s t := by
  cases pc with
  | test | loadSpace | loadNext space =>
      cases h
      exact ⟨rfl, rfl, rfl, rfl⟩
  | wait =>
      obtain ⟨task, _, rfl⟩ := Option.map_eq_some_iff.mp h
      exact ⟨rfl, rfl, rfl, rfl⟩
  | waiting task =>
      rw [Sys.collect] at h
      split at h <;> cases h
      exact ⟨rfl, rfl, rfl, rfl⟩
  | lock => exact absurd rfl hpc

theorem SameQueue.of_stepThread {id : ThreadId} (h : s.stepThread id = some t)
    (hlock : ∀ needed resume, s.threads id ≠ .collect needed resume .lock) : SameQueue s t := by
  rw [Sys.stepThread] at h
  cases hthread : s.threads id <;> simp only [hthread] at h
  case idle => cases h
  case attempt req retries =>
    obtain ⟨_, ⟨⟩⟩ := Option.ite_none_left_eq_some.mp h
    exact .of_attempt s id req retries
  case reserved req space index =>
    cases h
    exact .of_register s id req space index
  case collect needed resume pc =>
    refine .of_collect h ?_
    rintro rfl
    exact hlock needed resume hthread
  case assign | thrown =>
    cases h
    exact ⟨rfl, rfl, rfl, rfl⟩

/-- **Only the locked region of `collect` and the worker touch the queue.** -/
theorem SameQueue.of_step (h : step a s = some t) (hworker : a ≠ .worker)
    (hlock : ∀ id needed resume, a = .step id → s.threads id ≠ .collect needed resume .lock) :
    SameQueue s t := by
  cases a with
  | alloc id req =>
      rw [step] at h
      split at h <;> cases h
      unfold Sys.startAlloc
      split <;> exact ⟨rfl, rfl, rfl, rfl⟩
  | collect id needed =>
      rw [step] at h
      split at h <;> cases h
      exact ⟨rfl, rfl, rfl, rfl⟩
  | load id src dst =>
      rw [step] at h
      split at h <;> cases h
      unfold Sys.startLoad
      split <;> exact ⟨rfl, rfl, rfl, rfl⟩
  | clear slot =>
      cases h
      exact ⟨rfl, rfl, rfl, rfl⟩
  | step id => exact .of_stepThread h fun needed resume => hlock id needed resume rfl
  | worker => exact absurd rfl hworker

/-- The collections that are queued or running. -/
def Sys.load (s : Sys roots) : Nat := s.tasks.length + s.worker.toList.length

/-- The worker goes on with its task or starts the next one, or it finishes its task. -/
theorem stepWorker_load (h : s.stepWorker = some t) :
    t.collectResult = s.collectResult ∧
      ((t.load = s.load ∧ 0 < s.load ∧ t.finished = s.finished) ∨
        (t.load + 1 = s.load ∧ t.finished = s.finished + 1)) := by
  cases Sys.workerMove h with
  | start toSpace tasks hworker htasks =>
      exact ⟨rfl, Or.inl ⟨by simp [Sys.load, hworker, htasks], by simp [Sys.load, htasks], rfl⟩⟩
  | next r r' heap hworker =>
      exact ⟨rfl, Or.inl ⟨by simp [Sys.load, hworker], by simp [Sys.load, hworker], rfl⟩⟩
  | finish r heap hworker => exact ⟨rfl, Or.inr ⟨by simp [Sys.load, hworker], rfl⟩⟩
  | fail r e heap hworker => exact ⟨rfl, Or.inr ⟨by simp [Sys.load, hworker], rfl⟩⟩

theorem Sys.quiet_iff : s.Quiet ↔ s.load = 0 := by
  unfold Sys.Quiet Sys.load
  rw [Nat.add_eq_zero_iff, List.length_eq_zero_iff, List.length_eq_zero_iff]
  cases s.worker <;> simp

/-- The future is that of the last task, and no other task is left. -/
def Latest (s : Sys roots) (task : Nat) : Prop :=
  (s.load = 0 ∧ task < s.finished) ∨ (s.load = 1 ∧ task = s.finished)

/-- `m_collect_result` tells whether a collection is under way. -/
def FutureKept (s : Sys roots) : Prop :=
  (s.load = 0 ∧ s.collectResult = none) ∨ ∃ task, s.collectResult = some task ∧ Latest s task

theorem FutureKept.quiet (h : FutureKept s) (hready : s.resultReady = true) : s.load = 0 := by
  rcases h with ⟨hload, _⟩ | ⟨task, htask, ⟨hload, _⟩ | ⟨_, hlast⟩⟩
  · exact hload
  · exact hload
  · rw [Sys.resultReady, htask, hlast] at hready
    exact absurd (of_decide_eq_true hready) (lt_irrefl _)

theorem FutureKept.load_le (h : FutureKept s) : s.load ≤ 1 := by
  rcases h with ⟨hload, _⟩ | ⟨task, _, ⟨hload, _⟩ | ⟨hload, _⟩⟩ <;> omega

theorem Latest.load_le {task : Nat} (h : Latest s task) : s.load ≤ 1 := by
  rcases h with ⟨hload, _⟩ | ⟨hload, _⟩ <;> omega

namespace SameQueue

theorem load (h : SameQueue s t) : t.load = s.load := by
  rw [Sys.load, Sys.load, h.tasks, h.worker]

theorem latest (h : SameQueue s t) {task : Nat} (hlatest : Latest s task) : Latest t task := by
  rw [Latest, h.load, h.finished]
  exact hlatest

theorem futureKept (h : SameQueue s t) (hkept : FutureKept s) : FutureKept t := by
  rw [FutureKept, h.load, h.collectResult]
  exact hkept.imp_right fun ⟨task, htask, hlatest⟩ => ⟨task, htask, h.latest hlatest⟩

end SameQueue

theorem not_stepWorker (h : s.load = 0) : s.stepWorker ≠ some t := by
  intro hstep
  obtain ⟨_, ⟨_, hpos, _⟩ | ⟨hload, _⟩⟩ := stepWorker_load hstep <;> omega

theorem Latest.stepWorker {task : Nat} (h : Latest s task) (hstep : s.stepWorker = some t) :
    Latest t task := by
  rcases h with ⟨hload, _⟩ | ⟨hload, rfl⟩
  · exact absurd hstep (not_stepWorker hload)
  · obtain ⟨_, ⟨hsame, _, hfinished⟩ | ⟨hless, hfinished⟩⟩ := stepWorker_load hstep
    · exact Or.inr ⟨hsame.trans hload, hfinished.symm⟩
    · exact Or.inl ⟨by omega, by omega⟩

theorem FutureKept.stepWorker (h : FutureKept s) (hstep : s.stepWorker = some t) :
    FutureKept t := by
  rcases h with ⟨hload, _⟩ | ⟨task, htask, hlatest⟩
  · exact absurd hstep (not_stepWorker hload)
  · exact Or.inr ⟨task, (stepWorker_load hstep).1.trans htask, hlatest.stepWorker hstep⟩

namespace Locked

variable {l u : Locked roots}

/-- What the thread that holds the lock can rely on. -/
def RegionOk (l : Locked roots) : RegionPc → Prop
  | .check | .unlock => l.tcount = 0 ∧ FutureKept l.sys
  | .increment => l.tcount = 0 ∧ l.sys.load = 0
  | .limit | .flip | .resetNext _ _ | .doCollection _ => l.tcount = 1 ∧ l.sys.load = 0
  | .decrement future => l.tcount = 1 ∧ Latest l.sys future
  | .assign future => l.tcount = 0 ∧ Latest l.sys future

structure LockInv (l : Locked roots) : Prop where
  alive : l.terminated = false
  free : l.holder = none → l.tcount = 0 ∧ FutureKept l.sys
  held : ∀ id pc, l.holder = some (id, pc) → RegionOk l pc

/-- No two collections are queued or running, the steps of `async_collect` that flip the spaces and
restart the bump index find none, and `ThreadCounter` has nothing to complain about. -/
structure OneCollection (l : Locked roots) : Prop where
  atMostOne : l.sys.tasks.length + l.sys.worker.toList.length ≤ 1
  flips : ∀ id, l.holder = some (id, .flip) → l.sys.Quiet
  resets : ∀ id fromSpace toSpace, l.holder = some (id, .resetNext fromSpace toSpace) → l.sys.Quiet
  counted : l.tcount ≤ 1
  alive : l.terminated = false

namespace LockInv

theorem initial (mem : ByteMemory.Memory) : LockInv (Locked.initial roots mem) where
  alive := rfl
  free := fun _ => ⟨rfl, Or.inl ⟨rfl, rfl⟩⟩
  held := nofun

theorem enter (h : LockInv l) {id : ThreadId} (hstep : l.enter id = some u) : LockInv u := by
  rw [Locked.enter] at hstep
  split at hstep <;> cases hstep
  rename_i hfree _
  refine { alive := h.alive, free := nofun, held := fun id pc hpc => ?_ }
  cases hpc
  exact h.free hfree

theorem of_held (halive : u.terminated = false) {id : ThreadId} {pc : RegionPc}
    (hholder : u.holder = some (id, pc)) (hok : RegionOk u pc) : LockInv u where
  alive := halive
  free := fun hfree => by
    rw [hholder] at hfree
    cases hfree
  held := fun id' pc' hpc => by
    rw [hholder] at hpc
    cases hpc
    exact hok

/-- **The holder of the lock** is alone in `async_collect`. -/
theorem stepRegion (h : LockInv l) {id : ThreadId} {pc : RegionPc}
    (hholder : l.holder = some (id, pc)) : LockInv (l.stepRegion id pc) := by
  have hok := h.held id pc hholder
  have halive := h.alive
  cases pc with
  | check =>
      obtain ⟨hcount, hkept⟩ := hok
      by_cases hflips : l.sys.Flips (neededSpace l.sys id)
      · refine @of_held _ _ _ halive id .increment ?_ ⟨hcount, hkept.quiet hflips.2⟩
        rw [Locked.stepRegion, if_pos hflips]
      · refine @of_held _ _ _ halive id .unlock ?_ ⟨hcount, hkept⟩
        rw [Locked.stepRegion, if_neg hflips]
  | increment =>
      obtain ⟨hcount, hload⟩ := hok
      exact of_held halive rfl ⟨congrArg (· + 1) hcount, hload⟩
  | limit =>
      have hlimit : ¬ l.tcount > 1 := by
        rw [hok.1]
        exact lt_irrefl 1
      rw [Locked.stepRegion, if_neg hlimit]
      exact of_held halive rfl hok
  | flip => exact of_held halive rfl hok
  | resetNext fromSpace toSpace => exact of_held halive rfl hok
  | doCollection toSpace =>
      obtain ⟨hcount, hload⟩ := hok
      refine of_held halive rfl ⟨hcount, Or.inr ⟨?_, ?_⟩⟩
      · change (l.sys.tasks ++ [toSpace]).length + l.sys.worker.toList.length = 1
        rw [List.length_append, List.length_singleton, Nat.add_right_comm]
        exact congrArg (· + 1) hload
      · change l.sys.finished + l.sys.worker.toList.length + l.sys.tasks.length = l.sys.finished
        rw [Sys.load] at hload
        omega
  | decrement future =>
      obtain ⟨hcount, hlatest⟩ := hok
      exact of_held halive rfl ⟨congrArg (· - 1) hcount, hlatest⟩
  | assign future =>
      obtain ⟨hcount, hlatest⟩ := hok
      exact of_held halive rfl ⟨hcount, Or.inr ⟨future, rfl, hlatest⟩⟩
  | unlock => exact { alive := halive, free := fun _ => hok, held := nofun }

/-- A step of another part of the system: the count is kept, and so is what is known of the
queue. -/
theorem other (h : LockInv l) {sys : Sys roots}
    (hkept : FutureKept l.sys → FutureKept sys)
    (hlatest : ∀ task, Latest l.sys task → Latest sys task)
    (hquiet : l.sys.load = 0 → sys.load = 0) : LockInv { l with sys } where
  alive := h.alive
  free := fun hfree => (h.free hfree).imp_right hkept
  held := fun id pc hpc => by
    have hok := h.held id pc hpc
    cases pc with
    | check | unlock => exact hok.imp_right hkept
    | increment | limit | flip | resetNext | doCollection => exact hok.imp_right hquiet
    | decrement future | assign future => exact hok.imp_right (hlatest future)

theorem step (h : LockInv l) {a : LockedAction roots} (hstep : Locked.step a l = some u) :
    LockInv u := by
  have halive : ¬ l.terminated = true := by
    rw [h.alive]
    exact Bool.false_ne_true
  unfold Locked.step at hstep
  rw [if_neg halive] at hstep
  cases a with
  | enter id => exact h.enter hstep
  | region =>
      obtain ⟨⟨id, pc⟩, hholder, rfl⟩ := Option.map_eq_some_iff.mp hstep
      exact h.stepRegion hholder
  | other a =>
      dsimp only at hstep
      split at hstep
      · cases hstep
      · rename_i hfree
        obtain ⟨sys, hsys, rfl⟩ := Option.map_eq_some_iff.mp hstep
        by_cases hworker : a = .worker
        · subst hworker
          exact h.other (fun hkept => hkept.stepWorker hsys)
            (fun _ hlatest => hlatest.stepWorker hsys)
            fun hload => absurd hsys (not_stepWorker hload)
        · have hsame : SameQueue l.sys sys := by
            refine .of_step hsys hworker ?_
            rintro id needed resume rfl hthread
            exact hfree (by rw [blocks, hthread])
          exact h.other hsame.futureKept (fun _ => hsame.latest) hsame.load.trans

theorem oneCollection (h : LockInv l) : OneCollection l := by
  have hregion : ∀ {id pc}, l.holder = some (id, pc) → l.sys.load ≤ 1 ∧ l.tcount ≤ 1 := by
    intro id pc hpc
    have hok := h.held id pc hpc
    cases pc with
    | check | unlock => exact ⟨hok.2.load_le, hok.1.le.trans zero_le_one⟩
    | increment => exact ⟨hok.2.le.trans zero_le_one, hok.1.le.trans zero_le_one⟩
    | limit | flip | resetNext | doCollection => exact ⟨hok.2.le.trans zero_le_one, hok.1.le⟩
    | decrement => exact ⟨hok.2.load_le, hok.1.le⟩
    | assign => exact ⟨hok.2.load_le, hok.1.le.trans zero_le_one⟩
  have hbound : l.sys.load ≤ 1 ∧ l.tcount ≤ 1 := by
    cases hholder : l.holder with
    | none =>
        obtain ⟨hcount, hkept⟩ := h.free hholder
        exact ⟨hkept.load_le, hcount.le.trans zero_le_one⟩
    | some holder => exact hregion hholder
  exact
    { atMostOne := hbound.1
      flips := fun id hpc => Sys.quiet_iff.mpr (h.held id _ hpc).2
      resets := fun id fromSpace toSpace hpc => Sys.quiet_iff.mpr (h.held id _ hpc).2
      counted := hbound.2
      alive := h.alive }

end LockInv

/-- **Never two collections**: however the threads and the worker take turns. -/
theorem one_collection (mem : ByteMemory.Memory) (actions : List (LockedAction roots)) :
    Machine.Always step OneCollection actions (initial roots mem) :=
  Machine.always_of_step (fun _ _ _ h hstep => h.step hstep) (fun _ h => h.oneCollection)
    (LockInv.initial mem)

/-! ### The region as one step -/

theorem step_enter {id : ThreadId} (halive : l.terminated = false) :
    step (.enter id) l = l.enter id := by
  unfold step
  rw [halive, if_neg Bool.false_ne_true]

theorem step_region {id : ThreadId} {pc : RegionPc} (halive : l.terminated = false)
    (hholder : l.holder = some (id, pc)) : step .region l = some (l.stepRegion id pc) := by
  unfold step
  rw [halive, if_neg Bool.false_ne_true, hholder]
  rfl

theorem step_other (halive : l.terminated = false) (hfree : l.blocks a = false) :
    step (.other a) l = (Concurrent.step a l.sys).map fun sys => { l with sys } := by
  unfold step
  rw [halive, if_neg Bool.false_ne_true]
  dsimp only
  rw [hfree, if_neg Bool.false_ne_true]

theorem run_region {actions : List (LockedAction roots)} {id : ThreadId} {pc : RegionPc}
    (halive : l.terminated = false) (hholder : l.holder = some (id, pc)) :
    Machine.run step (.region :: actions) l = Machine.run step actions (l.stepRegion id pc) := by
  rw [Machine.run, step_region halive hholder, Option.bind_some]

/-- **A thread that is not disturbed** does in the region what the machine with one step for it
does. -/
theorem region_eq_collectLocked {id : ThreadId} {needed : Nat}
    {resume : Option (Request roots × Nat)} (hthread : s.threads id = .collect needed resume .lock) :
    ∃ actions, Machine.run step actions (free s) = some (free (s.collectLocked id needed resume)) := by
  have hneeded : neededSpace s id = needed := by
    rw [neededSpace, hthread]
  have henter : step (.enter id) (free s) =
      some { sys := s, holder := some (id, .check), tcount := 0, terminated := false } := by
    rw [step_enter rfl]
    simp only [Locked.enter, free, hthread]
  have hcheck : (Locked.mk s (some (id, .check)) 0 false).stepRegion id .check =
      { sys := s
        holder := some (id, if s.Flips needed then .increment else .unlock)
        tcount := 0
        terminated := false } := by
    rw [← hneeded]
    rfl
  have hresume : ∀ u : Sys roots, u.threads = s.threads →
      resume = none ∧ Locked.resume u id = .idle ∨
        ∃ req retries, resume = some (req, retries) ∧ Locked.resume u id = .attempt req retries := by
    intro u hu
    rw [Locked.resume, hu, hthread]
    cases resume with
    | none => exact Or.inl ⟨rfl, rfl⟩
    | some again => exact Or.inr ⟨again.1, again.2, rfl, rfl⟩
  by_cases hflips : s.Flips needed
  · refine ⟨.enter id :: List.replicate 9 .region, ?_⟩
    rw [if_pos hflips] at hcheck
    rw [Machine.run, henter, Option.bind_some]
    simp only [List.replicate]
    rw [run_region rfl rfl, hcheck, run_region rfl rfl, run_region rfl rfl, run_region rfl rfl,
      run_region rfl rfl, run_region rfl rfl, run_region rfl rfl, run_region rfl rfl,
      run_region rfl rfl, Machine.run]
    rcases hresume s.asyncCollect rfl with ⟨rfl, hidle⟩ | ⟨req, retries, rfl, hagain⟩
    · rw [Sys.collectLocked, if_pos hflips, ← hidle]
      rfl
    · rw [Sys.collectLocked, if_pos hflips, ← hagain]
      rfl
  · refine ⟨[.enter id, .region, .region], ?_⟩
    rw [if_neg hflips] at hcheck
    rw [Machine.run, henter, Option.bind_some, run_region rfl rfl, hcheck, run_region rfl rfl,
      Machine.run]
    rcases hresume s rfl with ⟨rfl, hidle⟩ | ⟨req, retries, rfl, hagain⟩
    · rw [Sys.collectLocked, if_neg hflips, ← hidle]
      rfl
    · rw [Sys.collectLocked, if_neg hflips, ← hagain]
      rfl

theorem blocks_free
    (hlock : ∀ id needed resume, a = .step id → s.threads id ≠ .collect needed resume .lock) :
    (free s).blocks a = false := by
  cases a with
  | step id =>
      rw [blocks]
      split
      · exact absurd ‹_› (hlock id _ _ rfl)
      · rfl
  | alloc | collect | load | clear | worker => rfl

/-- **Nothing is lost by taking the region apart**: what the machine with one step for it does can
happen here. -/
theorem run_atomic {actions : List (Action roots)}
    (hrun : Machine.run Concurrent.step actions s = some t) :
    ∃ lockedActions, Machine.run step lockedActions (free s) = some (free t) := by
  have hstep : ∀ {a : Action roots} {s t}, Concurrent.step a s = some t →
      ∃ actions, Machine.run step actions (free s) = some (free t) := by
    intro a s t hstep
    by_cases hlock : ∃ id needed resume, a = .step id ∧ s.threads id = .collect needed resume .lock
    · obtain ⟨id, needed, resume, rfl, hthread⟩ := hlock
      rw [Concurrent.step, Sys.stepThread, hthread] at hstep
      cases hstep
      exact region_eq_collectLocked hthread
    · refine ⟨[.other a], ?_⟩
      have hfree : (free s).blocks a = false :=
        blocks_free fun id needed resume ha hthread => hlock ⟨id, needed, resume, ha, hthread⟩
      rw [Machine.run, step_other rfl hfree]
      change ((Concurrent.step a s).map _).bind _ = _
      rw [hstep]
      rfl
  induction actions generalizing s with
  | nil =>
      cases hrun
      exact ⟨[], rfl⟩
  | cons a actions ih =>
      obtain ⟨u, hu, hrun⟩ := Option.bind_eq_some_iff.mp hrun
      obtain ⟨first, hfirst⟩ := hstep hu
      obtain ⟨rest, hrest⟩ := ih hrun
      refine ⟨first ++ rest, ?_⟩
      rw [Machine.run_append, hfirst]
      exact hrest

end Locked

end Gcpp.Concurrent
