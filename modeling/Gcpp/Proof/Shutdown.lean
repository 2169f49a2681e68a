import Gcpp.Proof.TaskOrder

/-!
# The destructor of `Task`

`~Task` sets the stop flag and notifies without holding the lock. A notification that falls between
the worker's test of the flag and its wait reaches nobody: the worker then waits for good, and the
join for the worker.
-/

namespace Gcpp.TaskQueue

variable {F : Type} {s u : TaskState F}

/-- The join waits for a worker that is blocked, with no notification to come. -/
structure Deadlocked (s : TaskState F) : Prop where
  stop : s.stopRequested = true
  notified : s.dtor = .joining
  blocked : s.worker = .blocked
  noPushes : s.pushers.entries = []

/-- The worker has tested the stop flag for the last time, and is about to wait. -/
def AboutToWait (s : TaskState F) : Prop :=
  s.worker = .wait ∨ ((s.worker = .lock ∨ s.worker = .test) ∧ s.tasks = [])

/-- `notify_all` is not issued while the worker is about to wait. -/
def NotifiesInTime (s : TaskState F) : TaskAction F → Prop
  | .destroy => s.dtor = .notifyAll → ¬ AboutToWait s
  | _ => True

theorem not_aboutToWait (hwait : s.worker ≠ .wait) (hlock : s.worker ≠ .lock)
    (htest : s.worker ≠ .test) : ¬ AboutToWait s := by
  rintro (h | ⟨h | h, _⟩)
  · exact hwait h
  · exact hlock h
  · exact htest h

theorem awake_of_woken (h : s.worker = .woken) : s.worker ≠ .blocked ∧ ¬ AboutToWait s := by
  rw [h]
  refine ⟨?_, not_aboutToWait ?_ ?_ ?_⟩
  · intro hpc
    cases hpc
  all_goals
    rw [h]
    intro hpc
    cases hpc

theorem acquire_eq_some {holder : Holder} (h : s.acquire holder = some u) :
    s.inMut = none ∧ u = { s with inMut := some holder } := by
  rw [TaskState.acquire] at h
  split at h
  · exact ⟨‹_›, (Option.some.inj h).symm⟩
  · cases h

/-- A step of the worker leaves the flag, the calls and the destructor alone. -/
theorem stepWorker_keeps (h : s.stepWorker = some u) :
    u.dtor = s.dtor ∧ u.pushers = s.pushers ∧ u.stopRequested = s.stopRequested := by
  rw [TaskState.stepWorker] at h
  cases hworker : s.worker <;> simp only [hworker] at h
  case lock | woken | relock =>
    obtain ⟨v, hv, rfl⟩ := Option.map_eq_some_iff.mp h
    obtain ⟨_, rfl⟩ := acquire_eq_some hv
    exact ⟨rfl, rfl, rfl⟩
  case retest | take =>
    split at h <;> cases h <;> exact ⟨rfl, rfl, rfl⟩
  case blocked | done => cases h
  all_goals
    cases h
    exact ⟨rfl, rfl, rfl⟩

/-- Once the flag is set, a worker that is not about to wait will not wait again. -/
theorem stepWorker_awake (h : s.stepWorker = some u) (hstop : s.stopRequested = true)
    (hawake : ¬ AboutToWait s) : u.worker ≠ .blocked ∧ ¬ AboutToWait u := by
  rw [TaskState.stepWorker] at h
  cases hworker : s.worker <;> simp only [hworker] at h
  case loop =>
    rw [if_pos hstop] at h
    cases h
    refine ⟨?_, not_aboutToWait ?_ ?_ ?_⟩ <;> intro hpc <;> cases hpc
  case lock =>
    have hne : s.tasks ≠ [] := fun hempty => hawake (Or.inr ⟨Or.inl hworker, hempty⟩)
    obtain ⟨v, hv, rfl⟩ := Option.map_eq_some_iff.mp h
    obtain ⟨_, rfl⟩ := acquire_eq_some hv
    constructor
    · intro hpc
      cases hpc
    · rintro (hwait | ⟨_, hempty⟩)
      · cases hwait
      · exact hne hempty
  case test =>
    have hne : s.tasks ≠ [] := fun hempty => hawake (Or.inr ⟨Or.inr hworker, hempty⟩)
    rw [if_neg (by simpa using hne)] at h
    cases h
    refine ⟨?_, not_aboutToWait ?_ ?_ ?_⟩ <;> intro hpc <;> cases hpc
  case wait => exact absurd (Or.inl hworker) hawake
  case woken | relock =>
    obtain ⟨v, hv, rfl⟩ := Option.map_eq_some_iff.mp h
    obtain ⟨_, rfl⟩ := acquire_eq_some hv
    refine ⟨?_, not_aboutToWait ?_ ?_ ?_⟩ <;> intro hpc <;> cases hpc
  case retest =>
    rw [if_pos hstop] at h
    cases h
    refine ⟨?_, not_aboutToWait ?_ ?_ ?_⟩ <;> intro hpc <;> cases hpc
  case take =>
    split at h <;> cases h
    refine ⟨?_, not_aboutToWait ?_ ?_ ?_⟩ <;> intro hpc <;> cases hpc
  case blocked | done => cases h
  all_goals
    cases h
    refine ⟨?_, not_aboutToWait ?_ ?_ ?_⟩ <;> intro hpc <;> cases hpc

/-! ### What every run keeps -/

theorem notify_dtor (s : TaskState F) : s.notify.dtor = s.dtor := by
  rw [TaskState.notify]
  split <;> rfl

theorem notify_pushers (s : TaskState F) : s.notify.pushers = s.pushers := by
  rw [TaskState.notify]
  split <;> rfl

/-- The call holds the lock. -/
def PushPc.holds : PushPc F → Bool
  | .emplace _ | .getFuture _ | .unlock _ _ => true
  | _ => false

/-- Whoever has the lock is at a place where it holds it. -/
structure LockInv (s : TaskState F) : Prop where
  worker : s.inMut = some .worker → s.worker.holds = true
  pusher : ∀ t, s.inMut = some (.pusher t) → ∃ pc, s.pushers.lookup t = some pc ∧ pc.holds = true

namespace LockInv

theorem initial : LockInv (TaskState.initial : TaskState F) where
  worker h := by cases h
  pusher _ h := by cases h

/-- The lock is free when nobody holds it. -/
theorem free (h : LockInv s) (hworker : s.worker.holds = false) (hquiet : s.pushers.entries = []) :
    s.inMut = none := by
  cases hlock : s.inMut with
  | none => rfl
  | some holder =>
      cases holder with
      | worker =>
          rw [h.worker hlock] at hworker
          cases hworker
      | pusher t =>
          obtain ⟨pc, hpc, -⟩ := h.pusher t hlock
          exact absurd hquiet (AssocMap.entries_ne_nil_of_lookup hpc)

/-- The worker goes on with the lock as it is: it has it before and after, or neither. -/
theorem of_worker (h : LockInv s) (hlock : u.inMut = s.inMut) (hpushers : u.pushers = s.pushers)
    (hholds : s.worker.holds = true → u.worker.holds = true) : LockInv u where
  worker hheld := hholds (h.worker (hlock.symm.trans hheld))
  pusher t hheld := by
    rw [hpushers]
    exact h.pusher t (hlock.symm.trans hheld)

theorem of_acquire (hlock : u.inMut = some .worker) (hholds : u.worker.holds = true) :
    LockInv u where
  worker _ := hholds
  pusher t hheld := by
    rw [hlock] at hheld
    cases hheld

theorem of_release (hlock : u.inMut = none) : LockInv u where
  worker hheld := by
    rw [hlock] at hheld
    cases hheld
  pusher t hheld := by
    rw [hlock] at hheld
    cases hheld

theorem stepWorker (h : LockInv s) (hstep : s.stepWorker = some u) : LockInv u := by
  rw [TaskState.stepWorker] at hstep
  cases hworker : s.worker <;> simp only [hworker] at hstep
  case lock | woken | relock =>
    obtain ⟨v, hv, rfl⟩ := Option.map_eq_some_iff.mp hstep
    obtain ⟨_, rfl⟩ := acquire_eq_some hv
    exact of_acquire rfl rfl
  case wait | unlock | release =>
    cases hstep
    exact of_release rfl
  case retest =>
    split at hstep <;> cases hstep
    · exact of_release rfl
    · exact h.of_worker rfl rfl fun _ => rfl
  case take =>
    split at hstep <;> cases hstep
    exact h.of_worker rfl rfl fun _ => rfl
  case test =>
    cases hstep
    refine h.of_worker rfl rfl fun _ => ?_
    dsimp only
    split <;> rfl
  case pop =>
    cases hstep
    exact h.of_worker rfl rfl fun _ => rfl
  case blocked | done => cases hstep
  all_goals
    cases hstep
    refine h.of_worker rfl rfl fun hholds => ?_
    rw [hworker] at hholds
    cases hholds

theorem notify (h : LockInv s) : LockInv s.notify := by
  rw [TaskState.notify]
  split
  · rename_i hworker
    refine h.of_worker rfl rfl fun hholds => ?_
    rw [hworker] at hholds
    cases hholds
  · exact h

/-- A call goes on with the lock. -/
theorem of_move (h : LockInv s) {t : ThreadId} {pc : PushPc F} (hlock : u.inMut = s.inMut)
    (hworker : u.worker = s.worker)
    (hothers : ∀ other, other ≠ t → u.pushers.lookup other = s.pushers.lookup other)
    (hpc : u.pushers.lookup t = some pc) (hholds : pc.holds = true) : LockInv u where
  worker hheld := by
    rw [hworker]
    exact h.worker (hlock.symm.trans hheld)
  pusher other hheld := by
    by_cases hother : other = t
    · rw [hother]
      exact ⟨pc, hpc, hholds⟩
    · rw [hothers other hother]
      exact h.pusher other (hlock.symm.trans hheld)

/-- A call at a place without the lock comes or goes. -/
theorem of_idle (h : LockInv s) {t : ThreadId} (hlock : u.inMut = s.inMut)
    (hholds : s.worker.holds = true → u.worker.holds = true)
    (hothers : ∀ other, other ≠ t → u.pushers.lookup other = s.pushers.lookup other)
    (hidle : ∀ pc, s.pushers.lookup t = some pc → pc.holds = false) : LockInv u where
  worker hheld := hholds (h.worker (hlock.symm.trans hheld))
  pusher other hheld := by
    obtain ⟨pc, hpc, hpcHolds⟩ := h.pusher other (hlock.symm.trans hheld)
    have hother : other ≠ t := by
      rintro rfl
      rw [hidle pc hpc] at hpcHolds
      cases hpcHolds
    exact ⟨pc, (hothers other hother).trans hpc, hpcHolds⟩

theorem stepPusher (h : LockInv s) {t : ThreadId} {pc : PushPc F}
    (hpc : s.pushers.lookup t = some pc) (hstep : s.stepPusher t pc = some u) : LockInv u := by
  cases pc with
  | lock f =>
      obtain ⟨v, hv, rfl⟩ := Option.map_eq_some_iff.mp hstep
      obtain ⟨_, rfl⟩ := acquire_eq_some hv
      refine ⟨fun hheld => (by cases hheld), fun other hheld => ?_⟩
      cases hheld
      exact ⟨.emplace f, AList.lookup_insert _, rfl⟩
  | emplace f =>
      cases hstep
      exact h.of_move rfl rfl (fun other hother => AList.lookup_insert_ne hother)
        (AList.lookup_insert _) rfl
  | getFuture f =>
      rw [TaskState.stepPusher] at hstep
      split at hstep <;> cases hstep
      exact h.of_move rfl rfl (fun other hother => AList.lookup_insert_ne hother)
        (AList.lookup_insert _) rfl
  | unlock f future =>
      cases hstep
      exact of_release rfl
  | notify f future =>
      cases hstep
      refine h.notify.of_idle (t := t) rfl id (fun other hother => ?_) fun pc' hpc' => ?_
      · rw [notify_pushers]
        exact AList.lookup_erase_ne hother
      · rw [notify_pushers, hpc] at hpc'
        cases hpc'
        rfl

theorem step (h : LockInv s) {a : TaskAction F} (hstep : TaskQueue.step a s = some u) :
    LockInv u := by
  cases a with
  | pushWork t f =>
      rw [TaskQueue.step] at hstep
      split at hstep
      · rename_i _ hnone
        cases hstep
        refine h.of_idle rfl id (fun other hother => AList.lookup_insert_ne hother) fun pc hpc => ?_
        rw [hnone] at hpc
        cases hpc
      · cases hstep
  | push t =>
      obtain ⟨pc, hpc, hstep⟩ := Option.bind_eq_some_iff.mp hstep
      exact h.stepPusher hpc hstep
  | worker => exact h.stepWorker hstep
  | spurious =>
      rw [TaskQueue.step] at hstep
      split at hstep
      · rename_i hworker
        cases hstep
        refine h.of_worker rfl rfl fun hholds => ?_
        rw [hworker] at hholds
        cases hholds
      · cases hstep
  | destroy =>
      have hstep : s.stepDtor = some u := hstep
      rw [TaskState.stepDtor] at hstep
      cases hdtor : s.dtor <;> simp only [hdtor] at hstep
      case alive =>
        split at hstep <;> cases hstep
        exact h.of_worker rfl rfl id
      case requestStop =>
        cases hstep
        exact h.of_worker rfl rfl id
      case notifyAll =>
        cases hstep
        exact h.notify.of_worker rfl rfl id
      case joining => cases hstep

end LockInv

theorem stepPusher_dtor {t : ThreadId} {pc : PushPc F} (h : s.stepPusher t pc = some u) :
    u.dtor = s.dtor := by
  cases pc with
  | lock f =>
      obtain ⟨v, hv, rfl⟩ := Option.map_eq_some_iff.mp h
      obtain ⟨_, rfl⟩ := acquire_eq_some hv
      rfl
  | emplace f =>
      cases h
      rfl
  | getFuture f =>
      rw [TaskState.stepPusher] at h
      split at h <;> cases h
      rfl
  | unlock f future =>
      cases h
      rfl
  | notify f future =>
      cases h
      exact notify_dtor s

/-- The destructor comes after the calls, and sets the flag before it notifies. -/
structure Closing (s : TaskState F) : Prop where
  quiet : s.dtor ≠ .alive → s.pushers.entries = []
  stopped : s.dtor = .notifyAll ∨ s.dtor = .joining → s.stopRequested = true

namespace Closing

theorem initial : Closing (TaskState.initial : TaskState F) where
  quiet := fun h => absurd rfl h
  stopped := nofun

theorem of_alive (halive : s.dtor = .alive) : Closing s where
  quiet := fun h => absurd halive h
  stopped := by rw [halive]; exact nofun

theorem of_same (h : Closing s) (hdtor : u.dtor = s.dtor) (hpushers : u.pushers = s.pushers)
    (hstop : u.stopRequested = s.stopRequested) : Closing u where
  quiet := by
    rw [hdtor, hpushers]
    exact h.quiet
  stopped := by
    rw [hdtor, hstop]
    exact h.stopped

/-- A call of `push_work` that is under way has been made before the destructor. -/
theorem alive_of_push (h : Closing s) {t : ThreadId} {pc : PushPc F}
    (hpc : s.pushers.lookup t = some pc) : s.dtor = .alive := by
  by_contra hdtor
  exact AssocMap.entries_ne_nil_of_lookup hpc (h.quiet hdtor)

theorem stepDtor (h : Closing s) (hstep : s.stepDtor = some u) : Closing u := by
  rw [TaskState.stepDtor] at hstep
  cases hdtor : s.dtor <;> simp only [hdtor] at hstep
  case alive =>
    split at hstep
    · rename_i hempty
      cases hstep
      exact
        { quiet := fun _ => by simpa using hempty
          stopped := fun hpc => by rcases hpc with hpc | hpc <;> cases hpc }
    · cases hstep
  case requestStop =>
    have hquiet := h.quiet fun halive => by
      rw [hdtor] at halive
      cases halive
    cases hstep
    exact { quiet := fun _ => hquiet, stopped := fun _ => rfl }
  case notifyAll =>
    have hquiet := h.quiet fun halive => by
      rw [hdtor] at halive
      cases halive
    have hstop := h.stopped (Or.inl hdtor)
    cases hstep
    rw [TaskState.notify]
    split <;> exact { quiet := fun _ => hquiet, stopped := fun _ => hstop }
  case joining => cases hstep

theorem step (h : Closing s) {a : TaskAction F} (hstep : TaskQueue.step a s = some u) :
    Closing u := by
  cases a with
  | pushWork t f =>
      rw [TaskQueue.step] at hstep
      split at hstep
      · rename_i halive _
        cases hstep
        exact of_alive halive
      · cases hstep
  | push t =>
      obtain ⟨pc, hpc, hstep⟩ := Option.bind_eq_some_iff.mp hstep
      exact of_alive ((stepPusher_dtor hstep).trans (h.alive_of_push hpc))
  | worker =>
      obtain ⟨hdtor, hpushers, hstop⟩ := stepWorker_keeps hstep
      exact h.of_same hdtor hpushers hstop
  | spurious =>
      rw [TaskQueue.step] at hstep
      split at hstep <;> cases hstep
      exact h.of_same rfl rfl rfl
  | destroy => exact h.stepDtor hstep

end Closing

/-! ### The join -/

structure JoinInv (s : TaskState F) : Prop where
  closing : Closing s
  awake : s.dtor = .joining → s.worker ≠ .blocked ∧ ¬ AboutToWait s

namespace JoinInv

theorem initial : JoinInv (TaskState.initial : TaskState F) where
  closing := .initial
  awake := nofun

/-- The destructor notifies a worker that waits, and one that is not about to wait. -/
theorem awake_of_stepDtor (htime : s.dtor = .notifyAll → ¬ AboutToWait s)
    (hstep : s.stepDtor = some u) (hjoining : u.dtor = .joining) :
    u.worker ≠ .blocked ∧ ¬ AboutToWait u := by
  rw [TaskState.stepDtor] at hstep
  cases hdtor : s.dtor <;> simp only [hdtor] at hstep
  case alive =>
    split at hstep <;> cases hstep
    cases hjoining
  case requestStop =>
    cases hstep
    cases hjoining
  case notifyAll =>
    have hawake := htime hdtor
    cases hstep
    rw [TaskState.notify]
    split
    · exact awake_of_woken rfl
    · exact ⟨‹_›, hawake⟩
  case joining => cases hstep

/-- **Every step keeps the worker from waiting for good**, if the destructor notifies in time. -/
theorem step (h : JoinInv s) {a : TaskAction F} (htime : NotifiesInTime s a)
    (hstep : TaskQueue.step a s = some u) : JoinInv u where
  closing := h.closing.step hstep
  awake hjoining := by
    cases a with
    | pushWork t f =>
        rw [TaskQueue.step] at hstep
        split at hstep
        · rename_i halive _
          cases hstep
          cases halive.symm.trans hjoining
        · cases hstep
    | push t =>
        obtain ⟨pc, hpc, hstep⟩ := Option.bind_eq_some_iff.mp hstep
        rw [stepPusher_dtor hstep, h.closing.alive_of_push hpc] at hjoining
        cases hjoining
    | worker =>
        obtain ⟨hdtor, -, -⟩ := stepWorker_keeps hstep
        have hbefore : s.dtor = .joining := hdtor.symm.trans hjoining
        exact stepWorker_awake hstep (h.closing.stopped (Or.inr hbefore)) (h.awake hbefore).2
    | spurious =>
        rw [TaskQueue.step] at hstep
        split at hstep <;> cases hstep
        exact awake_of_woken rfl
    | destroy => exact awake_of_stepDtor htime hstep hjoining

end JoinInv

/-- **The join does not wait for good** in a run in which the notification comes in time. -/
theorem join_ends {actions : List (TaskAction F)}
    (htime : Machine.Meets step NotifiesInTime actions TaskState.initial)
    (hrun : Machine.run step actions TaskState.initial = some s) : ¬ Deadlocked s := by
  have hinv : JoinInv s := Machine.run_induction (fun _ _ _ h htime hstep => h.step htime hstep)
    JoinInv.initial htime hrun
  intro hdead
  exact (hinv.awake hdead.notified).1 hdead.blocked

/-- The destructor is called while the worker waits. -/
theorem join_ends_of_waiting : ∃ s : TaskState Nat,
    Machine.run step [.worker, .worker, .worker, .worker, .destroy, .destroy, .destroy]
      TaskState.initial = some s ∧ ¬ Deadlocked s := by
  have htime : Machine.Meets step NotifiesInTime
      [.worker, .worker, .worker, .worker, .destroy, .destroy, .destroy]
      (TaskState.initial : TaskState Nat) :=
    ⟨trivial, trivial, trivial, trivial, nofun, nofun,
      fun _ => not_aboutToWait nofun nofun nofun, trivial⟩
  exact ⟨_, rfl, join_ends htime rfl⟩

/-- **A missed notification is the end of it**: in every run that comes to it, if the worker does not
wake up by itself, it goes on to wait, and the join for it. -/
theorem deadlock_of_late {actions : List (TaskAction F)}
    (hrun : Machine.run step actions TaskState.initial = some s) (hdtor : s.dtor = .notifyAll)
    (hlate : AboutToWait s) :
    ∃ n t, Machine.run step (actions ++ .destroy :: List.replicate n .worker) TaskState.initial =
      some t ∧ Deadlocked t := by
  have hclosing : Closing s :=
    Machine.run_invariant (fun _ _ _ h hstep => h.step hstep) .initial hrun
  have hlock : LockInv s := Machine.run_invariant (fun _ _ _ h hstep => h.step hstep) .initial hrun
  have hquiet : s.pushers.entries = [] := hclosing.quiet fun halive => by
    rw [hdtor] at halive
    cases halive
  have hdead : Deadlocked { s with inMut := none, worker := .blocked, dtor := .joining } :=
    { stop := hclosing.stopped (Or.inl hdtor)
      notified := rfl
      blocked := rfl
      noPushes := hquiet }
  rcases hlate with hwait | ⟨hpc | htest, hempty⟩
  · refine ⟨1, _, ?_, hdead⟩
    rw [Machine.run_append, hrun]
    simp only [List.replicate, Machine.run, step, TaskState.stepDtor, hdtor, TaskState.notify,
      hwait, TaskState.stepWorker, Option.bind_some]
  · have hfree : s.inMut = none := hlock.free (by rw [hpc]; rfl) hquiet
    refine ⟨3, _, ?_, hdead⟩
    rw [Machine.run_append, hrun]
    simp only [List.replicate, Machine.run, step, TaskState.stepDtor, hdtor, TaskState.notify,
      hpc, TaskState.stepWorker, TaskState.acquire, hfree, Option.map_some, hempty,
      List.isEmpty_nil, if_true, Option.bind_some]
  · refine ⟨2, _, ?_, hdead⟩
    rw [Machine.run_append, hrun]
    simp only [List.replicate, Machine.run, step, TaskState.stepDtor, hdtor, TaskState.notify,
      htest, TaskState.stepWorker, hempty, List.isEmpty_nil, if_true, Option.bind_some]

/-- The worker finds the flag unset; the destructor sets it and notifies; the worker waits. -/
def lateStop : List (TaskAction Nat) :=
  [.worker, .destroy, .destroy, .destroy, .worker, .worker, .worker]

/-- **The destructor can wait for good.** -/
theorem lateStop_deadlocks :
    ¬ ∀ (actions : List (TaskAction Nat)) (s : TaskState Nat),
      Machine.run step actions TaskState.initial = some s → ¬ Deadlocked s := by
  intro h
  exact h lateStop _ rfl { stop := rfl, notified := rfl, blocked := rfl, noPushes := rfl }

end Gcpp.TaskQueue
