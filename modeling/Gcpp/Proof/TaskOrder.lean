import Gcpp.TaskQueue

/-!
# Tasks run once each, in the order in which they were pushed

The queue holds what has been pushed and not been popped; while a task runs, its place at the front
is the one that it has been moved out of. Only who holds the lock touches the queue, and a worker
that waits has found it empty, so whoever fills it has still to notify the worker.
-/

namespace Gcpp.TaskQueue

variable {F : Type}

namespace WorkerPc

/-- The worker holds the lock. -/
def holds : WorkerPc F → Bool
  | .test | .wait | .retest | .take | .unlock _ | .pop _ | .release => true
  | _ => false

/-- The place of the task that has been moved out of the queue. -/
def front : WorkerPc F → List (Option (Packaged F))
  | .unlock _ | .call _ | .running _ | .relock _ | .pop _ => [none]
  | _ => []

/-- The task that the worker has taken and not finished. -/
def unfinished : WorkerPc F → List (Packaged F)
  | .unlock task | .call task | .running task => [task]
  | _ => []

def current : WorkerPc F → List (Packaged F)
  | .running task => [task]
  | _ => []

/-- The task that has finished and whose place is to be popped. -/
def popping : WorkerPc F → Option (Packaged F)
  | .relock task | .pop task => some task
  | _ => none

end WorkerPc

/-- The call has put its task into the queue and has still to notify the worker. -/
def PushPc.willNotify : PushPc F → Bool
  | .getFuture _ | .unlock _ _ | .notify _ _ => true
  | _ => false

/-- What is expected of the queue, in every state. -/
structure QueueSound (s : TaskState F) : Prop where
  fifo : s.started <+: s.pushed
  finished : s.finished <+: s.started
  numbered : ∀ k (task : Packaged F), s.pushed[k]? = some task → task.shared = k
  running : ∀ task, s.worker = .running task → ∃ rest, s.pushed = s.finished ++ task :: rest ∧
    s.tasks = none :: rest.map some
  pop : ∀ task, s.worker = .pop task → ∃ done rest, s.finished = done ++ [task] ∧
    s.pushed = done ++ task :: rest ∧ s.tasks = none :: rest.map some
  noWork : s.hasWork = false → s.finished = s.pushed
  future : ∀ f k, (f, k) ∈ s.futures → ∃ task, s.pushed[k]? = some task ∧ task.fn = f
  result : ∀ k f, s.results k = some f ↔ ∃ task ∈ s.finished, task.shared = k ∧ task.fn = f
  awake : s.worker = .blocked → s.tasks ≠ [] →
    ∃ t pc, s.pushers.lookup t = some pc ∧ pc.willNotify = true

/-- What is known where a call of `push_work` stands. -/
def PushOk (s : TaskState F) (t : ThreadId) : PushPc F → Prop
  | .lock _ => True
  | .emplace _ => s.inMut = some (.pusher t)
  | .getFuture f => s.inMut = some (.pusher t) ∧
      ∃ task, s.tasks.getLast? = some (some task) ∧ s.pushed[task.shared]? = some task ∧ task.fn = f
  | .unlock f future => s.inMut = some (.pusher t) ∧
      ∃ task, s.pushed[future]? = some task ∧ task.fn = f
  | .notify f future => ∃ task, s.pushed[future]? = some task ∧ task.fn = f

structure QueueInv (s : TaskState F) : Prop where
  queue : ∃ rest, s.tasks = s.worker.front ++ rest.map some ∧
    s.pushed = s.finished ++ s.worker.unfinished ++ rest
  started : s.started = s.finished ++ s.worker.current
  popping : ∀ task, s.worker.popping = some task → ∃ done, s.finished = done ++ [task]
  numbered : ∀ k (task : Packaged F), s.pushed[k]? = some task → task.shared = k
  lock : s.worker.holds = true → s.inMut = some .worker
  pushers : ∀ t pc, s.pushers.lookup t = some pc → PushOk s t pc
  waiting : s.worker = .wait → s.tasks = []
  awake : s.worker = .blocked → s.tasks ≠ [] →
    ∃ t pc, s.pushers.lookup t = some pc ∧ pc.willNotify = true
  future : ∀ f k, (f, k) ∈ s.futures → ∃ task, s.pushed[k]? = some task ∧ task.fn = f
  result : ∀ k f, s.results k = some f ↔ ∃ task ∈ s.finished, task.shared = k ∧ task.fn = f

namespace QueueInv

variable {s u : TaskState F}

theorem initial : QueueInv (TaskState.initial : TaskState F) where
  queue := ⟨[], rfl, rfl⟩
  started := rfl
  popping := nofun
  numbered := nofun
  lock := nofun
  pushers := nofun
  waiting := nofun
  awake := nofun
  future := nofun
  result := by simp [TaskState.initial]

theorem sound (h : QueueInv s) : QueueSound s := by
  obtain ⟨rest, htasks, hpushed⟩ := h.queue
  have hstarted := h.started
  refine
    { fifo := ?_
      finished := ⟨_, hstarted.symm⟩
      numbered := h.numbered
      running := ?_
      pop := ?_
      noWork := ?_
      future := h.future
      result := h.result
      awake := h.awake }
  · rw [hstarted, hpushed]
    cases s.worker <;> simp [WorkerPc.current, WorkerPc.unfinished]
  · intro task hworker
    rw [hworker] at htasks hpushed
    refine ⟨rest, ?_, htasks⟩
    rw [hpushed]
    simp [WorkerPc.unfinished]
  · intro task hworker
    obtain ⟨done, hdone⟩ := h.popping task (by rw [hworker]; rfl)
    rw [hworker] at htasks hpushed
    refine ⟨done, rest, hdone, ?_, htasks⟩
    rw [hpushed, hdone]
    simp [WorkerPc.unfinished]
  · intro hnone
    have hempty : s.tasks = [] := by simpa [TaskState.hasWork] using hnone
    rw [hempty] at htasks
    obtain ⟨hfront, hrest⟩ := List.nil_eq_append_iff.mp htasks
    have hunfinished : s.worker.unfinished = [] := by
      cases hworker : s.worker <;> simp_all [WorkerPc.front, WorkerPc.unfinished]
    rw [hpushed, hunfinished, List.map_eq_nil_iff.mp hrest]
    simp

theorem prefix_pushed (h : QueueInv s) : s.finished <+: s.pushed := by
  obtain ⟨rest, _, hpushed⟩ := h.queue
  rw [hpushed, List.append_assoc]
  exact List.prefix_append _ _

/-- Whoever calls `push_work` holds the lock where the queue or its length matters. -/
theorem pushOk_of_free {t : ThreadId} {pc : PushPc F} (h : PushOk s t pc)
    (hfree : s.inMut ≠ some (.pusher t)) (hpushed : u.pushed = s.pushed) : PushOk u t pc := by
  cases pc with
  | lock => trivial
  | emplace => exact absurd h hfree
  | getFuture => exact absurd h.1 hfree
  | unlock => exact absurd h.1 hfree
  | notify =>
      rw [PushOk, hpushed]
      exact h

theorem pushOk_congr {t : ThreadId} {pc : PushPc F} (h : PushOk s t pc)
    (hlock : u.inMut = s.inMut) (htasks : u.tasks = s.tasks) (hpushed : u.pushed = s.pushed) :
    PushOk u t pc := by
  unfold PushOk at *
  rw [hlock, htasks, hpushed]
  exact h

theorem free_of_holds (h : QueueInv s) (hholds : s.worker.holds = true) (t : ThreadId) :
    s.inMut ≠ some (.pusher t) := by
  rw [h.lock hholds]
  exact nofun

/-! ### The worker -/

/-- **A step of the worker** that leaves the queue and the results as they are. -/
theorem move (h : QueueInv s) {pc : WorkerPc F} {lock : Option Holder}
    (hfront : pc.front = s.worker.front) (hunfinished : pc.unfinished = s.worker.unfinished)
    (hcurrent : pc.current = s.worker.current)
    (hpopping : ∀ task, pc.popping = some task → s.worker.popping = some task)
    (hlock : lock = s.inMut ∨ ∀ t, s.inMut ≠ some (.pusher t))
    (hholds : pc.holds = true → lock = some .worker)
    (hwait : pc = .wait ∨ pc = .blocked → s.tasks = []) :
    QueueInv { s with inMut := lock, worker := pc } where
  queue := by
    rw [hfront, hunfinished]
    exact h.queue
  started := by
    rw [hcurrent]
    exact h.started
  popping := fun task htask => h.popping task (hpopping task htask)
  numbered := h.numbered
  lock := hholds
  pushers := fun t q hq => by
    rcases hlock with rfl | hfree
    · exact pushOk_congr (h.pushers t q hq) rfl rfl rfl
    · exact pushOk_of_free (h.pushers t q hq) (hfree t) rfl
  waiting := fun hpc => hwait (Or.inl hpc)
  awake := fun hpc hne => absurd (hwait (Or.inr hpc)) hne
  future := h.future
  result := h.result

/-- The lock is free for the worker. -/
theorem moveAcquire (h : QueueInv s) {pc : WorkerPc F}
    (hstep : (s.acquire .worker).map (fun s => { s with worker := pc }) = some u)
    (hfront : pc.front = s.worker.front) (hunfinished : pc.unfinished = s.worker.unfinished)
    (hcurrent : pc.current = s.worker.current)
    (hpopping : ∀ task, pc.popping = some task → s.worker.popping = some task)
    (hwait : pc ≠ .wait ∧ pc ≠ .blocked) : QueueInv u := by
  rw [TaskState.acquire] at hstep
  split at hstep
  · rename_i hfree
    cases hstep
    refine h.move hfront hunfinished hcurrent hpopping (Or.inr fun t => ?_) (fun _ => rfl) ?_
    · rw [hfree]
      exact nofun
    · rintro (hpc | hpc)
      · exact absurd hpc hwait.1
      · exact absurd hpc hwait.2
  · cases hstep

theorem take (h : QueueInv s) (hworker : s.worker = .take) {task : Packaged F}
    {tasks : List (Option (Packaged F))} (htasks : s.tasks = some task :: tasks) :
    QueueInv { s with tasks := none :: tasks, worker := .unlock task } := by
  obtain ⟨rest, hqueue, hpushed⟩ := h.queue
  have hstarted := h.started
  rw [hworker] at hqueue hpushed hstarted
  have hholds : s.worker.holds = true := by rw [hworker]; rfl
  obtain ⟨rest, rfl⟩ : ∃ rest', rest = task :: rest' := by
    cases rest with
    | nil =>
        rw [htasks] at hqueue
        cases hqueue
    | cons head rest' =>
        rw [htasks] at hqueue
        cases hqueue
        exact ⟨rest', rfl⟩
  rw [htasks] at hqueue
  refine
    { queue := ⟨rest, ?_, ?_⟩
      started := hstarted
      popping := nofun
      numbered := h.numbered
      lock := fun _ => h.lock hholds
      pushers := fun t q hq => pushOk_of_free (h.pushers t q hq) (h.free_of_holds hholds t) rfl
      waiting := nofun
      awake := nofun
      future := h.future
      result := h.result }
  · rw [(List.cons.inj hqueue).2]
    rfl
  · rw [hpushed]
    simp [WorkerPc.unfinished]

theorem call (h : QueueInv s) {task : Packaged F} (hworker : s.worker = .call task) :
    QueueInv { s with started := s.started ++ [task], worker := .running task } := by
  have hqueue := h.queue
  have hstarted := h.started
  rw [hworker] at hqueue hstarted
  exact
    { queue := hqueue
      started := by rw [hstarted]; simp [WorkerPc.current]
      popping := nofun
      numbered := h.numbered
      lock := nofun
      pushers := fun t q hq => pushOk_congr (h.pushers t q hq) rfl rfl rfl
      waiting := nofun
      awake := nofun
      future := h.future
      result := h.result }

/-- **A task finishes**, and its future gets its result. -/
theorem finish (h : QueueInv s) {task : Packaged F} (hworker : s.worker = .running task) :
    QueueInv { s with
      results := Function.update s.results task.shared (some task.fn)
      finished := s.finished ++ [task]
      worker := .relock task } := by
  obtain ⟨rest, hqueue, hpushed⟩ := h.queue
  have hstarted := h.started
  rw [hworker] at hqueue hpushed hstarted
  have hplace : s.pushed[s.finished.length]? = some task := by
    rw [hpushed]
    simp [WorkerPc.unfinished]
  have hshared : task.shared = s.finished.length := h.numbered _ task hplace
  have hearlier : ∀ other ∈ s.finished, other.shared ≠ task.shared := by
    intro other hother heq
    obtain ⟨k, hk, hget⟩ := List.mem_iff_getElem.mp hother
    have hpushedk : s.pushed[k]? = some other := by
      obtain ⟨later, hlater⟩ := h.prefix_pushed
      rw [← hlater, List.getElem?_append_left hk, List.getElem?_eq_getElem hk, hget]
    have := h.numbered k other hpushedk
    omega
  refine
    { queue := ⟨rest, hqueue, ?_⟩
      started := ?_
      popping := fun other hother => ⟨s.finished, ?_⟩
      numbered := h.numbered
      lock := nofun
      pushers := fun t q hq => pushOk_congr (h.pushers t q hq) rfl rfl rfl
      waiting := nofun
      awake := nofun
      future := h.future
      result := fun k f => ?_ }
  · rw [hpushed]
    simp [WorkerPc.unfinished]
  · rw [hstarted]
    simp [WorkerPc.current]
  · cases hother
    rfl
  · simp only [List.mem_append, List.mem_singleton]
    by_cases hk : k = task.shared
    · subst hk
      rw [Function.update_self]
      constructor
      · intro hf
        exact ⟨task, Or.inr rfl, rfl, Option.some.inj hf⟩
      · rintro ⟨other, hother | rfl, heq, rfl⟩
        · exact absurd heq (hearlier other hother)
        · rfl
    · rw [Function.update_of_ne hk, h.result k f]
      constructor
      · rintro ⟨other, hother, heq⟩
        exact ⟨other, Or.inl hother, heq⟩
      · rintro ⟨other, hother | rfl, heq, hfn⟩
        · exact ⟨other, hother, heq, hfn⟩
        · exact absurd heq.symm hk

/-- **The place of the finished task is popped.** -/
theorem pop (h : QueueInv s) {task : Packaged F} (hworker : s.worker = .pop task) :
    QueueInv { s with tasks := s.tasks.tail, worker := .release } := by
  obtain ⟨rest, hqueue, hpushed⟩ := h.queue
  have hstarted := h.started
  rw [hworker] at hqueue hpushed hstarted
  have hholds : s.worker.holds = true := by rw [hworker]; rfl
  exact
    { queue := ⟨rest, by rw [hqueue]; rfl, hpushed⟩
      started := hstarted
      popping := nofun
      numbered := h.numbered
      lock := fun _ => h.lock hholds
      pushers := fun t q hq => pushOk_of_free (h.pushers t q hq) (h.free_of_holds hholds t) rfl
      waiting := nofun
      awake := nofun
      future := h.future
      result := h.result }

/-- **Every step of `do_work` keeps the invariant.** -/
theorem stepWorker (h : QueueInv s) (hstep : s.stepWorker = some u) : QueueInv u := by
  have hmove := @h.move
  rw [TaskState.stepWorker] at hstep
  cases hworker : s.worker with
  | loop =>
      simp only [hworker] at hstep hmove
      split at hstep <;> cases hstep
      · exact hmove rfl rfl rfl nofun (Or.inl rfl) nofun (by rintro (h | h) <;> cases h)
      · exact hmove rfl rfl rfl nofun (Or.inl rfl) nofun (by rintro (h | h) <;> cases h)
  | lock =>
      simp only [hworker] at hstep
      exact h.moveAcquire hstep (by rw [hworker]; rfl) (by rw [hworker]; rfl) (by rw [hworker]; rfl)
        nofun ⟨nofun, nofun⟩
  | test =>
      have hlock := h.lock (by rw [hworker]; rfl)
      simp only [hworker] at hstep hmove
      cases hstep
      cases hempty : s.tasks.isEmpty
      · exact hmove rfl rfl rfl nofun (Or.inl rfl) (fun _ => hlock) (by rintro (h | h) <;> cases h)
      · exact hmove rfl rfl rfl nofun (Or.inl rfl) (fun _ => hlock)
          fun _ => List.isEmpty_iff.mp hempty
  | wait =>
      have hfree := h.free_of_holds (by rw [hworker]; rfl)
      have hempty := h.waiting hworker
      simp only [hworker] at hstep hmove
      cases hstep
      exact hmove rfl rfl rfl nofun (Or.inr hfree) nofun fun _ => hempty
  | blocked =>
      simp only [hworker] at hstep
      cases hstep
  | woken =>
      simp only [hworker] at hstep
      exact h.moveAcquire hstep (by rw [hworker]; rfl) (by rw [hworker]; rfl) (by rw [hworker]; rfl)
        nofun ⟨nofun, nofun⟩
  | retest =>
      have hlock := h.lock (by rw [hworker]; rfl)
      have hfree := h.free_of_holds (by rw [hworker]; rfl)
      simp only [hworker] at hstep hmove
      split at hstep
      · cases hstep
        exact hmove rfl rfl rfl nofun (Or.inr hfree) nofun (by rintro (h | h) <;> cases h)
      · cases hstep
        exact hmove rfl rfl rfl nofun (Or.inl rfl) (fun _ => hlock) (by rintro (h | h) <;> cases h)
  | take =>
      simp only [hworker] at hstep
      split at hstep
      · rename_i htasks
        cases hstep
        exact h.take hworker htasks
      · cases hstep
  | unlock task =>
      have hfree := h.free_of_holds (by rw [hworker]; rfl)
      simp only [hworker] at hstep hmove
      cases hstep
      exact hmove rfl rfl rfl nofun (Or.inr hfree) nofun (by rintro (h | h) <;> cases h)
  | call task =>
      simp only [hworker] at hstep
      cases hstep
      exact h.call hworker
  | running task =>
      simp only [hworker] at hstep
      cases hstep
      exact h.finish hworker
  | relock task =>
      simp only [hworker] at hstep
      exact h.moveAcquire hstep (by rw [hworker]; rfl) (by rw [hworker]; rfl) (by rw [hworker]; rfl)
        (by rw [hworker]; exact fun _ h => h) ⟨nofun, nofun⟩
  | pop task =>
      simp only [hworker] at hstep
      cases hstep
      exact h.pop hworker
  | release =>
      have hfree := h.free_of_holds (by rw [hworker]; rfl)
      simp only [hworker] at hstep hmove
      cases hstep
      exact hmove rfl rfl rfl nofun (Or.inr hfree) nofun (by rintro (h | h) <;> cases h)
  | done =>
      simp only [hworker] at hstep
      cases hstep

/-- A notification, or a wake-up without one. -/
theorem wake (h : QueueInv s) (hworker : s.worker = .blocked) :
    QueueInv { s with worker := .woken } := by
  have hmove := @h.move
  simp only [hworker] at hmove
  exact hmove rfl rfl rfl nofun (Or.inl rfl) nofun (by rintro (h | h) <;> cases h)

theorem notify (h : QueueInv s) : QueueInv s.notify := by
  rw [TaskState.notify]
  split
  · exact h.wake ‹_›
  · exact h

/-! ### The calls of `push_work` -/

theorem lookup_setPusher (s : TaskState F) (t other : ThreadId) (pc : PushPc F) :
    (s.setPusher t pc).pushers.lookup other =
      if other = t then some pc else s.pushers.lookup other := by
  rw [TaskState.setPusher]
  split
  · rename_i heq
    rw [heq, AList.lookup_insert]
  · rename_i hne
    rw [AList.lookup_insert_ne hne]

/-- **A call goes on** and has not touched the queue. -/
theorem pushMove (h : QueueInv s) {t : ThreadId} {pc : PushPc F} {lock : Option Holder}
    (hlock : lock = s.inMut ∨ ∀ other, other ≠ t → s.inMut ≠ some (.pusher other))
    (hholds : s.worker.holds = true → lock = some .worker)
    (hpc : PushOk { s with inMut := lock } t pc)
    (hnotify : ∀ old, s.pushers.lookup t = some old → old.willNotify = true →
      pc.willNotify = true) :
    QueueInv ({ s with inMut := lock }.setPusher t pc) where
  queue := h.queue
  started := h.started
  popping := h.popping
  numbered := h.numbered
  lock := hholds
  pushers := fun other q hq => by
    rw [lookup_setPusher] at hq
    split at hq
    · rename_i heq
      cases hq
      subst heq
      exact hpc
    · rename_i hne
      rcases hlock with rfl | hfree
      · exact pushOk_congr (h.pushers other q hq) rfl rfl rfl
      · exact pushOk_of_free (h.pushers other q hq) (hfree other hne) rfl
  waiting := h.waiting
  awake := fun hblocked hne => by
    obtain ⟨other, q, hq, hwill⟩ := h.awake hblocked hne
    by_cases heq : other = t
    · subst heq
      exact ⟨other, pc, by rw [lookup_setPusher, if_pos rfl], hnotify q hq hwill⟩
    · exact ⟨other, q, by rw [lookup_setPusher, if_neg heq]; exact hq, hwill⟩
  future := h.future
  result := h.result

/-- **A task is put into the queue**, under the lock. -/
theorem emplace (h : QueueInv s) {t : ThreadId} {f : F}
    (hpc : s.pushers.lookup t = some (.emplace f)) {task : Packaged F}
    (htask : task = { fn := f, shared := s.pushed.length }) :
    QueueInv ({ s with
      tasks := s.tasks ++ [some task]
      pushed := s.pushed ++ [task] }.setPusher t (.getFuture f)) := by
  have hlock : s.inMut = some (.pusher t) := h.pushers t _ hpc
  have hidle : s.worker.holds ≠ true := fun hholds => by
    have := h.lock hholds
    rw [hlock] at this
    cases this
  have hkept : ∀ {k : Nat} {other : Packaged F}, s.pushed[k]? = some other →
      (s.pushed ++ [task])[k]? = some other := by
    intro k other hk
    rw [List.getElem?_append_left (List.getElem?_eq_some_iff.mp hk).1]
    exact hk
  have hlast : (s.pushed ++ [task])[task.shared]? = some task := by
    rw [htask]
    simp
  obtain ⟨rest, hqueue, hpushed⟩ := h.queue
  refine
    { queue := ⟨rest ++ [task], ?_, ?_⟩
      started := h.started
      popping := h.popping
      numbered := ?_
      lock := h.lock
      pushers := ?_
      waiting := fun hwait => absurd (by rw [show s.worker = .wait from hwait]; rfl) hidle
      awake := fun _ _ => ⟨t, _, by rw [lookup_setPusher, if_pos rfl], rfl⟩
      future := fun g k hg => ?_
      result := h.result }
  · change s.tasks ++ [some task] = _
    rw [hqueue]
    simp [TaskState.setPusher]
  · change s.pushed ++ [task] = _
    rw [hpushed]
    simp [TaskState.setPusher]
  · intro k other hk
    change (s.pushed ++ [task])[k]? = some other at hk
    by_cases hlt : k < s.pushed.length
    · rw [List.getElem?_append_left hlt] at hk
      exact h.numbered k other hk
    · rw [List.getElem?_append_right (by omega)] at hk
      obtain ⟨hzero, heq⟩ := List.getElem?_eq_some_iff.mp hk
      simp only [List.length_singleton] at hzero
      simp only [List.getElem_singleton] at heq
      rw [← heq, htask]
      dsimp only
      omega
  · intro other q hq
    rw [lookup_setPusher] at hq
    split at hq
    · rename_i heq
      cases hq
      subst heq
      refine ⟨hlock, task, ?_, hlast, by rw [htask]⟩
      change (s.tasks ++ [some task]).getLast? = _
      rw [List.getLast?_concat]
    · rename_i hne
      have hold := h.pushers other q hq
      have hothers : s.inMut ≠ some (.pusher other) := by
        rw [hlock]
        rintro ⟨⟩
        exact hne rfl
      cases q with
      | lock => trivial
      | emplace => exact absurd hold hothers
      | getFuture => exact absurd hold.1 hothers
      | unlock => exact absurd hold.1 hothers
      | notify g future =>
          obtain ⟨task', hget, hfn⟩ := hold
          exact ⟨task', hkept hget, hfn⟩
  · obtain ⟨task', hget, hfn⟩ := h.future g k hg
    exact ⟨task', hkept hget, hfn⟩

theorem notify_worker_ne (s : TaskState F) : s.notify.worker ≠ .blocked := by
  rw [TaskState.notify]
  split
  · exact nofun
  · assumption

/-- **A call returns** when it has notified the worker. -/
theorem pushReturn (h : QueueInv s) {t : ThreadId} {f : F} {future : Nat}
    (hpc : s.pushers.lookup t = some (.notify f future)) :
    QueueInv { s.notify with
      pushers := s.pushers.erase t
      futures := s.futures ++ [(f, future)] } := by
  have hnotified := h.notify
  have hfields : s.notify.pushers = s.pushers ∧ s.notify.futures = s.futures ∧
      s.notify.pushed = s.pushed := by
    rw [TaskState.notify]
    split <;> exact ⟨rfl, rfl, rfl⟩
  obtain ⟨hpushers, hfutures, hpushed⟩ := hfields
  exact
    { queue := hnotified.queue
      started := hnotified.started
      popping := hnotified.popping
      numbered := hnotified.numbered
      lock := hnotified.lock
      pushers := fun other q hq => by
        change AList.lookup other (s.pushers.erase t) = some q at hq
        rw [AssocMap.lookup_erase_eq] at hq
        split at hq
        · cases hq
        · exact pushOk_congr (hnotified.pushers other q (by rw [hpushers]; exact hq)) rfl rfl rfl
      waiting := hnotified.waiting
      awake := fun hblocked => absurd hblocked (notify_worker_ne s)
      future := fun g k hg => by
        change (g, k) ∈ s.futures ++ [(f, future)] at hg
        rcases List.mem_append.mp hg with hg | hg
        · exact hnotified.future g k (by rw [hfutures]; exact hg)
        · cases List.mem_singleton.mp hg
          change ∃ task, s.notify.pushed[future]? = some task ∧ task.fn = f
          rw [hpushed]
          exact h.pushers t _ hpc
      result := hnotified.result }

/-- **Every step of `push_work` keeps the invariant.** -/
theorem stepPusher (h : QueueInv s) {t : ThreadId} {pc : PushPc F}
    (hpc : s.pushers.lookup t = some pc) (hstep : s.stepPusher t pc = some u) : QueueInv u := by
  have hnotify : ∀ {pc' : PushPc F}, (pc.willNotify = true → pc'.willNotify = true) →
      ∀ old, s.pushers.lookup t = some old → old.willNotify = true → pc'.willNotify = true := by
    intro pc' himp old hold
    rw [hpc] at hold
    cases hold
    exact himp
  have hok := h.pushers t pc hpc
  cases pc with
  | lock f =>
      rw [TaskState.stepPusher, TaskState.acquire] at hstep
      split at hstep
      · rename_i hfree
        cases hstep
        refine h.pushMove (Or.inr fun other _ => ?_) (fun hholds => ?_) rfl (hnotify nofun)
        · rw [hfree]
          exact nofun
        · have := h.lock hholds
          rw [hfree] at this
          cases this
      · cases hstep
  | emplace f =>
      cases hstep
      exact h.emplace hpc rfl
  | getFuture f =>
      obtain ⟨hlock, task, hlast, hget, hfn⟩ := hok
      rw [TaskState.stepPusher, hlast] at hstep
      cases hstep
      exact h.pushMove (Or.inl rfl) h.lock ⟨hlock, task, hget, hfn⟩ (hnotify fun _ => rfl)
  | unlock f future =>
      obtain ⟨hlock, hfuture⟩ := hok
      cases hstep
      refine h.pushMove (Or.inr fun other hne => ?_) (fun hholds => ?_) hfuture
        (hnotify fun _ => rfl)
      · rw [hlock]
        rintro ⟨⟩
        exact hne rfl
      · have := h.lock hholds
        rw [hlock] at this
        cases this
  | notify f future =>
      cases hstep
      exact h.pushReturn hpc

/-! ### Every run -/

theorem withDtor (h : QueueInv s) (stop : Bool) (dtor : DtorPc) :
    QueueInv { s with stopRequested := stop, dtor } where
  queue := h.queue
  started := h.started
  popping := h.popping
  numbered := h.numbered
  lock := h.lock
  pushers := fun t q hq => pushOk_congr (h.pushers t q hq) rfl rfl rfl
  waiting := h.waiting
  awake := h.awake
  future := h.future
  result := h.result

/-- **Every step keeps the invariant.** -/
theorem step (h : QueueInv s) {a : TaskAction F} (hstep : TaskQueue.step a s = some u) :
    QueueInv u := by
  cases a with
  | pushWork t f =>
      rw [TaskQueue.step] at hstep
      split at hstep
      · rename_i hnone
        cases hstep
        refine h.pushMove (Or.inl rfl) h.lock trivial ?_
        intro old hold
        rw [hnone] at hold
        cases hold
      · cases hstep
  | push t =>
      obtain ⟨pc, hpc, hstep⟩ := Option.bind_eq_some_iff.mp hstep
      exact h.stepPusher hpc hstep
  | worker => exact h.stepWorker hstep
  | spurious =>
      rw [TaskQueue.step] at hstep
      split at hstep
      · cases hstep
        exact h.wake ‹_›
      · cases hstep
  | destroy =>
      rw [TaskQueue.step, TaskState.stepDtor] at hstep
      split at hstep
      · split at hstep
        · cases hstep
          exact h.withDtor _ _
        · cases hstep
      · cases hstep
        exact h.withDtor _ _
      · cases hstep
        exact h.notify.withDtor _ _
      · cases hstep

end QueueInv

/-- **The tasks run once each, in the order in which they were pushed**, whatever the threads that
push them and the worker do. -/
theorem tasks_in_order (actions : List (TaskAction F)) :
    Machine.Always step QueueSound actions TaskState.initial :=
  Machine.always_of_step (fun _ _ _ h hstep => QueueInv.step h hstep) (fun _ h => h.sound)
    QueueInv.initial

end Gcpp.TaskQueue
