import Gcpp.Proof.CurrentSpace

/-!
# Asking for the free space

`free_space` makes two loads, of the number of the current space and then of its bump index, and
`collect` calls it without the lock. Between the loads the spaces may be flipped, as often as one
likes. What it returns is still the free space at a moment of the call.
-/

namespace Gcpp

variable {cfg : Config}

namespace Concurrent

open ByteMemory

variable {roots : RootSlots cfg} {s t : Sys roots} {a : Action roots} {id : ThreadId}
  {needed : Nat} {resume : Option (Request roots × Nat)} {space : SpaceNum}

/-- A thread is between the two loads because it has made the first one, just now or before. -/
theorem loadNext_of_step (h : step a s = some t)
    (hread : t.threads id = .collect needed resume (.loadNext space)) :
    (a = .step id ∧ t.heap.spaceNum = space) ∨
      (a ≠ .step id ∧ s.threads id = .collect needed resume (.loadNext space)) := by
  by_cases hstep : a = .step id
  · subst hstep
    refine Or.inl ⟨rfl, ?_⟩
    cases threadMove h with
    | attempt req retries =>
        obtain ⟨heap, pc, heq, hpc⟩ := attempt_eq s id req retries
        rw [heq, threads_setThread_self] at hread
        subst hread
        rcases hpc with ⟨_, _, hpc⟩ | ⟨_, hpc⟩ | ⟨_, hpc⟩ <;> cases hpc
    | register req space index =>
        obtain ⟨heap, pc, heq, hpc⟩ := register_eq s id req space index
        rw [heq, threads_setThread_self] at hread
        subst hread
        rcases hpc with hpc | ⟨_, hpc⟩ <;> cases hpc
    | loadSpace needed resume =>
        rw [threads_setThread_self] at hread
        cases hread
        rfl
    | lock needed resume =>
        unfold Sys.collectLocked at hread
        rw [threads_setThread_self] at hread
        cases resume <;> cases hread
    | test _ _ pc _ hpc | loadNext _ _ _ pc _ hpc =>
        rw [threads_setThread_self] at hread
        cases hread
        rcases hpc with hpc | hpc <;> cases hpc
    | wait | released | assign | caught =>
        rw [threads_setThread_self] at hread
        cases hread
  · refine Or.inr ⟨hstep, ?_⟩
    rcases thread_of_step h hstep with hsame | ⟨_, _, _, _, hpc⟩ | ⟨_, hpc⟩ | ⟨_, _, hpc⟩ | ⟨_, hpc⟩
    · rw [← hsame, hread]
    all_goals
      rw [hread] at hpc
      cases hpc

/-- A moment of the run in which the thread was between the two loads of the same call, and the free
space was `free`. -/
def WasFree (mem : Memory) (taken : List (Action roots)) (s : Sys roots) (id : ThreadId)
    (needed : Nat) (resume : Option (Request roots × Nat)) (space : SpaceNum) (free : Nat) : Prop :=
  ∃ before after u, taken = before ++ after ∧
    Machine.run step before (Sys.initial roots mem) = some u ∧ Machine.run step after u = some s ∧
    .step id ∉ after ∧ u.threads id = .collect needed resume (.loadNext space) ∧
    freeSpace cfg u.heap = free

variable {mem : Memory} {taken : List (Action roots)} {free : Nat}

theorem WasFree.now (hrun : Machine.run step taken (Sys.initial roots mem) = some s)
    (hread : s.threads id = .collect needed resume (.loadNext space)) :
    WasFree mem taken s id needed resume space (freeSpace cfg s.heap) :=
  ⟨taken, [], s, (List.append_nil taken).symm, hrun, rfl, List.not_mem_nil, hread, rfl⟩

theorem WasFree.step (h : WasFree mem taken s id needed resume space free)
    (hstep : Concurrent.step a s = some t) (hother : a ≠ .step id) :
    WasFree mem (taken ++ [a]) t id needed resume space free := by
  obtain ⟨before, after, u, rfl, hbefore, hafter, hmem, hread, hfree⟩ := h
  refine ⟨before, after ++ [a], u, List.append_assoc before after [a], hbefore, ?_, ?_, hread,
    hfree⟩
  · rw [Machine.run_append, hafter, Option.bind_some, Machine.run, hstep]
    rfl
  · rw [List.mem_append, List.mem_singleton]
    rintro (hin | heq)
    · exact hmem hin
    · exact hother heq.symm

/-- A thread between the two loads has the number of the current space, or the spaces have been
flipped since and the whole of one was free right after. -/
structure ReadsFollow (mem : Memory) (taken : List (Action roots)) (s : Sys roots) : Prop where
  reached : Machine.run step taken (Sys.initial roots mem) = some s
  spaces : SpacesInv s
  reads : ∀ id needed resume space, s.threads id = .collect needed resume (.loadNext space) →
    s.heap.spaceNum = space ∨ WasFree mem taken s id needed resume space cfg.maxAllocSize

theorem ReadsFollow.step (h : ReadsFollow mem taken s) (hstep : Concurrent.step a s = some t) :
    ReadsFollow mem (taken ++ [a]) t := by
  have hreached : Machine.run Concurrent.step (taken ++ [a]) (Sys.initial roots mem) = some t := by
    rw [Machine.run_append, h.reached, Option.bind_some, Machine.run, hstep]
    rfl
  refine { reached := hreached, spaces := h.spaces.step hstep, reads := ?_ }
  intro id needed resume space hread
  rcases loadNext_of_step hstep hread with ⟨_, hspace⟩ | ⟨hother, hbefore⟩
  · exact Or.inl hspace
  · rcases h.reads id needed resume space hbefore with hspace | hwas
    · rcases step_cases hstep with
        ⟨_, hworker⟩ | ⟨other, least, again, _, _, hflips, rfl⟩ | ⟨_, haside⟩
      · exact Or.inl ((h.spaces.onlyBumps_worker hworker).spaceNum.trans hspace)
      · -- the space that was idle is the current one now
        have hnow := WasFree.now hreached hread
        rw [freeSpace, h.spaces.nexts_collectLocked other again hflips, spaceLeft_eq, Nat.sub_zero] at hnow
        exact Or.inr hnow
      · exact Or.inl (haside.space.spaceNum.trans hspace)
    · exact Or.inr (hwas.step hstep hother)

theorem ReadsFollow.of_run
    (hrun : Machine.run Concurrent.step taken (Sys.initial roots mem) = some s) :
    ReadsFollow mem taken s :=
  Machine.run_trace (fun _ _ _ _ h hstep => h.step hstep)
    { reached := rfl
      spaces := .initial roots mem
      reads := fun _ _ _ _ hread => by cases hread } hrun

/-- **`free_space` takes effect at once**: the two loads of a call see what a single look at the
spaces would have seen, at a moment between them. -/
theorem freeSpace_linearizable (mem : Memory) {actions : List (Action roots)}
    (hrun : Machine.run step actions (Sys.initial roots mem) = some s)
    (hread : s.threads id = .collect needed resume (.loadNext space)) :
    ∃ before after u, actions = before ++ after ∧
      Machine.run step before (Sys.initial roots mem) = some u ∧
      Machine.run step after u = some s ∧ .step id ∉ after ∧
      u.threads id = .collect needed resume (.loadNext space) ∧
      step (.step id) s = some (s.setThread id
        (.collect needed resume (if freeSpace cfg u.heap < needed then .wait else .lock))) := by
  have hwas : WasFree mem actions s id needed resume space
      (spaceLeft cfg (s.heap.nexts space)) := by
    have hfollow := ReadsFollow.of_run hrun
    by_cases hspace : s.heap.spaceNum = space
    · subst hspace
      exact WasFree.now hrun hread
    · have hwas := (hfollow.reads id needed resume space hread).resolve_left hspace
      have hidle := hfollow.spaces.idle
      rw [← SpaceNum.eq_flip_of_ne (Ne.symm hspace)] at hidle
      rw [hidle, spaceLeft_eq, Nat.sub_zero]
      exact hwas
  obtain ⟨before, after, u, hactions, hbefore, hafter, hmem, hthread, hfree⟩ := hwas
  refine ⟨before, after, u, hactions, hbefore, hafter, hmem, hthread, ?_⟩
  rw [step, Sys.stepThread, hread, hfree]
  rfl

/-- A thread asks for the free space while a collection runs, and another one starts between the
loads. -/
def sampleReads : List (Action sampleRoots) :=
  [.collect 1 10000, .step 1, .step 1,
    .collect 2 10000, .step 2, .step 2,
    .worker, .worker, .worker, .worker, .worker,
    .collect 1 10000, .step 1, .step 1]

theorem freeSpace_linearizable_sample :
    ∃ (before after : List (Action sampleRoots)) (s u : Sys sampleRoots),
      sampleReads = before ++ after ∧ Machine.run step before sampleStart = some u ∧
      step (.step 2) s = some (s.setThread 2
        (.collect 10000 none
          (if freeSpace Config.sample u.heap < 10000 then .wait else .lock))) := by
  have hview : (Machine.run step sampleReads sampleStart).map (fun s =>
      (s.threads 2).collecting) = some (some (10000, .loadNext .one)) := by
    decide +kernel
  obtain ⟨s, hrun, hview⟩ := Option.map_eq_some_iff.mp hview
  have hread := Thread.collecting_eq_some.mp hview
  obtain ⟨before, after, u, hactions, hbefore, _, _, _, hstep⟩ :=
    freeSpace_linearizable _ hrun hread
  exact ⟨before, after, s, u, hactions, hbefore, hstep⟩

end Concurrent

end Gcpp
