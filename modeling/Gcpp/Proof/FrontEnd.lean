import Gcpp.FrontEnd
import Gcpp.Proof.TaskBound

/-!
# What a call of `collect` achieves

A thread that asks for more than can ever be free gets a collection that starts during its call, its
own or that of another thread: one that was under way before has to finish first. So `GC::alloc`
gives up only after a collection that it could hope for.
-/

namespace Gcpp

open ByteMemory

variable {cfg : Config} {roots : RootSlots cfg}

namespace Concurrent

variable {s t : Sys roots} {a : Action roots} {id : ThreadId} {n needed : Nat}
  {admits : Nat → Prop}

/-- A thread that has something under way does not start anything else. -/
theorem threads_of_busy (h : step a s = some t) (hstep : a ≠ .step id)
    (hbusy : s.threads id ≠ .idle) : t.threads id = s.threads id := by
  cases a with
  | alloc other req =>
      rw [step] at h
      split at h <;> cases h
      rename_i hidle
      have hid : id ≠ other := by
        rintro rfl
        exact hbusy hidle
      unfold Sys.startAlloc
      split <;> exact threads_setThread_of_ne hid _
  | collect other needed =>
      rw [step] at h
      split at h <;> cases h
      rename_i hidle
      have hid : id ≠ other := by
        rintro rfl
        exact hbusy hidle
      exact threads_setThread_of_ne hid _
  | load other src dst =>
      rw [step] at h
      split at h <;> cases h
      rename_i hidle
      have hid : id ≠ other := by
        rintro rfl
        exact hbusy hidle
      unfold Sys.startLoad
      split <;> exact threads_setThread_of_ne hid _
  | clear slot =>
      cases h
      rfl
  | step other =>
      have hid : id ≠ other := by
        rintro rfl
        exact hstep rfl
      exact threads_stepThread h hid
  | worker => exact congrFun (threads_stepWorker h) id

theorem spaceLeft_le (next : Nat) : spaceLeft cfg next ≤ cfg.maxAllocSize := by
  rw [spaceLeft_eq]
  exact Nat.sub_le _ _

theorem FutureKept.started_of_ready (h : FutureKept s) (hready : s.resultReady = true) :
    s.started = s.finished := by
  rw [Sys.started, h.quiet hready, Nat.add_zero]

theorem FutureKept.started_of_not_ready (h : FutureKept s) (hready : ¬ s.resultReady = true) :
    s.started = s.finished + 1 := by
  rcases h with ⟨_, hnone⟩ | ⟨task, htask, ⟨_, hlt⟩ | ⟨hload, _⟩⟩
  · rw [Sys.resultReady, hnone] at hready
    exact absurd rfl hready
  · rw [Sys.resultReady, htask] at hready
    exact absurd (decide_eq_true hlt) hready
  · rw [Sys.started, hload]

/-- More than `n` collections have been started, or the thread is still in its call, and if it has
found none under way then all of the first `n` have finished. -/
def Collects (n needed : Nat) (id : ThreadId) (s : Sys roots) : Prop :=
  n < s.started ∨ ∃ pc, s.threads id = .collect needed none pc ∧ (pc = .lock → n ≤ s.finished)

theorem started_setThread (pc : Thread roots) : (s.setThread id pc).started = s.started := rfl

/-- The thread's own step. -/
theorem collects_own (h : SizesInv admits s) (hmore : cfg.maxAllocSize < needed) (hle : n ≤ s.started)
    {pc : CollectPc} (hthread : s.threads id = .collect needed none pc)
    (hlock : pc = .lock → n ≤ s.finished) (hstep : s.stepThread id = some t) :
    Collects n needed id t := by
  rw [Sys.stepThread, hthread] at hstep
  dsimp only at hstep
  cases pc with
  | test =>
      rw [Sys.collect, Option.some_inj] at hstep
      subst hstep
      refine Or.inr ⟨_, threads_setThread_self _, fun hpc => ?_⟩
      by_cases hready : s.resultReady = true
      · have hall := h.spaces.future.started_of_ready hready
        change n ≤ s.finished
        omega
      · rw [if_neg hready] at hpc
        cases hpc
  | loadSpace =>
      rw [Sys.collect, Option.some_inj] at hstep
      subst hstep
      exact Or.inr ⟨_, threads_setThread_self _, fun hpc => by cases hpc⟩
  | loadNext space =>
      rw [Sys.collect, Option.some_inj] at hstep
      subst hstep
      refine Or.inr ⟨_, threads_setThread_self _, fun hpc => ?_⟩
      rw [if_pos ((spaceLeft_le _).trans_lt hmore)] at hpc
      cases hpc
  | wait =>
      obtain ⟨task, _, rfl⟩ := Option.map_eq_some_iff.mp hstep
      exact Or.inr ⟨_, threads_setThread_self _, fun hpc => by cases hpc⟩
  | waiting task =>
      rw [Sys.collect] at hstep
      split at hstep
      · rw [Option.some_inj] at hstep
        subst hstep
        exact Or.inr ⟨_, threads_setThread_self _, fun hpc => by cases hpc⟩
      · cases hstep
  | lock =>
      rw [Sys.collect, Option.some_inj] at hstep
      subst hstep
      left
      by_cases hflips : s.Flips needed
      · rw [started_collectLocked id none hflips]
        omega
      · -- somebody else has started one in the meantime
        have hready : ¬ s.resultReady = true := fun hready =>
          hflips ⟨(spaceLeft_le _).trans_lt hmore, hready⟩
        have hone := h.spaces.future.started_of_not_ready hready
        have hfinished := hlock rfl
        unfold Sys.collectLocked
        rw [if_neg hflips, started_setThread]
        omega

theorem collects_step (h : SizesInv admits s) (hmore : cfg.maxAllocSize < needed)
    (hle : n ≤ s.started) (hcollects : Collects n needed id s) (hstep : step a s = some t) :
    Collects n needed id t := by
  obtain ⟨hfinished, hstarted⟩ := started_step h hstep
  rcases hcollects with hdone | ⟨pc, hthread, hlock⟩
  · exact Or.inl (by omega)
  · by_cases hid : a = .step id
    · subst hid
      exact collects_own h hmore hle hthread hlock hstep
    · have hsame := threads_of_busy hstep hid (by rw [hthread]; exact nofun)
      exact Or.inr ⟨pc, hsame.trans hthread, fun hpc => (hlock hpc).trans hfinished⟩

variable {mem : Memory} {before actions : List (Action roots)} {u : Sys roots}

/-- **A collection for every call.** Once a call of `collect` that asks for more than the allocation
limit has returned, a collection has been started since it began. -/
theorem collect_always_collects (hmore : cfg.maxAllocSize < needed)
    (hbefore : Machine.run step before (Sys.initial roots mem) = some s)
    (hcall : step (.collect id needed) s = some u) (hrun : Machine.run step actions u = some t)
    (hreturned : ∀ pc, t.threads id ≠ .collect needed none pc) : s.started < t.started := by
  have hinv : SizesInv (fun _ => True) s :=
    Machine.run_invariant (fun a _ _ h hstep => h.step a.admits_all hstep) (.initial roots mem) hbefore
  let inv : Sys roots → Prop := fun v =>
    SizesInv (fun _ => True) v ∧ s.started ≤ v.started ∧ Collects s.started needed id v
  have hlast : inv t := by
    refine Machine.run_invariant ?_ ⟨hinv.step (Action.admits_all _) hcall, ?_, ?_⟩ hrun
    · rintro a v w ⟨hv, hle, hcollects⟩ hstep
      have hstarted := (started_step hv hstep).2
      exact ⟨hv.step a.admits_all hstep, by omega, collects_step hv hmore hle hcollects hstep⟩
    · have hstarted := (started_step hinv hcall).2
      omega
    · rw [step] at hcall
      split at hcall <;> cases hcall
      exact Or.inr ⟨.test, threads_setThread_self _, fun hpc => by cases hpc⟩
  rcases hlast.2.2 with hstarted | ⟨pc, hthread, _⟩
  · exact hstarted
  · exact absurd hthread (hreturned pc)

/-- The call of the second thread waits for the collection of the first, and starts one after it. -/
def sampleSecond : List (Action sampleRoots) :=
  [.step 2, .step 2, .step 2, .step 2] ++ List.replicate 5 .worker ++ [.step 2, .step 2, .step 2]

theorem collect_always_collects_sample :
    ∃ s t, Machine.run step [.collect 1 10000, .step 1, .step 1] sampleStart = some s ∧
      Machine.run step (.collect 2 10000 :: sampleSecond) s = some t ∧ s.started < t.started := by
  have hview : (Machine.run step [.collect 1 10000, .step 1, .step 1] sampleStart).bind (fun s =>
      (step (.collect 2 10000) s).bind fun u => (Machine.run step sampleSecond u).map fun t =>
        (t.threads 2).collecting) = some none := by
    decide +kernel
  obtain ⟨s, hbefore, hview⟩ := Option.bind_eq_some_iff.mp hview
  obtain ⟨u, hcall, hview⟩ := Option.bind_eq_some_iff.mp hview
  obtain ⟨t, hrun, hview⟩ := Option.map_eq_some_iff.mp hview
  have hreturned : ∀ pc, t.threads 2 ≠ .collect 10000 none pc := by
    intro pc hthread
    rw [Thread.collecting_eq_some.mpr hthread] at hview
    cases hview
  refine ⟨s, t, hbefore, ?_, collect_always_collects (by decide) hbefore hcall hrun hreturned⟩
  rw [Machine.run, hcall]
  exact hrun

end Concurrent

/-! ### `GC::alloc` -/

namespace FrontEnd

open Concurrent

variable {s t u : FrontState roots} {a : FrontAction roots} {id : ThreadId} {n : Nat}

theorem maxAllocSize_lt_sizeMax (cfg : Config) : cfg.maxAllocSize < sizeMax := by
  have hsize := cfg.size_lt
  have hmask : ptrMask ≤ 2 ^ 56 := by decide
  unfold Config.maxAllocSize sizeMax
  omega

theorem of_call {a : Action roots} (h : s.call a = some t) :
    Concurrent.step a s.sys = some t.sys ∧ t.fronts = s.fronts := by
  obtain ⟨sys, hstep, rfl⟩ := Option.map_eq_some_iff.mp h
  exact ⟨hstep, rfl⟩

theorem fronts_setFront_self (pc : Front roots) : (s.setFront id pc).fronts id = pc :=
  Function.update_self _ _ _

theorem fronts_setFront_of_ne {other : ThreadId} (hne : other ≠ id) (pc : Front roots) :
    (s.setFront id pc).fronts other = s.fronts other :=
  Function.update_of_ne hne _ _

/-- What a thread that stands there has achieved since `n` collections had been started. -/
def FrontOk (n : Nat) (id : ThreadId) (sys : Sys roots) : Front roots → Prop
  | .collect _ => Collects n sizeMax id sys
  | .loadSpace _ true | .loadNext _ true _ | .badAlloc => n < sys.started
  | _ => True

structure FrontInv (n : Nat) (id : ThreadId) (s : FrontState roots) : Prop where
  sizes : SizesInv (fun _ => True) s.sys
  le : n ≤ s.sys.started
  front : FrontOk n id s.sys (s.fronts id)

/-- A step of the collector, which leaves the thread where it is in `GC::alloc`. -/
theorem FrontInv.call (h : FrontInv n id s) {a : Action roots} (hcall : s.call a = some t) :
    FrontInv n id t := by
  obtain ⟨hstep, hfronts⟩ := of_call hcall
  have hstarted := (started_step h.sizes hstep).2
  have hfront := h.front
  refine { sizes := h.sizes.step a.admits_all hstep, le := by have := h.le; omega, front := ?_ }
  rw [hfronts]
  cases hpc : s.fronts id with
  | collect req =>
      rw [hpc] at hfront
      exact collects_step h.sizes (maxAllocSize_lt_sizeMax cfg) h.le hfront hstep
  | loadSpace req again | loadNext req again space =>
      rw [hpc] at hfront
      cases again with
      | false => trivial
      | true =>
          change n < s.sys.started at hfront
          change n < t.sys.started
          omega
  | badAlloc =>
      rw [hpc] at hfront
      change n < s.sys.started at hfront
      change n < t.sys.started
      omega
  | idle | alloc => trivial

/-- Another place in `GC::alloc`, of this thread or of another one. -/
theorem FrontInv.setFront (h : FrontInv n id s) {other : ThreadId} {pc : Front roots}
    (hpc : other = id → FrontOk n id s.sys pc) : FrontInv n id (s.setFront other pc) := by
  refine { sizes := h.sizes, le := h.le, front := ?_ }
  by_cases hid : id = other
  · subst hid
    rw [fronts_setFront_self]
    exact hpc rfl
  · rw [fronts_setFront_of_ne hid]
    exact h.front

theorem FrontInv.stepFront (h : FrontInv n id s) {other : ThreadId}
    (hstep : s.stepFront other = some t) : FrontInv n id t := by
  rw [FrontState.stepFront] at hstep
  cases hpc : s.fronts other with
  | idle =>
      rw [hpc] at hstep
      cases hstep
  | loadSpace req again =>
      rw [hpc] at hstep
      cases hstep
      refine h.setFront fun hid => ?_
      have hfront := h.front
      rw [← hid, hpc] at hfront
      cases again <;> exact hid ▸ hfront
  | loadNext req again space =>
      rw [hpc] at hstep
      dsimp only at hstep
      generalize spaceLeft cfg (s.sys.heap.nexts space) = free at hstep
      split at hstep
      · split at hstep
        · rename_i hagain
          cases hstep
          refine h.setFront fun hid => ?_
          have hfront := h.front
          rw [← hid, hpc, hagain] at hfront
          exact hfront
        · obtain ⟨v, hcall, rfl⟩ := Option.map_eq_some_iff.mp hstep
          refine (h.call hcall).setFront fun hid => Or.inr ⟨.test, ?_, fun hpc => by cases hpc⟩
          have hcalled := (of_call hcall).1
          rw [Concurrent.step] at hcalled
          split at hcalled
          · rw [← Option.some.inj hcalled, hid]
            exact threads_setThread_self _
          · cases hcalled
      · obtain ⟨v, hcall, rfl⟩ := Option.map_eq_some_iff.mp hstep
        exact (h.call hcall).setFront fun _ => trivial
  | collect req =>
      rw [hpc] at hstep
      dsimp only at hstep
      split at hstep <;> cases hstep
      rename_i hidle
      refine h.setFront fun hid => ?_
      have hfront := h.front
      rw [← hid, hpc] at hfront
      rcases hfront with hdone | ⟨pc, hthread, _⟩
      · exact hdone
      · rw [hidle] at hthread
        cases hthread
  | alloc req =>
      rw [hpc] at hstep
      dsimp only at hstep
      split at hstep <;> cases hstep
      exact h.setFront fun _ => trivial
  | badAlloc =>
      rw [hpc] at hstep
      cases hstep
      exact h.setFront fun _ => trivial

theorem FrontInv.step (h : FrontInv n id s) (hstep : FrontEnd.step a s = some t) :
    FrontInv n id t := by
  cases a with
  | gcAlloc other req =>
      rw [FrontEnd.step] at hstep
      split at hstep <;> cases hstep
      exact h.setFront fun _ => trivial
  | gcCollect other | load other src dst =>
      rw [FrontEnd.step] at hstep
      split at hstep
      · exact h.call hstep
      · cases hstep
  | clear | inner | worker => exact h.call hstep
  | front other => exact h.stepFront hstep

variable {mem : Memory} {before actions : List (FrontAction roots)} {req : Request roots}

theorem FrontInv.initial (roots : RootSlots cfg) (mem : Memory) (id : ThreadId) :
    FrontInv 0 id (FrontState.initial roots mem) where
  sizes := .initial roots mem
  le := Nat.zero_le _
  front := trivial

/-- **`GC::alloc` gives up late.** When it throws for want of space, a collection has been started
since it was called, whatever the other threads and the worker have done. -/
theorem gcAlloc_gives_up_late
    (hbefore : Machine.run step before (FrontState.initial roots mem) = some s)
    (hcall : step (.gcAlloc id req) s = some u) (hrun : Machine.run step actions u = some t)
    (hgives : t.fronts id = .badAlloc) : s.sys.started < t.sys.started := by
  have hstart : FrontInv 0 id s :=
    Machine.run_invariant (fun _ _ _ h hstep => h.step hstep) (.initial roots mem id) hbefore
  have hinv : FrontInv s.sys.started id u := by
    rw [step] at hcall
    split at hcall <;> cases hcall
    refine { sizes := hstart.sizes, le := le_rfl, front := ?_ }
    rw [fronts_setFront_self]
    trivial
  have hlast : FrontInv s.sys.started id t :=
    Machine.run_invariant (fun _ _ _ h hstep => h.step hstep) hinv hrun
  have hfront := hlast.front
  rw [hgives] at hfront
  exact hfront

/-- A request that no collection can make room for. -/
def sampleRequest : Request sampleRoots where
  size := 5000
  alignment := 8
  slot := ⟨1024, List.mem_cons_self⟩

theorem gcAlloc_gives_up_late_sample :
    ∃ t, Machine.run step ([.gcAlloc 1 sampleRequest, .front 1, .front 1, .inner 1, .inner 1,
        .front 1, .front 1, .front 1] : List (FrontAction sampleRoots))
        (FrontState.initial sampleRoots fun _ => 0) = some t ∧ 0 < t.sys.started := by
  have hview : (step (.gcAlloc 1 sampleRequest)
      (FrontState.initial sampleRoots fun _ => 0)).bind (fun u =>
        (Machine.run step [.front 1, .front 1, .inner 1, .inner 1, .front 1, .front 1, .front 1]
          u).map fun t => match t.fronts 1 with
            | .badAlloc => true
            | _ => false) = some true := by
    decide +kernel
  obtain ⟨u, hcall, hview⟩ := Option.bind_eq_some_iff.mp hview
  obtain ⟨t, hrun, hview⟩ := Option.map_eq_some_iff.mp hview
  have hgives : t.fronts 1 = .badAlloc := by
    split at hview
    · assumption
    · cases hview
  have hnothing : Machine.run step []
      (FrontState.initial sampleRoots fun _ => 0) = some _ := rfl
  refine ⟨t, ?_, gcAlloc_gives_up_late hnothing hcall hrun hgives⟩
  rw [Machine.run, hcall]
  exact hrun

end FrontEnd

end Gcpp
