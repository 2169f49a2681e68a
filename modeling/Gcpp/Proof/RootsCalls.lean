import Gcpp.Proof.RootsScan

/-!
# Concurrent calls of `GCRoots`

The updates happen one after the other, a scan reads the table that they have left, and nobody waits
for the mutex forever.
-/

namespace Gcpp.RootsLock

open ByteMemory

variable {s s' : Sys} {t : ThreadId} {c : Call} {pc : Pc} {ranges : StackRanges} {m : Memory}
  {actions : List Action}

/-! ### The ranges of well-formed calls -/

/-- An update with the values of a call on a stack. -/
def WellFormedUpdate : ScanEvent → Prop
  | .write _ => True
  | .updateStackRange id basePtr sp => StackCall.WellFormed { id, basePtr, sp }
  | .getRoots _ _ _ => False

def Call.WellFormed (c : Call) (t : ThreadId) : Prop :=
  StackCall.WellFormed { id := t, basePtr := c.basePtr, sp := c.sp }

def WellFormedCalls (actions : List Action) : Prop := ∀ t c, .call t c ∈ actions → c.WellFormed t

/-- The events that have happened, and those to come, are well formed. -/
structure WithinInv (s : Sys) : Prop where
  within : ∃ ranges, Refines s ranges ∧ RangesWithin ranges
  todo : ∀ t, ∀ e ∈ (s.threads t).todo t, WellFormedUpdate e

theorem within_of_events {events : List ScanEvent} {p p' : Process} {roots : GCRoots}
    (hevents : ∀ e ∈ events, WellFormedUpdate e) (hinstance : p.gInstance = some roots)
    (hwithin : RangesWithin roots.stackRanges)
    (hrun : Machine.run (execEvent []) events p = some p') :
    ∃ roots', p'.gInstance = some roots' ∧ RangesWithin roots'.stackRanges := by
  have hstep : ∀ (e : ScanEvent) (q q' : Process),
      (∃ roots, q.gInstance = some roots ∧ RangesWithin roots.stackRanges) → WellFormedUpdate e →
      execEvent [] e q = some q' →
      ∃ roots, q'.gInstance = some roots ∧ RangesWithin roots.stackRanges := by
    rintro e ⟨mem, gInstance⟩ q' ⟨roots, rfl, hroots⟩ hwell hexec
    cases e with
    | write m =>
        cases hexec
        exact ⟨roots, rfl, hroots⟩
    | updateStackRange id basePtr sp =>
        cases hexec
        exact ⟨_, rfl, hroots.record hwell⟩
    | getRoots id basePtr sp => exact hwell.elim
  exact Machine.run_induction hstep ⟨roots, hinstance, hwithin⟩
    (.of_forall fun e he _ => hevents e he) hrun

namespace WithinInv

theorem initial (globalRoots : List Nat) (m : Memory) : WithinInv (Sys.initial globalRoots m) where
  within := ⟨∅, .initial globalRoots m, fun _ _ _ h => by cases h⟩
  todo _ _ he := by cases he

/-- What a step emits is well formed. -/
theorem emits (h : WithinInv s) {a : Action} (hstep : step a s = some s') :
    ∀ e ∈ RootsLock.emits a s, WellFormedUpdate e := by
  cases a with
  | write m =>
      intro e he
      rw [List.mem_singleton.mp he]
      exact trivial
  | call t c => exact fun e he => by cases he
  | read t => exact fun e he => by cases he
  | step t =>
      obtain ⟨pc, -, htodo, -, -⟩ := stepThread_moves hstep
      exact fun e he => h.todo t e (htodo ▸ List.mem_append_left _ he)

theorem step (h : WithinInv s) {a : Action}
    (hcall : ∀ t c, a = .call t c → c.WellFormed t)
    (hstep : RootsLock.step a s = some s') : WithinInv s' where
  within := by
    obtain ⟨ranges, hrefines, hwithin⟩ := h.within
    have hnext : ∃ ranges', Machine.run (execEvent []) (RootsLock.emits a s) (s.process ranges) =
        some (s'.process ranges') ∧ Refines s' ranges' := hrefines.step hstep
    obtain ⟨ranges', hrun, hrefines'⟩ := hnext
    obtain ⟨roots, hroots, hwithin'⟩ := within_of_events (h.emits hstep) rfl hwithin hrun
    cases hroots
    exact ⟨ranges', hrefines', hwithin'⟩
  todo t e he := by
    have htodo := emits_todo (t := t) hstep
    have hmem : e ∈ (s.threads t).todo t ++ a.events t := htodo ▸ List.mem_append_right _ he
    rcases List.mem_append.mp hmem with hold | hnew
    · exact h.todo t e hold
    · cases a with
      | call u c =>
          rw [Action.events] at hnew
          split at hnew
          · rename_i hu
            rw [List.mem_singleton.mp hnew, ← hu]
            exact hcall u c rfl
          · cases hnew
      | _ => cases hnew

end WithinInv

/-- The table that a scan reads is that of the events. -/
theorem Refines.lookup_of_scan (h : Refines s ranges) {k : Scan} (hscan : s.threads t = .scan c k)
    (u : ThreadId) : s.roots.stackRanges.lookup u = ranges.lookup u := by
  have hmode : (s.threads u).mode ≠ .shared := fun hshared => by
    have hu : u = t := h.owned.alone (by rw [hscan]; rfl) (by rw [hshared]; decide)
    rw [hu, hscan] at hshared
    cases hshared
  exact (h.range u).same hmode

/-- Well-formed calls leave well-formed ranges for a scan. -/
theorem rangesWithin_of_scan {globalRoots : List Nat} {k : Scan} (hcalls : WellFormedCalls actions)
    (hrun : Machine.run step actions (Sys.initial globalRoots m) = some s)
    (hscan : s.threads t = .scan c k) : RangesWithin s.roots.stackRanges := by
  have hstep : ∀ (a : Action) (u v : Sys), WithinInv u →
      (∀ t c, a = .call t c → c.WellFormed t) →
      step a u = some v → WithinInv v := fun _ _ _ h hcall hstep => h.step hcall hstep
  have hinv : WithinInv s := Machine.run_induction hstep (.initial globalRoots m)
    (.of_forall fun a ha _ t c hcall => hcalls t c (hcall ▸ ha)) hrun
  obtain ⟨ranges, hrefines, hwithin⟩ := hinv.within
  intro u base sp hrange
  rw [hrefines.lookup_of_scan hscan] at hrange
  exact hwithin u base sp hrange

/-! ### Linearizability -/

/-- The entry of a thread. -/
def rangeOf (p : Process) (t : ThreadId) : Option (Nat × Nat) :=
  p.gInstance.bind fun roots => roots.stackRanges.lookup t

/-- **Concurrent calls.** The updates of any number of threads, in every interleaving of their steps
and with any writes in between, do what a run of the process does in which each happens at once,
those of a thread in their order and each once: the entry of a thread outside of a call is that of
the run, and so is the whole table while a scan goes on. A scan returns the roots of the globals,
every slot of the stacks that is a pointer all the time, and no slot of which a word was never that
of a pointer. -/
theorem concurrent_calls (maps : List (List Char)) (globalRoots : List Nat) (m : Memory)
    (actions : List Action)
    (hrun : Machine.run step actions (Sys.initial globalRoots m) = some s) :
    (∃ p, Machine.run (execEvent maps) (happened globalRoots m actions)
        (Process.mk m (some ⟨globalRoots, ∅⟩)) = some p ∧ p.mem = s.mem ∧
      (∀ t, (happened globalRoots m actions).filter (ofThread t) <+:
        actions.flatMap (Action.events t)) ∧
      (∀ t result, s.threads t = .idle result →
        (happened globalRoots m actions).filter (ofThread t) =
          actions.flatMap (Action.events t) ∧
        rangeOf p t = s.roots.stackRanges.lookup t) ∧
      ∀ t c k, s.threads t = .scan c k →
        (happened globalRoots m actions).filter (ofThread t) =
          actions.flatMap (Action.events t) ∧
        ∀ u, rangeOf p u = s.roots.stackRanges.lookup u) ∧
    ∀ t c, s.threads t = .scan c (.start s.roots.stackRanges) → WellFormedCalls actions →
      ∀ more s' result, (∀ a ∈ more, a.isCallOf t = false) →
      Machine.run step more s = some s' → s'.threads t = .idle (some result) →
      ∃ locals, result = globalRoots ++ locals ∧ ∀ a,
        (Swept s.roots.stackRanges a →
          Machine.Meets step (fun v _ => maybePtr v.mem a = true) more s → a ∈ locals) ∧
        (a ∈ locals → Swept s.roots.stackRanges a ∧
          ¬ Machine.Meets step (fun v _ => load64 v.mem a ≠ ptrHeader) more s ∧
          ¬ Machine.Meets step (fun v _ => (load64 v.mem (a + 8) &&& ptrTagMask) ≠ ptrTag)
            more s) := by
  obtain ⟨p, hevents, ranges, rfl, hrefines⟩ := Linearized.of_run maps hrun
  have hglobal : s.roots.globalRoots = globalRoots := globalRoots_of_run hrun
  refine ⟨⟨_, hevents, rfl, fun t => ⟨_, outputs_todo hrun⟩, fun t result hidle => ?_,
    fun t c k hscan => ?_⟩, fun t c hthread hwell more s' result hcalls hmore hidle => ?_⟩
  · have htodo := outputs_todo (t := t) hrun
    have hrange := hrefines.range t
    rw [hidle] at htodo hrange
    exact ⟨(List.append_nil _).symm.trans htodo, hrange.symm⟩
  · have htodo := outputs_todo (t := t) hrun
    rw [hscan] at htodo
    exact ⟨(List.append_nil _).symm.trans htodo, fun u => (hrefines.lookup_of_scan hscan u).symm⟩
  · rw [← hglobal]
    exact scan_finds ⟨ranges, hrefines⟩ (rangesWithin_of_scan hwell hrun hthread) hthread hcalls
      hmore hidle

/-- Two threads come at the same time, the first for the roots. -/
def sampleCalls : List Action :=
  .call 1 { basePtr := 2016, sp := 2000, roots := true } ::
    .call 2 { basePtr := 4016, sp := 4000, roots := false } ::
    [1, 2, 1, 2, 1, 2, 1, 1, 1, 2, 2, 2, 1].map .step

/-- There is a pointer in the red zone of the first thread. -/
def sampleMemory : Memory := store64 (store64 (fun _ => 0) 1880 ptrHeader) 1888 ptrTag

/-- The second thread stores one in a slot that the scan has passed by. -/
def sampleScan : List Action :=
  List.replicate 3 (.read 1) ++
    .write (store64 (store64 sampleMemory 3880 ptrHeader) 3888 ptrTag) ::
    List.replicate 36 (.read 1) ++ [1, 1, 1, 1].map .step

def sampleStart : Sys :=
  (Machine.run step sampleCalls (Sys.initial [512] sampleMemory)).getD
    (Sys.initial [512] sampleMemory)

theorem sampleStart_run :
    Machine.run step sampleCalls (Sys.initial [512] sampleMemory) = some sampleStart := by
  have hrun : (Machine.run step sampleCalls (Sys.initial [512] sampleMemory)).isSome := by
    decide +kernel
  obtain ⟨s, hs⟩ := Option.isSome_iff_exists.mp hrun
  rw [sampleStart, hs]
  rfl

theorem sampleCalls_wellFormed : WellFormedCalls sampleCalls := by
  intro t c hcall
  simp [sampleCalls] at hcall
  rcases hcall with ⟨rfl, rfl⟩ | ⟨rfl, rfl⟩
  · exact { redZone_le := by decide, sp_le := by decide, base_le := by decide }
  · exact { redZone_le := by decide, sp_le := by decide, base_le := by decide }

theorem sampleStart_thread : sampleStart.threads 1 =
    .scan { basePtr := 2016, sp := 2000, roots := true }
      (.start sampleStart.roots.stackRanges) := by
  rfl

theorem sampleScan_calls : ∀ a ∈ sampleScan, a.isCallOf 1 = false := by
  have hall : sampleScan.all (fun a => !a.isCallOf 1) := by decide +kernel
  exact fun a ha => by simpa using List.all_eq_true.mp hall a ha

theorem concurrent_calls_sample :
    ∃ p s' locals,
      Machine.run (execEvent []) (happened [512] sampleMemory sampleCalls)
        (Process.mk sampleMemory (some ⟨[512], ∅⟩)) = some p ∧
      (∀ u, rangeOf p u = sampleStart.roots.stackRanges.lookup u) ∧
      Machine.run step sampleScan sampleStart = some s' ∧
      s'.threads 1 = .idle (some ([512] ++ locals)) ∧ 1880 ∈ locals ∧
      ∀ a ∈ locals, Swept sampleStart.roots.stackRanges a := by
  have hscan : (Machine.run step sampleScan sampleStart).map (fun s => s.threads 1) =
    some (.idle (some [512, 1880])) := by rfl
  have hptr : Machine.Meets step (fun v _ => maybePtr v.mem 1880 = true) sampleScan
    sampleStart := by decide +kernel
  obtain ⟨⟨p, hp, -, -, -, hrange⟩, hfinds⟩ :=
    concurrent_calls [] [512] sampleMemory sampleCalls sampleStart_run
  obtain ⟨s', hrun, hidle⟩ := Option.map_eq_some_iff.mp hscan
  obtain ⟨locals, hresult, hlocals⟩ := hfinds 1 _ sampleStart_thread sampleCalls_wellFormed sampleScan
    s' _ sampleScan_calls hrun hidle
  have hswept : Swept sampleStart.roots.stackRanges 1880 := by
    refine ⟨1, 2016, 2000, by decide +kernel, by decide, by decide, by decide⟩
  exact ⟨p, s', locals, hp, (hrange 1 _ _ sampleStart_thread).2, hrun, by rw [hidle, hresult],
    (hlocals 1880).1 hswept hptr, fun a ha => ((hlocals a).2 ha).1⟩

/-! ### Progress -/

theorem Pc.stepsLeft_pos (h : ∀ result, pc ≠ .idle result) : 0 < pc.stepsLeft := by
  cases pc with
  | idle result => exact absurd rfl (h result)
  | unlockShared c existingRecord => cases existingRecord <;> exact Nat.succ_pos _
  | _ => exact Nat.succ_pos _

theorem stepsLeft_step {a : Action} (hstep : step a s = some s') :
    (if a.isStepOf t then 1 else 0) + (s'.threads t).stepsLeft ≤
      (s.threads t).stepsLeft + if a.isCallOf t then 11 else 0 := by
  cases a with
  | write m =>
      cases hstep
      exact (Nat.zero_add _).le
  | call u c =>
      rw [step] at hstep
      split at hstep
      · cases hstep
        simp only [Sys.setThread, Action.isStepOf, Action.isCallOf, Function.update_apply]
        by_cases hu : t = u
        · simp [hu, Pc.stepsLeft]
        · simp [hu, Ne.symm hu]
      · cases hstep
  | read u =>
      obtain ⟨c, k, k', hthread, _, rfl⟩ := readThread_moves hstep
      simp only [Action.isStepOf, Action.isCallOf, Bool.false_eq_true, if_false, Nat.zero_add,
        Nat.add_zero]
      by_cases hu : t = u
      · subst hu
        rw [Sys.setThread_self, hthread]
        exact le_rfl
      · rw [Sys.setThread_of_ne _ hu]
  | step u =>
      obtain ⟨pc, hthreads, -, hless, -⟩ := stepThread_moves hstep
      rw [hthreads]
      simp only [Action.isStepOf, Action.isCallOf, Function.update_apply]
      by_cases hu : t = u
      · subst hu
        simp
        omega
      · simp [hu, Ne.symm hu]

theorem steps_of_run (hrun : Machine.run step actions s = some s') :
    actions.countP (Action.isStepOf t) + (s'.threads t).stepsLeft ≤
      (s.threads t).stepsLeft + 11 * actions.countP (Action.isCallOf t) := by
  have hstep : ∀ a (u v : Sys), step a u = some v →
      (if a.isStepOf t then 1 else 0) + (v.threads t).stepsLeft ≤
        (u.threads t).stepsLeft + if a.isCallOf t then 11 else 0 := fun _ _ _ => stepsLeft_step
  exact Machine.run_credit hstep hrun

theorem countP_calls (hcalls : ∀ a ∈ actions, a.isCallOf t = false) :
    actions.countP (Action.isCallOf t) = 0 :=
  List.countP_eq_zero.mpr fun a ha h => by
    rw [hcalls a ha] at h
    cases h

/-- A call takes eleven steps, up to the next one. -/
theorem steps_of_call (hrun : Machine.run step (.call t c :: actions) s = some s')
    (hcalls : ∀ a ∈ actions, a.isCallOf t = false) :
    actions.countP (Action.isStepOf t) ≤ 11 := by
  obtain ⟨u, hcall, hrest⟩ := Option.bind_eq_some_iff.mp hrun
  have hsteps := steps_of_run (t := t) hrest
  have hbegin : (u.threads t).stepsLeft = 11 := by
    rw [step] at hcall
    split at hcall <;> cases hcall
    rw [Sys.setThread_self]
    rfl
  rw [countP_calls hcalls, hbegin] at hsteps
  omega

/-- What the scan of a thread still takes, if it is in one. -/
def Sys.readsLeft (table : StackRanges) (t : ThreadId) (s : Sys) : Nat :=
  match s.threads t with
  | .scan _ k => k.readsLeft table
  | _ => 0

theorem Scanning.readsLeft_step {globalRoots : List Nat} {P : Scan → Prop} {Q : List Nat → Prop}
    {table : StackRanges} {a : Action} (hwithin : RangesWithin table)
    (h : Scanning t table globalRoots P Q s) (hcall : a.isCallOf t = false)
    (hstep : RootsLock.step a s = some s') :
    (if a.isReadOf t then 1 else 0) + s'.readsLeft table t + 0 ≤ s.readsLeft table t + 0 := by
  have htable := h.table
  have hok := h.ok
  have hmoves := placeMove h.place hcall hstep
  rw [Sys.readsLeft, Sys.readsLeft]
  generalize s'.threads t = after at hmoves
  generalize s.threads t = before at htable hok hmoves
  cases hmoves with
  | stay _ hreads =>
      rw [hreads, if_neg Bool.false_ne_true, Nat.zero_add]
  | read c k k' hread =>
      rw [htable c k rfl] at hread
      have hless := (scanMove hwithin (hok c k rfl) hread).1.readsLeft_lt (hok c k rfl)
      dsimp only
      split <;> omega
  | finish _ _ hreads | unlock _ hreads | lock _ hreads | result _ hreads =>
      rw [hreads]
      exact Nat.zero_le _

/-- The reads of a scan come to an end. -/
theorem reads_of_scan (hrefines : ∃ ranges, Refines s ranges)
    (hwithin : RangesWithin s.roots.stackRanges)
    (hthread : s.threads t = .scan c (.start s.roots.stackRanges))
    (hcalls : ∀ a ∈ actions, a.isCallOf t = false)
    (hrun : Machine.run step actions s = some s') :
    actions.countP (Action.isReadOf t) ≤ scanReads s.roots.stackRanges := by
  have hinitial : Scanning t s.roots.stackRanges s.roots.globalRoots (fun _ => True)
    (fun _ => True) s := .initial hrefines hthread trivial
  have hinv : ∀ (a : Action) (u v : Sys),
      Scanning t s.roots.stackRanges s.roots.globalRoots (fun _ => True) (fun _ => True) u →
      a.isCallOf t = false → step a u = some v →
      Scanning t s.roots.stackRanges s.roots.globalRoots (fun _ => True) (fun _ => True) v :=
    fun a u v h hcall hstep => h.step hwithin (fun _ _ _ _ _ => trivial) (fun _ _ _ _ => trivial)
      hcall hstep
  have hstep : ∀ (a : Action) (u v : Sys),
      Scanning t s.roots.stackRanges s.roots.globalRoots (fun _ => True) (fun _ => True) u →
      a.isCallOf t = false → step a u = some v →
      (if a.isReadOf t then 1 else 0) + v.readsLeft s.roots.stackRanges t + 0 ≤
        u.readsLeft s.roots.stackRanges t + 0 := fun a u v h hcall hstep =>
    h.readsLeft_step hwithin hcall hstep
  have hreads := Machine.run_potential hinv hstep hinitial
    (.of_forall fun a ha _ => hcalls a ha) hrun
  have hall : s.readsLeft s.roots.stackRanges t = scanReads s.roots.stackRanges := by
    rw [Sys.readsLeft, hthread]
    exact Nat.add_zero _
  omega

namespace Refines

/-- An owner of the mutex goes on. -/
theorem owner_steps (h : Refines s ranges) (hmode : (s.threads t).mode ≠ .none) :
    (s.stepThread t).isSome ∨ (s.readThread t).isSome := by
  have hrange := h.range t
  have hthere := h.there t
  rw [Sys.stepThread, Sys.readThread]
  cases hthread : s.threads t with
  | idle | lockShared | lockInsert | lockScan | lockResult =>
      rw [hthread] at hmode
      exact absurd rfl hmode
  | test c =>
      left
      dsimp only
      split
      · split <;> rfl
      · rfl
  | storeStart c =>
      rw [hthread] at hrange
      obtain ⟨hsame, stackStart, stackEnd, hkept, -⟩ := hrange
      dsimp only
      rw [hsame, hkept]
      exact Or.inl rfl
  | storeEnd c =>
      rw [hthread] at hrange
      obtain ⟨stackStart, stackEnd, -, -, hheld⟩ := hrange
      dsimp only
      rw [hheld]
      exact Or.inl rfl
  | scan c k =>
      rw [hthread] at hthere
      obtain ⟨rest, cursor, header, found⟩ := k
      cases cursor with
      | some cursor =>
          right
          dsimp only
          rw [Option.isSome_map, Scan.read]
          dsimp only
          split
          · rfl
          · split
            · split <;> rfl
            · rfl
      | none =>
          cases rest with
          | nil => exact Or.inl rfl
          | cons id rest =>
              right
              have hentry : (s.roots.stackRanges.lookup id).isSome :=
                AList.lookup_isSome.mpr (hthere id List.mem_cons_self)
              dsimp only
              rw [Option.isSome_map, Scan.read]
              dsimp only
              rw [Option.isSome_map]
              exact hentry
  | unlockShared | insert | unlockInsert | unlockScan | unlockResult => exact Or.inl rfl

/-- A thread in a call goes on, or an owner of the mutex does. -/
theorem someone_steps (h : Refines s ranges) (hcall : 0 < (s.threads t).stepsLeft) :
    ∃ u, (s.stepThread u).isSome ∨ (s.readThread u).isSome := by
  by_cases hmode : (s.threads t).mode = .none
  · cases hstep : s.stepThread t with
    | some s' => exact ⟨t, Or.inl (by rw [hstep]; rfl)⟩
    | none =>
        have howner : ∃ u, (s.threads u).mode ≠ .none := by
          rw [Sys.stepThread] at hstep
          cases hthread : s.threads t with
          | idle =>
              rw [hthread] at hcall
              exact absurd hcall (Nat.lt_irrefl 0)
          | lockShared | lockResult =>
              rw [hthread] at hstep
              exact h.owned.owner_of_lockShared (Option.map_eq_none_iff.mp hstep)
          | lockInsert | lockScan =>
              rw [hthread] at hstep
              exact h.owned.owner_of_lock (Option.map_eq_none_iff.mp hstep)
          | _ =>
              rw [hthread] at hmode
              cases hmode
        obtain ⟨u, hu⟩ := howner
        exact ⟨u, h.owner_steps hu⟩
  · exact ⟨t, h.owner_steps hmode⟩

end Refines

/-- **Calls return.** In every interleaving each call takes at most eleven steps of its thread
besides the reads of its scan, a scan of stacks that end below the top of the address space takes at
most so many reads as the table says, and as long as a thread is in a call some thread can go on. -/
theorem calls_return (globalRoots : List Nat) (m : Memory) (actions : List Action)
    (hrun : Machine.run step actions (Sys.initial globalRoots m) = some s) :
    (∀ t, actions.countP (Action.isStepOf t) ≤ 11 * actions.countP (Action.isCallOf t)) ∧
      (∀ t c before during after, actions = before ++ .call t c :: (during ++ after) →
        (∀ a ∈ during, a.isCallOf t = false) → during.countP (Action.isStepOf t) ≤ 11) ∧
      (∀ t c before during after u, actions = before ++ (during ++ after) →
        Machine.run step before (Sys.initial globalRoots m) = some u →
        u.threads t = .scan c (.start u.roots.stackRanges) → WellFormedCalls before →
        (∀ a ∈ during, a.isCallOf t = false) →
        during.countP (Action.isReadOf t) ≤ scanReads u.roots.stackRanges) ∧
      ∀ t, (∀ result, s.threads t ≠ .idle result) →
        ∃ u, (s.stepThread u).isSome ∨ (s.readThread u).isSome := by
  refine ⟨fun t => ?_, ?_, ?_, fun t hcall => ?_⟩
  · have hsteps := steps_of_run (t := t) hrun
    have hidle : ((Sys.initial globalRoots m).threads t).stepsLeft = 0 := rfl
    omega
  · rintro t c before during after rfl hcalls
    rw [Machine.run_append] at hrun
    obtain ⟨u, -, hrun⟩ := Option.bind_eq_some_iff.mp hrun
    rw [← List.cons_append, Machine.run_append] at hrun
    obtain ⟨v, hduring, -⟩ := Option.bind_eq_some_iff.mp hrun
    exact steps_of_call hduring hcalls
  · rintro t c before during after u rfl hbefore hthread hwell hcalls
    rw [Machine.run_append, hbefore, Option.bind_some, Machine.run_append] at hrun
    obtain ⟨v, hduring, -⟩ := Option.bind_eq_some_iff.mp hrun
    exact reads_of_scan (refines_of_run hbefore) (rangesWithin_of_scan hwell hbefore hthread)
      hthread hcalls hduring
  · obtain ⟨ranges, hrefines⟩ := refines_of_run hrun
    exact hrefines.someone_steps (t := t) (Pc.stepsLeft_pos hcall)

theorem calls_return_sample :
    ∃ s', Machine.run step (sampleCalls ++ sampleScan) (Sys.initial [512] sampleMemory) = some s' ∧
      (sampleCalls.tail ++ sampleScan).countP (Action.isStepOf 1) ≤ 11 ∧
      sampleScan.countP (Action.isReadOf 1) ≤ scanReads sampleStart.roots.stackRanges ∧
      ∃ u, (sampleStart.stepThread u).isSome ∨ (sampleStart.readThread u).isSome := by
  have hscan : (Machine.run step sampleScan sampleStart).isSome := by decide +kernel
  obtain ⟨s', hs'⟩ := Option.isSome_iff_exists.mp hscan
  have hrun : Machine.run step (sampleCalls ++ sampleScan) (Sys.initial [512] sampleMemory) =
      some s' := by
    rw [Machine.run_append, sampleStart_run, Option.bind_some]
    exact hs'
  have htail : ∀ a ∈ sampleCalls.tail ++ sampleScan, a.isCallOf 1 = false := by
    intro a ha
    rcases List.mem_append.mp ha with htail | hlater
    · have hall : sampleCalls.tail.all (fun a => !a.isCallOf 1) := by decide +kernel
      simpa using List.all_eq_true.mp hall a htail
    · exact sampleScan_calls a hlater
  have hwhole := calls_return [512] sampleMemory (sampleCalls ++ sampleScan) hrun
  have hfirst := calls_return [512] sampleMemory sampleCalls sampleStart_run
  refine ⟨s', hrun, hwhole.2.1 1 { basePtr := 2016, sp := 2000, roots := true } []
      (sampleCalls.tail ++ sampleScan) [] (by rw [List.append_nil]; rfl) htail,
    hwhole.2.2.1 1 _ sampleCalls sampleScan [] sampleStart (by rw [List.append_nil]) sampleStart_run
      sampleStart_thread sampleCalls_wellFormed sampleScan_calls,
    hfirst.2.2.2 1 fun result hidle => ?_⟩
  rw [sampleStart_thread] at hidle
  cases hidle

end Gcpp.RootsLock
