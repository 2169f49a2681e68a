import Gcpp.Proof.DataSteps

/-!
# Data under a running collection

As long as all stores land, every byte keeps what the program has written last, unless the
collection fails; and when the task has finished, every root slot holds the homes of its object. A
store that comes between the copy of a word and the update of the slot is lost.
-/

namespace Gcpp.Concurrent

open ByteMemory StateExcept

variable {cfg : Config} {roots : RootSlots cfg} {s : Sys roots} {r r' : Running} {origin : State}
  {ptr : FatPtr} {data : MetaData} {p : Nat}

/-! ### A collection that fails -/

/-- The copy has no room: `check_overlapping_alloc` or what follows it throws. -/
def Stage.Cramped (cfg : Config) : Stage → Prop
  | .check _ _ oldData index => ∀ i, index = some i → cfg.heapSize ≤ oldData.size + i
  | .register _ _ oldData index => ∀ i, index = some i → cfg.heapSize ≤ oldData.size + i
  | _ => False

/-- A collection has failed, or is about to. -/
def Sys.Lost (s : Sys roots) : Prop :=
  s.failures ≠ [] ∨ ∃ r, s.worker = some r ∧ r.stage.Cramped cfg

theorem Stage.Cramped.step (h : r.stage.Cramped cfg) {heap heap' : State} {next : Option Running}
    (hrun : (r.step cfg).run heap = .ok next heap') :
    ∃ r', next = some r' ∧ r'.stage.Cramped cfg := by
  cases hstage : r.stage <;> rw [hstage] at h <;> try exact h.elim
  case check p ptr data index =>
    simp only [Running.step, hstage] at hrun
    obtain ⟨_, t, _, hnext⟩ := run_bind_eq_ok.mp hrun
    cases hnext
    exact ⟨_, rfl, h⟩
  case register p ptr data index =>
    simp only [Running.step, hstage] at hrun
    cases index with
    | none => cases hrun
    | some i =>
        have hfull := h i rfl
        obtain ⟨newObj, t, hrefused, _⟩ := run_bind_eq_ok.mp hrun
        rw [run_allocNoConstraints, if_pos (by omega)] at hrefused
        cases hrefused

namespace Sys

variable {u : Sys roots}

/-- **A failure is not made good.** -/
theorem Lost.stepWorker (h : s.Lost) (hstep : s.stepWorker = some u) : u.Lost := by
  -- a task that has no room does not end before it throws
  have hnext : ∀ {r : Running} {next : Option Running} {heap : State}, s.worker = some r →
      (r.step cfg).run s.heap = .ok next heap →
      s.failures ≠ [] ∨ ∃ r', next = some r' ∧ r'.stage.Cramped cfg := by
    intro r next heap hworker hrun
    refine h.imp_right fun ⟨r₀, hnow, hcramped⟩ => ?_
    rw [hworker] at hnow
    cases hnow
    exact hcramped.step hrun
  cases workerMove hstep with
  | start toSpace tasks hworker =>
      refine Or.inl (h.resolve_right fun ⟨r, hnow, _⟩ => ?_)
      rw [hworker] at hnow
      cases hnow
  | next r r' heap hworker hrun =>
      refine (hnext hworker hrun).imp_right fun ⟨r₁, heq, hcramped⟩ => ⟨r', rfl, ?_⟩
      cases heq
      exact hcramped
  | finish r heap hworker hrun =>
      refine Or.inl ((hnext hworker hrun).resolve_right fun ⟨r₁, heq, _⟩ => ?_)
      cases heq
  | fail => exact Or.inl (List.cons_ne_nil _ _)

/-- Without room for the copy the collection is lost. -/
theorem lost_of_not_hasRoom (hworker : s.worker = some r) (hstage : r.stage = .reserve p ptr data)
    (hroom : ¬ HasRoom cfg s.heap r.toSpace data) (hstep : s.stepWorker = some u) : u.Lost := by
  cases workerMove hstep with
  | start _ _ hnone =>
      rw [hworker] at hnone
      cases hnone
  | next r₀ r' heap hnow hrun =>
      rw [hworker] at hnow
      cases hnow
      simp only [Running.step, hstage] at hrun
      obtain ⟨index, t, hreserve, hnext⟩ := run_bind_eq_ok.mp hrun
      cases hnext
      refine Or.inr ⟨_, rfl, fun i hi => ?_⟩
      subst hi
      obtain ⟨padding, hpadding, rfl⟩ := index_of_reserveSpace hreserve
      by_contra hfits
      exact hroom ⟨padding, hpadding, by omega⟩
  | finish r₀ heap hnow hrun =>
      rw [hworker] at hnow
      cases hnow
      simp only [Running.step, hstage] at hrun
      obtain ⟨index, t, _, hnext⟩ := run_bind_eq_ok.mp hrun
      cases hnext
  | fail => exact Or.inl (List.cons_ne_nil _ _)

end Sys

/-! ### Whole runs -/

variable {w u : WriteSys roots}

namespace WriteInv

theorem phase_of_running (h : WriteInv origin w r) (hworker : w.sys.worker = some r') :
    w.sys.tasks = [] ∧ r' = r := by
  rcases h.phase with ⟨_, hnone, _⟩ | ⟨htasks, hsome⟩ | ⟨hquiet, _⟩
  · rw [hworker] at hnone
    cases hnone
  · rw [hworker] at hsome
    exact ⟨htasks, Option.some.inj hsome⟩
  · rw [hquiet.2] at hworker
    cases hworker

/-- **A step of the task keeps the data**, or the collection fails. -/
theorem stepWorker (h : WriteInv origin w r) (hapart : SpacesApart cfg) {sys : Sys roots}
    (hstep : w.sys.stepWorker = some sys) : sys.Lost ∨ ∃ r', WriteInv origin { w with sys } r' := by
  by_cases hcareful : Careful w.sys .worker
  · have hinv := h.inv.stepWorker hcareful hstep
    right
    cases Sys.workerMove hstep with
    | start toSpace tasks hworker htasks =>
        obtain ⟨hone, _, hr⟩ := h.phase.resolve_right fun hlater =>
          hlater.elim (fun hbusy => by simp [hbusy.2] at hworker)
            fun hend => by simp [hend.1.1] at htasks
        rw [htasks] at hone
        obtain ⟨rfl, rfl⟩ := List.cons.inj hone
        refine ⟨r, hinv, Or.inr (Or.inl ⟨rfl, ?_⟩), h.copying, h.mirrors⟩
        rw [hr]
    | next r₀ r' heap hworker hrun =>
        obtain ⟨htasks, rfl⟩ := h.phase_of_running hworker
        obtain ⟨hcopying, hmirrors⟩ := h.kept hapart hworker hrun
        exact ⟨r', hinv, Or.inr (Or.inl ⟨htasks, rfl⟩), hcopying, hmirrors⟩
    | finish r₀ heap hworker hrun =>
        obtain ⟨htasks, rfl⟩ := h.phase_of_running hworker
        have hstage := stage_of_finished hrun
        obtain ⟨hcopying, hmirrors⟩ := h.kept_sweep hworker hstage hrun
        have hcurrent : r₀.toSpace = heap.spaceNum := by
          rw [h.inv.run_task_sweep hstage] at hrun
          cases hrun
          exact (h.inv.running r₀ hworker).current
        exact ⟨r₀, hinv, Or.inr (Or.inr ⟨⟨htasks, rfl⟩, hstage, hcurrent⟩), hcopying, hmirrors⟩
    | fail =>
        have hsucceeded := hinv.succeeded
        cases hsucceeded
  · left
    rw [Careful] at hcareful
    push Not at hcareful
    obtain ⟨r', hworker, hcareless⟩ := hcareful
    cases hstage : r'.stage <;> rw [CarefulTask, hstage] at hcareless <;>
      try exact absurd trivial hcareless
    exact Sys.lost_of_not_hasRoom hworker hstage hcareless hstep

/-- A collection starts with every byte where it was. -/
theorem of_steady (h : Steady s) : ∃ r, WriteInv s.heap (.start s) r := by
  have hflip : s.heap.spaceNum.flip.flip = s.heap.spaceNum := SpaceNum.flip_flip _
  let first : Running :=
    { toSpace := s.heap.spaceNum.flip
      visited := ∅
      roots := roots.slots
      stack := []
      stage := .roots }
  have hnone : ∀ {obj new}, ¬ first.Target obj new := by
    rintro obj new (hvisited | heq)
    · cases hvisited
    · cases heq
  refine ⟨first, ?_⟩
  exact
    { inv := h.inv.asyncCollect h.quiet fun t req index hthread => by
        rw [h.idle t] at hthread
        cases hthread
      phase := Or.inl ⟨by
        change s.tasks ++ [_] = [_]
        rw [h.quiet.1]
        rfl, h.quiet.2, rfl⟩
      copying :=
        { settled := by
            rw [hflip]
            exact
              { lo := h.lo
                hi := fun hdata => (h.hi hdata).trans (Nat.add_le_add_left h.nextLe _)
                pos := h.pos
                separated := h.apart }
          old := fun hdata _ => hdata
          gone := fun hvisited => absurd (Or.inl hvisited) hnone
          target := fun hnow => absurd hnow hnone
          injective := fun hnow => absurd hnow hnone
          unvisited := fun heq => by cases heq
          top := fun heq => by cases heq
          last := fun heq => by cases heq
          stack := fun _ hq => by cases hq
          hand := fun heq => by cases heq }
      mirrors :=
        { held := fun _ _ _ _ hobj => ⟨_, (objectAt_eq_some.mp hobj).1, Or.inl rfl⟩
          loads := fun hload => by cases hload
          bytes := fun _ _ _ => rfl } }

/-- **When the task has finished** every root slot holds the homes of its object. -/
theorem dataKept (h : WriteInv origin w r) (hquiet : w.sys.Quiet) : DataKept origin w := by
  intro slot hslot obj data hobj
  have hdata := (objectAt_eq_some.mp hobj).2
  obtain ⟨ptr, hptr, hrefers⟩ := h.mirrors.held slot hslot hobj
  refine ⟨ptr, atomicLoad_of_testPtr hptr, fun i hi => ?_⟩
  obtain ⟨hstage, hcurrent⟩ : r.stage = .sweep ∧ r.toSpace = w.sys.heap.spaceNum := by
    rcases h.phase with ⟨htasks, _⟩ | ⟨_, hworker⟩ | ⟨_, hend⟩
    · rw [hquiet.1] at htasks
      cases htasks
    · rw [hquiet.2] at hworker
      cases hworker
    · exact hend
  have hbytes := h.mirrors.bytes hdata i hi
  -- no root slot refers into the space that was left
  rcases hrefers with rfl | hvisited | herase
  · have hfrom := h.copying.settled.findSpace hdata
    have hcontains : contains cfg ptr.asPtr = true := by
      rw [contains_iff, hfrom]
      rfl
    obtain ⟨hto, _⟩ := h.inv.rootsTraced.finished hquiet slot hslot ptr hptr hcontains
    rw [← hcurrent] at hto
    exact absurd hfrom (findSpace_ne_flip hto)
  · rw [Running.home_of_visited hvisited] at hbytes
    exact hbytes
  · rw [hstage] at herase
    cases herase

end WriteInv

/-- The data is kept unless the collection fails. -/
def DataSafe (origin : State) (w : WriteSys roots) : Prop :=
  w.sys.Lost ∨ ∃ r, WriteInv origin w r

theorem WriteSys.sys_store {t : ThreadId} {offset width value : Nat}
    (hstep : w.store origin t offset width value = some u) :
    u.sys.failures = w.sys.failures ∧ u.sys.worker = w.sys.worker := by
  rw [WriteSys.store] at hstep
  split at hstep
  · cases hstep
  · split at hstep
    · cases hstep
    · split at hstep <;> cases hstep
      exact ⟨rfl, rfl⟩

theorem DataSafe.step (hapart : SpacesApart cfg) (a : WriteAction roots) (w u : WriteSys roots)
    (h : DataSafe origin w) (hlands : Lands w a) (hstep : writeStep origin a w = some u) :
    DataSafe origin u := by
  cases a with
  | load t slot =>
      have hload : w.load t slot = some u := hstep
      refine h.imp (fun hlost => ?_) fun ⟨r, hinv⟩ => ⟨r, hinv.load hload⟩
      obtain ⟨_, _, rfl⟩ := Option.map_eq_some_iff.mp hload
      exact hlost
  | store t offset width value =>
      have hstore : w.store origin t offset width value = some u := hstep
      refine h.imp (fun hlost => ?_) fun ⟨r, hinv⟩ => ⟨r, hinv.store hlands hstore⟩
      obtain ⟨hfailures, hworker⟩ := WriteSys.sys_store hstore
      rw [Sys.Lost, hfailures, hworker]
      exact hlost
  | worker =>
      obtain ⟨sys, hsys, rfl⟩ := Option.map_eq_some_iff.mp hstep
      rcases h with hlost | ⟨r, hinv⟩
      · exact Or.inl (hlost.stepWorker hsys)
      · exact hinv.stepWorker hapart hsys

/-- **No data is lost** in a run whose stores all land: when the collection has come to its end,
every byte of an object reads through a root slot as the program has written it last. -/
theorem writes_kept (hapart : SpacesApart cfg) (hsteady : Steady s)
    {actions : List (WriteAction roots)}
    (hlands : Machine.Meets (writeStep s.heap) Lands actions (.start s))
    (hrun : Machine.run (writeStep s.heap) actions (.start s) = some w) (hfinished : w.Finished) :
    DataKept s.heap w := by
  have hsafe : DataSafe s.heap w :=
    Machine.run_induction (DataSafe.step hapart) (Or.inr (WriteInv.of_steady hsteady)) hlands hrun
  rcases hsafe with (hfailed | ⟨r, hworker, _⟩) | ⟨r, hinv⟩
  · exact absurd hfinished.succeeded hfailed
  · rw [hfinished.quiet.2] at hworker
    cases hworker
  · exact hinv.dataKept hfinished.quiet

/-- A thread writes to the object before its word is copied, and again when the collection has
ended. -/
def earlyWrites : List (WriteAction sampleRoots) :=
  [.load 1 secondSlot,
    .worker, .worker, .worker, .worker, .worker, .worker, .worker, .worker, .worker, .worker,
    .worker, .store 1 0 8 1, .worker, .worker, .worker, .worker, .worker, .worker, .worker,
    .load 1 secondSlot, .store 1 4 4 9]

theorem writes_kept_sample :
    ∃ w, Machine.run (writeStep sampleFilled.heap) earlyWrites (.start sampleFilled) = some w ∧
      DataKept sampleFilled.heap w := by
  have hlands : Machine.Meets (writeStep sampleFilled.heap) Lands earlyWrites
      (.start sampleFilled) := by
    decide +kernel
  have hview : (Machine.run (writeStep sampleFilled.heap) earlyWrites (.start sampleFilled)).map
      (fun w => (w.sys.tasks.isEmpty, w.sys.worker.isNone, w.sys.failures.isEmpty)) =
      some (true, true, true) := by
    decide +kernel
  obtain ⟨w, hrun, hview⟩ := Option.map_eq_some_iff.mp hview
  simp only [Prod.mk.injEq, List.isEmpty_iff, Option.isNone_iff_eq_none] at hview
  obtain ⟨htasks, hworker, hfailures⟩ := hview
  exact ⟨w, hrun, writes_kept (Or.inl (by decide)) steady_sampleFilled hlands hrun
    ⟨⟨htasks, hworker⟩, hfailures⟩⟩

/-- The word has been copied when a thread writes it through the address that it has loaded before,
and the slot is updated only then. -/
def lateWrite : List (WriteAction sampleRoots) :=
  [.load 1 secondSlot,
    .worker, .worker, .worker, .worker, .worker, .worker, .worker, .worker, .worker, .worker,
    .worker, .worker, .store 1 0 8 1, .worker, .worker, .worker, .worker, .worker, .worker]

/-- **A write is lost** that comes between the copy of its word and the update of the slot. -/
theorem late_write_lost :
    ¬ ∀ (s : Sys sampleRoots) (w : WriteSys sampleRoots) (actions : List (WriteAction sampleRoots)),
      SpacesApart Config.sample → Steady s →
      Machine.run (writeStep s.heap) actions (.start s) = some w → w.Finished →
      DataKept s.heap w := by
  intro h
  have hview : (Machine.run (writeStep sampleFilled.heap) lateWrite (.start sampleFilled)).map
      (fun w => (w.sys.tasks.isEmpty && w.sys.worker.isNone && w.sys.failures.isEmpty,
        atomicLoad w.sys.heap.mem 2048, w.sys.heap.mem 131072,
        w.written (FatPtr.ofAddr 65536) 0)) =
      some (true, some (FatPtr.ofAddr 131072), 0, 1) := by
    decide +kernel
  obtain ⟨w, hrun, hview⟩ := Option.map_eq_some_iff.mp hview
  simp only [Prod.mk.injEq, Bool.and_eq_true, List.isEmpty_iff, Option.isNone_iff_eq_none] at hview
  obtain ⟨⟨⟨htasks, hworker⟩, hfailures⟩, hload, hbyte, hwritten⟩ := hview
  obtain ⟨ptr, hptr, hbytes⟩ := h _ w _ (Or.inl (by decide)) steady_sampleFilled hrun
    ⟨⟨htasks, hworker⟩, hfailures⟩ 2048 (by decide) (FatPtr.ofAddr 65536)
    { size := 8, alignment := 8 } (by decide +kernel)
  rw [hload] at hptr
  cases hptr
  have hlost := hbytes 0 (by decide)
  rw [hwritten] at hlost
  exact absurd (hbyte.symm.trans hlost) (by decide)

end Gcpp.Concurrent
