import Mathlib.Logic.Relation
import Gcpp.Concurrent
import Gcpp.Proof.Accounting

/-!
# Runs that nobody disturbs

When no thread takes a step while a task runs, the steps of the task add up to the collection of the
sequential collector: they end in the heap that `collectionTask` leaves. The same is true of an
allocation. So what is proved of a collection as a whole holds of a task that has the collector for
itself, and what goes wrong in a run of many threads is due to the interleaving.
-/

namespace Gcpp.Concurrent

open ByteMemory StateExcept Relation

variable {cfg : Config} {policy : GenPolicy} {r : Running} {s t : State}
  {p : Nat} {stack stack' : List Nat} {visited visited' : Visited} {ptr newPtr : FatPtr}
  {data : MetaData}

/-- A step of a task that does not end it, with the heap. -/
def TaskStep (cfg : Config) (c d : Running × State) : Prop :=
  (c.1.step cfg).run c.2 = .ok (some d.1) d.2

/-- The steps of a task, one after the other. -/
abbrev TaskSteps (cfg : Config) : Running × State → Running × State → Prop :=
  ReflTransGen (TaskStep cfg)

/-! ### One object -/

/-- The moves that are left of a copy make the memory that the loop of `seq_cst_cpy` makes. -/
theorem steps_words (rounds : Nat) : ∀ {i : Nat} {s : State}, data.size ≤ i + rounds →
    TaskSteps cfg ({ r with stage := .words p ptr data newPtr i }, s)
      ({ r with stage := .exchange p ptr newPtr },
        { s with mem := seqCstCpyLoop newPtr.asPtr ptr.asPtr data.size rounds i s.mem }) := by
  induction rounds with
  | zero =>
      intro i s hrounds
      apply ReflTransGen.single
      simp only [TaskStep, Running.step, seqCstCpyLoop]
      rw [if_neg (by omega)]
      rfl
  | succ rounds ih =>
      intro i s hrounds
      have hpos := cpyWidth_pos (ptr.asPtr + i)
      rw [seqCstCpyLoop]
      by_cases hi : i < data.size
      · rw [if_pos hi]
        refine ReflTransGen.head (b := (_, { s with
          mem := move s.mem (newPtr.asPtr + i) (ptr.asPtr + i) (cpyWidth (ptr.asPtr + i)) })) ?_
          (ih (by omega))
        simp only [TaskStep, Running.step]
        rw [if_pos hi]
        rfl
      · rw [if_neg hi]
        apply ReflTransGen.single
        simp only [TaskStep, Running.step]
        rw [if_neg hi]
        rfl

/-- **The stages of a copy** do what `copy` does. -/
theorem steps_copy (h : (copy cfg p r.toSpace ptr).run s = .ok newPtr t) :
    TaskSteps cfg ({ r with stage := .copy p ptr }, s)
      ({ r with visited := AssocMap.emplace ptr newPtr r.visited, stage := .forward }, t) := by
  obtain ⟨space, s₁, hspace, h⟩ := run_bind_eq_ok.mp h
  by_cases hto : space = r.toSpace
  · rw [if_pos hto] at h
    cases h
    apply ReflTransGen.single
    simp only [TaskStep, Running.step]
    rw [run_bind_of_ok hspace, if_pos hto]
    rfl
  rw [if_neg hto] at h
  obtain ⟨oldData, s₂, hdata, h⟩ := run_bind_eq_ok.mp h
  obtain ⟨index, s₃, hreserve, h⟩ := run_bind_eq_ok.mp h
  obtain ⟨⟨⟩, s₄, hcheck, h⟩ := run_bind_eq_ok.mp h
  cases index with
  | none => cases h
  | some index =>
      obtain ⟨newObj, s₅, halloc, h⟩ := run_bind_eq_ok.mp h
      cases h
      have hlookup : TaskStep cfg ({ r with stage := .copy p ptr }, s)
          ({ r with stage := .lookup p ptr }, s₁) := by
        simp only [TaskStep, Running.step]
        rw [run_bind_of_ok hspace, if_neg hto]
        rfl
      have hreserving : TaskStep cfg ({ r with stage := .lookup p ptr }, s₁)
          ({ r with stage := .reserve p ptr oldData }, s₂) := by
        simp only [TaskStep, Running.step]
        rw [run_bind_of_ok hdata]
        rfl
      have hchecking : TaskStep cfg ({ r with stage := .reserve p ptr oldData }, s₂)
          ({ r with stage := .check p ptr oldData (some index) }, s₃) := by
        simp only [TaskStep, Running.step]
        rw [run_bind_of_ok hreserve]
        rfl
      have hregistering : TaskStep cfg ({ r with stage := .check p ptr oldData (some index) }, s₃)
          ({ r with stage := .register p ptr oldData (some index) }, s₄) := by
        simp only [TaskStep, Running.step]
        rw [run_bind_of_ok hcheck]
        rfl
      have hwords : TaskStep cfg ({ r with stage := .register p ptr oldData (some index) }, s₄)
          ({ r with stage := .words p ptr oldData newPtr 0 }, s₅) := by
        simp only [TaskStep, Running.step]
        rw [run_bind_of_ok halloc]
        rfl
      have herasing : ∀ u : State, TaskStep cfg ({ r with stage := .exchange p ptr newPtr }, u)
          ({ r with stage := .erase ptr newPtr },
            { u with mem := (compareExchange u.mem p ptr newPtr).2 }) := fun _ => rfl
      have hforwarding : ∀ u : State, TaskStep cfg ({ r with stage := .erase ptr newPtr }, u)
          ({ r with visited := AssocMap.emplace ptr newPtr r.visited, stage := .forward },
            { u with metadata := u.metadata.erase ptr }) := fun _ => rfl
      apply ReflTransGen.head hlookup
      apply ReflTransGen.head hreserving
      apply ReflTransGen.head hchecking
      apply ReflTransGen.head hregistering
      apply ReflTransGen.head hwords
      refine (steps_words oldData.size (Nat.le_add_left _ _)).trans ?_
      exact .head (herasing _) (.single (hforwarding _))

/-- **The stages of a round** do what a round of `forward_ptr` does. -/
theorem steps_forwardIter (hcopies : policy.Copies) (hstage : r.stage = .forward)
    (h : (forwardIter cfg policy r.toSpace p stack r.visited).run s = .ok (stack', visited') t) :
    TaskSteps cfg ({ r with stack := p :: stack }, s)
      ({ r with stack := stack', visited := visited' }, t) := by
  obtain ⟨toSpace, visited, roots, _, stage⟩ := r
  cases hstage
  -- the test of the slot and the test of the object are two locked regions
  have htested : ∀ v, testPtr s.mem p = some v →
      TaskStep cfg (⟨toSpace, visited, roots, p :: stack, .forward⟩, s)
        (⟨toSpace, visited, roots, stack, .tested p v⟩, s) := by
    intro v hslot
    simp only [TaskStep, Running.step, EStateM.run_bind, EStateM.run_get, hslot]
    rfl
  have hregion : ∀ {v : FatPtr} {data : MetaData} {space : SpaceNum}, visited.lookup v = none →
      s.metadata.lookup v = some data → findSpace cfg v.asPtr = some space →
      TaskStep cfg (⟨toSpace, visited, roots, stack, .tested p v⟩, s)
        (⟨toSpace, visited, roots, stack, if space = toSpace then .forward else .found p v⟩, s) := by
    intro v data space hvisited hdata hspace
    simp only [TaskStep, Running.step, hvisited]
    rw [EStateM.run_bind, EStateM.run_get]
    simp only [hdata]
    rw [run_bind_of_ok (run_getSpaceNum s hspace)]
    split_ifs <;> rfl
  have hround := forwardIter_round cfg policy toSpace p stack visited s
  rw [h] at hround
  cases hround with
  | empty hslot hresult =>
      cases hresult
      apply ReflTransGen.single
      simp only [TaskStep, Running.step, EStateM.run_bind, EStateM.run_get, hslot]
      rfl
  | update v forwarded hslot hvisited hresult =>
      cases hresult
      apply ReflTransGen.head (htested v hslot)
      apply ReflTransGen.single
      simp only [TaskStep, Running.step, hvisited]
      rfl
  | unmanaged v hslot hvisited hdata hresult =>
      cases hresult
      apply ReflTransGen.head (htested v hslot)
      apply ReflTransGen.single
      simp only [TaskStep, Running.step, hvisited, EStateM.run_bind, EStateM.run_get, hdata]
      rfl
  | outside _ _ _ _ _ hresult => cases hresult
  | moved v data hslot hvisited hdata hspace hresult =>
      cases hresult
      have hstep := hregion hvisited hdata hspace
      rw [if_pos rfl] at hstep
      exact .head (htested v hslot) (.single hstep)
  | endless _ _ _ _ hresult => cases hresult
  | found v data space slots hslot hvisited hdata hspace hne hscan hresult =>
      rw [if_pos (hcopies v)] at hresult
      obtain ⟨newPtr, _, hcopy, hfinal⟩ := run_bind_eq_ok.mp hresult.symm
      cases hfinal
      have hstep := hregion hvisited hdata hspace
      rw [if_neg hne] at hstep
      have hfound : TaskStep cfg (⟨toSpace, visited, roots, stack, .found p v⟩, s)
          (⟨toSpace, visited, roots, slots.reverse ++ stack, .copy p v⟩, s) := by
        simp only [TaskStep, Running.step]
        rw [run_bind_of_ok (run_metadataAt hdata), EStateM.run_bind, EStateM.run_get]
        simp only [hscan]
        rfl
      apply ReflTransGen.head (htested v hslot)
      apply ReflTransGen.head hstep
      apply ReflTransGen.head hfound
      exact steps_copy (r := ⟨toSpace, visited, roots, slots.reverse ++ stack, .forward⟩) hcopy

/-! ### The traversal -/

theorem steps_forwardLoop (hcopies : policy.Copies) (rounds : Nat) :
    ∀ {r : Running} {s : State}, r.stage = .forward →
      (forwardLoop cfg policy r.toSpace rounds r.stack r.visited).run s = .ok visited' t →
      TaskSteps cfg (r, s) ({ r with stack := [], visited := visited' }, t) := by
  induction rounds with
  | zero =>
      intro r s _ h
      obtain ⟨toSpace, visited, roots, stack, stage⟩ := r
      cases stack with
      | nil =>
          cases h
          exact .refl
      | cons p stack => cases h
  | succ rounds ih =>
      intro r s hstage h
      obtain ⟨toSpace, visited, roots, stack, stage⟩ := r
      cases stack with
      | nil =>
          cases h
          exact .refl
      | cons p stack =>
          obtain ⟨⟨stack', visited₁⟩, s₁, hiter, h⟩ := run_bind_eq_ok.mp h
          have hround := steps_forwardIter
            (r := ⟨toSpace, visited, roots, p :: stack, stage⟩) hcopies hstage hiter
          exact hround.trans
            (ih (r := ⟨toSpace, visited₁, roots, stack', stage⟩) hstage h)

/-- **The loop over the roots**, from the first root that is left to the sweep. -/
theorem steps_forwardRoots (hcopies : policy.Copies) (toSpace : SpaceNum) (roots : List Nat) :
    ∀ {visited : Visited} {s : State},
      (forwardRoots cfg policy toSpace roots visited).run s = .ok visited' t →
      TaskSteps cfg (⟨toSpace, visited, roots, [], .roots⟩, s)
        (⟨toSpace, visited', [], [], .sweep⟩, t) := by
  induction roots with
  | nil =>
      intro visited s h
      cases h
      exact .single rfl
  | cons root roots ih =>
      intro visited s h
      rcases held_or_not cfg s.mem root with ⟨ptr, hslot, hcontains⟩ | hslot
      · rw [run_forwardRoots_of_held hslot hcontains] at h
        obtain ⟨visited₁, s₁, hptr, h⟩ := run_bind_eq_ok.mp h
        rw [forwardPtr, EStateM.run_bind, EStateM.run_get] at hptr
        have hpush : TaskStep cfg (⟨toSpace, visited, root :: roots, [], .roots⟩, s)
            (⟨toSpace, visited, roots, [root], .forward⟩, s) := by
          simp only [TaskStep, Running.step, EStateM.run_bind, EStateM.run_get, hslot]
          rw [if_pos hcontains]
          rfl
        have hloop := steps_forwardLoop
          (r := ⟨toSpace, visited, roots, [root], .forward⟩) hcopies _ rfl hptr
        have hpop : TaskStep cfg (⟨toSpace, visited₁, roots, [], .forward⟩, s₁)
            (⟨toSpace, visited₁, roots, [], .roots⟩, s₁) := rfl
        exact .head hpush (hloop.trans (.head hpop (ih h)))
      · rw [run_forwardRoots_of_not_held hslot] at h
        refine .head ?_ (ih h)
        simp only [TaskStep, Running.step, EStateM.run_bind, EStateM.run_get]
        cases hptr : testPtr s.mem root with
        | none => rfl
        | some ptr =>
            dsimp only
            rw [if_neg (by simp [hslot ptr hptr])]
            rfl

/-! ### The whole task -/

section Machine

variable {roots : RootSlots cfg} {sys : Sys roots}

theorem run_worker_steps {c d : Running × State} (h : TaskSteps cfg c d) (sys : Sys roots) :
    ∃ n, Machine.run step (List.replicate n .worker) { sys with
        heap := c.2
        worker := some c.1 } = some { sys with heap := d.2, worker := some d.1 } := by
  induction h using ReflTransGen.head_induction_on with
  | refl => exact ⟨0, rfl⟩
  | @head a b hstep _ ih =>
      obtain ⟨n, hrun⟩ := ih
      refine ⟨n + 1, ?_⟩
      have hworker : step .worker { sys with heap := a.2, worker := some a.1 } =
          some { sys with heap := b.2, worker := some b.1 } := by
        simp only [step, Sys.stepWorker]
        rw [hstep]
      rw [List.replicate_succ, Machine.run, hworker]
      exact hrun

/-- **A task that nobody disturbs** leaves the heap that the sequential task leaves. -/
theorem run_task (hcopies : policy.Copies) {toSpace : SpaceNum} {tasks : List SpaceNum}
    {result : Visited × List FatPtr} {heap : State} (hworker : sys.worker = none)
    (htasks : sys.tasks = toSpace :: tasks)
    (h : (collectionTask cfg policy toSpace roots.slots []).run sys.heap = .ok result heap) :
    ∃ n, Machine.run step (List.replicate n .worker) sys =
      some { sys with heap, tasks, finished := sys.finished + 1 } := by
  rw [collectionTask, List.append_nil] at h
  obtain ⟨visited, t, hforward, h⟩ := run_bind_eq_ok.mp h
  obtain ⟨⟨⟩, t', hsweep, h⟩ := run_bind_eq_ok.mp h
  cases h
  have hstart : step .worker sys = some { sys with
      tasks
      worker := some ⟨toSpace, ∅, roots.slots, [], .roots⟩ } := by
    simp only [step, Sys.stepWorker, hworker, htasks]
  obtain ⟨n, hforwarded⟩ : ∃ n, Machine.run step (List.replicate n .worker) { sys with
        tasks
        worker := some ⟨toSpace, ∅, roots.slots, [], .roots⟩ } =
      some { sys with tasks, heap := t, worker := some ⟨toSpace, visited, [], [], .sweep⟩ } :=
    run_worker_steps (steps_forwardRoots hcopies toSpace roots.slots hforward) { sys with tasks }
  have hend : step .worker { sys with
        tasks
        heap := t
        worker := some ⟨toSpace, visited, [], [], .sweep⟩ } =
      some { sys with heap, tasks, finished := sys.finished + 1 } := by
    simp only [step, Sys.stepWorker, Running.step]
    rw [run_bind_of_ok hsweep]
    simp only [EStateM.run_pure, hworker]
  refine ⟨n + 1 + 1, ?_⟩
  rw [List.replicate_succ, Machine.run, hstart, Option.bind_some, List.replicate_succ',
    Machine.run_append, hforwarded, Option.bind_some, Machine.run, hend]
  rfl

/-- **A collection that nobody disturbs is the sequential one.** -/
theorem run_asyncCollect_undisturbed (hcopies : policy.Copies) {result : Visited × List FatPtr}
    {heap : State} (hquiet : sys.Quiet)
    (h : (asyncCollect cfg policy roots.slots []).run sys.heap = .ok result heap) :
    ∃ n, Machine.run step (List.replicate n .worker) sys.asyncCollect =
      some { sys.asyncCollect with heap, tasks := [], finished := sys.finished + 1 } := by
  have hworker : sys.asyncCollect.worker = none := hquiet.2
  have htasks : sys.asyncCollect.tasks = [sys.heap.spaceNum.flip] := by
    rw [Sys.asyncCollect, hquiet.1]
    rfl
  exact run_task hcopies hworker htasks h

/-- A task that nobody disturbs finishes, from every heap whose live sizes leave room for it. -/
theorem task_finishes (hquiet : sys.Quiet) (h : Accounted cfg sys.heap) :
    ∃ n heap, Machine.run step (List.replicate n .worker) sys.asyncCollect =
      some { sys.asyncCollect with heap, tasks := [], finished := sys.finished + 1 } ∧
      Accounted cfg heap := by
  have hcopies : GenPolicy.copying.Copies := GenPolicy.copying_copies
  obtain ⟨_, heap, hcollect, hheap⟩ := h.collect_total hcopies roots.slots []
  obtain ⟨n, hrun⟩ := run_asyncCollect_undisturbed hcopies hquiet hcollect
  exact ⟨n, heap, hrun, hheap⟩

/-! ### An allocation -/

theorem setThread_eq_self {id : ThreadId} {pc : Thread roots} (h : sys.threads id = pc) :
    sys.setThread id pc = sys := by
  rw [Sys.setThread, ← h, Function.update_eq_self]

theorem not_hangs_of_ok {req : Request roots} {result : SpaceNum × Option Nat} {heap : State}
    (h : (reserveAttempt cfg req.size req.alignment).run sys.heap = .ok result heap) :
    ¬ sys.Hangs req := by
  intro hhangs
  rw [reserveAttempt, EStateM.run_bind, EStateM.run_get] at h
  obtain ⟨index, u, hreserve, _⟩ := run_bind_eq_ok.mp h
  simp only [reserveSpace] at hreserve
  rw [EStateM.run_bind, EStateM.run_get] at hreserve
  dsimp only at hreserve
  rw [show calcAlignmentBytes _ _ = none from hhangs] at hreserve
  cases hreserve

theorem not_hangs_of_small {req : Request roots} (hsmall : SmallAlignment req.alignment) :
    ¬ sys.Hangs req := by
  intro hhangs
  obtain ⟨padding, _, hpadding, _⟩ := calcAlignmentBytes_spec hsmall
    (cfg.base sys.heap.spaceNum + sys.heap.nexts sys.heap.spaceNum)
  rw [show calcAlignmentBytes _ _ = none from hhangs] at hpadding
  cases hpadding

/-- **An allocation that nobody disturbs** and that gets its block at once is the sequential one. -/
theorem run_alloc_undisturbed {id : ThreadId} {req : Request roots} {heap : State}
    (hidle : sys.threads id = .idle) (hsize : ¬ (req.size = 0 ∨ req.size > cfg.maxAllocSize))
    (h : (allocAttempt cfg policy [] req.size req.alignment 0).run sys.heap = .ok ptr heap) :
    Machine.run step [.alloc id req, .step id, .step id] sys =
      some { sys with heap := { heap with mem := writeFatPtr heap.mem req.slot ptr } } := by
  obtain ⟨⟨space, index⟩, heap₁, hreserve, h⟩ := run_bind_eq_ok.mp h
  cases index with
  | none => cases h
  | some index =>
      have hregister : (allocNoConstraints cfg space { size := req.size, alignment := req.alignment }
          index).run heap₁ = .ok ptr heap := h
      have hstart : step (.alloc id req) sys = some (sys.setThread id (.attempt req 1)) := by
        simp only [step, hidle, Sys.startAlloc]
        rw [if_neg hsize]
      have hattempt : step (.step id) (sys.setThread id (.attempt req 1)) =
          some ({ sys with heap := heap₁ }.setThread id (.reserved req space index)) := by
        have hends : ¬ (sys.setThread id (.attempt req 1)).Hangs req := not_hangs_of_ok hreserve
        have hthread : (sys.setThread id (.attempt req 1)).threads id = .attempt req 1 :=
          Function.update_self _ _ _
        rw [step, Sys.stepThread, hthread]
        dsimp only
        rw [if_neg hends]
        simp only [Sys.setThread, Sys.attempt]
        rw [hreserve]
        simp only [Function.update_idem]
      have hreserved : step (.step id)
            ({ sys with heap := heap₁ }.setThread id (.reserved req space index)) =
          some ({ sys with
            heap := { heap with mem := writeFatPtr heap.mem req.slot ptr } }.setThread id .idle) := by
        simp only [step, Sys.stepThread, Sys.setThread, Function.update_self, Sys.register]
        rw [hregister]
        simp only [Function.update_idem]
      rw [Machine.run, hstart, Option.bind_some, Machine.run, hattempt, Option.bind_some,
        Machine.run, hreserved, Option.bind_some, Machine.run]
      congr 1
      apply setThread_eq_self
      exact hidle

end Machine

end Gcpp.Concurrent
