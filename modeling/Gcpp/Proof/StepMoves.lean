import Gcpp.Proof.Allocation
import Gcpp.Concurrent

/-!
# What a step can do

One case for every way in which a step of a task can go on to another one: what is proved of all
steps is proved of these cases. And where a step leaves the threads that do not take it.
-/

namespace Gcpp.Concurrent

open ByteMemory StateExcept

variable {cfg : Config} {r r' : Running} {heap heap' : State}

/-! ### The steps of a task -/

inductive TaskMove (cfg : Config) (heap : State) (r : Running) : Running → State → Prop
  | lastRoot (hstage : r.stage = .roots) (hroots : r.roots = []) :
      TaskMove cfg heap r { r with stage := .sweep } heap
  | skipRoot (root : Nat) (rest : List Nat) (hstage : r.stage = .roots)
      (hroots : r.roots = root :: rest) :
      TaskMove cfg heap r { r with roots := rest } heap
  | takeRoot (root : Nat) (rest : List Nat) (hstage : r.stage = .roots)
      (hroots : r.roots = root :: rest) :
      TaskMove cfg heap r { r with roots := rest, stack := [root], stage := .forward } heap
  | stackEmpty (hstage : r.stage = .forward) (hstack : r.stack = []) :
      TaskMove cfg heap r { r with stage := .roots } heap
  | skipSlot (p : Nat) (stack : List Nat) (hstage : r.stage = .forward)
      (hstack : r.stack = p :: stack) :
      TaskMove cfg heap r { r with stack } heap
  | takeSlot (p : Nat) (stack : List Nat) (ptrVal : FatPtr) (hstage : r.stage = .forward)
      (hstack : r.stack = p :: stack) :
      TaskMove cfg heap r { r with stack, stage := .tested p ptrVal } heap
  | forwarded (p : Nat) (ptrVal : FatPtr) (mem : Memory) (hstage : r.stage = .tested p ptrVal) :
      TaskMove cfg heap r { r with stage := .forward } { heap with mem }
  | passed (p : Nat) (ptrVal : FatPtr) (hstage : r.stage = .tested p ptrVal) :
      TaskMove cfg heap r { r with stage := .forward } heap
  | found (p : Nat) (ptrVal : FatPtr) (space : SpaceNum) (hstage : r.stage = .tested p ptrVal)
      (hspace : findSpace cfg ptrVal.asPtr = some space) (hfrom : space ≠ r.toSpace) :
      TaskMove cfg heap r { r with stage := .found p ptrVal } heap
  | scanned (p : Nat) (ptrVal : FatPtr) (data : MetaData) (slots : List Nat)
      (hstage : r.stage = .found p ptrVal) (hdata : heap.metadata.lookup ptrVal = some data)
      (hscan : scanMemory heap.mem ptrVal.asPtr (ptrVal.asPtr + data.size) = some slots) :
      TaskMove cfg heap r { r with stack := slots.reverse ++ r.stack, stage := .copy p ptrVal } heap
  | stays (p : Nat) (ptrVal : FatPtr) (hstage : r.stage = .copy p ptrVal)
      (hspace : findSpace cfg ptrVal.asPtr = some r.toSpace) :
      TaskMove cfg heap r
        { r with visited := AssocMap.emplace ptrVal ptrVal r.visited, stage := .forward } heap
  | copy (p : Nat) (ptrVal : FatPtr) (hstage : r.stage = .copy p ptrVal) :
      TaskMove cfg heap r { r with stage := .lookup p ptrVal } heap
  | lookup (p : Nat) (ptrVal : FatPtr) (oldData : MetaData) (hstage : r.stage = .lookup p ptrVal)
      (hdata : heap.metadata.lookup ptrVal = some oldData) :
      TaskMove cfg heap r { r with stage := .reserve p ptrVal oldData } heap
  | reserve (p : Nat) (ptrVal : FatPtr) (oldData : MetaData) (index : Option Nat) (heap' : State)
      (hstage : r.stage = .reserve p ptrVal oldData)
      (hrun : (reserveSpace cfg oldData.size r.toSpace oldData.alignment cfg.heapSize).run heap =
        .ok index heap') :
      TaskMove cfg heap r { r with stage := .check p ptrVal oldData index } heap'
  | check (p : Nat) (ptrVal : FatPtr) (oldData : MetaData) (index : Option Nat)
      (hstage : r.stage = .check p ptrVal oldData index) :
      TaskMove cfg heap r { r with stage := .register p ptrVal oldData index } heap
  | register (p : Nat) (ptrVal : FatPtr) (oldData : MetaData) (index : Nat) (newObj : FatPtr)
      (heap' : State) (hstage : r.stage = .register p ptrVal oldData (some index))
      (hrun : (allocNoConstraints cfg r.toSpace oldData index).run heap = .ok newObj heap') :
      TaskMove cfg heap r { r with stage := .words p ptrVal oldData newObj 0 } heap'
  | word (p : Nat) (ptrVal : FatPtr) (oldData : MetaData) (newObj : FatPtr) (i : Nat)
      (hstage : r.stage = .words p ptrVal oldData newObj i) (hi : i < oldData.size) :
      TaskMove cfg heap r
        { r with stage := .words p ptrVal oldData newObj (i + cpyWidth (ptrVal.asPtr + i)) }
        { heap with
          mem := move heap.mem (newObj.asPtr + i) (ptrVal.asPtr + i)
            (cpyWidth (ptrVal.asPtr + i)) }
  | copied (p : Nat) (ptrVal : FatPtr) (oldData : MetaData) (newObj : FatPtr) (i : Nat)
      (hstage : r.stage = .words p ptrVal oldData newObj i) (hi : ¬ i < oldData.size) :
      TaskMove cfg heap r { r with stage := .exchange p ptrVal newObj } heap
  | exchange (p : Nat) (ptrVal newObj : FatPtr) (hstage : r.stage = .exchange p ptrVal newObj) :
      TaskMove cfg heap r { r with stage := .erase ptrVal newObj }
        { heap with mem := (compareExchange heap.mem p ptrVal newObj).2 }
  | erase (ptrVal newObj : FatPtr) (hstage : r.stage = .erase ptrVal newObj) :
      TaskMove cfg heap r
        { r with visited := AssocMap.emplace ptrVal newObj r.visited, stage := .forward }
        { heap with metadata := heap.metadata.erase ptrVal }

theorem space_of_getSpaceNum {ptr : FatPtr} {space : SpaceNum}
    (hrun : (getSpaceNum cfg ptr).run heap = .ok space heap') :
    heap' = heap ∧ findSpace cfg ptr.asPtr = some space := by
  refine ⟨state_of_getSpaceNum hrun, ?_⟩
  rw [getSpaceNum] at hrun
  split at hrun <;> cases hrun
  assumption

theorem data_of_metadataAt {ptr : FatPtr} {data : MetaData}
    (hrun : (metadataAt ptr).run heap = .ok data heap') :
    heap' = heap ∧ heap.metadata.lookup ptr = some data := by
  refine ⟨state_of_metadataAt hrun, ?_⟩
  simp only [metadataAt] at hrun
  rw [EStateM.run_bind, EStateM.run_get] at hrun
  dsimp only at hrun
  split at hrun <;> cases hrun
  assumption

/-- **These are all the ways** to go on. -/
theorem taskMove (hrun : (r.step cfg).run heap = .ok (some r') heap') :
    TaskMove cfg heap r r' heap' := by
  obtain ⟨toSpace, visited, rootsLeft, stack, stage⟩ := r
  cases stage with
  | roots =>
      simp only [Running.step] at hrun
      cases rootsLeft with
      | nil =>
          cases hrun
          exact .lastRoot rfl rfl
      | cons root rest =>
          dsimp only at hrun
          rw [EStateM.run_bind, EStateM.run_get] at hrun
          dsimp only at hrun
          split at hrun
          · split at hrun <;> cases hrun
            · exact .takeRoot root rest rfl rfl
            · exact .skipRoot root rest rfl rfl
          · cases hrun
            exact .skipRoot root rest rfl rfl
  | forward =>
      simp only [Running.step] at hrun
      cases stack with
      | nil =>
          cases hrun
          exact .stackEmpty rfl rfl
      | cons p stack =>
          dsimp only at hrun
          rw [EStateM.run_bind, EStateM.run_get] at hrun
          dsimp only at hrun
          split at hrun <;> cases hrun
          · exact .skipSlot p stack rfl rfl
          · exact .takeSlot p stack _ rfl rfl
  | tested p ptrVal =>
      simp only [Running.step] at hrun
      split at hrun
      · cases hrun
        exact .forwarded p ptrVal _ rfl
      · rw [EStateM.run_bind, EStateM.run_get] at hrun
        dsimp only at hrun
        split at hrun
        · cases hrun
          exact .passed p ptrVal rfl
        · obtain ⟨space, u, hspace, hnext⟩ := run_bind_eq_ok.mp hrun
          obtain ⟨rfl, hfind⟩ := space_of_getSpaceNum hspace
          by_cases hto : space = toSpace
          · rw [if_pos hto] at hnext
            cases hnext
            exact .passed p ptrVal rfl
          · rw [if_neg hto] at hnext
            cases hnext
            exact .found p ptrVal space rfl hfind hto
  | found p ptrVal =>
      simp only [Running.step] at hrun
      obtain ⟨data, u, hdata, hnext⟩ := run_bind_eq_ok.mp hrun
      obtain ⟨rfl, hlookup⟩ := data_of_metadataAt hdata
      rw [EStateM.run_bind, EStateM.run_get] at hnext
      dsimp only at hnext
      split at hnext <;> cases hnext
      exact .scanned p ptrVal data _ rfl hlookup ‹_›
  | copy p ptrVal =>
      simp only [Running.step] at hrun
      obtain ⟨space, u, hspace, hnext⟩ := run_bind_eq_ok.mp hrun
      obtain ⟨rfl, hfind⟩ := space_of_getSpaceNum hspace
      by_cases hto : space = toSpace
      · rw [if_pos hto] at hnext
        cases hnext
        exact .stays p ptrVal rfl (hto ▸ hfind)
      · rw [if_neg hto] at hnext
        cases hnext
        exact .copy p ptrVal rfl
  | lookup p ptrVal =>
      simp only [Running.step] at hrun
      obtain ⟨oldData, u, hdata, hnext⟩ := run_bind_eq_ok.mp hrun
      obtain ⟨rfl, hlookup⟩ := data_of_metadataAt hdata
      cases hnext
      exact .lookup p ptrVal oldData rfl hlookup
  | reserve p ptrVal oldData =>
      simp only [Running.step] at hrun
      obtain ⟨index, u, hreserve, hnext⟩ := run_bind_eq_ok.mp hrun
      cases hnext
      exact .reserve p ptrVal oldData index _ rfl hreserve
  | check p ptrVal oldData index =>
      simp only [Running.step] at hrun
      obtain ⟨_, u, hcheck, hnext⟩ := run_bind_eq_ok.mp hrun
      obtain rfl := (state_of_checkOverlappingAlloc hcheck).symm
      cases hnext
      exact .check p ptrVal oldData index rfl
  | register p ptrVal oldData index =>
      simp only [Running.step] at hrun
      cases index with
      | none => cases hrun
      | some index =>
          obtain ⟨newObj, u, halloc, hnext⟩ := run_bind_eq_ok.mp hrun
          cases hnext
          exact .register p ptrVal oldData index newObj _ rfl halloc
  | words p ptrVal oldData newObj i =>
      simp only [Running.step] at hrun
      by_cases hi : i < oldData.size
      · rw [if_pos hi] at hrun
        cases hrun
        exact .word p ptrVal oldData newObj i rfl hi
      · rw [if_neg hi] at hrun
        cases hrun
        exact .copied p ptrVal oldData newObj i rfl hi
  | exchange p ptrVal newObj =>
      simp only [Running.step] at hrun
      cases hrun
      exact .exchange p ptrVal newObj rfl
  | erase ptrVal newObj =>
      simp only [Running.step] at hrun
      cases hrun
      exact .erase ptrVal newObj rfl
  | sweep =>
      simp only [Running.step] at hrun
      obtain ⟨_, u, _, hnext⟩ := run_bind_eq_ok.mp hrun
      cases hnext

theorem TaskMove.toSpace (h : TaskMove cfg heap r r' heap') : r'.toSpace = r.toSpace := by
  cases h <;> rfl

/-! ### The steps of a thread -/

section Threads

variable {roots : RootSlots cfg} {s t : Sys roots} {a : Action roots} {id : ThreadId}

/-! ### Where the steps leave the threads -/

theorem threads_setThread_of_ne {other : ThreadId} (hother : other ≠ id) (pc : Thread roots) :
    (s.setThread id pc).threads other = s.threads other :=
  Function.update_of_ne hother _ _

theorem threads_setThread_self (pc : Thread roots) : (s.setThread id pc).threads id = pc :=
  Function.update_self _ _ _

inductive ThreadMove (s : Sys roots) (id : ThreadId) : Sys roots → Prop
  | attempt (req : Request roots) (retries : Nat) (hthread : s.threads id = .attempt req retries) :
      ThreadMove s id (s.attempt id req retries)
  | register (req : Request roots) (space : SpaceNum) (index : Nat)
      (hthread : s.threads id = .reserved req space index) :
      ThreadMove s id (s.register id req space index)
  | test (needed : Nat) (resume : Option (Request roots × Nat)) (pc : CollectPc)
      (hthread : s.threads id = .collect needed resume .test) (hpc : pc = .lock ∨ pc = .loadSpace) :
      ThreadMove s id (s.setThread id (.collect needed resume pc))
  | loadSpace (needed : Nat) (resume : Option (Request roots × Nat))
      (hthread : s.threads id = .collect needed resume .loadSpace) :
      ThreadMove s id (s.setThread id (.collect needed resume (.loadNext s.heap.spaceNum)))
  | loadNext (needed : Nat) (resume : Option (Request roots × Nat)) (space : SpaceNum)
      (pc : CollectPc) (hthread : s.threads id = .collect needed resume (.loadNext space))
      (hpc : pc = .lock ∨ pc = .wait) :
      ThreadMove s id (s.setThread id (.collect needed resume pc))
  | wait (needed : Nat) (resume : Option (Request roots × Nat)) (task : Nat)
      (hthread : s.threads id = .collect needed resume .wait)
      (hresult : s.collectResult = some task) :
      ThreadMove s id (s.setThread id (.collect needed resume (.waiting task)))
  | released (needed : Nat) (resume : Option (Request roots × Nat)) (task : Nat)
      (hthread : s.threads id = .collect needed resume (.waiting task))
      (hfinished : task < s.finished) :
      ThreadMove s id (s.setThread id (.collect needed resume .test))
  | lock (needed : Nat) (resume : Option (Request roots × Nat))
      (hthread : s.threads id = .collect needed resume .lock) :
      ThreadMove s id (s.collectLocked id needed resume)
  | assign (dst : roots.Slot) (value : FatPtr) (hthread : s.threads id = .assign dst value) :
      ThreadMove s id
        ({ s with heap := { s.heap with mem := atomicUpdate s.heap.mem dst value } }.setThread id
          .idle)
  | caught (e : Halt) (hthread : s.threads id = .thrown e) :
      ThreadMove s id (s.setThread id .idle)

theorem threadMove (h : s.stepThread id = some t) : ThreadMove s id t := by
  rw [Sys.stepThread] at h
  cases hthread : s.threads id with
  | idle =>
      rw [hthread] at h
      cases h
  | attempt req retries =>
      rw [hthread] at h
      obtain ⟨_, ⟨⟩⟩ := Option.ite_none_left_eq_some.mp h
      exact .attempt req retries hthread
  | reserved req space index =>
      rw [hthread] at h
      cases h
      exact .register req space index hthread
  | collect needed resume pc =>
      rw [hthread] at h
      dsimp only at h
      cases pc with
      | test =>
          rw [Sys.collect, Option.some_inj] at h
          subst h
          exact .test needed resume _ hthread (ite_eq_or_eq _ _ _)
      | loadSpace =>
          rw [Sys.collect, Option.some_inj] at h
          subst h
          exact .loadSpace needed resume hthread
      | loadNext space =>
          rw [Sys.collect, Option.some_inj] at h
          subst h
          exact .loadNext needed resume space _ hthread (ite_eq_or_eq _ _ _).symm
      | wait =>
          obtain ⟨task, hresult, rfl⟩ := Option.map_eq_some_iff.mp h
          exact .wait needed resume task hthread hresult
      | waiting task =>
          rw [Sys.collect] at h
          split at h
          · rw [Option.some_inj] at h
            subst h
            exact .released needed resume task hthread ‹_›
          · cases h
      | lock =>
          rw [Sys.collect, Option.some_inj] at h
          subst h
          exact .lock needed resume hthread
  | assign dst value =>
      rw [hthread] at h
      cases h
      exact .assign dst value hthread
  | thrown e =>
      rw [hthread] at h
      cases h
      exact .caught e hthread

/-- The locked region of `alloc_attempt` moves the thread that is in it. -/
theorem attempt_eq (s : Sys roots) (id : ThreadId) (req : Request roots) (retries : Nat) :
    ∃ (heap : State) (pc : Thread roots),
      s.attempt id req retries = { s with heap }.setThread id pc ∧
      ((∃ space index, pc = .reserved req space index) ∨ (∃ e, pc = .thrown e) ∨
        ∃ left, pc = .collect req.size (some (req, left)) .test) := by
  unfold Sys.attempt
  split
  · exact ⟨_, _, rfl, Or.inl ⟨_, _, rfl⟩⟩
  · cases retries with
    | zero => exact ⟨_, _, rfl, Or.inr (Or.inl ⟨_, rfl⟩)⟩
    | succ retries => exact ⟨_, _, rfl, Or.inr (Or.inr ⟨_, rfl⟩)⟩
  · exact ⟨_, _, rfl, Or.inr (Or.inl ⟨_, rfl⟩)⟩

theorem register_eq (s : Sys roots) (id : ThreadId) (req : Request roots) (space : SpaceNum)
    (index : Nat) :
    ∃ (heap : State) (pc : Thread roots),
      s.register id req space index = { s with heap }.setThread id pc ∧
      (pc = .idle ∨ ∃ e, pc = .thrown e) := by
  unfold Sys.register
  split
  · exact ⟨_, _, rfl, Or.inl rfl⟩
  · exact ⟨_, _, rfl, Or.inr ⟨_, rfl⟩⟩

/-- What the thread does next is up to itself. -/
theorem threads_stepThread {other : ThreadId} (h : s.stepThread id = some t) (hother : other ≠ id) :
    t.threads other = s.threads other := by
  cases threadMove h with
  | attempt req retries =>
      obtain ⟨heap, pc, heq, _⟩ := attempt_eq s id req retries
      rw [heq, threads_setThread_of_ne hother]
  | register req space index =>
      obtain ⟨heap, pc, heq, _⟩ := register_eq s id req space index
      rw [heq, threads_setThread_of_ne hother]
  | lock needed resume =>
      unfold Sys.collectLocked
      split <;> exact threads_setThread_of_ne hother _
  | test | loadSpace | loadNext | wait | released | assign | caught =>
      exact threads_setThread_of_ne hother _

theorem threads_stepWorker (h : s.stepWorker = some t) : t.threads = s.threads := by
  cases Sys.workerMove h <;> rfl

/-- The alignments that are asked for. -/
def Action.Admits (admits : Nat → Prop) : Action roots → Prop
  | .alloc _ req => admits req.alignment
  | _ => True

/-- A thread is where it was, unless the step is one of its own: it goes on, or it was idle and has
called something. -/
theorem thread_of_step (h : step a s = some t) (hstep : a ≠ .step id) :
    t.threads id = s.threads id ∨
      (∃ req retries, 0 < req.size ∧ a = .alloc id req ∧ t.threads id = .attempt req retries) ∨
      (∃ e, t.threads id = .thrown e) ∨
      (∃ dst value, t.threads id = .assign dst value) ∨
      ∃ needed, t.threads id = .collect needed none .test := by
  cases a with
  | alloc other req =>
      rw [step] at h
      split at h <;> cases h
      by_cases hid : id = other
      · subst hid
        unfold Sys.startAlloc
        split
        · exact Or.inr (Or.inr (Or.inl ⟨_, threads_setThread_self _⟩))
        · exact Or.inr (Or.inl ⟨_, _, by omega, rfl, threads_setThread_self _⟩)
      · left
        unfold Sys.startAlloc
        split <;> exact threads_setThread_of_ne hid _
  | collect other needed =>
      rw [step] at h
      split at h <;> cases h
      by_cases hid : id = other
      · subst hid
        exact Or.inr (Or.inr (Or.inr (Or.inr ⟨needed, threads_setThread_self _⟩)))
      · exact Or.inl (threads_setThread_of_ne hid _)
  | load other src dst =>
      rw [step] at h
      split at h <;> cases h
      by_cases hid : id = other
      · subst hid
        unfold Sys.startLoad
        split
        · exact Or.inr (Or.inr (Or.inr (Or.inl ⟨_, _, threads_setThread_self _⟩)))
        · exact Or.inr (Or.inr (Or.inl ⟨_, threads_setThread_self _⟩))
      · left
        unfold Sys.startLoad
        split <;> exact threads_setThread_of_ne hid _
  | clear slot =>
      cases h
      exact Or.inl rfl
  | step other =>
      have hid : id ≠ other := by
        rintro rfl
        exact hstep rfl
      exact Or.inl (threads_stepThread h hid)
  | worker => exact Or.inl (congrFun (threads_stepWorker h) id)

end Threads

end Gcpp.Concurrent
