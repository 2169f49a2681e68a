import Gcpp.Proof.CurrentSpace
import Gcpp.Proof.Scan

/-!
# How long a collection takes

A task takes a bounded number of steps, whatever the threads do in the meantime: the bump index of
the space that it copies to pays for its copies and the slots in them, and the threads only ever
move it up. So a thread that waits for a collection waits for a bounded number of steps of the
worker.
-/

namespace Gcpp

open StateExcept

variable {cfg : Config}

/-! ### The sizes of the objects -/

/-- The size of an object, and its alignment where the program asks for some alignments only. -/
def Sized (cfg : Config) (admits : Nat → Prop) (data : MetaData) : Prop :=
  0 < data.size ∧ data.size < cfg.heapSize ∧ admits data.alignment

def EntriesSized (cfg : Config) (admits : Nat → Prop) (s : State) : Prop :=
  ∀ ptr data, s.metadata.lookup ptr = some data → Sized cfg admits data

def KeepsSizes (cfg : Config) (admits : Nat → Prop) (s t : State) : Prop :=
  EntriesSized cfg admits s → EntriesSized cfg admits t

variable {admits : Nat → Prop}

instance : Std.Refl (KeepsSizes cfg admits) where
  refl _ hsized := hsized

instance : IsTrans State (KeepsSizes cfg admits) where
  trans _ _ _ hfirst hsecond hsized := hsecond (hfirst hsized)

theorem KeepsSizes.of_eq {s t : State} (h : t.metadata = s.metadata) :
    KeepsSizes cfg admits s t := by
  intro hsized ptr data hdata
  rw [h] at hdata
  exact hsized ptr data hdata

theorem keepsSizes_allocNoConstraints (toSpace : SpaceNum) {data : MetaData}
    (hdata : Sized cfg admits data) (index : Nat) :
    Frames (KeepsSizes cfg admits) (allocNoConstraints cfg toSpace data index) := by
  intro s hsized
  rw [allocNoConstraints]
  split
  · exact hsized
  · intro ptr other hother
    rcases AssocMap.of_lookup_emplace hother with ⟨_, rfl⟩ | hold
    · exact hdata
    · exact hsized ptr other hold

namespace Concurrent

variable {roots : RootSlots cfg} {s t : Sys roots} {a : Action roots} {r r' : Running}
  {heap heap' : State} {id : ThreadId} {admits : Nat → Prop}

def Thread.Sized (admits : Nat → Prop) : Thread roots → Prop
  | .attempt req _ | .reserved req _ _ | .collect _ (some (req, _)) _ =>
      0 < req.size ∧ admits req.alignment
  | _ => True

/-- What is known of the object that a task has in hand, until it has its copy. -/
def Running.Sized (cfg : Config) (admits : Nat → Prop) (heap : State) (r : Running) : Prop :=
  match r.stage with
  | .found _ ptr => findSpace cfg ptr.asPtr ≠ some r.toSpace
  | .copy _ ptr => findSpace cfg ptr.asPtr ≠ some r.toSpace ∧ ptr ∈ heap.metadata
  | .lookup _ ptr => ptr ∈ heap.metadata
  | .reserve _ _ data | .check _ _ data _ | .register _ _ data _ =>
      Gcpp.Sized cfg admits data
  | _ => True

theorem keepsSizes_task (hr : r.Sized cfg admits heap) :
    Frames (KeepsSizes cfg admits) (r.step cfg) := by
  refine frames_task r (fun _ _ _ => .of_eq rfl) (fun _ _ _ => .of_eq rfl) ?_ ?_
  · intro p ptr data index hstage
    rw [Running.Sized, hstage] at hr
    exact keepsSizes_allocNoConstraints r.toSpace hr index
  · intro s keys hsized ptr data hdata
    rw [AssocMap.lookup_eraseAll] at hdata
    split at hdata
    · cases hdata
    · exact hsized ptr data hdata

theorem Action.admits_all (a : Action roots) : a.Admits fun _ => True := by
  cases a <;> trivial

/-! ### What a task has ahead of it -/

/-- The size of an object, as the table has it. -/
def sizeAt (heap : State) (ptr : FatPtr) : Nat := ((heap.metadata.lookup ptr).map (·.size)).getD 0

/-- The steps up to the next turn of a slot. The slots of an object are on the stack before its copy
has its block, so until then the size of the object is owed. -/
def Stage.ahead (heapSize : Nat) (heap : State) : Stage → Nat
  | .roots => heapSize + 2
  | .forward => heapSize + 3
  | .tested _ _ => heapSize + 7
  | .found _ _ => heapSize + 6
  | .copy _ ptr => heapSize - sizeAt heap ptr + 5
  | .lookup _ ptr => heapSize - sizeAt heap ptr + 4
  | .reserve _ _ data => heapSize - data.size + 3
  | .check _ _ _ none => 2
  | .check _ _ data (some _) => heapSize + data.size + 8
  | .register _ _ _ none => 1
  | .register _ _ data (some _) => heapSize + data.size + 7
  | .words _ _ data _ i => heapSize + (data.size - i) + 6
  | .exchange _ _ _ => heapSize + 5
  | .erase _ _ => heapSize + 4
  | .sweep => 1

def Running.ahead (cfg : Config) (heap : State) (r : Running) : Nat :=
  8 * (cfg.heapSize - heap.nexts r.toSpace) + 7 * r.roots.length + 5 * r.stack.length +
    r.stage.ahead cfg.heapSize heap

/-- The steps of a whole task, the one that starts it included. -/
def taskSteps (roots : RootSlots cfg) : Nat := 9 * cfg.heapSize + 7 * roots.slots.length + 3

theorem sizeAt_of_lookup {ptr : FatPtr} {data : MetaData}
    (h : heap.metadata.lookup ptr = some data) : sizeAt heap ptr = data.size := by
  rw [sizeAt, h]
  rfl

theorem exists_lookup {ptr : FatPtr} (h : ptr ∈ heap.metadata) :
    ∃ data, heap.metadata.lookup ptr = some data :=
  Option.isSome_iff_exists.mp (AList.lookup_isSome.mpr h)

/-- The scan of an object ends, with one slot at most for every 8 bytes. -/
theorem scan_of_sized (mem : ByteMemory.Memory) (ptr : FatPtr) {data : MetaData}
    (hdata : Gcpp.Sized cfg admits data) :
    ∃ slots, scanMemory mem ptr.asPtr (ptr.asPtr + data.size) = some slots ∧
      8 * slots.length ≤ data.size := by
  have hblock := cfg.block_lt .zero
  have hptr := ptr.asPtr_lt
  obtain ⟨slots, hscan, _, hlength⟩ := scanMemory_spec mem
    (show ptr.asPtr ≤ ptr.asPtr + data.size by omega) (by have := hdata.2.1; omega)
  exact ⟨slots, hscan, by omega⟩

/-- A copy that has found its block has moved the bump index by its size at least. -/
theorem nexts_of_reserve {size alignment index : Nat} {space : SpaceNum}
    (hrun : (reserveSpace cfg size space alignment cfg.heapSize).run heap = .ok (some index) heap') :
    heap.nexts space + size ≤ heap'.nexts space ∧ heap'.nexts space ≤ cfg.heapSize := by
  simp only [reserveSpace] at hrun
  rw [EStateM.run_bind, EStateM.run_get] at hrun
  dsimp only at hrun
  split at hrun
  · cases hrun
  · split at hrun <;> cases hrun
    simp only [Function.update_self]
    omega

theorem nexts_of_reserve_none {size alignment limit : Nat} {space : SpaceNum}
    (hrun : (reserveSpace cfg size space alignment limit).run heap = .ok none heap') :
    heap' = heap := by
  simp only [reserveSpace] at hrun
  rw [EStateM.run_bind, EStateM.run_get] at hrun
  dsimp only at hrun
  split at hrun
  · cases hrun
  · split at hrun <;> cases hrun
    rfl

theorem TaskMove.sized (h : TaskMove cfg heap r r' heap') (hentries : EntriesSized cfg admits heap)
    (hr : r.Sized cfg admits heap) : r'.Sized cfg admits heap' := by
  have hdata : ∀ {ptr data}, heap.metadata.lookup ptr = some data → Gcpp.Sized cfg admits data :=
    fun hdata => hentries _ _ hdata
  cases h with
  | skipRoot _ _ hstage | skipSlot _ _ hstage =>
      simp only [Running.Sized, hstage]
  | lastRoot | takeRoot | stackEmpty | takeSlot | forwarded | passed | stays | copied | exchange
    | erase | register | word => trivial
  | found p ptrVal space hstage hspace hfrom =>
      intro hto
      rw [hspace, Option.some_inj] at hto
      exact hfrom hto
  | scanned p ptrVal data slots hstage hlookup =>
      rw [Running.Sized, hstage] at hr
      exact ⟨hr, AssocMap.mem_of_lookup hlookup⟩
  | copy p ptrVal hstage =>
      rw [Running.Sized, hstage] at hr
      exact hr.2
  | lookup p ptrVal oldData hstage hlookup => exact hdata hlookup
  | reserve p ptrVal oldData index heap' hstage | check p ptrVal oldData index hstage =>
      rw [Running.Sized, hstage] at hr
      exact hr

/-- **Every step of a task takes something away** from what it has ahead of it. -/
theorem TaskMove.ahead_lt (h : TaskMove cfg heap r r' heap')
    (hentries : EntriesSized cfg admits heap) (hr : r.Sized cfg admits heap) : r'.ahead cfg heap' < r.ahead cfg heap := by
  unfold Running.ahead
  cases h with
  | lastRoot hstage hroots | stackEmpty hstage =>
      simp only [hstage, Stage.ahead]
      omega
  | skipRoot root rest hstage hroots | takeRoot root rest hstage hroots =>
      simp only [hstage, hroots, Stage.ahead, List.length_cons, List.length_nil]
      omega
  | skipSlot p stack hstage hstack | takeSlot p stack ptrVal hstage hstack =>
      simp only [hstage, hstack, Stage.ahead, List.length_cons]
      omega
  | forwarded _ _ _ hstage | passed _ _ hstage | found _ _ _ hstage | copied _ _ _ _ _ hstage
    | exchange _ _ _ hstage | erase _ _ hstage =>
      simp only [hstage, Stage.ahead]
      omega
  | scanned p ptrVal data slots hstage hlookup hscan =>
      have hsized := hentries ptrVal data hlookup
      obtain ⟨_, hslots, hlength⟩ := scan_of_sized heap.mem ptrVal hsized
      rw [hscan] at hslots
      cases hslots
      have hlt := hsized.2.1
      simp only [hstage, Stage.ahead, sizeAt_of_lookup hlookup, List.length_append,
        List.length_reverse]
      omega
  | stays p ptrVal hstage hspace =>
      rw [Running.Sized, hstage] at hr
      exact absurd hspace hr.1
  | copy p ptrVal hstage =>
      simp only [hstage, Stage.ahead]
      omega
  | lookup p ptrVal oldData hstage hlookup =>
      simp only [hstage, Stage.ahead, sizeAt_of_lookup hlookup]
      omega
  | reserve p ptrVal oldData index _ hstage hrun =>
      rw [Running.Sized, hstage] at hr
      obtain ⟨hpos, hlt, _⟩ := hr
      cases index with
      | none =>
          obtain rfl := nexts_of_reserve_none hrun
          simp only [hstage, Stage.ahead]
          omega
      | some index =>
          obtain ⟨hbump, hle⟩ := nexts_of_reserve hrun
          simp only [hstage, Stage.ahead]
          omega
  | check p ptrVal oldData index hstage =>
      simp only [hstage]
      cases index <;> simp only [Stage.ahead] <;> omega
  | register p ptrVal oldData index newObj _ hstage hrun =>
      have hframe : Frames (OnlyBumps r.toSpace)
          (allocNoConstraints cfg r.toSpace oldData index) :=
        frames_allocNoConstraints (fun _ _ _ => .of_eq rfl rfl) r.toSpace oldData index
      have hnexts := (hframe.of_ok hrun).grows
      simp only [hstage, Stage.ahead]
      omega
  | word p ptrVal oldData newObj i hstage hi =>
      have hwidth := cpyWidth_pos (ptrVal.asPtr + i)
      simp only [hstage, Stage.ahead]
      omega

/-! ### No step goes on forever -/

/-- It never comes to a loop without an end. -/
def Ends {α : Type} (x : GcM α) : Prop := ∀ s t, x.run s ≠ .error .hang t

theorem Ends.bind {α β : Type} {x : GcM α} {f : α → GcM β} (hx : Ends x) (hf : ∀ a, Ends (f a)) :
    Ends (x >>= f) := by
  intro s t h
  rcases run_bind_eq_error.mp h with hfirst | ⟨a, u, _, hrest⟩
  · exact hx s t hfirst
  · exact hf a u t hrest

structure SizesInv (admits : Nat → Prop) (s : Sys roots) : Prop where
  spaces : SpacesInv s
  entries : EntriesSized cfg admits s.heap
  threads : ∀ id, (s.threads id).Sized admits
  task : ∀ r, s.worker = some r → r.Sized cfg admits s.heap
  waits : ∀ id needed resume task, s.threads id = .collect needed resume (.waiting task) →
    task < s.finished ∨ (task = s.finished ∧ s.load = 1)

/-- The steps that the worker has ahead of it at most, for the tasks that there are. -/
def Sys.ahead (s : Sys roots) : Nat :=
  match s.worker with
  | some r => r.ahead cfg s.heap
  | none => if s.tasks = [] then 0 else taskSteps roots

/-- The collections that have been started. -/
def Sys.started (s : Sys roots) : Nat := s.finished + s.load

def Action.isWorker : Action roots → Bool
  | .worker => true
  | _ => false

theorem Running.Sized.keep (h : r.Sized cfg admits heap) (hkeeps : KeepsEntries heap heap') :
    r.Sized cfg admits heap' := by
  have hmem : ∀ {ptr : FatPtr}, ptr ∈ heap.metadata → ptr ∈ heap'.metadata := by
    intro ptr hptr
    obtain ⟨data, hdata⟩ := exists_lookup hptr
    exact AssocMap.mem_of_lookup (hkeeps ptr data hdata)
  unfold Running.Sized at h ⊢
  cases hstage : r.stage <;> simp only [hstage] at h ⊢
  case found => exact h
  case copy => exact h.imp_right hmem
  case lookup => exact hmem h
  case reserve | check | register => exact h

/-- **The threads take nothing from a task**: what they reserve makes its way to the end of the
block shorter. -/
theorem Running.ahead_le (h : r.Sized cfg admits heap) (hkeeps : KeepsEntries heap heap')
    (hbumps : OnlyBumps r.toSpace heap heap') : r.ahead cfg heap' ≤ r.ahead cfg heap := by
  have hgrows := hbumps.grows
  have hstage : r.stage.ahead cfg.heapSize heap' = r.stage.ahead cfg.heapSize heap := by
    have hsize : ∀ {ptr : FatPtr}, ptr ∈ heap.metadata → sizeAt heap' ptr = sizeAt heap ptr := by
      intro ptr hptr
      obtain ⟨data, hdata⟩ := exists_lookup hptr
      rw [sizeAt_of_lookup hdata, sizeAt_of_lookup (hkeeps ptr data hdata)]
    cases hstage : r.stage <;> simp only [Running.Sized, hstage] at h
    case copy => rw [Stage.ahead, Stage.ahead, hsize h.2]
    case lookup => rw [Stage.ahead, Stage.ahead, hsize h]
    case check _ _ _ index | register _ _ _ index => cases index <;> rfl
    all_goals rfl
  unfold Running.ahead
  omega

theorem ahead_start (heap : State) (toSpace : SpaceNum) :
    ({ toSpace, visited := ∅, roots := roots.slots, stack := [], stage := .roots } : Running).ahead
      cfg heap < taskSteps roots := by
  simp only [Running.ahead, Stage.ahead, taskSteps, List.length_nil]
  omega

theorem Sys.ahead_of_quiet (h : s.load = 0) : s.ahead = 0 := by
  obtain ⟨htasks, hworker⟩ := Sys.quiet_iff.mpr h
  rw [Sys.ahead, hworker, htasks]
  rfl

namespace SizesInv

theorem initial (roots : RootSlots cfg) (mem : ByteMemory.Memory) :
    SizesInv admits (Sys.initial roots mem) where
  spaces := .initial roots mem
  entries := nofun
  threads := fun _ => trivial
  task := nofun
  waits := nofun

theorem threads_step (h : ∀ id, (s.threads id).Sized admits) (hadmits : a.Admits admits)
    (hstep : Concurrent.step a s = some t) (id : ThreadId) : (t.threads id).Sized admits := by
  have hcollect : ∀ {needed : Nat} {resume : Option (Request roots × Nat)} {pc pc' : CollectPc},
      (Thread.collect needed resume pc).Sized admits →
        (Thread.collect needed resume pc').Sized admits := by
    intro needed resume pc pc' hsized
    cases resume <;> exact hsized
  by_cases hid : a = .step id
  · subst hid
    have hsized := h id
    cases threadMove hstep with
    | attempt req retries hthread =>
        rw [hthread] at hsized
        obtain ⟨heap, pc, heq, hpc⟩ := attempt_eq s id req retries
        rw [heq, threads_setThread_self]
        rcases hpc with ⟨_, _, rfl⟩ | ⟨_, rfl⟩ | ⟨_, rfl⟩
        · exact hsized
        · trivial
        · exact hsized
    | register req space index =>
        obtain ⟨heap, pc, heq, hpc⟩ := register_eq s id req space index
        rw [heq, threads_setThread_self]
        rcases hpc with rfl | ⟨_, rfl⟩ <;> trivial
    | lock needed resume hthread =>
        rw [hthread] at hsized
        unfold Sys.collectLocked
        rw [threads_setThread_self]
        cases resume with
        | none => trivial
        | some again => exact hsized
    | test _ _ _ hthread | loadSpace _ _ hthread | loadNext _ _ _ _ hthread | wait _ _ _ hthread
      | released _ _ _ hthread =>
        rw [hthread] at hsized
        rw [threads_setThread_self]
        exact hcollect hsized
    | assign | caught =>
        rw [threads_setThread_self]
        trivial
  · rcases thread_of_step hstep hid with
      hsame | ⟨_, _, hpos, rfl, hpc⟩ | ⟨_, hpc⟩ | ⟨_, _, hpc⟩ | ⟨_, hpc⟩
    · rw [hsame]
      exact h id
    · rw [hpc]
      exact ⟨hpos, hadmits⟩
    all_goals
      rw [hpc]
      trivial

theorem waits_step (h : SizesInv admits s) (hstep : Concurrent.step a s = some t) {needed : Nat}
    {resume : Option (Request roots × Nat)} {task : Nat}
    (hthread : t.threads id = .collect needed resume (.waiting task)) :
    task < t.finished ∨ (task = t.finished ∧ t.load = 1) := by
  have hbefore : task < s.finished ∨ (task = s.finished ∧ s.load = 1) := by
    by_cases hid : a = .step id
    · subst hid
      cases threadMove hstep with
      | attempt req retries =>
          obtain ⟨heap, pc, heq, hpc⟩ := attempt_eq s id req retries
          rw [heq, threads_setThread_self] at hthread
          subst hthread
          rcases hpc with ⟨_, _, hpc⟩ | ⟨_, hpc⟩ | ⟨_, hpc⟩ <;> cases hpc
      | register req space index =>
          obtain ⟨heap, pc, heq, hpc⟩ := register_eq s id req space index
          rw [heq, threads_setThread_self] at hthread
          subst hthread
          rcases hpc with hpc | ⟨_, hpc⟩ <;> cases hpc
      | wait _ _ latest _ hresult =>
          rw [threads_setThread_self] at hthread
          cases hthread
          rcases h.spaces.future with ⟨_, hnone⟩ | ⟨_, htask, hlatest⟩
          · rw [hresult] at hnone
            cases hnone
          · rw [hresult] at htask
            cases htask
            rcases hlatest with ⟨_, hlt⟩ | ⟨hload, heq⟩
            · exact Or.inl hlt
            · exact Or.inr ⟨heq, hload⟩
      | lock needed resume =>
          unfold Sys.collectLocked at hthread
          rw [threads_setThread_self] at hthread
          cases resume <;> cases hthread
      | test _ _ pc _ hpc | loadNext _ _ _ pc _ hpc =>
          rw [threads_setThread_self] at hthread
          cases hthread
          rcases hpc with hpc | hpc <;> cases hpc
      | loadSpace | released | assign | caught =>
          rw [threads_setThread_self] at hthread
          cases hthread
    · rcases thread_of_step hstep hid with
        hsame | ⟨_, _, _, _, hpc⟩ | ⟨_, hpc⟩ | ⟨_, _, hpc⟩ | ⟨_, hpc⟩
      · exact h.waits id needed resume task (hsame ▸ hthread)
      all_goals
        rw [hthread] at hpc
        cases hpc
  rcases step_cases hstep with ⟨_, hworker⟩ | ⟨_, _, _, _, _, hflips, rfl⟩ | ⟨_, haside⟩
  · obtain ⟨_, ⟨hload, _, hfinished⟩ | ⟨_, hfinished⟩⟩ := stepWorker_load hworker
    · rw [hload, hfinished]
      exact hbefore
    · omega
  · have hload := h.spaces.future.quiet hflips.2
    refine Or.inl ?_
    unfold Sys.collectLocked
    rw [if_pos hflips]
    change task < s.finished
    omega
  · rw [haside.queue.finished, haside.queue.load]
    exact hbefore

theorem step (h : SizesInv admits s) (hadmits : a.Admits admits)
    (hstep : Concurrent.step a s = some t) : SizesInv admits t := by
  suffices hheap : EntriesSized cfg admits t.heap ∧
      ∀ r, t.worker = some r → r.Sized cfg admits t.heap from
    { spaces := h.spaces.step hstep
      entries := hheap.1
      threads := threads_step h.threads hadmits hstep
      task := hheap.2
      waits := fun _ _ _ _ hthread => h.waits_step hstep hthread }
  rcases step_cases hstep with
    ⟨_, hworker⟩ | ⟨id, needed, resume, _, _, hflips, rfl⟩ | ⟨hother, haside⟩
  · cases Sys.workerMove hworker with
    | start toSpace tasks hnone htasks =>
        refine ⟨h.entries, fun r hr => ?_⟩
        cases hr
        trivial
    | next r r' heap hr hrun =>
        refine ⟨(keepsSizes_task (h.task r hr)).of_ok hrun h.entries, fun r'' hr' => ?_⟩
        cases hr'
        exact (taskMove hrun).sized h.entries (h.task r hr)
    | finish r heap hr hrun =>
        exact ⟨(keepsSizes_task (h.task r hr)).of_ok hrun h.entries, nofun⟩
    | fail r e heap hr hrun =>
        exact ⟨(keepsSizes_task (h.task r hr)).of_error hrun h.entries, nofun⟩
  · obtain ⟨_, hworker⟩ := h.spaces.flips hflips
    unfold Sys.collectLocked
    rw [if_pos hflips]
    refine ⟨h.entries, fun r hr => ?_⟩
    change s.worker = some r at hr
    rw [hworker] at hr
    cases hr
  · refine ⟨fun ptr data hdata => ?_, fun r hr => ?_⟩
    · rcases haside.added ptr data hdata with hold | ⟨id, req, _, index, hthread, rfl, hroom⟩
      · exact h.entries ptr data hold
      · have hsized := h.threads id
        rw [hthread] at hsized
        exact ⟨hsized.1, by omega, hsized.2⟩
    · rw [haside.queue.worker] at hr
      exact (h.task r hr).keep haside.entries

end SizesInv

theorem started_collectLocked (id : ThreadId) {needed : Nat}
    (resume : Option (Request roots × Nat)) (hflips : s.Flips needed) :
    (s.collectLocked id needed resume).started = s.started + 1 := by
  unfold Sys.collectLocked
  rw [if_pos hflips]
  change s.finished + ((s.tasks ++ [_]).length + s.worker.toList.length) = _
  rw [List.length_append, List.length_singleton, Sys.started, Sys.load]
  omega

/-- Only a collection that finds none under way adds to those that have been started. -/
theorem started_step (h : SizesInv admits s) (hstep : step a s = some t) :
    s.finished ≤ t.finished ∧
      (t.started = s.started ∨ (s.load = 0 ∧ t.started = s.started + 1)) := by
  rcases step_cases hstep with ⟨_, hworker⟩ | ⟨id, needed, resume, _, _, hflips, rfl⟩ | ⟨_, haside⟩
  · obtain ⟨_, ⟨hload, _, hfinished⟩ | ⟨hload, hfinished⟩⟩ := stepWorker_load hworker <;>
      unfold Sys.started <;> omega
  · refine ⟨?_, Or.inr ⟨h.spaces.future.quiet hflips.2, started_collectLocked id resume hflips⟩⟩
    unfold Sys.collectLocked
    rw [if_pos hflips]
    exact le_rfl
  · rw [Sys.started, Sys.started, haside.queue.finished, haside.queue.load]
    exact ⟨le_rfl, Or.inl rfl⟩

theorem tasks_of_worker (h : SizesInv admits s) (hworker : s.worker = some r) : s.tasks = [] := by
  have hload := h.spaces.future.load_le
  rw [Sys.load, hworker, Option.toList_some, List.length_singleton] at hload
  exact List.length_eq_zero_iff.mp (by omega)

/-- The last step of a task is still ahead of it. -/
theorem Running.ahead_pos (heap : State) (r : Running) : 0 < r.ahead cfg heap := by
  unfold Running.ahead
  cases r.stage with
  | check _ _ _ index | register _ _ _ index => cases index <;> simp only [Stage.ahead] <;> omega
  | _ =>
      simp only [Stage.ahead]
      omega

/-- The worker uses up what it has ahead of it. -/
theorem ahead_worker (h : SizesInv admits s) (hstep : s.stepWorker = some t) : t.ahead < s.ahead := by
  unfold Sys.ahead
  cases Sys.workerMove hstep with
  | start toSpace tasks hnone htasks =>
      simp only [hnone, htasks, List.cons_ne_nil, if_false]
      exact ahead_start s.heap toSpace
  | next r r' heap hworker hrun =>
      simp only [hworker]
      exact (taskMove hrun).ahead_lt h.entries (h.task r hworker)
  | finish r heap hworker | fail r e heap hworker =>
      simp only [hworker, tasks_of_worker h hworker, if_true]
      exact r.ahead_pos s.heap

/-- **The price of a step.** A step of the worker is paid for by what it has ahead of it, and a new
collection brings what its task may take. -/
theorem ahead_step (h : SizesInv admits s) (hstep : step a s = some t) :
    (if a.isWorker then 1 else 0) + t.ahead + taskSteps roots * s.started ≤
      s.ahead + taskSteps roots * t.started := by
  have hstarted := (started_step h hstep).2
  rcases step_cases hstep with
    ⟨rfl, hworker⟩ | ⟨id, needed, resume, rfl, _, hflips, rfl⟩ | ⟨hother, haside⟩
  · have hahead := ahead_worker h hworker
    have hsame : t.started = s.started := by
      refine hstarted.resolve_right fun ⟨hload, _⟩ => not_stepWorker hload hworker
    rw [hsame, Action.isWorker, if_pos rfl]
    omega
  · obtain ⟨_, hworker⟩ := h.spaces.flips hflips
    have hahead : (s.collectLocked id needed resume).ahead = taskSteps roots := by
      unfold Sys.collectLocked
      rw [if_pos hflips]
      simp [Sys.ahead, Sys.setThread, Sys.asyncCollect, hworker]
    have hcounts : (Action.step id : Action roots).isWorker = false := rfl
    rw [hahead, started_collectLocked id resume hflips, Nat.mul_succ, hcounts,
      if_neg Bool.false_ne_true]
    omega
  · have hsame : t.started = s.started := by
      rw [Sys.started, Sys.started, haside.queue.finished, haside.queue.load]
    have hcounts : a.isWorker = false := by
      cases a with
      | worker => exact absurd rfl hother
      | alloc | collect | load | clear | step => rfl
    have hahead : t.ahead ≤ s.ahead := by
      unfold Sys.ahead
      rw [haside.queue.worker, haside.queue.tasks]
      cases hworker : s.worker with
      | none => exact le_rfl
      | some r =>
          have hspace := haside.space
          rw [← h.spaces.running r hworker] at hspace
          exact Running.ahead_le (h.task r hworker) haside.entries hspace
    rw [hsame, hcounts, if_neg Bool.false_ne_true]
    omega

/-- What the worker has ahead of it is never more than a whole task. -/
structure BoundInv (s : Sys roots) : Prop where
  sizes : SizesInv (fun _ => True) s
  ahead : s.ahead ≤ taskSteps roots

theorem BoundInv.step (h : BoundInv s) (hstep : Concurrent.step a s = some t) : BoundInv t := by
  refine { sizes := h.sizes.step a.admits_all hstep, ahead := ?_ }
  have hprice := ahead_step h.sizes hstep
  rcases (started_step h.sizes hstep).2 with hsame | ⟨hload, hmore⟩
  · rw [hsame] at hprice
    have hbefore := h.ahead
    omega
  · rw [Sys.ahead_of_quiet hload, hmore, Nat.mul_succ] at hprice
    omega

variable {mem : ByteMemory.Memory} {before actions : List (Action roots)}

theorem BoundInv.of_run
    (hrun : Machine.run Concurrent.step actions (Sys.initial roots mem) = some s) : BoundInv s :=
  Machine.run_invariant (fun _ _ _ h hstep => h.step hstep)
    { sizes := .initial roots mem
      ahead := (Sys.ahead_of_quiet rfl).le.trans (Nat.zero_le _) } hrun

end Concurrent

end Gcpp
