import Gcpp.Proof.CollectionFrame
import Gcpp.Proof.CurrentSpace

/-!
# The collector keeps to its memory

However the threads and the task take turns, and whatever goes wrong between them, nobody writes
outside of the two blocks, the 8 bytes behind them, and the root slots. A root slot that holds a
pointer holds one ever after, so no thread finds an invalid pointer in it.
-/

namespace Gcpp.Concurrent

open ByteMemory StateExcept

variable {cfg : Config} {roots : RootSlots cfg} {s t : Sys roots} {a : Action roots}
  {m m' m'' : Memory} {r r' : Running} {heap heap' : State}

/-- A byte that belongs neither to the heap nor to a root slot. -/
def Foreign (roots : RootSlots cfg) (x : Nat) : Prop :=
  Outside cfg x ∧ ∀ slot ∈ roots.slots, x < slot ∨ slot + gcPtrSize ≤ x

/-- What a step may do to the memory. -/
structure Confined (roots : RootSlots cfg) (m m' : Memory) : Prop where
  foreign : ∀ x, Foreign roots x → m' x = m x
  slots : ∀ slot ∈ roots.slots, maybePtr m slot = true → maybePtr m' slot = true

namespace Confined

theorem refl (roots : RootSlots cfg) (m : Memory) : Confined roots m m :=
  ⟨fun _ _ => rfl, fun _ _ => id⟩

theorem trans (h : Confined roots m m') (h' : Confined roots m' m'') : Confined roots m m'' where
  foreign x hx := (h'.foreign x hx).trans (h.foreign x hx)
  slots slot hslot hm := h'.slots slot hslot (h.slots slot hslot hm)

/-- A write to the heap. -/
theorem of_outside (h : ∀ x, Outside cfg x → m' x = m x) : Confined roots m m' where
  foreign x hx := h x hx.1
  slots slot hslot hm := by
    rw [← hm]
    refine maybePtr_congr fun i hi => h _ fun space => ?_
    have hsize : gcPtrSize = 16 := rfl
    have hapart := roots.apart slot hslot space
    omega

/-- A write to a root slot. -/
theorem of_slot {slot : Nat} (hslot : slot ∈ roots.slots)
    (h : ∀ x, x < slot ∨ slot + gcPtrSize ≤ x → m' x = m x)
    (hself : maybePtr m slot = true → maybePtr m' slot = true) : Confined roots m m' where
  foreign x hx := h x (hx.2 slot hslot)
  slots other hother hm := by
    rcases roots.disjoint other hother slot hslot with rfl | hapart
    · exact hself hm
    · rw [← hm]
      refine maybePtr_congr fun i hi => h _ ?_
      have hsize : gcPtrSize = 16 := rfl
      omega

theorem atomicUpdate {slot : Nat} (hslot : slot ∈ roots.slots) (m : Memory) (value : FatPtr) :
    Confined roots m (atomicUpdate m slot value) := by
  refine of_slot hslot (fun x hx => ?_) fun hm =>
    maybePtr_of_testPtr (testPtr_atomicUpdate_self hm)
  have hsize : gcPtrSize = 16 := rfl
  exact store_outside (by omega)

theorem writeFatPtr {slot : Nat} (hslot : slot ∈ roots.slots) (m : Memory) (value : FatPtr) :
    Confined roots m (writeFatPtr m slot value) := by
  refine of_slot hslot (fun x hx => ?_) fun _ => maybePtr_of_testPtr testPtr_writeFatPtr_self
  have hsize : gcPtrSize = 16 := rfl
  exact (store_outside (by omega)).trans (store_outside (by omega))

end Confined

/-! ### The slots of a task -/

/-- A slot that a task may update. -/
def SlotOf (roots : RootSlots cfg) (p : Nat) : Prop := p ∈ roots.slots ∨ InBlocks cfg p

theorem Confined.compareExchange {p : Nat} (hp : SlotOf roots p) (m : Memory)
    (expected desired : FatPtr) :
    Confined roots m (compareExchange m p expected desired).2 := by
  rw [Gcpp.compareExchange]
  split
  · rcases hp with hslot | ⟨space, hlo, hhi⟩
    · exact atomicUpdate hslot m desired
    · refine of_outside fun x hx => store_outside ?_
      have hout := hx space
      omega
  · exact refl roots m

/-- The slot that is in hand may be updated, and a copy has its place in one of the blocks. -/
def Stage.Confined (roots : RootSlots cfg) : Stage → Prop
  | .roots | .forward | .erase _ _ | .sweep => True
  | .found p ptrVal => SlotOf roots p ∧ ∃ space, findSpace cfg ptrVal.asPtr = some space
  | .tested p _ | .copy p _ | .lookup p _ | .reserve p _ _ | .check p _ _ _ | .register p _ _ _
    | .exchange p _ _ => SlotOf roots p
  | .words p _ oldData newObj _ => SlotOf roots p ∧ ∃ space,
      cfg.base space ≤ newObj.asPtr ∧ newObj.asPtr + oldData.size ≤ cfg.base space + cfg.heapSize

structure Running.Confined (roots : RootSlots cfg) (r : Running) : Prop where
  ahead : ∀ p ∈ r.roots, p ∈ roots.slots
  stack : ∀ p ∈ r.stack, SlotOf roots p
  stage : r.stage.Confined roots

/-- **What a task goes on with** are slots that it may update. -/
theorem TaskMove.confined (h : TaskMove cfg heap r r' heap') (hcontained : Contained cfg heap)
    (hr : r.Confined roots) : r'.Confined roots := by
  obtain ⟨hroots, hstack, hstage⟩ := hr
  cases h with
  | lastRoot => exact ⟨hroots, hstack, trivial⟩
  | skipRoot root rest hroot heq =>
      rw [heq] at hroots
      refine ⟨fun p hp => hroots p (List.mem_cons_of_mem root hp), hstack, ?_⟩
      rw [hroot]
      trivial
  | takeRoot root rest _ heq =>
      rw [heq] at hroots
      refine ⟨fun p hp => hroots p (List.mem_cons_of_mem root hp), fun p hp => ?_, trivial⟩
      rw [List.mem_singleton.mp hp]
      exact Or.inl (hroots root List.mem_cons_self)
  | stackEmpty => exact ⟨hroots, hstack, trivial⟩
  | skipSlot p stack hforward heq =>
      rw [heq] at hstack
      refine ⟨hroots, fun q hq => hstack q (List.mem_cons_of_mem p hq), ?_⟩
      rw [hforward]
      trivial
  | takeSlot p stack ptrVal _ heq =>
      rw [heq] at hstack
      exact ⟨hroots, fun q hq => hstack q (List.mem_cons_of_mem p hq),
        hstack p List.mem_cons_self⟩
  | forwarded | passed | stays | erase => exact ⟨hroots, hstack, trivial⟩
  | found p ptrVal space htested hspace =>
      rw [htested] at hstage
      exact ⟨hroots, hstack, hstage, space, hspace⟩
  | scanned p ptrVal data slots hfound hdata hscan =>
      rw [hfound] at hstage
      obtain ⟨hp, space, hspace⟩ := hstage
      refine ⟨hroots, fun q hq => ?_, hp⟩
      rcases List.mem_append.mp hq with hq | hq
      · exact Or.inr (within_of_scan hcontained hdata hspace hscan q (List.mem_reverse.mp hq))
      · exact hstack q hq
  | copy p ptrVal heq | lookup p ptrVal oldData heq | reserve p ptrVal oldData index heap' heq
    | check p ptrVal oldData index heq =>
      rw [heq] at hstage
      exact ⟨hroots, hstack, hstage⟩
  | register p ptrVal oldData index newObj heap' heq hrun =>
      rw [heq] at hstage
      refine ⟨hroots, hstack, hstage, r.toSpace, ?_⟩
      rw [run_allocNoConstraints] at hrun
      split at hrun
      · cases hrun
      · rename_i hroom
        cases hrun
        rw [asPtr_ofAddr_base r.toSpace (by omega)]
        omega
  | word p ptrVal oldData newObj i heq =>
      rw [heq] at hstage
      exact ⟨hroots, hstack, hstage⟩
  | copied p ptrVal oldData newObj i heq =>
      rw [heq] at hstage
      exact ⟨hroots, hstack, hstage.1⟩
  | exchange => exact ⟨hroots, hstack, trivial⟩

theorem TaskWrite.confined (h : TaskWrite r m m') (hr : r.Confined roots) :
    Confined roots m m' := by
  have hstage := hr.stage
  cases h with
  | exchange p expected desired heq =>
      rcases heq with heq | heq
      all_goals
        rw [heq] at hstage
        exact .compareExchange hstage m expected desired
  | word p ptrVal oldData newObj i heq hi =>
      rw [heq] at hstage
      obtain ⟨_, space, hlo, hhi⟩ := hstage
      refine .of_outside fun x hx => move_outside ?_
      have hout := hx space
      have hwidth := cpyWidth_le (ptrVal.asPtr + i)
      omega

/-- What a step does to the heap: every object still ends inside of its block, and the memory is
written as it may be. -/
def Keeps (roots : RootSlots cfg) (heap heap' : State) : Prop :=
  (Contained cfg heap → Contained cfg heap') ∧ Confined roots heap.mem heap'.mem

instance : Std.Refl (Keeps roots) where
  refl heap := ⟨id, .refl roots heap.mem⟩

instance : IsTrans State (Keeps roots) where
  trans _ _ _ h h' := ⟨h'.1 ∘ h.1, h.2.trans h'.2⟩

theorem Keeps.of_eq (hmetadata : heap'.metadata = heap.metadata) (hmem : heap'.mem = heap.mem) :
    Keeps roots heap heap' := by
  refine ⟨fun hcontained ptr data space hdata => ?_, ?_⟩
  · rw [hmetadata] at hdata
    exact hcontained ptr data space hdata
  · rw [hmem]
    exact .refl roots heap.mem

theorem Keeps.of_mem {mem : Memory} (h : Confined roots heap.mem mem) :
    Keeps roots heap { heap with mem } := ⟨id, h⟩

theorem keeps_allocNoConstraints (space : SpaceNum) (data : MetaData) (index : Nat) :
    Frames (Keeps roots) (allocNoConstraints cfg space data index) := by
  intro heap
  refine ⟨fun hcontained => ?_, ?_⟩
  · have hframe : Frames (LeavesAlone cfg fun _ => False)
        (allocNoConstraints cfg space data index) :=
      leavesAlone_allocNoConstraints space data index
    exact (hframe heap hcontained).1
  · rw [run_allocNoConstraints]
    split <;> exact .refl roots heap.mem

theorem keeps_task (hr : r.Confined roots) : Frames (Keeps roots) (r.step cfg) := by
  refine frames_task r (fun _ _ _ => .of_eq rfl rfl) (fun _ _ hwrite => .of_mem (hwrite.confined hr))
    (fun _ _ data index _ => keeps_allocNoConstraints r.toSpace data index) fun heap keys => ?_
  refine ⟨fun hcontained ptr data space hdata => ?_, .refl roots heap.mem⟩
  rw [AssocMap.lookup_eraseAll] at hdata
  split at hdata
  · cases hdata
  · exact hcontained ptr data space hdata

/-! ### The steps of the system -/

structure ConfinedInv (roots : RootSlots cfg) (mem : Memory) (s : Sys roots) : Prop where
  contained : Contained cfg s.heap
  running : ∀ r, s.worker = some r → r.Confined roots
  confined : Confined roots mem s.heap.mem

namespace ConfinedInv

variable {mem : Memory} {id : ThreadId}

theorem initial (roots : RootSlots cfg) (mem : Memory) :
    ConfinedInv roots mem (Sys.initial roots mem) where
  contained := fun _ _ _ hdata => by cases hdata
  running := nofun
  confined := .refl roots mem

/-- A step that leaves the task alone. -/
theorem of_keeps (h : ConfinedInv roots mem s) (hheap : Keeps roots s.heap t.heap)
    (hworker : t.worker = s.worker) : ConfinedInv roots mem t where
  contained := hheap.1 h.contained
  running := by
    rw [hworker]
    exact h.running
  confined := h.confined.trans hheap.2

theorem worker (h : ConfinedInv roots mem s) (hstep : s.stepWorker = some t) :
    ConfinedInv roots mem t := by
  cases Sys.workerMove hstep with
  | start toSpace tasks hworker htasks =>
      refine { contained := h.contained, running := ?_, confined := h.confined }
      rintro r ⟨⟩
      exact ⟨fun p hp => hp, nofun, trivial⟩
  | next r r' heap hworker hrun =>
      have hr := h.running r hworker
      have hheap := keeps_task hr s.heap
      rw [hrun] at hheap
      refine { contained := hheap.1 h.contained, running := ?_,
               confined := h.confined.trans hheap.2 }
      rintro r' ⟨⟩
      exact (taskMove hrun).confined h.contained hr
  | finish r heap hworker hrun | fail r e heap hworker hrun =>
      have hheap := keeps_task (h.running r hworker) s.heap
      rw [hrun] at hheap
      exact { contained := hheap.1 h.contained, running := nofun,
              confined := h.confined.trans hheap.2 }

theorem attempt (h : ConfinedInv roots mem s) (req : Request roots) (retries : Nat) :
    ConfinedInv roots mem (s.attempt id req retries) := by
  have hheap : Keeps roots s.heap
      (finalState ((reserveAttempt cfg req.size req.alignment).run s.heap)) :=
    frames_reserveAttempt (fun _ _ _ => .of_eq rfl rfl) req.size req.alignment
  have hworker := (SameQueue.of_attempt s id req retries).worker
  refine h.of_keeps ?_ hworker
  unfold Sys.attempt
  split <;> rename_i hrun <;> rw [hrun] at hheap
  · exact hheap
  · cases retries <;> exact hheap
  · exact hheap

theorem register (h : ConfinedInv roots mem s) (req : Request roots) (space : SpaceNum)
    (index : Nat) : ConfinedInv roots mem (s.register id req space index) := by
  have hheap : Keeps roots s.heap (finalState ((allocNoConstraints cfg space
      { size := req.size, alignment := req.alignment } index).run s.heap)) :=
    keeps_allocNoConstraints space _ index s.heap
  have hworker := (SameQueue.of_register s id req space index).worker
  refine h.of_keeps ?_ hworker
  unfold Sys.register
  split <;> rename_i hrun <;> rw [hrun] at hheap
  · exact trans_of (Keeps roots) hheap (.of_mem (.writeFatPtr req.slot.2 _ _))
  · exact hheap

theorem collectLocked (h : ConfinedInv roots mem s) (needed : Nat)
    (resume : Option (Request roots × Nat)) :
    ConfinedInv roots mem (s.collectLocked id needed resume) := by
  unfold Sys.collectLocked
  split
  · exact h.of_keeps (.of_eq rfl rfl) rfl
  · exact h.of_keeps (.of_eq rfl rfl) rfl

theorem step (h : ConfinedInv roots mem s) (hstep : Concurrent.step a s = some t) :
    ConfinedInv roots mem t := by
  cases a with
  | worker => exact h.worker hstep
  | alloc id req =>
      rw [Concurrent.step] at hstep
      split at hstep <;> cases hstep
      unfold Sys.startAlloc
      split <;> exact h.of_keeps (.of_eq rfl rfl) rfl
  | collect id needed =>
      rw [Concurrent.step] at hstep
      split at hstep <;> cases hstep
      exact h.of_keeps (.of_eq rfl rfl) rfl
  | load id src dst =>
      rw [Concurrent.step] at hstep
      split at hstep <;> cases hstep
      unfold Sys.startLoad
      split <;> exact h.of_keeps (.of_eq rfl rfl) rfl
  | clear slot =>
      cases hstep
      exact h.of_keeps (.of_mem (.atomicUpdate slot.2 _ _)) rfl
  | step id =>
      cases threadMove hstep with
      | attempt req retries => exact h.attempt req retries
      | register req space index => exact h.register req space index
      | lock needed resume => exact h.collectLocked needed resume
      | assign dst value => exact h.of_keeps (.of_mem (.atomicUpdate dst.2 _ _)) rfl
      | test | loadSpace | loadNext | wait | released | caught =>
          exact h.of_keeps (.of_eq rfl rfl) rfl

end ConfinedInv

variable {mem : Memory} {actions : List (Action roots)}

/-- **The collector keeps to its memory**, in every run of any number of threads: no byte outside of
its blocks and the root slots changes, and a root slot that has held a pointer at the beginning
still does when a thread loads from it. -/
theorem memory_confined
    (hrun : Machine.run step actions (Sys.initial roots mem) = some s) :
    (∀ x, Foreign roots x → s.heap.mem x = mem x) ∧
      ∀ slot ∈ roots.slots, maybePtr mem slot = true →
        ∃ value, atomicLoad s.heap.mem slot = some value := by
  have hinv : ConfinedInv roots mem s :=
    Machine.run_invariant (fun _ _ _ h hstep => h.step hstep) (.initial roots mem) hrun
  refine ⟨hinv.confined.foreign, fun slot hslot hptr => ?_⟩
  obtain ⟨value, hvalue⟩ := exists_testPtr (hinv.confined.slots slot hslot hptr)
  exact ⟨value, atomicLoad_of_testPtr hvalue⟩

/-- One thread copies a pointer while the collection that another one has started copies the
object. -/
def sampleRace : List (Action sampleRoots) :=
  [.alloc 1 ⟨8, 8, firstSlot⟩, .step 1, .step 1, .collect 2 10000, .step 2, .step 2] ++
    List.replicate 10 .worker ++ [.load 1 firstSlot secondSlot] ++ List.replicate 8 .worker ++
      [.step 1]

theorem memory_confined_sample :
    ∃ s, Machine.run step sampleRace sampleStart = some s ∧ s.heap.mem 4096 = 0 ∧
      ∃ value, atomicLoad s.heap.mem firstSlot = some value := by
  have hptr : maybePtr sampleStart.heap.mem firstSlot = true := by
    decide +kernel
  have hsome : (Machine.run step sampleRace sampleStart).isSome = true := by
    decide +kernel
  obtain ⟨s, hrun⟩ := Option.isSome_iff_exists.mp hsome
  obtain ⟨hforeign, hload⟩ := memory_confined hrun
  refine ⟨s, hrun, ?_, hload firstSlot firstSlot.2 hptr⟩
  refine (hforeign 4096 ⟨fun space => ?_, ?_⟩).trans (by decide)
  · left
    cases space <;> decide
  · decide

end Gcpp.Concurrent
