import Gcpp.Proof.Claims
import Gcpp.Proof.Slots

/-!
# The invariant of an interleaving

While a task runs, a root slot that refers into the space being left is one that the task has yet to
test, or the one it has in hand; every object it refers to is still registered or has been copied.
The steps of the threads keep this as long as they are careful.
-/

namespace Gcpp.Concurrent

open ByteMemory StateExcept Arena

variable {cfg : Config} {roots : RootSlots cfg}

/-! ### A running task -/

/-- A slot that a task may come across. -/
def SlotAt (roots : RootSlots cfg) (p : Nat) : Prop :=
  p ∈ roots.slots ∨ ∃ space, cfg.base space ≤ p ∧ p + gcPtrSize ≤ cfg.base space + cfg.heapSize

/-- An object that is still to be copied. -/
structure White (cfg : Config) (metadata : AssocMap FatPtr MetaData) (toSpace : SpaceNum)
    (visited : Visited) (ptr : FatPtr) (data : MetaData) : Prop where
  lookup : metadata.lookup ptr = some data
  space : findSpace cfg ptr.asPtr = some toSpace.flip
  unvisited : visited.lookup ptr = none

/-- An object of the space that is copied to. -/
structure Black (cfg : Config) (metadata : AssocMap FatPtr MetaData) (toSpace : SpaceNum)
    (ptr : FatPtr) : Prop where
  mem : ptr ∈ metadata
  space : findSpace cfg ptr.asPtr = some toSpace

/-- What is known where a task stands. -/
def StageOk (roots : RootSlots cfg) (metadata : AssocMap FatPtr MetaData) (toSpace : SpaceNum)
    (visited : Visited) : Stage → Prop
  | .roots => True
  | .forward => True
  | .tested p _ => SlotAt roots p
  | .found p ptrVal => SlotAt roots p ∧ ∃ data, White cfg metadata toSpace visited ptrVal data
  | .copy p ptrVal => SlotAt roots p ∧ ∃ data, White cfg metadata toSpace visited ptrVal data
  | .lookup p ptrVal => SlotAt roots p ∧ ∃ data, White cfg metadata toSpace visited ptrVal data
  | .reserve p ptrVal oldData => SlotAt roots p ∧ White cfg metadata toSpace visited ptrVal oldData
  | .check p ptrVal oldData index => SlotAt roots p ∧
      White cfg metadata toSpace visited ptrVal oldData ∧
      ∃ i, index = some i ∧ oldData.size + i < cfg.heapSize
  | .register p ptrVal oldData index => SlotAt roots p ∧
      White cfg metadata toSpace visited ptrVal oldData ∧
      ∃ i, index = some i ∧ oldData.size + i < cfg.heapSize
  | .words p ptrVal oldData newObj _ => SlotAt roots p ∧
      White cfg metadata toSpace visited ptrVal oldData ∧
      metadata.lookup newObj = some oldData ∧ findSpace cfg newObj.asPtr = some toSpace
  | .exchange p ptrVal newObj => SlotAt roots p ∧
      (∃ data, White cfg metadata toSpace visited ptrVal data) ∧ Black cfg metadata toSpace newObj
  | .erase ptrVal newObj =>
      (∃ data, White cfg metadata toSpace visited ptrVal data) ∧ Black cfg metadata toSpace newObj
  | .sweep => True

/-- The slot that the task has read and not yet updated, and what it read. -/
def Stage.inHand : Stage → Option (Nat × FatPtr)
  | .tested p ptrVal => some (p, ptrVal)
  | .found p ptrVal => some (p, ptrVal)
  | .copy p ptrVal => some (p, ptrVal)
  | .lookup p ptrVal => some (p, ptrVal)
  | .reserve p ptrVal _ => some (p, ptrVal)
  | .check p ptrVal _ _ => some (p, ptrVal)
  | .register p ptrVal _ _ => some (p, ptrVal)
  | .words p ptrVal _ _ _ => some (p, ptrVal)
  | .exchange p ptrVal _ => some (p, ptrVal)
  | _ => none

structure RunningOk (roots : RootSlots cfg) (s : State) (r : Running) : Prop where
  current : r.toSpace = s.spaceNum
  forwarded : ∀ {v v'}, r.visited.lookup v = some v' → s.metadata.lookup v = none ∧
    findSpace cfg v.asPtr = some r.toSpace.flip ∧ Black cfg s.metadata r.toSpace v'
  rootsOk : ∀ p ∈ r.roots, p ∈ roots.slots
  stackOk : ∀ p ∈ r.stack, SlotAt roots p
  stageOk : StageOk roots s.metadata r.toSpace r.visited r.stage
  atRoots : r.stage = .roots → r.stack = []
  atSweep : r.stage = .sweep → r.roots = [] ∧ r.stack = []

/-- The task has still to test the slot, or has it in hand with this value. -/
def Running.Pending (r : Running) (slot : Nat) (w : FatPtr) : Prop :=
  slot ∈ r.roots ∨ slot ∈ r.stack ∨ r.stage.inHand = some (slot, w)

/-! ### The whole -/

def Sys.Pending (s : Sys roots) (slot : Nat) (w : FatPtr) : Prop :=
  s.tasks ≠ [] ∨ ∃ r, s.worker = some r ∧ r.Pending slot w

/-- A root slot with this value will be right when the task has finished. -/
def Traced (s : Sys roots) (slot : Nat) (w : FatPtr) : Prop :=
  (findSpace cfg w.asPtr = some s.heap.spaceNum ∧ w ∈ s.heap.metadata) ∨
    ((w ∈ s.heap.metadata ∨ s.Forwarded w) ∧ s.Pending slot w)

def ThreadOk (cfg : Config) {roots : RootSlots cfg} (forwarded : FatPtr → Prop) :
    Thread roots → Prop
  | .attempt req _ => 0 < req.size
  | .reserved req space index => req.size + index < cfg.heapSize ∧
      ¬ forwarded (FatPtr.ofAddr (cfg.base space + index))
  | .collect _ resume _ => ∀ req retries, resume = some (req, retries) → 0 < req.size
  | .thrown e => e ≠ .runtimeError "Heap corruption"
  | _ => True

/-- At most one task is queued or running, and `m_collect_result` is the future of the last one. -/
def QueueOk (s : Sys roots) : Prop :=
  (s.Quiet ∧ s.resultReady = true) ∨
    (s.collectResult = some s.finished ∧
      ((s.tasks = [s.heap.spaceNum] ∧ s.worker = none) ∨ (s.tasks = [] ∧ s.worker ≠ none)))

structure Inv (s : Sys roots) : Prop where
  blocks : Blocks s
  threads : ∀ t, ThreadOk cfg s.Forwarded (s.threads t)
  queue : QueueOk s
  settled : s.Quiet → ∀ ptr data, s.heap.metadata.lookup ptr = some data →
    findSpace cfg ptr.asPtr = some s.heap.spaceNum
  running : ∀ r, s.worker = some r → RunningOk roots s.heap r
  held : ∀ slot ∈ roots.slots, ∀ w, testPtr s.heap.mem slot = some w →
    contains cfg w.asPtr = true → Traced s slot w
  succeeded : s.failures = []

variable {s t : Sys roots} {id : ThreadId} {pc : Thread roots}

theorem Sys.WillTest.pending {slot : Nat} (h : s.WillTest slot) (w : FatPtr) :
    s.Pending slot w := by
  rcases h with htasks | ⟨r, hr, hmem | hmem⟩
  · exact Or.inl htasks
  · exact Or.inr ⟨r, hr, Or.inl hmem⟩
  · exact Or.inr ⟨r, hr, Or.inr (Or.inl hmem)⟩

theorem Sys.Quiet.not_pending {slot : Nat} {w : FatPtr} (h : s.Quiet) : ¬ s.Pending slot w := by
  rintro (htasks | ⟨r, hr, _⟩)
  · exact htasks h.1
  · rw [h.2] at hr
    cases hr

/-- A root slot is apart from every other slot that a task may come across. -/
theorem SlotAt.apart {p slot : Nat} (h : SlotAt roots p) (hslot : slot ∈ roots.slots)
    (hne : slot ≠ p) : slot + 16 ≤ p ∨ p + 16 ≤ slot := by
  rcases h with hroot | ⟨space, hlo, hhi⟩
  · exact (roots.disjoint slot hslot p hroot).resolve_left hne
  · have hsize : gcPtrSize = 16 := rfl
    have houtside := roots.apart slot hslot space
    omega

/-! ### Steps that leave the heap alone -/

theorem Thread.claims_setThread (owner : Owner) :
    (s.setThread id pc).claims owner = if owner = .thread id then pc.claim else s.claims owner := by
  cases owner with
  | entry ptr => rfl
  | task => rfl
  | thread other =>
      by_cases heq : other = id
      · subst heq
        rw [if_pos rfl]
        exact congrArg Thread.claim (Function.update_self _ _ _)
      · rw [if_neg fun h => heq (Owner.thread.inj h)]
        exact congrArg Thread.claim (Function.update_of_ne heq _ _)

theorem threads_setThread {p : Thread roots → Prop} (h : ∀ t, p (s.threads t)) (hpc : p pc) (t) :
    p ((s.setThread id pc).threads t) := by
  change p (Function.update s.threads id pc t)
  by_cases heq : t = id
  · subst heq
    rw [Function.update_self]
    exact hpc
  · rw [Function.update_of_ne heq]
    exact h t

/-- **A thread moves on**, and gives up what it may have reserved. -/
theorem Inv.setThread (h : Inv s) (hok : ThreadOk cfg s.Forwarded pc) (hclaim : pc.claim = none) :
    Inv (s.setThread id pc) where
  blocks := h.blocks.mono (fun owner span hspan => by
    rw [Thread.claims_setThread] at hspan
    split at hspan
    · rw [hclaim] at hspan
      cases hspan
    · exact hspan) rfl rfl
  threads := threads_setThread h.threads hok
  queue := h.queue
  settled := h.settled
  running := h.running
  held := h.held
  succeeded := h.succeeded

/-! ### Stores in root slots -/

/-- A store of which the root slots do not get to know anything wrong. -/
theorem Inv.setMem (h : Inv s) (mem : Memory)
    (hheld : ∀ slot ∈ roots.slots, ∀ w, testPtr mem slot = some w → contains cfg w.asPtr = true →
      Traced s slot w) : Inv { s with heap := { s.heap with mem } } where
  blocks := h.blocks.mono (fun _ _ hspan => hspan) rfl rfl
  threads := h.threads
  queue := h.queue
  settled := h.settled
  running := fun r hr =>
    have hok := h.running r hr
    { hok with }
  held := hheld
  succeeded := h.succeeded

theorem testPtr_atomicUpdate_eq {m : Memory} {a : Nat} {p q : FatPtr}
    (h : testPtr (atomicUpdate m a p) a = some q) : q = p := by
  obtain ⟨_, hword⟩ := testPtr_eq_some_iff.mp h
  rw [load64_atomicUpdate_self] at hword
  exact FatPtr.ext hword.symm

theorem testPtr_atomicUpdate_of_apart {m : Memory} {a b : Nat} {p : FatPtr}
    (h : b + 16 ≤ a ∨ a + 16 ≤ b) : testPtr (atomicUpdate m a p) b = testPtr m b :=
  testPtr_congr (agreeOn_atomicUpdate (by omega))

/-- **A pointer is stored in a root slot.** -/
theorem Inv.storeRoot (h : Inv s) {slot : Nat} (hslot : slot ∈ roots.slots) {value : FatPtr}
    (hstore : s.StoreInTime slot value) :
    Inv { s with heap := { s.heap with mem := atomicUpdate s.heap.mem slot value } } := by
  refine h.setMem _ fun other hother w hw hcontains => ?_
  rcases roots.disjoint other hother slot hslot with rfl | hapart
  · obtain rfl := testPtr_atomicUpdate_eq hw
    rcases hstore with houtside | ⟨hlive, hspace | hpending⟩
    · rw [houtside] at hcontains
      cases hcontains
    · rcases hlive with hmem | ⟨r, hr, hmem⟩
      · exact Or.inl ⟨hspace, hmem⟩
      · -- what has been copied lies in the other space
        obtain ⟨v', hv'⟩ := Option.isSome_iff_exists.mp (AList.lookup_isSome.mpr hmem)
        have hok := h.running r hr
        have hfrom := (hok.forwarded hv').2.1
        rw [hok.current] at hfrom
        exact absurd hfrom (findSpace_ne_flip hspace)
    · exact Or.inr ⟨hlive, hpending.pending _⟩
  · rw [testPtr_atomicUpdate_of_apart hapart] at hw
    exact h.held other hother w hw hcontains

theorem findSpace_zero : findSpace cfg (FatPtr.ofAddr 0).asPtr = none := by
  cases hspace : findSpace cfg (FatPtr.ofAddr 0).asPtr with
  | none => rfl
  | some space =>
      have hlo := (findSpace_eq_some_iff.mp hspace).1
      have hpos := cfg.base_pos space
      rw [FatPtr.asPtr_ofAddr, Nat.zero_mod] at hlo
      omega

theorem Inv.clear (h : Inv s) {slot : Nat} (hslot : slot ∈ roots.slots) :
    Inv { s with
      heap := { s.heap with mem := atomicUpdate s.heap.mem slot (FatPtr.ofAddr 0) } } := by
  refine h.storeRoot hslot (Or.inl ?_)
  rw [← Bool.not_eq_true, contains_iff, findSpace_zero]
  simp

end Gcpp.Concurrent
