import Gcpp.Proof.ThreadSteps
import Gcpp.Proof.Evacuation

/-!
# The steps of a task

A task keeps the invariant at each of its steps, whatever the threads have done since the step
before. It passes a root slot only when the slot has nothing left to be updated, so at the sweep no
root slot refers into the space that is left.
-/

namespace Gcpp.Concurrent

open ByteMemory StateExcept Arena

variable {cfg : Config} {roots : RootSlots cfg} {s : Sys roots} {r r' : Running}
  {ptr newObj : FatPtr} {data : MetaData} {p : Nat}

/-- The task goes on to a state that keeps the invariant. -/
def Advances (s : Sys roots) (r : Running) : Prop :=
  ∃ r' heap, (r.step cfg).run s.heap = .ok (some r') heap ∧
    Inv { s with heap, worker := some r' }

/-- `Traced`, for the task that is running. -/
def HeldBy (cfg : Config) (heap : State) (r : Running) (slot : Nat) (w : FatPtr) : Prop :=
  (findSpace cfg w.asPtr = some heap.spaceNum ∧ w ∈ heap.metadata) ∨
    ((w ∈ heap.metadata ∨ w ∈ r.visited) ∧ r.Pending slot w)

theorem Inv.tasks_nil (h : Inv s) (hworker : s.worker = some r) : s.tasks = [] := by
  rcases h.queue with ⟨hquiet, _⟩ | ⟨_, ⟨_, hnone⟩ | ⟨htasks, _⟩⟩
  · exact hquiet.1
  · rw [hworker] at hnone
    cases hnone
  · exact htasks

theorem Inv.heldBy (h : Inv s) (hworker : s.worker = some r) {slot : Nat}
    (hslot : slot ∈ roots.slots) {w : FatPtr} (hw : testPtr s.heap.mem slot = some w)
    (hcontains : contains cfg w.asPtr = true) : HeldBy cfg s.heap r slot w := by
  refine (h.held slot hslot w hw hcontains).imp_right ?_
  rintro ⟨hlive, hpending⟩
  refine ⟨hlive.imp_right ?_, ?_⟩
  · rintro ⟨r', hr', hmem⟩
    rw [hworker] at hr'
    cases hr'
    exact hmem
  · rcases hpending with htasks | ⟨r', hr', hpending⟩
    · exact absurd (h.tasks_nil hworker) htasks
    · rw [hworker] at hr'
      cases hr'
      exact hpending

theorem HeldBy.traced {heap : State} {slot : Nat} {w : FatPtr} (h : HeldBy cfg heap r slot w) :
    Traced { s with heap, worker := some r } slot w :=
  h.imp_right fun ⟨hlive, hpending⟩ =>
    ⟨hlive.imp_right fun hmem => ⟨r, rfl, hmem⟩, Or.inr ⟨r, rfl, hpending⟩⟩

theorem HeldBy.imp {heap : State} {slot : Nat} {w : FatPtr} (h : HeldBy cfg heap r slot w)
    (hvisited : r'.visited = r.visited) (hpending : r.Pending slot w → r'.Pending slot w) :
    HeldBy cfg heap r' slot w := by
  refine h.imp_right fun ⟨hlive, hnow⟩ => ⟨?_, hpending hnow⟩
  rw [hvisited]
  exact hlive

/-- The task goes on with the same slot in hand. -/
theorem HeldBy.carry {heap : State} {slot : Nat} {w : FatPtr} (h : HeldBy cfg heap r slot w)
    (hvisited : r'.visited = r.visited) (hroots : r'.roots = r.roots) (hstack : r'.stack = r.stack)
    (hhand : r'.stage.inHand = r.stage.inHand) : HeldBy cfg heap r' slot w := by
  refine h.imp hvisited fun hpending => ?_
  rw [Running.Pending, hroots, hstack, hhand]
  exact hpending

/-- With nothing in hand, a slot that is pending is a root that is left or lies on the stack. -/
theorem HeldBy.of_free {heap : State} {slot : Nat} {w : FatPtr} (h : HeldBy cfg heap r slot w)
    (hvisited : r'.visited = r.visited) (hfree : r.stage.inHand = none)
    (hroots : slot ∈ r.roots → r'.Pending slot w) (hstack : slot ∈ r.stack → r'.Pending slot w) :
    HeldBy cfg heap r' slot w := by
  refine h.imp hvisited ?_
  rintro (hmem | hmem | hhand)
  · exact hroots hmem
  · exact hstack hmem
  · rw [hfree] at hhand
    cases hhand

theorem Inv.queue_task (h : Inv s) (hworker : s.worker = some r) (heap : State) :
    QueueOk { s with heap, worker := some r' } := by
  rcases h.queue with ⟨⟨_, hnone⟩, _⟩ | ⟨hresult, ⟨_, hnone⟩ | ⟨htasks, _⟩⟩
  · rw [hworker] at hnone
    cases hnone
  · rw [hworker] at hnone
    cases hnone
  · exact Or.inr ⟨hresult, Or.inr ⟨htasks, by simp⟩⟩

theorem ThreadOk.imp {P Q : FatPtr → Prop} {pc : Thread roots} (h : ThreadOk cfg P pc)
    (himp : ∀ req space index, pc = .reserved req space index →
      ¬ P (FatPtr.ofAddr (cfg.base space + index)) →
      ¬ Q (FatPtr.ofAddr (cfg.base space + index))) : ThreadOk cfg Q pc := by
  cases pc with
  | reserved req space index => exact ⟨h.1, himp req space index rfl h.2⟩
  | idle | attempt | collect | assign | thrown => exact h

/-- What the threads have reserved is none of what the task has copied. -/
theorem Inv.threads_task (h : Inv s) (hworker : s.worker = some r) (heap : State)
    (hvisited : ∀ id req space index, s.threads id = .reserved req space index →
      FatPtr.ofAddr (cfg.base space + index) ∉ r.visited →
      FatPtr.ofAddr (cfg.base space + index) ∉ r'.visited) (id : ThreadId) :
    ThreadOk cfg (Sys.Forwarded { s with heap, worker := some r' }) (s.threads id) := by
  refine (h.threads id).imp fun req space index hpc hfree => ?_
  rintro ⟨_, ⟨⟩, hmem⟩
  exact hvisited id req space index hpc (fun hmem => hfree ⟨r, hworker, hmem⟩) hmem

/-- **The task goes on** and has written at most to slots and copies. -/
theorem Inv.taskStep (h : Inv s) (hworker : s.worker = some r) {mem : Memory}
    (hspace : r'.toSpace = r.toSpace) (hvisited : r'.visited = r.visited)
    (hreserved : r'.stage.reserved = r.stage.reserved) (hok : RunningOk roots s.heap r')
    (hheld : ∀ slot ∈ roots.slots, ∀ w, testPtr mem slot = some w → contains cfg w.asPtr = true →
      HeldBy cfg s.heap r' slot w) :
    Inv { s with heap := { s.heap with mem }, worker := some r' } where
  blocks := h.blocks.mono (fun owner span hspan => by
    cases owner with
    | entry ptr => exact hspan
    | thread id => exact hspan
    | task =>
        change r'.claim cfg = some span at hspan
        rw [Running.claim, hreserved, hspace] at hspan
        change s.worker.bind _ = some span
        rw [hworker]
        exact hspan) rfl rfl
  threads := h.threads_task hworker _ fun _ _ _ _ _ hfree => by
    rw [hvisited]
    exact hfree
  queue := h.queue_task hworker _
  settled := fun hquiet => absurd hquiet.2 (by simp)
  running := fun _ hr => by
    cases hr
    exact { hok with }
  held := fun slot hslot w hw hcontains => (hheld slot hslot w hw hcontains).traced
  succeeded := h.succeeded

theorem Inv.taskRead (h : Inv s) (hworker : s.worker = some r)
    (hspace : r'.toSpace = r.toSpace) (hvisited : r'.visited = r.visited)
    (hreserved : r'.stage.reserved = r.stage.reserved) (hok : RunningOk roots s.heap r')
    (hpending : ∀ slot ∈ roots.slots, ∀ w, testPtr s.heap.mem slot = some w →
      contains cfg w.asPtr = true → HeldBy cfg s.heap r slot w →
      HeldBy cfg s.heap r' slot w) :
    Inv { s with worker := some r' } := by
  have hstep : Inv { s with heap := { s.heap with mem := s.heap.mem }, worker := some r' } :=
    h.taskStep hworker hspace hvisited hreserved hok fun slot hslot w hw hcontains =>
      hpending slot hslot w hw hcontains (h.heldBy hworker hslot hw hcontains)
  exact hstep

/-! ### Looking for pointers -/

theorem Inv.task_roots (h : Inv s) (hworker : s.worker = some r) (hstage : r.stage = .roots) :
    Advances s r := by
  have hok := h.running r hworker
  have hstack := hok.atRoots hstage
  have hreserved : Stage.reserved .roots = r.stage.reserved := by rw [hstage]
  have hfree : r.stage.inHand = none := by rw [hstage]; rfl
  cases hroots : r.roots with
  | nil =>
      refine ⟨{ r with stage := .sweep }, s.heap, ?_, ?_⟩
      · simp only [Running.step, hstage, hroots]
        rfl
      · refine h.taskRead hworker rfl rfl hreserved ?_ ?_
        · exact
            { hok with
              stageOk := trivial
              atRoots := fun heq => by cases heq
              atSweep := fun _ => ⟨hroots, hstack⟩ }
        · intro slot hslot w hw hcontains hheld
          exact hheld.of_free rfl hfree Or.inl fun hmem => Or.inr (Or.inl hmem)
  | cons root rest =>
      have hrest : ∀ p ∈ rest, p ∈ roots.slots := fun p hp =>
        hok.rootsOk p (by rw [hroots]; simp [hp])
      have hroot : root ∈ roots.slots := hok.rootsOk root (by rw [hroots]; simp)
      -- a root slot that is passed holds no pointer into the heap
      have hpassed : (∀ w, testPtr s.heap.mem root = some w → contains cfg w.asPtr = false) →
          Inv { s with worker := some { r with roots := rest } } := by
        intro hnone
        refine h.taskRead hworker rfl rfl rfl ?_ ?_
        · exact
            { hok with
              rootsOk := hrest
              atSweep := fun heq => by rw [hstage] at heq; cases heq }
        · intro slot hslot w hw hcontains hheld
          refine hheld.of_free rfl hfree (fun hmem => ?_) fun hmem => Or.inr (Or.inl hmem)
          rw [hroots] at hmem
          rcases List.mem_cons.mp hmem with rfl | hmem
          · rw [hnone w hw] at hcontains
            cases hcontains
          · exact Or.inl hmem
      cases htest : testPtr s.heap.mem root with
      | none =>
          refine ⟨{ r with roots := rest }, s.heap, ?_, hpassed fun w hw => ?_⟩
          · simp only [Running.step, hstage, hroots]
            rw [EStateM.run_bind, EStateM.run_get]
            simp only [htest]
            rfl
          · rw [htest] at hw
            cases hw
      | some ptr =>
          by_cases hcontains : contains cfg ptr.asPtr = true
          · refine ⟨{ r with roots := rest, stack := [root], stage := .forward }, s.heap, ?_, ?_⟩
            · simp only [Running.step, hstage, hroots]
              rw [EStateM.run_bind, EStateM.run_get]
              simp only [htest, hcontains, if_true]
              rfl
            · refine h.taskRead hworker rfl rfl hreserved ?_ ?_
              · exact
                  { hok with
                    rootsOk := hrest
                    stackOk := fun p hp => by
                      rw [List.mem_singleton.mp hp]
                      exact Or.inl hroot
                    stageOk := trivial
                    atRoots := fun heq => by cases heq
                    atSweep := fun heq => by cases heq }
              · intro slot hslot w hw _ hheld
                refine hheld.of_free rfl hfree (fun hmem => ?_) (fun hmem => ?_)
                · rw [hroots] at hmem
                  rcases List.mem_cons.mp hmem with rfl | hmem
                  · exact Or.inr (Or.inl (List.mem_singleton_self _))
                  · exact Or.inl hmem
                · rw [hstack] at hmem
                  cases hmem
          · rw [Bool.not_eq_true] at hcontains
            refine ⟨{ r with roots := rest }, s.heap, ?_, hpassed fun w hw => ?_⟩
            · simp only [Running.step, hstage, hroots]
              rw [EStateM.run_bind, EStateM.run_get]
              simp only [htest, hcontains, Bool.false_eq_true, if_false]
              rfl
            · rw [htest] at hw
              cases hw
              exact hcontains

theorem Inv.task_forward (h : Inv s) (hworker : s.worker = some r) (hstage : r.stage = .forward) :
    Advances s r := by
  have hok := h.running r hworker
  have hreserved : Stage.reserved .forward = r.stage.reserved := by rw [hstage]
  have hfree : r.stage.inHand = none := by rw [hstage]; rfl
  cases hstack : r.stack with
  | nil =>
      refine ⟨{ r with stage := .roots }, s.heap, ?_, ?_⟩
      · simp only [Running.step, hstage, hstack]
        rfl
      · refine h.taskRead hworker rfl rfl hreserved ?_ ?_
        · exact
            { hok with
              stageOk := trivial
              atRoots := fun _ => hstack
              atSweep := fun heq => by cases heq }
        · intro slot hslot w hw hcontains hheld
          exact hheld.of_free rfl hfree Or.inl fun hmem => Or.inr (Or.inl hmem)
  | cons p stack =>
      have hrest : ∀ q ∈ stack, SlotAt roots q := fun q hq =>
        hok.stackOk q (by rw [hstack]; simp [hq])
      have hp : SlotAt roots p := hok.stackOk p (by rw [hstack]; simp)
      have hpopped : ∀ {slot}, slot ∈ r.stack → slot = p ∨ slot ∈ stack := by
        intro slot hmem
        rw [hstack] at hmem
        exact List.mem_cons.mp hmem
      cases htest : testPtr s.heap.mem p with
      | none =>
          refine ⟨{ r with stack }, s.heap, ?_, ?_⟩
          · simp only [Running.step, hstage, hstack]
            rw [EStateM.run_bind, EStateM.run_get]
            simp only [htest]
            rfl
          · refine h.taskRead hworker rfl rfl rfl ?_ ?_
            · exact
                { hok with
                  stackOk := hrest
                  atRoots := fun heq => by rw [hstage] at heq; cases heq
                  atSweep := fun heq => by rw [hstage] at heq; cases heq }
            · intro slot hslot w hw hcontains hheld
              refine hheld.of_free rfl hfree Or.inl fun hmem => ?_
              rcases hpopped hmem with rfl | hmem
              · rw [htest] at hw
                cases hw
              · exact Or.inr (Or.inl hmem)
      | some ptrVal =>
          refine ⟨{ r with stack, stage := .tested p ptrVal }, s.heap, ?_, ?_⟩
          · simp only [Running.step, hstage, hstack]
            rw [EStateM.run_bind, EStateM.run_get]
            simp only [htest]
            rfl
          · refine h.taskRead hworker rfl rfl hreserved ?_ ?_
            · exact
                { hok with
                  stackOk := hrest
                  stageOk := hp
                  atRoots := fun heq => by cases heq
                  atSweep := fun heq => by cases heq }
            · intro slot hslot w hw hcontains hheld
              refine hheld.of_free rfl hfree Or.inl fun hmem => ?_
              rcases hpopped hmem with rfl | hmem
              · rw [htest] at hw
                cases hw
                exact Or.inr (Or.inr rfl)
              · exact Or.inr (Or.inl hmem)

/-! ### Testing a pointer -/

/-- A root slot after a compare-exchange: it holds the new value, or what it held before, which was
then not what was expected of it. -/
theorem testPtr_compareExchange {m : Memory} {slot : Nat} {w : FatPtr} (hp : SlotAt roots p)
    (hslot : slot ∈ roots.slots) (hw : testPtr (compareExchange m p ptr newObj).2 slot = some w) :
    w = newObj ∨ (testPtr m slot = some w ∧ (slot = p → w ≠ ptr)) := by
  by_cases hne : slot = p
  · subst hne
    rw [compareExchange] at hw
    split at hw
    · exact Or.inl (testPtr_atomicUpdate_eq hw)
    · rename_i hdiffers
      refine Or.inr ⟨hw, fun _ => ?_⟩
      rintro rfl
      exact hdiffers (testPtr_eq_some_iff.mp hw).2
  · have hapart := hp.apart hslot hne
    rw [testPtr_congr (agreeOn_compareExchange (by omega))] at hw
    exact Or.inr ⟨hw, fun heq => absurd heq hne⟩

/-- What is in hand is the slot `p` with the value `ptr`, and the task lets go of it. -/
theorem HeldBy.release {heap : State} {slot : Nat} {w : FatPtr} (h : HeldBy cfg heap r slot w)
    (hhand : r.stage.inHand = some (p, ptr)) (hne : ¬ (slot = p ∧ w = ptr))
    (hroots : r'.roots = r.roots) (hstack : r'.stack = r.stack)
    (hvisited : r'.visited = r.visited) :
    HeldBy cfg heap r' slot w := by
  refine h.imp hvisited ?_
  rintro (hmem | hmem | hnow)
  · exact Or.inl (hroots ▸ hmem)
  · exact Or.inr (Or.inl (hstack ▸ hmem))
  · rw [hhand] at hnow
    cases hnow
    exact absurd ⟨rfl, rfl⟩ hne

theorem Inv.task_tested (h : Inv s) (hworker : s.worker = some r)
    (hstage : r.stage = .tested p ptr) : Advances s r := by
  have hok := h.running r hworker
  have hhand : r.stage.inHand = some (p, ptr) := by rw [hstage]; rfl
  have hreserved : Stage.reserved .forward = r.stage.reserved := by rw [hstage]; rfl
  have hp : SlotAt roots p := by
    have hstageOk := hok.stageOk
    rw [hstage] at hstageOk
    exact hstageOk
  have hforward : RunningOk roots s.heap { r with stage := .forward } :=
    { hok with
      stageOk := trivial
      atRoots := fun heq => by cases heq
      atSweep := fun heq => by cases heq }
  -- the slot is skipped: what it holds needs no update
  have hskip : (∀ w, w = ptr → HeldBy cfg s.heap r p w →
      findSpace cfg w.asPtr = some s.heap.spaceNum ∧ w ∈ s.heap.metadata) →
      Inv { s with worker := some { r with stage := .forward } } := by
    intro hdone
    refine h.taskRead hworker rfl rfl hreserved hforward ?_
    intro slot hslot w hw hcontains hheld
    by_cases heq : slot = p ∧ w = ptr
    · obtain ⟨rfl, rfl⟩ := heq
      exact Or.inl (hdone w rfl hheld)
    · exact hheld.release hhand heq rfl rfl rfl
  cases hvisited : r.visited.lookup ptr with
  | some forwarded =>
      obtain ⟨_, _, hblack⟩ := hok.forwarded hvisited
      refine ⟨{ r with stage := .forward },
        { s.heap with mem := (compareExchange s.heap.mem p ptr forwarded).2 }, ?_, ?_⟩
      · simp only [Running.step, hstage, hvisited]
        rfl
      · refine h.taskStep hworker rfl rfl hreserved hforward ?_
        intro slot hslot w hw hcontains
        rcases testPtr_compareExchange hp hslot hw with rfl | ⟨hw, hne⟩
        · rw [hok.current] at hblack
          exact Or.inl ⟨hblack.space, hblack.mem⟩
        · exact (h.heldBy hworker hslot hw hcontains).release hhand (fun heq => hne heq.1 heq.2)
            rfl rfl rfl
  | none =>
      have hunvisited : ptr ∉ r.visited := AssocMap.notMem_of_lookup hvisited
      cases hlookup : s.heap.metadata.lookup ptr with
      | none =>
          refine ⟨{ r with stage := .forward }, s.heap, ?_, hskip ?_⟩
          · simp only [Running.step, hstage, hvisited]
            rw [EStateM.run_bind, EStateM.run_get]
            simp only [hlookup]
            rfl
          · have hgone : ptr ∉ s.heap.metadata := AssocMap.notMem_of_lookup hlookup
            rintro w rfl (⟨_, hmem⟩ | ⟨hmem | hmem, _⟩)
            · exact absurd hmem hgone
            · exact absurd hmem hgone
            · exact absurd hmem hunvisited
      | some data =>
          obtain ⟨space, hspace⟩ := h.blocks.findSpace_ne_none hlookup
          by_cases hto : space = r.toSpace
          · refine ⟨{ r with stage := .forward }, s.heap, ?_, hskip ?_⟩
            · simp only [Running.step, hstage, hvisited]
              rw [EStateM.run_bind, EStateM.run_get]
              simp only [hlookup]
              rw [run_bind_of_ok (run_getSpaceNum _ hspace), if_pos hto]
              rfl
            · rintro w rfl _
              rw [hspace, hto, hok.current]
              exact ⟨rfl, AssocMap.mem_of_lookup hlookup⟩
          · refine ⟨{ r with stage := .found p ptr }, s.heap, ?_, ?_⟩
            · simp only [Running.step, hstage, hvisited]
              rw [EStateM.run_bind, EStateM.run_get]
              simp only [hlookup]
              rw [run_bind_of_ok (run_getSpaceNum _ hspace), if_neg hto]
              rfl
            · refine h.taskRead hworker rfl rfl hreserved ?_ ?_
              · exact
                  { hok with
                    stageOk := ⟨hp, data, hlookup, hspace.trans
                      (congrArg some (SpaceNum.eq_flip_of_ne hto)), hvisited⟩
                    atRoots := fun heq => by cases heq
                    atSweep := fun heq => by cases heq }
              · intro slot hslot w hw hcontains hheld
                refine hheld.imp rfl ?_
                rintro (hmem | hmem | hnow)
                · exact Or.inl hmem
                · exact Or.inr (Or.inl hmem)
                · rw [hhand] at hnow
                  exact Or.inr (Or.inr hnow)

/-! ### Copying an object -/

theorem Inv.taskHolds (h : Inv s) (hworker : s.worker = some r) {stage : Stage} {stack : List Nat}
    (hhand : stage.inHand = r.stage.inHand) (hreserved : stage.reserved = r.stage.reserved)
    (hstack : ∀ q ∈ stack, SlotAt roots q) (hsub : ∀ q ∈ r.stack, q ∈ stack)
    (hstage : StageOk roots s.heap.metadata r.toSpace r.visited stage)
    (hroots : stage ≠ .roots) (hsweep : stage ≠ .sweep) :
    Inv { s with worker := some { r with stage, stack } } := by
  have hok := h.running r hworker
  refine h.taskRead hworker rfl rfl hreserved ?_ ?_
  · exact
      { hok with
        stackOk := hstack
        stageOk := hstage
        atRoots := fun heq => absurd heq hroots
        atSweep := fun heq => absurd heq hsweep }
  · intro slot hslot w hw hcontains hheld
    refine hheld.imp rfl ?_
    rintro (hmem | hmem | hnow)
    · exact Or.inl hmem
    · exact Or.inr (Or.inl (hsub slot hmem))
    · exact Or.inr (Or.inr (hhand.trans hnow))

theorem Inv.task_found (h : Inv s) (hworker : s.worker = some r) (hstage : r.stage = .found p ptr) :
    Advances s r := by
  have hok := h.running r hworker
  have hstageOk := hok.stageOk
  rw [hstage] at hstageOk
  obtain ⟨hp, data, hwhite⟩ := hstageOk
  have hwithin := h.blocks.within_of_findSpace hwhite.lookup hwhite.space
  have hend : ptr.asPtr + data.size + 24 ≤ 2 ^ 64 := by
    have hblock := cfg.block_lt r.toSpace.flip
    have hhi := hwithin.hi
    dsimp only at hhi
    omega
  obtain ⟨slots, hscan, hmem, _⟩ := scanMemory_spec s.heap.mem (Nat.le_add_right _ _) hend
  refine ⟨{ r with stack := slots.reverse ++ r.stack, stage := .copy p ptr }, s.heap, ?_, ?_⟩
  · simp only [Running.step, hstage]
    rw [run_bind_of_ok (run_metadataAt hwhite.lookup), EStateM.run_bind, EStateM.run_get]
    simp only [hscan]
    rfl
  · refine h.taskHolds hworker (by rw [hstage]; rfl) (by rw [hstage]; rfl) ?_ ?_
      ⟨hp, data, hwhite⟩ (by simp) (by simp)
    · intro q hq
      rcases List.mem_append.mp hq with hq | hq
      · -- a slot of the object lies in its space
        obtain ⟨_, hlo, hhi, _⟩ := (hmem q).mp (List.mem_reverse.mp hq)
        have hblockLo := hwithin.lo
        have hblockHi := hwithin.hi
        have hsize : gcPtrSize = 16 := rfl
        dsimp only at hblockLo hblockHi
        exact Or.inr ⟨r.toSpace.flip, by omega, by omega⟩
      · exact hok.stackOk q hq
    · intro q hq
      exact List.mem_append_right _ hq

theorem Inv.task_copy (h : Inv s) (hworker : s.worker = some r) (hstage : r.stage = .copy p ptr) :
    Advances s r := by
  have hok := h.running r hworker
  have hstageOk := hok.stageOk
  rw [hstage] at hstageOk
  obtain ⟨hp, data, hwhite⟩ := hstageOk
  refine ⟨{ r with stage := .lookup p ptr }, s.heap, ?_, ?_⟩
  · simp only [Running.step, hstage]
    rw [run_bind_of_ok (run_getSpaceNum _ hwhite.space), if_neg (SpaceNum.flip_ne _)]
    rfl
  · exact h.taskHolds hworker (by rw [hstage]; rfl) (by rw [hstage]; rfl) hok.stackOk
      (fun _ hq => hq) ⟨hp, data, hwhite⟩ (by simp) (by simp)

theorem Inv.task_lookup (h : Inv s) (hworker : s.worker = some r)
    (hstage : r.stage = .lookup p ptr) : Advances s r := by
  have hok := h.running r hworker
  have hstageOk := hok.stageOk
  rw [hstage] at hstageOk
  obtain ⟨hp, data, hwhite⟩ := hstageOk
  refine ⟨{ r with stage := .reserve p ptr data }, s.heap, ?_, ?_⟩
  · simp only [Running.step, hstage]
    rw [run_bind_of_ok (run_metadataAt hwhite.lookup)]
    rfl
  · exact h.taskHolds hworker (by rw [hstage]; rfl) (by rw [hstage]; rfl) hok.stackOk
      (fun _ hq => hq) ⟨hp, hwhite⟩ (by simp) (by simp)

/-- **The task reserves the block for a copy.** -/
theorem Inv.task_reserve (h : Inv s) (hworker : s.worker = some r)
    (hstage : r.stage = .reserve p ptr data) (hroom : HasRoom cfg s.heap r.toSpace data) :
    Advances s r := by
  have hok := h.running r hworker
  have hstageOk := hok.stageOk
  rw [hstage] at hstageOk
  obtain ⟨hp, hwhite⟩ := hstageOk
  obtain ⟨padding, hpadding, hfit⟩ := hroom
  have hcurrent := hok.current
  have hsize : 0 < data.size := (h.blocks.within_of_findSpace hwhite.lookup hwhite.space).pos
  let index := s.heap.nexts r.toSpace + padding
  let heap := s.heap.bump r.toSpace (s.heap.nexts r.toSpace + data.size + padding)
  let next : Running := { r with stage := .check p ptr data (some index) }
  refine ⟨next, heap, ?_, ?_⟩
  · simp only [Running.step, hstage]
    rw [run_bind_of_ok ((run_reserveSpace _ _ hpadding).trans (if_neg (by omega)))]
    rfl
  · have hblocks : Blocks { s with heap, worker := some next } := by
      have hbelow : s.heap.nexts s.heap.spaceNum + data.size + padding ≤ cfg.heapSize := by
        rw [← hcurrent]
        omega
      refine h.blocks.take .task hsize hbelow ?_ ?_ fun other hne => ?_
      · rw [← hcurrent]
      · rw [← hcurrent]
        rfl
      · cases other with
        | entry q => rfl
        | thread id => rfl
        | task => exact absurd rfl hne
    exact
      { blocks := hblocks
        threads := h.threads_task hworker _ fun _ _ _ _ _ hfree => hfree
        queue := h.queue_task hworker _
        settled := fun hquiet => absurd hquiet.2 (by simp)
        running := fun _ hr => by
          cases hr
          exact
            { hok with
              stageOk := ⟨hp, hwhite, index, rfl, by omega⟩
              atRoots := fun heq => by cases heq
              atSweep := fun heq => by cases heq }
        held := fun slot hslot w hw hcontains => by
          have hheld : HeldBy cfg heap next slot w :=
            (h.heldBy hworker hslot hw hcontains).carry rfl rfl rfl (by rw [hstage]; rfl)
          exact hheld.traced
        succeeded := h.succeeded }

theorem claims_task (hworker : s.worker = some r) {index : Nat}
    (hreserved : r.stage.reserved = some (index, data)) :
    s.claims .task = some { start := cfg.base r.toSpace + index, size := data.size } := by
  change s.worker.bind _ = _
  rw [hworker, Option.bind_some, Running.claim, hreserved]
  rfl

theorem Inv.task_check (h : Inv s) (hworker : s.worker = some r) {index : Option Nat}
    (hstage : r.stage = .check p ptr data index) : Advances s r := by
  have hok := h.running r hworker
  have hstageOk := hok.stageOk
  rw [hstage] at hstageOk
  obtain ⟨hp, hwhite, i, rfl, hroom⟩ := hstageOk
  have hclaim : s.claims .task = some { start := cfg.base r.toSpace + i, size := data.size } :=
    claims_task hworker (by rw [hstage]; rfl)
  have hcheck :
      (checkOverlappingAlloc cfg (some i) r.toSpace data.size).run s.heap = .ok () s.heap :=
    run_checkOverlappingAlloc_some (h.blocks.noOverlap .task (fun _ => by simp) hclaim)
  refine ⟨{ r with stage := .register p ptr data (some i) }, s.heap, ?_, ?_⟩
  · simp only [Running.step, hstage]
    rw [run_bind_of_ok hcheck]
    rfl
  · exact h.taskHolds hworker (by rw [hstage]; rfl) (by rw [hstage]; rfl) hok.stackOk
      (fun _ hq => hq) ⟨hp, hwhite, i, rfl, hroom⟩ (by simp) (by simp)

/-- **The task registers the copy.** -/
theorem Inv.task_register (h : Inv s) (hworker : s.worker = some r) {index : Option Nat}
    (hstage : r.stage = .register p ptr data index) : Advances s r := by
  have hok := h.running r hworker
  have hstageOk := hok.stageOk
  rw [hstage] at hstageOk
  obtain ⟨hp, hwhite, i, rfl, hroom⟩ := hstageOk
  let newObj := FatPtr.ofAddr (cfg.base r.toSpace + i)
  let next : Running := { r with stage := .words p ptr data newObj 0 }
  have haddr : newObj.asPtr = cfg.base r.toSpace + i := asPtr_ofAddr_base r.toSpace (by omega)
  have hspace : findSpace cfg newObj.asPtr = some r.toSpace :=
    findSpace_ofAddr_base r.toSpace (by omega)
  have hclaim : s.claims .task = some { start := newObj.asPtr, size := data.size } := by
    rw [haddr]
    exact claims_task hworker (by rw [hstage]; rfl)
  have hfresh := h.blocks.lookup_fresh .task (fun _ => by simp) hclaim rfl
  have hgrows := lookup_grows data hfresh
  have hunvisited : newObj ∉ r.visited := fun hmem =>
    h.not_forwarded (hok.current ▸ hspace) ⟨r, hworker, hmem⟩
  have hregistered : RunningOk roots (s.heap.register newObj data) r :=
    hok.register hfresh hunvisited rfl rfl
  refine ⟨next, s.heap.register newObj data, ?_, ?_⟩
  · simp only [Running.step, hstage]
    rw [run_bind_of_ok (run_allocNoConstraints.trans (if_neg (by omega)))]
    rfl
  · exact
      { blocks := h.blocks.register .task (fun _ => by simp) hclaim rfl rfl rfl rfl
          fun other hne hentry => by
            cases other with
            | entry q => exact absurd rfl (hentry q)
            | thread id => rfl
            | task => exact absurd rfl hne
        threads := h.threads_task hworker _ fun _ _ _ _ _ hfree => hfree
        queue := h.queue_task hworker _
        settled := fun hquiet => absurd hquiet.2 (by simp)
        running := fun _ hr => by
          cases hr
          exact
            { hregistered with
              stageOk := ⟨hp, hwhite.grow hgrows, AssocMap.lookup_emplace_self hfresh, hspace⟩
              atRoots := fun heq => by cases heq
              atSweep := fun heq => by cases heq }
        held := fun slot hslot w hw hcontains => by
          have hheld : HeldBy cfg s.heap next slot w :=
            (h.heldBy hworker hslot hw hcontains).carry rfl rfl rfl (by rw [hstage]; rfl)
          have hgrown : HeldBy cfg (s.heap.register newObj data) next slot w :=
            Or.imp (And.imp_right (mem_of_grows hgrows))
              (And.imp_left (Or.imp_left (mem_of_grows hgrows))) hheld
          exact hgrown.traced
        succeeded := h.succeeded }

/-- The words of a copy do not reach a root slot. -/
theorem Inv.task_words (h : Inv s) (hworker : s.worker = some r) {i : Nat}
    (hstage : r.stage = .words p ptr data newObj i) : Advances s r := by
  have hok := h.running r hworker
  have hstageOk := hok.stageOk
  rw [hstage] at hstageOk
  obtain ⟨hp, hwhite, hdata, hspace⟩ := hstageOk
  by_cases hi : i < data.size
  · have hwidth := cpyWidth_le (ptr.asPtr + i)
    have hwithin := h.blocks.within_of_findSpace hdata hspace
    let mem := move s.heap.mem (newObj.asPtr + i) (ptr.asPtr + i) (cpyWidth (ptr.asPtr + i))
    refine ⟨{ r with stage := .words p ptr data newObj (i + cpyWidth (ptr.asPtr + i)) },
      { s.heap with mem }, ?_, ?_⟩
    · simp only [Running.step, hstage, if_pos hi]
      rfl
    · refine h.taskStep hworker rfl rfl (by rw [hstage]; rfl) ?_ ?_
      · exact
          { hok with
            stageOk := ⟨hp, hwhite, hdata, hspace⟩
            atRoots := fun heq => by cases heq
            atSweep := fun heq => by cases heq }
      · intro slot hslot w hw hcontains
        have hagree : AgreeOn mem s.heap.mem slot 16 := by
          have houtside := roots.apart slot hslot r.toSpace
          have hsize : gcPtrSize = 16 := rfl
          have hlo := hwithin.lo
          have hhi := hwithin.hi
          dsimp only at hlo hhi
          intro k hk
          exact move_outside (by omega)
        rw [testPtr_congr hagree] at hw
        exact (h.heldBy hworker hslot hw hcontains).carry rfl rfl rfl (by rw [hstage]; rfl)
  · refine ⟨{ r with stage := .exchange p ptr newObj }, s.heap, ?_, ?_⟩
    · simp only [Running.step, hstage, if_neg hi]
      rfl
    · exact h.taskHolds hworker (by rw [hstage]; rfl) (by rw [hstage]; rfl) hok.stackOk
        (fun _ hq => hq) ⟨hp, ⟨data, hwhite⟩, AssocMap.mem_of_lookup hdata, hspace⟩ (by simp)
        (by simp)

/-- **The slot is updated** unless a thread has stored something else there meanwhile. -/
theorem Inv.task_exchange (h : Inv s) (hworker : s.worker = some r)
    (hstage : r.stage = .exchange p ptr newObj) : Advances s r := by
  have hok := h.running r hworker
  have hstageOk := hok.stageOk
  rw [hstage] at hstageOk
  obtain ⟨hp, hwhite, hblack⟩ := hstageOk
  have hhand : r.stage.inHand = some (p, ptr) := by rw [hstage]; rfl
  refine ⟨{ r with stage := .erase ptr newObj },
    { s.heap with mem := (compareExchange s.heap.mem p ptr newObj).2 }, ?_, ?_⟩
  · simp only [Running.step, hstage]
    rfl
  · refine h.taskStep hworker rfl rfl (by rw [hstage]; rfl) ?_ ?_
    · exact
        { hok with
          stageOk := ⟨hwhite, hblack⟩
          atRoots := fun heq => by cases heq
          atSweep := fun heq => by cases heq }
    · intro slot hslot w hw hcontains
      rcases testPtr_compareExchange hp hslot hw with rfl | ⟨hw, hne⟩
      · rw [hok.current] at hblack
        exact Or.inl ⟨hblack.space, hblack.mem⟩
      · exact (h.heldBy hworker hslot hw hcontains).release hhand (fun heq => hne heq.1 heq.2)
          rfl rfl rfl

/-- **The old object is erased**, and counts as copied from then on. -/
theorem Inv.task_erase (h : Inv s) (hworker : s.worker = some r)
    (hstage : r.stage = .erase ptr newObj) : Advances s r := by
  have hok := h.running r hworker
  have hstageOk := hok.stageOk
  rw [hstage] at hstageOk
  obtain ⟨⟨data, hwhite⟩, hblack⟩ := hstageOk
  let heap : State := { s.heap with metadata := s.heap.metadata.erase ptr }
  let next : Running := { r with
    visited := AssocMap.emplace ptr newObj r.visited
    stage := .forward }
  have hlookup : ∀ q, heap.metadata.lookup q = if q = ptr then none else s.heap.metadata.lookup q :=
    fun q => AssocMap.lookup_erase_eq
  have hkeeps : ∀ q ≠ ptr, q ∈ s.heap.metadata → q ∈ heap.metadata := fun q hne hq =>
    AList.mem_erase.mpr ⟨hne, hq⟩
  -- copies lie in the other space
  have hblackNe : ∀ q, Black cfg s.heap.metadata r.toSpace q → q ≠ ptr := by
    rintro q hq rfl
    exact findSpace_ne_flip hq.space hwhite.space
  have hblackKeeps : ∀ q, Black cfg s.heap.metadata r.toSpace q →
      Black cfg heap.metadata r.toSpace q := fun q hq =>
    { hq with mem := hkeeps q (hblackNe q hq) hq.mem }
  refine ⟨next, heap, ?_, ?_⟩
  · simp only [Running.step, hstage]
    rfl
  · refine
      { blocks := ?_
        threads := ?_
        queue := h.queue_task hworker _
        settled := fun hquiet => absurd hquiet.2 (by simp)
        running := ?_
        held := ?_
        succeeded := h.succeeded }
    · refine h.blocks.forget (fun {q d} hd => ?_) rfl rfl rfl rfl
      rw [hlookup] at hd
      split at hd
      · cases hd
      · exact hd
    · refine h.threads_task hworker _ fun id req space index hthread hfree hmem => ?_
      have hne : FatPtr.ofAddr (cfg.base space + index) ≠ ptr := by
        -- the object and what the thread has reserved share no byte
        rintro rfl
        have hfresh := h.fresh_of_reserved hthread
        rw [hwhite.lookup] at hfresh
        cases hfresh
      have hlookup' : r.visited.lookup (FatPtr.ofAddr (cfg.base space + index)) = none :=
        AList.lookup_eq_none.mpr hfree
      refine AList.lookup_eq_none.mp ?_ hmem
      rw [AssocMap.lookup_emplace_of_ne hne]
      exact hlookup'
    · intro _ hr
      cases hr
      refine
        { current := hok.current
          forwarded := ?_
          rootsOk := hok.rootsOk
          stackOk := hok.stackOk
          stageOk := trivial
          atRoots := fun heq => by cases heq
          atSweep := fun heq => by cases heq }
      intro v v' hv
      rw [AssocMap.lookup_emplace hwhite.unvisited] at hv
      split at hv
      · rename_i heq
        cases hv
        subst heq
        exact ⟨by rw [hlookup, if_pos rfl], hwhite.space, hblackKeeps _ hblack⟩
      · rename_i hne
        obtain ⟨hgone, hspace, hforwarded⟩ := hok.forwarded hv
        exact ⟨by rw [hlookup, if_neg hne]; exact hgone, hspace, hblackKeeps _ hforwarded⟩
    · intro slot hslot w hw hcontains
      refine HeldBy.traced (r := next) ?_
      rcases h.heldBy hworker hslot hw hcontains with ⟨hspace, hmem⟩ | ⟨hlive, hpending⟩
      · refine Or.inl ⟨hspace, hkeeps w (hblackNe w ⟨hmem, ?_⟩) hmem⟩
        rw [hok.current]
        exact hspace
      · refine Or.inr ⟨?_, ?_⟩
        · by_cases heq : w = ptr
          · rw [heq]
            exact Or.inr (AssocMap.mem_of_lookup (AssocMap.lookup_emplace_self hwhite.unvisited))
          · rcases hlive with hmem | hmem
            · exact Or.inl (hkeeps w heq hmem)
            · obtain ⟨v', hv'⟩ := Option.isSome_iff_exists.mp (AList.lookup_isSome.mpr hmem)
              rw [← AssocMap.lookup_emplace_of_ne (v := newObj) heq] at hv'
              exact Or.inr (AssocMap.mem_of_lookup hv')
        · rcases hpending with hmem | hmem | hnow
          · exact Or.inl hmem
          · exact Or.inr (Or.inl hmem)
          · rw [hstage] at hnow
            cases hnow

/-! ### The end and the start of a task -/

/-- At the sweep no root slot refers into the space that is left. -/
theorem Inv.held_at_sweep (h : Inv s) (hworker : s.worker = some r) (hstage : r.stage = .sweep)
    {slot : Nat} (hslot : slot ∈ roots.slots) {w : FatPtr} (hw : testPtr s.heap.mem slot = some w)
    (hcontains : contains cfg w.asPtr = true) :
    findSpace cfg w.asPtr = some s.heap.spaceNum ∧ w ∈ s.heap.metadata := by
  obtain ⟨hroots, hstack⟩ := (h.running r hworker).atSweep hstage
  rcases h.heldBy hworker hslot hw hcontains with hdone | ⟨_, hmem | hmem | hnow⟩
  · exact hdone
  · rw [hroots] at hmem
    cases hmem
  · rw [hstack] at hmem
    cases hmem
  · rw [hstage] at hnow
    cases hnow

theorem Inv.run_task_sweep (h : Inv s) (hstage : r.stage = .sweep) :
    (r.step cfg).run s.heap = .ok none (s.heap.swept cfg r.toSpace r.visited) := by
  have hsome : ∀ q d, s.heap.metadata.lookup q = some d → (findSpace cfg q.asPtr).isSome := by
    intro q d hq
    obtain ⟨space, hspace⟩ := h.blocks.findSpace_ne_none hq
    rw [hspace]
    rfl
  simp only [Running.step, hstage]
  rw [run_bind_of_ok (run_sweep hsome)]
  rfl

/-- **The sweep leaves the objects of the new space.** -/
theorem Inv.task_sweep (h : Inv s) (hworker : s.worker = some r) (hstage : r.stage = .sweep) :
    ∃ heap, (r.step cfg).run s.heap = .ok none heap ∧ heap.mem = s.heap.mem ∧
      (∀ q, heap.metadata.lookup q =
        if findSpace cfg q.asPtr = some s.heap.spaceNum then s.heap.metadata.lookup q else none) ∧
      Inv { s with heap, worker := none, finished := s.finished + 1 } := by
  have hok := h.running r hworker
  have htasks := h.tasks_nil hworker
  have hlookup : ∀ q, (s.heap.swept cfg r.toSpace r.visited).metadata.lookup q =
      if findSpace cfg q.asPtr = some s.heap.spaceNum then s.heap.metadata.lookup q else none := by
    intro q
    rw [State.lookup_swept, hok.current]
    by_cases hspace : findSpace cfg q.asPtr = some s.heap.spaceNum
    · rw [if_neg fun hleft => hleft.1 hspace, if_pos hspace]
    · rw [if_neg hspace]
      split
      · rfl
      · -- what has been copied is no longer registered
        rename_i hkept
        have hmem : q ∈ r.visited := by
          by_contra hunvisited
          exact hkept ⟨hspace, hunvisited⟩
        obtain ⟨v', hv'⟩ := Option.isSome_iff_exists.mp (AList.lookup_isSome.mpr hmem)
        exact (hok.forwarded hv').1
  refine ⟨s.heap.swept cfg r.toSpace r.visited, h.run_task_sweep hstage, rfl, hlookup, ?_⟩
  · refine
      { blocks := ?_
        threads := ?_
        queue := ?_
        settled := ?_
        running := fun _ hr => by cases hr
        held := ?_
        succeeded := h.succeeded }
    · refine h.blocks.forget (fun {q d} hd => ?_) rfl rfl rfl rfl
      rw [hlookup] at hd
      split at hd
      · exact hd
      · cases hd
    · refine fun id => (h.threads id).imp fun req space index _ _ => ?_
      rintro ⟨_, ⟨⟩, _⟩
    · rcases h.queue with ⟨⟨_, hnone⟩, _⟩ | ⟨hresult, _⟩
      · rw [hworker] at hnone
        cases hnone
      · refine Or.inl ⟨⟨htasks, rfl⟩, ?_⟩
        simp [Sys.resultReady, hresult]
    · intro _ q d hq
      rw [hlookup] at hq
      split at hq
      · rename_i hspace
        exact hspace
      · cases hq
    · intro slot hslot w hw hcontains
      obtain ⟨hspace, hmem⟩ := h.held_at_sweep hworker hstage hslot hw hcontains
      obtain ⟨d, hd⟩ := Option.isSome_iff_exists.mp (AList.lookup_isSome.mpr hmem)
      refine Or.inl ⟨hspace, AssocMap.mem_of_lookup (v := d) ?_⟩
      rw [hlookup, if_pos hspace]
      exact hd

/-- **The roots are enumerated.** -/
theorem Inv.startTask (h : Inv s) (hworker : s.worker = none) {toSpace : SpaceNum}
    {tasks : List SpaceNum} (htasks : s.tasks = toSpace :: tasks) :
    Inv { s with
      tasks
      worker := some { toSpace, visited := ∅, roots := roots.slots, stack := [], stage := .roots } } := by
  obtain ⟨hresult, hone⟩ := h.queue.resolve_left fun hquiet => by
    have hnil := hquiet.1.1
    rw [htasks] at hnil
    cases hnil
  have hqueued : s.tasks = [s.heap.spaceNum] := by
    rcases hone with ⟨hqueued, _⟩ | ⟨hnil, _⟩
    · exact hqueued
    · rw [htasks] at hnil
      cases hnil
  rw [htasks] at hqueued
  cases hqueued
  refine
    { blocks := h.blocks.forget (fun hd => hd) rfl rfl rfl rfl
      threads := ?_
      queue := Or.inr ⟨hresult, Or.inr ⟨rfl, by simp⟩⟩
      settled := fun hquiet => absurd hquiet.2 (by simp)
      running := ?_
      held := ?_
      succeeded := h.succeeded }
  · refine fun id => (h.threads id).imp fun req space index _ _ => ?_
    rintro ⟨_, ⟨⟩, hmem⟩
    cases hmem
  · intro _ hr
    cases hr
    exact
      { current := rfl
        forwarded := fun hv => by cases hv
        rootsOk := fun _ hp => hp
        stackOk := fun _ hp => by cases hp
        stageOk := trivial
        atRoots := fun _ => rfl
        atSweep := fun heq => by cases heq }
  · intro slot hslot w hw hcontains
    refine (h.held slot hslot w hw hcontains).imp_right ?_
    rintro ⟨hlive, _⟩
    refine ⟨hlive.imp_right ?_, Or.inr ⟨_, rfl, Or.inl hslot⟩⟩
    rintro ⟨r, hr, _⟩
    rw [hworker] at hr
    cases hr

/-! ### Every step of a task -/

/-- **A careful step of a task keeps the invariant**, and nothing is thrown. -/
theorem Inv.stepWorker (h : Inv s) {t : Sys roots} (hcareful : Careful s .worker)
    (hstep : s.stepWorker = some t) : Inv t := by
  rw [Sys.stepWorker] at hstep
  cases hworker : s.worker with
  | none =>
      rw [hworker] at hstep
      cases htasks : s.tasks with
      | nil =>
          rw [htasks] at hstep
          cases hstep
      | cons toSpace tasks =>
          rw [htasks] at hstep
          cases hstep
          exact h.startTask hworker htasks
  | some r =>
      rw [hworker] at hstep
      have hadvances : Advances s r → Inv t := by
        rintro ⟨r', heap, hrun, hinv⟩
        simp only [hrun] at hstep
        cases hstep
        exact hinv
      cases hstage : r.stage with
      | roots => exact hadvances (h.task_roots hworker hstage)
      | forward => exact hadvances (h.task_forward hworker hstage)
      | tested p ptr => exact hadvances (h.task_tested hworker hstage)
      | found p ptr => exact hadvances (h.task_found hworker hstage)
      | copy p ptr => exact hadvances (h.task_copy hworker hstage)
      | lookup p ptr => exact hadvances (h.task_lookup hworker hstage)
      | reserve p ptr data =>
          have hroom := hcareful r hworker
          rw [CarefulTask, hstage] at hroom
          exact hadvances (h.task_reserve hworker hstage hroom)
      | check p ptr data index => exact hadvances (h.task_check hworker hstage)
      | register p ptr data index => exact hadvances (h.task_register hworker hstage)
      | words p ptr data newObj i => exact hadvances (h.task_words hworker hstage)
      | exchange p ptr newObj => exact hadvances (h.task_exchange hworker hstage)
      | erase ptr newObj => exact hadvances (h.task_erase hworker hstage)
      | sweep =>
          obtain ⟨heap, hrun, _, _, hinv⟩ := h.task_sweep hworker hstage
          simp only [hrun] at hstep
          cases hstep
          exact hinv

/-! ### What a step of a task leaves alone -/

section SameRoom

variable {heap heap' : State}

def Stage.moves : Stage → Bool
  | .reserve _ _ _ => true
  | .register _ _ _ _ => true
  | .erase _ _ => true
  | .sweep => true
  | _ => false

/-- The map and the bump indices are the same, and so is what the task has reserved. -/
structure SameRoom (heap : State) (r : Running) (heap' : State) (r' : Running) : Prop where
  metadata : heap'.metadata = heap.metadata
  nexts : heap'.nexts = heap.nexts
  spaceNum : heap'.spaceNum = heap.spaceNum
  reserved : r'.stage.reserved = r.stage.reserved

theorem SameRoom.of_step {next : Option Running}
    (hrun : (r.step cfg).run heap = .ok next heap') (hmoves : r.stage.moves = false) :
    ∃ r', next = some r' ∧ SameRoom heap r heap' r' := by
  rw [Running.step] at hrun
  cases hstage : r.stage <;> rw [hstage] at hmoves <;> simp only [hstage] at hrun
  case reserve | register | erase | sweep => cases hmoves
  case roots =>
    split at hrun
    · cases hrun
      exact ⟨_, rfl, rfl, rfl, rfl, by rw [hstage]; rfl⟩
    · rw [EStateM.run_bind, EStateM.run_get] at hrun
      dsimp only at hrun
      split at hrun
      · split at hrun <;> cases hrun
        · exact ⟨_, rfl, rfl, rfl, rfl, by rw [hstage]; rfl⟩
        · exact ⟨_, rfl, rfl, rfl, rfl, by rw [hstage]⟩
      · cases hrun
        exact ⟨_, rfl, rfl, rfl, rfl, by rw [hstage]⟩
  case forward =>
    split at hrun
    · cases hrun
      exact ⟨_, rfl, rfl, rfl, rfl, by rw [hstage]; rfl⟩
    · rw [EStateM.run_bind, EStateM.run_get] at hrun
      dsimp only at hrun
      split at hrun <;> cases hrun
      · exact ⟨_, rfl, rfl, rfl, rfl, by rw [hstage]⟩
      · exact ⟨_, rfl, rfl, rfl, rfl, by rw [hstage]; rfl⟩
  case tested p ptrVal =>
    split at hrun
    · cases hrun
      exact ⟨_, rfl, rfl, rfl, rfl, by rw [hstage]; rfl⟩
    · rw [EStateM.run_bind, EStateM.run_get] at hrun
      dsimp only at hrun
      split at hrun
      · cases hrun
        exact ⟨_, rfl, rfl, rfl, rfl, by rw [hstage]; rfl⟩
      · obtain ⟨space, u, hspace, hnext⟩ := run_bind_eq_ok.mp hrun
        obtain rfl := (state_of_getSpaceNum hspace).symm
        split at hnext <;> cases hnext <;> exact ⟨_, rfl, rfl, rfl, rfl, by rw [hstage]; rfl⟩
  case found p ptrVal =>
    obtain ⟨metaData, u, hdata, hscan⟩ := run_bind_eq_ok.mp hrun
    obtain rfl := (state_of_metadataAt hdata).symm
    rw [EStateM.run_bind, EStateM.run_get] at hscan
    dsimp only at hscan
    split at hscan <;> cases hscan
    exact ⟨_, rfl, rfl, rfl, rfl, by rw [hstage]; rfl⟩
  case copy p ptrVal =>
    obtain ⟨space, u, hspace, hnext⟩ := run_bind_eq_ok.mp hrun
    obtain rfl := (state_of_getSpaceNum hspace).symm
    split at hnext <;> cases hnext <;> exact ⟨_, rfl, rfl, rfl, rfl, by rw [hstage]; rfl⟩
  case lookup p ptrVal =>
    obtain ⟨oldData, u, hdata, hnext⟩ := run_bind_eq_ok.mp hrun
    obtain rfl := (state_of_metadataAt hdata).symm
    cases hnext
    exact ⟨_, rfl, rfl, rfl, rfl, by rw [hstage]; rfl⟩
  case check p ptrVal oldData index =>
    obtain ⟨_, u, hcheck, hnext⟩ := run_bind_eq_ok.mp hrun
    obtain rfl := (state_of_checkOverlappingAlloc hcheck).symm
    cases hnext
    refine ⟨_, rfl, rfl, rfl, rfl, ?_⟩
    rw [hstage]
    cases index <;> rfl
  case words p ptrVal oldData newObj i =>
    split at hrun <;> cases hrun <;> exact ⟨_, rfl, rfl, rfl, rfl, by rw [hstage]; rfl⟩
  case exchange p ptrVal newObj =>
    cases hrun
    exact ⟨_, rfl, rfl, rfl, rfl, by rw [hstage]; rfl⟩

/-- Only the sweep ends a task. -/
theorem stage_of_finished (hrun : (r.step cfg).run heap = .ok none heap') : r.stage = .sweep := by
  by_cases hmoves : r.stage.moves = false
  · obtain ⟨_, hnext, _⟩ := SameRoom.of_step hrun hmoves
    cases hnext
  · cases hstage : r.stage <;> rw [hstage] at hmoves <;> simp only [Running.step, hstage] at hrun
    case roots | forward | tested | found | copy | lookup | check | words | exchange =>
      exact absurd rfl hmoves
    case reserve p ptr oldData =>
      obtain ⟨index, w, _, hfinal⟩ := run_bind_eq_ok.mp hrun
      cases hfinal
    case register p ptr oldData index =>
      split at hrun
      · cases hrun
      · obtain ⟨newObj, w, _, hfinal⟩ := run_bind_eq_ok.mp hrun
        cases hfinal
    case erase ptr newObj => cases hrun

end SameRoom

end Gcpp.Concurrent
