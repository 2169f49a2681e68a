import Gcpp.PromptRun
import Gcpp.Proof.Interleavings

/-!
# Room for the copies

The bump index of the current space is the sum of what lies in it and what the task has reserved, so
a copy finds room as long as the objects leave it. Threads and task share the space under different
limits: nothing else keeps it from running full.
-/

namespace Gcpp.Concurrent

open ByteMemory StateExcept AssocMap Arena

variable {cfg : Config} {roots : RootSlots cfg} {s t : Sys roots} {r : Running}
  {heap heap' : State} {id : ThreadId} {ptr : FatPtr} {data : MetaData}

/-! ### Alignment 1 -/

theorem smallAlignment_one : SmallAlignment 1 := ⟨0, by decide, rfl⟩

@[simp]
theorem calcAlignmentBytes_one (curPtr : Nat) : calcAlignmentBytes curPtr 1 = some 0 :=
  calcAlignmentBytes_of_dvd smallAlignment_one (Nat.one_dvd _)

/-! ### What lies in a space -/

section SpaceSize

variable {metadata : AssocMap FatPtr MetaData} {space : SpaceNum}

theorem spaceSize_emplace (hfresh : metadata.lookup ptr = none)
    (hspace : findSpace cfg ptr.asPtr = some space) :
    spaceSize cfg space (AssocMap.emplace ptr data metadata) =
      data.size + spaceSize cfg space metadata := by
  rw [spaceSize, weightSum_emplace _ hfresh, inside, if_pos hspace, spaceSize]

theorem spaceSize_erase (hspace : findSpace cfg ptr.asPtr ≠ some space) :
    spaceSize cfg space (metadata.erase ptr) = spaceSize cfg space metadata :=
  weightSum_erase_of_zero fun _ _ => if_neg hspace

theorem spaceSize_swept {visited : Visited} :
    spaceSize cfg space (heap.swept cfg space visited).metadata =
      spaceSize cfg space heap.metadata := by
  refine weightSum_eraseAll_of_zero _ _ fun q hq d _ => if_neg ?_
  have hkey := (List.mem_filter.mp hq).2
  exact (of_decide_eq_true hkey).1

theorem spaceSize_of_settled
    (h : ∀ ptr data, metadata.lookup ptr = some data → findSpace cfg ptr.asPtr = some space) :
    spaceSize cfg space.flip metadata = 0 := by
  refine weightSum_zero fun q d hq => if_neg fun hspace => ?_
  rw [h q d hq] at hspace
  exact SpaceNum.flip_ne space (Option.some.inj hspace).symm

end SpaceSize

/-! ### The accounts -/

/-- The bytes that the task has reserved and not yet registered. -/
def Running.inHand (r : Running) : Nat :=
  (r.stage.reserved.map fun reserved => reserved.2.size).getD 0

def Sys.inHand (s : Sys roots) : Nat := (s.worker.map Running.inHand).getD 0

/-- No thread holds a block or a pointer, and what threads ask for has alignment 1. -/
def Thread.plain : Thread roots → Prop
  | .attempt req _ => req.alignment = 1
  | .reserved _ _ _ => False
  | .collect _ resume _ => ∀ req retries, resume = some (req, retries) → req.alignment = 1
  | .assign _ _ => False
  | _ => True

structure RoomInv (s : Sys roots) : Prop extends Inv s where
  unit : ∀ {ptr data}, s.heap.metadata.lookup ptr = some data → data.alignment = 1
  full : s.heap.nexts s.heap.spaceNum =
    spaceSize cfg s.heap.spaceNum s.heap.metadata + s.inHand
  otherNext : s.heap.nexts s.heap.spaceNum.flip = 0
  plain : ∀ id, (s.threads id).plain

namespace RoomInv

theorem of_packed (h : Packed s) : RoomInv s :=
  { h.toSteady.inv with
    unit := h.unit
    full := by
      rw [Sys.inHand, h.quiet.2]
      exact h.full
    otherNext := h.otherNext
    plain := fun id => by
      rw [h.idle id]
      trivial }

/-- A step that moves no object. -/
theorem same {u : Sys roots} (h : RoomInv s) (hinv : Inv u)
    (hmetadata : u.heap.metadata = s.heap.metadata) (hnexts : u.heap.nexts = s.heap.nexts)
    (hcurrent : u.heap.spaceNum = s.heap.spaceNum) (hhand : u.inHand = s.inHand)
    (hplain : ∀ id, (u.threads id).plain) : RoomInv u :=
  { hinv with
    unit := by
      rw [hmetadata]
      exact h.unit
    full := by
      rw [hmetadata, hnexts, hcurrent, hhand]
      exact h.full
    otherNext := by
      rw [hnexts, hcurrent]
      exact h.otherNext
    plain := hplain }

theorem setThread {pc : Thread roots} (h : RoomInv s) (hinv : Inv (s.setThread id pc))
    (hpc : pc.plain) : RoomInv (s.setThread id pc) :=
  h.same hinv rfl rfl rfl rfl (threads_setThread h.plain hpc)

theorem threads_setThread_self {pc : Thread roots} : (s.setThread id pc).threads id = pc :=
  Function.update_self _ _ _

theorem settle_of_plain (h : (s.threads id).plain) : s.settle id = s := by
  rw [Sys.settle]
  split
  · rename_i hthread
    rw [hthread] at h
    exact h.elim
  · rfl

theorem settle_setThread (pc : Thread roots) (hpc : pc.plain) :
    (s.setThread id pc).settle id = s.setThread id pc := by
  apply settle_of_plain
  rw [threads_setThread_self]
  exact hpc

/-- Without padding a block starts at the bump index. -/
theorem index_of_reserveAttempt {size index : Nat} {space : SpaceNum}
    (hrun : (reserveAttempt cfg size 1).run heap = .ok (space, some index) heap') :
    index = heap.nexts heap.spaceNum := by
  simp only [reserveAttempt] at hrun
  rw [EStateM.run_bind, EStateM.run_get] at hrun
  dsimp only at hrun
  obtain ⟨reserved, u, hreserve, hrest⟩ := run_bind_eq_ok.mp hrun
  obtain ⟨_, w, _, hfinal⟩ := run_bind_eq_ok.mp hrest
  cases hfinal
  rw [run_reserveSpace _ _ (calcAlignmentBytes_one _)] at hreserve
  split at hreserve <;> cases hreserve
  rfl

/-- **An allocation in one step** takes its bytes from the current space. -/
theorem attempt (h : RoomInv s) {req : Request roots} (hsize : 0 < req.size)
    (halign : req.alignment = 1) (retries : Nat) :
    RoomInv ((s.attempt id req retries).settle id) := by
  have hinv : Inv (s.attempt id req retries) := h.toInv.attempt hsize retries
  rw [Sys.attempt] at hinv ⊢
  rcases run_reserveAttempt_cases req.size req.alignment (h.toInv.free_above hsize) with
    ⟨e, hne, hrun⟩ | hrun | ⟨padding, hfit, hrun⟩
  · rw [hrun] at hinv ⊢
    dsimp only at hinv ⊢
    rw [settle_setThread (.thrown e) trivial]
    exact h.setThread hinv trivial
  · rw [hrun] at hinv ⊢
    cases retries with
    | zero =>
        dsimp only at hinv ⊢
        rw [settle_setThread (.thrown .badAlloc) trivial]
        exact h.setThread hinv trivial
    | succ retries =>
        have hpc : (Thread.collect req.size (some (req, retries)) .test : Thread roots).plain := by
          intro other left heq
          cases heq
          exact halign
        dsimp only at hinv ⊢
        rw [settle_setThread _ hpc]
        exact h.setThread hinv hpc
  · -- the block starts at the bump index, and is registered where it starts
    have hindex := hrun
    rw [halign] at hindex
    obtain rfl : padding = 0 := Nat.add_left_cancel (index_of_reserveAttempt hindex)
    rw [hrun] at hinv ⊢
    dsimp only at hinv ⊢
    have hregistered := hinv.register threads_setThread_self (Or.inl rfl)
    have hroom := cfg.maxAllocSize_lt (by omega)
    have hlt : s.heap.nexts s.heap.spaceNum + 0 < cfg.heapSize := by omega
    let block := FatPtr.ofAddr (cfg.base s.heap.spaceNum + (s.heap.nexts s.heap.spaceNum + 0))
    have haddr : block.asPtr = cfg.base s.heap.spaceNum + (s.heap.nexts s.heap.spaceNum + 0) :=
      asPtr_ofAddr_base _ hlt
    have hspace : findSpace cfg block.asPtr = some s.heap.spaceNum := findSpace_ofAddr_base _ hlt
    have hfresh : s.heap.metadata.lookup block = none :=
      hinv.blocks.lookup_fresh (.thread id) (fun _ => by simp)
        ((Thread.claims_setThread _).trans (if_pos rfl)) haddr
    rw [Sys.settle, threads_setThread_self]
    dsimp only
    rw [Sys.register, run_allocNoConstraints, if_neg (by dsimp only; omega)] at hregistered ⊢
    refine
      { hregistered with
        unit := fun {q d} hq => ?_
        full := ?_
        otherNext := ?_
        plain := ?_ }
    · change (AssocMap.emplace block _ s.heap.metadata).lookup q = some d at hq
      rw [AssocMap.lookup_emplace hfresh] at hq
      split at hq
      · cases hq
        exact halign
      · exact h.unit hq
    · change (s.heap.bump s.heap.spaceNum (s.heap.nexts s.heap.spaceNum + req.size + 0)).nexts
          s.heap.spaceNum =
        spaceSize cfg s.heap.spaceNum (AssocMap.emplace block _ s.heap.metadata) + s.inHand
      rw [State.bump_nexts_self, spaceSize_emplace hfresh hspace, h.full]
      dsimp only
      omega
    · change (s.heap.bump s.heap.spaceNum _).nexts s.heap.spaceNum.flip = 0
      rw [State.bump_nexts_flip]
      exact h.otherNext
    · intro other
      by_cases heq : other = id
      · subst heq
        rw [threads_setThread_self]
        trivial
      · change (Function.update (Function.update s.threads id _) id _ other).plain
        rw [Function.update_of_ne heq, Function.update_of_ne heq]
        exact h.plain other

/-- **The spaces are flipped**: the other space is empty. -/
theorem asyncCollect (h : RoomInv s) (hquiet : s.Quiet) : RoomInv s.asyncCollect := by
  have htime : s.FlipInTime := fun other req index hthread => by
    have hplain := h.plain other
    rw [hthread] at hplain
    exact hplain
  exact
    { h.toInv.asyncCollect hquiet htime with
      unit := h.unit
      full := by
        change Function.update s.heap.nexts s.heap.spaceNum 0 s.heap.spaceNum.flip =
          spaceSize cfg s.heap.spaceNum.flip s.heap.metadata + s.inHand
        rw [Function.update_of_ne (SpaceNum.flip_ne _), h.otherNext,
          spaceSize_of_settled (h.settled hquiet), Sys.inHand, hquiet.2]
        rfl
      otherNext := by
        change Function.update s.heap.nexts s.heap.spaceNum 0 s.heap.spaceNum.flip.flip = 0
        rw [SpaceNum.flip_flip, Function.update_self]
      plain := h.plain }

theorem collect {neededSpace : Nat} {resume : Option (Request roots × Nat)} {pc : CollectPc}
    {u : Sys roots} (h : RoomInv s) (hthread : s.threads id = .collect neededSpace resume pc)
    (hinv : Inv u) (hstep : s.collect id neededSpace resume pc = some u) : RoomInv u := by
  have hresume : ∀ req retries, resume = some (req, retries) → req.alignment = 1 := by
    have hplain := h.plain id
    rw [hthread] at hplain
    exact hplain
  cases pc with
  | test | loadSpace | loadNext space =>
      cases hstep
      exact h.setThread hinv hresume
  | wait =>
      obtain ⟨task, _, rfl⟩ := Option.map_eq_some_iff.mp hstep
      exact h.setThread hinv hresume
  | waiting task =>
      rw [Sys.collect] at hstep
      split at hstep <;> cases hstep
      exact h.setThread hinv hresume
  | lock =>
      cases hstep
      have hflipped : RoomInv (if s.Flips neededSpace then s.asyncCollect else s) := by
        split
        · rename_i hflips
          exact h.asyncCollect (h.quiet_of_ready hflips.2)
        · exact h
      unfold Sys.collectLocked at hinv ⊢
      cases resume with
      | none => exact hflipped.setThread hinv trivial
      | some again => exact hflipped.setThread hinv (hresume again.1 again.2 rfl)

theorem stepThread {u : Sys roots} (h : RoomInv s) (hstep : s.stepThread id = some u) :
    RoomInv (u.settle id) := by
  have hplain := h.plain id
  have hok := h.threads id
  have hcareful : CarefulThread s (s.threads id) := by
    cases hthread : s.threads id <;> rw [hthread] at hplain
    case idle | attempt | thrown => trivial
    case reserved | assign => exact hplain.elim
    case collect neededSpace resume pc =>
      cases pc <;> try trivial
      intro _ other req index hother
      have hnone := h.plain other
      rw [hother] at hnone
      exact hnone
  have hinv := h.toInv.stepThread hcareful hstep
  rw [Sys.stepThread] at hstep
  cases hthread : s.threads id with
  | idle =>
      rw [hthread] at hstep
      cases hstep
  | attempt req retries =>
      rw [hthread] at hstep hok hplain
      obtain ⟨_, ⟨⟩⟩ := Option.ite_none_left_eq_some.mp hstep
      exact h.attempt hok hplain retries
  | reserved req space index =>
      rw [hthread] at hplain
      exact hplain.elim
  | collect neededSpace resume pc =>
      rw [hthread] at hstep
      have hnext := h.collect hthread hinv hstep
      rw [settle_of_plain (hnext.plain id)]
      exact hnext
  | assign dst value =>
      rw [hthread] at hplain
      exact hplain.elim
  | thrown e =>
      rw [hthread] at hstep
      cases hstep
      rw [settle_setThread .idle trivial]
      exact h.setThread hinv trivial

theorem inHand_eq {u : Sys roots} (hworker : u.worker = some r) : u.inHand = r.inHand := by
  rw [Sys.inHand, hworker]
  rfl

/-- Before a copy is reserved nothing is in hand. -/
theorem nexts_at_reserve (h : RoomInv s) (hworker : s.worker = some r) {p : Nat}
    (hstage : r.stage = .reserve p ptr data) :
    s.heap.nexts r.toSpace = spaceSize cfg r.toSpace s.heap.metadata := by
  have hfull := h.full
  rw [inHand_eq hworker, Running.inHand, hstage] at hfull
  rw [(h.running r hworker).current, hfull]
  rfl

theorem unit_at_reserve (h : RoomInv s) (hworker : s.worker = some r) {p : Nat}
    (hstage : r.stage = .reserve p ptr data) : data.alignment = 1 := by
  have hstageOk := (h.running r hworker).stageOk
  rw [hstage] at hstageOk
  exact h.unit hstageOk.2.lookup

/-- **A copy takes its bytes from the current space**, first in hand and then as an object. -/
theorem task {u : Sys roots} (h : RoomInv s) (hworker : s.worker = some r) (hinv : Inv u)
    (hfits : Fits s .worker) {r' : Running} (hrun : (r.step cfg).run s.heap = .ok (some r') heap)
    (hu : u = { s with heap, worker := some r' }) : RoomInv u := by
  subst hu
  have hok := h.running r hworker
  have hstageOk := hok.stageOk
  have hfull := h.full
  rw [inHand_eq hworker] at hfull
  by_cases hmoves : r.stage.moves = false
  · obtain ⟨_, hnext, hsame⟩ := SameRoom.of_step hrun hmoves
    cases hnext
    refine h.same hinv hsame.metadata hsame.nexts hsame.spaceNum ?_ h.plain
    rw [inHand_eq hworker, inHand_eq rfl, Running.inHand, hsame.reserved]
    rfl
  · cases hstage : r.stage <;> rw [hstage] at hmoves
    case roots | forward | tested | found | copy | lookup | check | words | exchange =>
      exact absurd rfl hmoves
    case reserve p ptr oldData =>
      have hroom := hfits r p ptr oldData hworker hstage
      have hnext := h.nexts_at_reserve hworker hstage
      simp only [Running.step, hstage] at hrun
      obtain ⟨index, w, hreserve, hfinal⟩ := run_bind_eq_ok.mp hrun
      rw [h.unit_at_reserve hworker hstage, run_reserveSpace _ _ (calcAlignmentBytes_one _),
        if_neg (by omega)] at hreserve
      cases hreserve
      cases hfinal
      exact
        { hinv with
          unit := h.unit
          full := by
            change (s.heap.bump r.toSpace (s.heap.nexts r.toSpace + oldData.size + 0)).nexts
              s.heap.spaceNum = spaceSize cfg s.heap.spaceNum s.heap.metadata + oldData.size
            rw [← hok.current, State.bump_nexts_self, hnext]
            rfl
          otherNext := by
            change (s.heap.bump r.toSpace _).nexts s.heap.spaceNum.flip = 0
            rw [← hok.current, State.bump_nexts_flip, hok.current]
            exact h.otherNext
          plain := h.plain }
    case register p ptr oldData index =>
      rw [hstage] at hstageOk
      obtain ⟨_, hwhite, i, rfl, hroom⟩ := hstageOk
      have haddr : (FatPtr.ofAddr (cfg.base r.toSpace + i)).asPtr = cfg.base r.toSpace + i :=
        asPtr_ofAddr_base r.toSpace (by omega)
      have hspace := findSpace_ofAddr_base r.toSpace (show i < cfg.heapSize by omega)
      have hfresh := h.blocks.lookup_fresh .task (fun _ => by simp)
        (claims_task hworker (by rw [hstage]; rfl)) haddr
      simp only [Running.step, hstage] at hrun
      rw [run_bind_of_ok (run_allocNoConstraints.trans (if_neg (by omega)))] at hrun
      cases hrun
      exact
        { hinv with
          unit := fun {q d} hq => by
            change (AssocMap.emplace _ oldData s.heap.metadata).lookup q = some d at hq
            rw [AssocMap.lookup_emplace hfresh] at hq
            split at hq
            · cases hq
              exact h.unit hwhite.lookup
            · exact h.unit hq
          full := by
            change s.heap.nexts s.heap.spaceNum = spaceSize cfg s.heap.spaceNum
              (AssocMap.emplace (FatPtr.ofAddr (cfg.base r.toSpace + i)) oldData
                s.heap.metadata) + 0
            rw [hfull, spaceSize_emplace hfresh (hok.current ▸ hspace), Running.inHand, hstage,
              Nat.add_comm]
            rfl
          otherNext := h.otherNext
          plain := h.plain }
    case erase ptr newObj =>
      rw [hstage] at hstageOk
      obtain ⟨⟨data, hwhite⟩, _⟩ := hstageOk
      simp only [Running.step, hstage] at hrun
      cases hrun
      exact
        { hinv with
          unit := fun {q d} hq => by
            change AList.lookup q (s.heap.metadata.erase ptr) = some d at hq
            rw [AssocMap.lookup_erase_eq] at hq
            split at hq
            · cases hq
            · exact h.unit hq
          full := by
            change s.heap.nexts s.heap.spaceNum =
              spaceSize cfg s.heap.spaceNum (s.heap.metadata.erase ptr) + 0
            rw [hfull, spaceSize_erase, Running.inHand, hstage]
            · rfl
            · rw [← hok.current]
              exact findSpace_ne_of_flip hwhite.space
          otherNext := h.otherNext
          plain := h.plain }
    case sweep =>
      simp only [Running.step, hstage] at hrun
      obtain ⟨_, w, _, hfinal⟩ := run_bind_eq_ok.mp hrun
      cases hfinal

/-- The sweep removes nothing from the current space. -/
theorem finish {u : Sys roots} (h : RoomInv s) (hworker : s.worker = some r) (hinv : Inv u)
    (hrun : (r.step cfg).run s.heap = .ok none heap)
    (hu : u = { s with heap, worker := none, finished := s.finished + 1 }) : RoomInv u := by
  subst hu
  have hok := h.running r hworker
  have hstage := stage_of_finished hrun
  rw [h.run_task_sweep hstage] at hrun
  cases hrun
  exact
    { hinv with
      unit := fun {q d} hq => by
        rw [State.lookup_swept] at hq
        split at hq
        · cases hq
        · exact h.unit hq
      full := by
        have hfull := h.full
        rw [inHand_eq hworker, Running.inHand, hstage] at hfull
        change s.heap.nexts s.heap.spaceNum = spaceSize cfg s.heap.spaceNum
          (s.heap.swept cfg r.toSpace r.visited).metadata + 0
        rw [hok.current, spaceSize_swept, hfull]
        rfl
      otherNext := h.otherNext
      plain := h.plain }

theorem stepWorker {u : Sys roots} (h : RoomInv s) (hfits : Fits s .worker)
    (hstep : s.stepWorker = some u) : RoomInv u := by
  have hcareful : Careful s .worker := by
    intro r hworker
    rw [CarefulTask]
    split
    · rename_i p ptr oldData hstage
      have hroom := hfits r p ptr oldData hworker hstage
      refine ⟨0, ?_, ?_⟩
      · rw [h.unit_at_reserve hworker hstage]
        exact calcAlignmentBytes_one _
      · rw [h.nexts_at_reserve hworker hstage]
        exact hroom
    · trivial
  have hinv := h.toInv.stepWorker hcareful hstep
  cases Sys.workerMove hstep with
  | start toSpace tasks hworker =>
      refine h.same hinv rfl rfl rfl ?_ h.plain
      rw [Sys.inHand, Sys.inHand, hworker]
      rfl
  | next r r' heap hworker hrun => exact h.task hworker hinv hfits hrun rfl
  | finish r heap hworker hrun => exact h.finish hworker hinv hrun rfl
  | fail =>
      have hsucceeded := hinv.succeeded
      cases hsucceeded

/-- **Every step keeps the accounts** as long as the copies fit. -/
theorem step {a : Action roots} {u : Sys roots} (h : RoomInv s) (hfits : Fits s a)
    (hstep : promptStep a s = some u) : RoomInv u := by
  rw [promptStep] at hstep
  split at hstep
  · rename_i hplain
    obtain ⟨v, hv, rfl⟩ := Option.map_eq_some_iff.mp hstep
    cases a with
    | alloc id req =>
        rw [Concurrent.step] at hv
        split at hv <;> cases hv
        have hinv : Inv (s.startAlloc id req) := h.toInv.startAlloc req
        have halign : req.alignment = 1 := beq_iff_eq.mp hplain
        unfold Sys.startAlloc at hinv ⊢
        split at hinv
        · rename_i hrefused
          rw [if_pos hrefused]
          exact h.setThread hinv trivial
        · rename_i hadmitted
          rw [if_neg hadmitted]
          exact h.setThread hinv halign
    | collect id needed =>
        rw [Concurrent.step] at hv
        split at hv <;> cases hv
        have hnone : ∀ {req : Request roots} {retries : Nat},
            (none : Option (Request roots × Nat)) ≠ some (req, retries) := fun heq => by cases heq
        exact h.setThread (h.toInv.setThread (fun _ _ heq => absurd heq hnone) rfl)
          fun _ _ heq => absurd heq hnone
    | load id src dst => cases hplain
    | clear slot =>
        cases hv
        exact h.same (h.toInv.clear slot.2) rfl rfl rfl rfl h.plain
    | step id => exact h.stepThread hv
    | worker => exact h.stepWorker hfits hv
  · cases hstep

theorem copiesFit (h : RoomInv s) : CopiesFit s where
  roomy := fun r hworker => by
    have hstageOk := (h.running r hworker).stageOk
    cases hstage : r.stage <;> rw [hstage] at hstageOk <;> try trivial
    case check p ptr oldData index => exact hstageOk.2.2
    case register p ptr oldData index => exact hstageOk.2.2
  succeeded := h.succeeded

theorem promptStep_worker {r' : Running} (hworker : s.worker = some r)
    (hrun : (r.step cfg).run s.heap = .ok (some r') heap) :
    promptStep .worker s = some { s with heap, worker := some r' } := by
  simp only [promptStep, Action.plain, if_true, Concurrent.step, Sys.stepWorker, hworker, hrun,
    Option.map_some]

/-- **A copy that has found room had it**: the objects leave it. -/
theorem fits (h : RoomInv s) {a : Action roots}
    (hroomy : ∀ u, promptStep a s = some u → CopiesFit u) : Fits s a := by
  cases a with
  | worker =>
      intro r p ptr oldData hworker hstage
      have hreserve := run_reserveSpace oldData.size cfg.heapSize
        (calcAlignmentBytes_one (cfg.base r.toSpace + s.heap.nexts r.toSpace))
      rw [← h.unit_at_reserve hworker hstage] at hreserve
      rw [← h.nexts_at_reserve hworker hstage]
      by_cases hfull : s.heap.nexts r.toSpace + oldData.size + 0 > cfg.heapSize
      · rw [if_pos hfull] at hreserve
        have hrun : (r.step cfg).run s.heap =
            .ok (some { r with stage := .check p ptr oldData none }) s.heap := by
          simp only [Running.step, hstage]
          rw [run_bind_of_ok hreserve]
          rfl
        obtain ⟨i, hnone, _⟩ := (hroomy _ (promptStep_worker hworker hrun)).roomy _ rfl
        cases hnone
      · rw [if_neg hfull] at hreserve
        have hrun : (r.step cfg).run s.heap = .ok (some { r with
            stage := .check p ptr oldData (some (s.heap.nexts r.toSpace + 0)) })
              (s.heap.bump r.toSpace (s.heap.nexts r.toSpace + oldData.size + 0)) := by
          simp only [Running.step, hstage]
          rw [run_bind_of_ok hreserve]
          rfl
        obtain ⟨i, hsome, hroom⟩ := (hroomy _ (promptStep_worker hworker hrun)).roomy _ rfl
        cases hsome
        omega
  | alloc | collect | load | clear | step => trivial

end RoomInv

/-- **Every copy finds room exactly as long as the objects leave it**, over any number of
collections. -/
theorem copies_fit_iff (h : Packed s) {actions : List (Action roots)} :
    Machine.Always promptStep CopiesFit actions s ↔ Machine.Meets promptStep Fits actions s :=
  Machine.always_iff_meets (fun _ _ _ hinv hfits hstep => hinv.step hfits hstep)
    (fun _ hinv => hinv.copiesFit) (fun _ _ hinv hroomy => hinv.fits hroomy) (RoomInv.of_packed h)

/-- An object of half the size of the collector, a collection, and while it is queued another object
of that size. The task then reserves the block for its copy. -/
def fullRun : List (Action sampleRoots) :=
  [.alloc 1 { size := 4096, alignment := 1, slot := firstSlot }, .step 1,
    .collect 2 10000, .step 2, .step 2,
    .alloc 1 { size := 4096, alignment := 1, slot := secondSlot }, .step 1,
    .worker, .worker, .worker, .worker, .worker, .worker, .worker, .worker]

theorem copies_fit_iff_sample :
    Machine.Always promptStep CopiesFit fullRun sampleStart ↔
      Machine.Meets promptStep Fits fullRun sampleStart :=
  copies_fit_iff packed_sampleStart

/-- **The last byte is refused**: the two objects fill the space exactly. -/
theorem exact_fit_refused :
    ¬ ∀ (s : Sys sampleRoots) (actions : List (Action sampleRoots)), Packed s →
      Machine.Always promptStep CopiesFit actions s := by
  intro h
  have hview : (Machine.run promptStep fullRun sampleStart).map (fun t =>
      t.worker.map (·.stage)) =
      some (some (.check 1024 (FatPtr.ofAddr 65536) { size := 4096, alignment := 1 }
        (some 4096))) := by
    decide +kernel
  obtain ⟨t, hrun, hview⟩ := Option.map_eq_some_iff.mp hview
  obtain ⟨r, hworker, hstage⟩ := Option.map_eq_some_iff.mp hview
  have hroomy := ((h _ _ packed_sampleStart).of_run hrun).roomy r hworker
  rw [hstage] at hroomy
  obtain ⟨i, hi, hroom⟩ := hroomy
  cases hi
  exact absurd hroom (by decide)

end Gcpp.Concurrent
