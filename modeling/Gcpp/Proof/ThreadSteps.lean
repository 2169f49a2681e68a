import Gcpp.Proof.Interleaved
import Gcpp.Proof.HeapInvariant

/-!
# The steps of the threads

What `alloc` and `collect` do to the invariant, region by region. A block is taken above the bump
index and stays apart from everything until it is registered; a flip finds nothing in the space it
turns to.
-/

namespace Gcpp.Concurrent

open ByteMemory StateExcept Arena

variable {cfg : Config} {roots : RootSlots cfg} {s : Sys roots} {id : ThreadId}
  {ptr : FatPtr} {data : MetaData} {size alignment index : Nat} {space : SpaceNum}

/-! ### More objects -/

theorem mem_of_grows {metadata metadata' : AssocMap FatPtr MetaData}
    (hgrows : ∀ q d, metadata.lookup q = some d → metadata'.lookup q = some d)
    (h : ptr ∈ metadata) :
    ptr ∈ metadata' := by
  obtain ⟨data, hdata⟩ := Option.isSome_iff_exists.mp (AList.lookup_isSome.mpr h)
  exact AssocMap.mem_of_lookup (hgrows ptr data hdata)

theorem White.grow {metadata metadata' : AssocMap FatPtr MetaData} {toSpace : SpaceNum}
    {visited : Visited} (h : White cfg metadata toSpace visited ptr data)
    (hgrows : ∀ q d, metadata.lookup q = some d → metadata'.lookup q = some d) :
    White cfg metadata' toSpace visited ptr data :=
  { h with lookup := hgrows _ _ h.lookup }

theorem Black.grow {metadata metadata' : AssocMap FatPtr MetaData} {toSpace : SpaceNum}
    (h : Black cfg metadata toSpace ptr)
    (hgrows : ∀ q d, metadata.lookup q = some d → metadata'.lookup q = some d) :
    Black cfg metadata' toSpace ptr :=
  { h with mem := mem_of_grows hgrows h.mem }

theorem StageOk.grow {metadata metadata' : AssocMap FatPtr MetaData} {toSpace : SpaceNum}
    {visited : Visited} {stage : Stage} (h : StageOk roots metadata toSpace visited stage)
    (hgrows : ∀ q d, metadata.lookup q = some d → metadata'.lookup q = some d) :
    StageOk roots metadata' toSpace visited stage := by
  have hwhite : ∀ {v}, (∃ d, White cfg metadata toSpace visited v d) →
      ∃ d, White cfg metadata' toSpace visited v d := fun ⟨d, hd⟩ => ⟨d, hd.grow hgrows⟩
  cases stage with
  | roots => trivial
  | forward => trivial
  | tested p v => exact h
  | found p v => exact ⟨h.1, hwhite h.2⟩
  | copy p v => exact ⟨h.1, hwhite h.2⟩
  | lookup p v => exact ⟨h.1, hwhite h.2⟩
  | reserve p v oldData => exact ⟨h.1, h.2.grow hgrows⟩
  | check p v oldData index => exact ⟨h.1, h.2.1.grow hgrows, h.2.2⟩
  | register p v oldData index => exact ⟨h.1, h.2.1.grow hgrows, h.2.2⟩
  | words p v oldData newObj i => exact ⟨h.1, h.2.1.grow hgrows, hgrows _ _ h.2.2.1, h.2.2.2⟩
  | exchange p v newObj => exact ⟨h.1, hwhite h.2.1, h.2.2.grow hgrows⟩
  | erase v newObj => exact ⟨hwhite h.1, h.2.grow hgrows⟩
  | sweep => trivial

theorem lookup_grows {metadata : AssocMap FatPtr MetaData} (data : MetaData)
    (hfresh : metadata.lookup ptr = none) (q : FatPtr) (d : MetaData)
    (hq : metadata.lookup q = some d) :
    (AssocMap.emplace ptr data metadata).lookup q = some d := by
  rw [AssocMap.lookup_emplace hfresh, if_neg (by rintro rfl; rw [hfresh] at hq; cases hq)]
  exact hq

theorem RunningOk.register {heap heap' : State} {r : Running} (h : RunningOk roots heap r)
    (hfresh : heap.metadata.lookup ptr = none) (hunvisited : ptr ∉ r.visited)
    (hmetadata : heap'.metadata = AssocMap.emplace ptr data heap.metadata)
    (hcurrent : heap'.spaceNum = heap.spaceNum) : RunningOk roots heap' r := by
  have hgrows := lookup_grows data hfresh
  rw [← hmetadata] at hgrows
  refine { h with current := h.current.trans hcurrent.symm, forwarded := ?_, stageOk := ?_ }
  · intro v v' hv
    obtain ⟨hgone, hspace, hblack⟩ := h.forwarded hv
    refine ⟨?_, hspace, hblack.grow hgrows⟩
    rw [hmetadata, AssocMap.lookup_emplace hfresh, if_neg ?_]
    · exact hgone
    · rintro rfl
      exact hunvisited (AssocMap.mem_of_lookup hv)
  · exact h.stageOk.grow hgrows

/-- What is held stays right when objects are added. -/
theorem Traced.grow {t : Sys roots} {slot : Nat} {w : FatPtr} (h : Traced s slot w)
    (hgrows : ∀ q d, s.heap.metadata.lookup q = some d → t.heap.metadata.lookup q = some d)
    (hcurrent : t.heap.spaceNum = s.heap.spaceNum) (htasks : t.tasks = s.tasks)
    (hworker : t.worker = s.worker) : Traced t slot w := by
  unfold Traced Sys.Pending Sys.Forwarded at *
  rw [hcurrent, htasks, hworker]
  rcases h with ⟨hspace, hmem⟩ | ⟨hlive, hpending⟩
  · exact Or.inl ⟨hspace, mem_of_grows hgrows hmem⟩
  · exact Or.inr ⟨hlive.imp_left (mem_of_grows hgrows), hpending⟩

/-! ### The locked region of `alloc_attempt` -/

/-- Every outcome of the region, when nothing lies above the bump index. -/
theorem run_reserveAttempt_cases {heap : State} (size alignment : Nat)
    (hfree : ∀ padding, heap.nexts heap.spaceNum + size + padding ≤ cfg.maxAllocSize →
      NoOverlap heap.metadata (cfg.base heap.spaceNum + (heap.nexts heap.spaceNum + padding)) size) :
    (∃ e, e ≠ .runtimeError "Heap corruption" ∧
        (reserveAttempt cfg size alignment).run heap = .error e heap) ∨
      (reserveAttempt cfg size alignment).run heap = .ok (heap.spaceNum, none) heap ∨
      ∃ padding, heap.nexts heap.spaceNum + size + padding ≤ cfg.maxAllocSize ∧
        (reserveAttempt cfg size alignment).run heap =
          .ok (heap.spaceNum, some (heap.nexts heap.spaceNum + padding))
            (heap.bump heap.spaceNum (heap.nexts heap.spaceNum + size + padding)) := by
  simp only [reserveAttempt]
  rw [EStateM.run_bind, EStateM.run_get]
  dsimp only
  cases hpadding : calcAlignmentBytes (cfg.base heap.spaceNum + heap.nexts heap.spaceNum)
      alignment with
  | none =>
      have hreserve : (reserveSpace cfg size heap.spaceNum alignment cfg.maxAllocSize).run heap =
          .error .hang heap := by
        simp only [reserveSpace, EStateM.run_bind, EStateM.run_get, hpadding]
        rfl
      refine Or.inl ⟨.hang, by simp, ?_⟩
      rw [run_bind_of_error hreserve]
  | some padding =>
      by_cases hfit : heap.nexts heap.spaceNum + size + padding > cfg.maxAllocSize
      · -- nothing is reserved: the check throws unless there is no object
        rw [run_bind_of_ok ((run_reserveSpace _ _ hpadding).trans (if_pos hfit))]
        by_cases hempty : heap.metadata.entries = []
        · refine Or.inr (Or.inl ?_)
          rw [run_bind_of_ok (run_checkOverlappingAlloc_none_empty hempty)]
          rfl
        · obtain ⟨entry, hentry⟩ := List.exists_mem_of_ne_nil _ hempty
          have hlookup : heap.metadata.lookup entry.1 = some entry.2 :=
            AList.mem_lookup_iff.mpr hentry
          refine Or.inl ⟨.badOptionalAccess, by simp, ?_⟩
          rw [run_bind_of_error (run_checkOverlappingAlloc_none hlookup)]
      · refine Or.inr (Or.inr ⟨padding, by omega, ?_⟩)
        have hcheck : (checkOverlappingAlloc cfg (some (heap.nexts heap.spaceNum + padding))
            heap.spaceNum size).run
              (heap.bump heap.spaceNum (heap.nexts heap.spaceNum + size + padding)) = .ok () _ :=
          run_checkOverlappingAlloc_some (hfree padding (by omega))
        rw [run_bind_of_ok ((run_reserveSpace _ _ hpadding).trans (if_neg hfit)),
          run_bind_of_ok hcheck]
        rfl

theorem Blocks.noOverlap_above (h : Blocks s) {padding : Nat} (hsize : 0 < size)
    (hfit : s.heap.nexts s.heap.spaceNum + size + padding ≤ cfg.heapSize) :
    NoOverlap s.heap.metadata
      (cfg.base s.heap.spaceNum + (s.heap.nexts s.heap.spaceNum + padding)) size := by
  refine noOverlap_of_apart hsize fun q d hq => ?_
  obtain ⟨_, hwithin⟩ := h.entry_within hq
  exact ⟨hwithin.pos, hwithin.disjoint (by omega) (by omega)⟩

theorem Inv.not_forwarded (h : Inv s) (hspace : findSpace cfg ptr.asPtr = some s.heap.spaceNum) :
    ¬ s.Forwarded ptr := by
  rintro ⟨r, hr, hmem⟩
  obtain ⟨v', hv'⟩ := Option.isSome_iff_exists.mp (AList.lookup_isSome.mpr hmem)
  have hok := h.running r hr
  have hfrom := (hok.forwarded hv').2.1
  rw [hok.current] at hfrom
  exact findSpace_ne_flip hspace hfrom

/-- **A thread reserves a block.** -/
theorem Inv.reserve (h : Inv s) (req : Request roots) {padding : Nat} (hsize : 0 < req.size)
    (hfit : s.heap.nexts s.heap.spaceNum + req.size + padding ≤ cfg.maxAllocSize) {heap : State}
    (hheap : heap = s.heap.bump s.heap.spaceNum
      (s.heap.nexts s.heap.spaceNum + req.size + padding)) :
    Inv (({ s with heap } : Sys roots).setThread id
      (.reserved req s.heap.spaceNum (s.heap.nexts s.heap.spaceNum + padding))) := by
  subst hheap
  have hroom := cfg.maxAllocSize_lt (by omega)
  have hfree : ¬ s.Forwarded (FatPtr.ofAddr
      (cfg.base s.heap.spaceNum + (s.heap.nexts s.heap.spaceNum + padding))) :=
    h.not_forwarded (findSpace_ofAddr_base _ (by omega))
  refine
    { blocks := ?_
      threads := ?_
      queue := h.queue
      settled := h.settled
      running := fun r hr =>
        have hok := h.running r hr
        { hok with }
      held := h.held
      succeeded := h.succeeded }
  · refine h.blocks.take (.thread id) hsize (by omega) rfl ?_ fun other hne => ?_
    · rw [Thread.claims_setThread, if_pos rfl]
      rfl
    · rw [Thread.claims_setThread, if_neg hne]
      cases other <;> rfl
  · refine threads_setThread (s := { s with heap := s.heap.bump s.heap.spaceNum _ }) h.threads ?_
    exact ⟨by omega, hfree⟩

theorem Inv.free_above (h : Inv s) {size : Nat} (hsize : 0 < size) (padding : Nat)
    (hfit : s.heap.nexts s.heap.spaceNum + size + padding ≤ cfg.maxAllocSize) :
    NoOverlap s.heap.metadata
      (cfg.base s.heap.spaceNum + (s.heap.nexts s.heap.spaceNum + padding)) size := by
  have hroom := cfg.maxAllocSize_lt (by omega)
  exact h.blocks.noOverlap_above hsize (by omega)

/-- **The locked region of `alloc_attempt`.** -/
theorem Inv.attempt (h : Inv s) {req : Request roots} (hsize : 0 < req.size) (retries : Nat) :
    Inv (s.attempt id req retries) := by
  rw [Sys.attempt]
  rcases run_reserveAttempt_cases req.size req.alignment (h.free_above hsize) with
    ⟨e, hne, hrun⟩ | hrun | ⟨padding, hfit, hrun⟩
  · rw [hrun]
    exact h.setThread hne rfl
  · rw [hrun]
    cases retries with
    | zero => exact h.setThread (by simp [ThreadOk]) rfl
    | succ retries =>
        refine h.setThread (fun other left heq => ?_) rfl
        cases heq
        exact hsize
  · rw [hrun]
    exact h.reserve req hsize hfit rfl

/-! ### Registration -/

/-- A reserved block is claimed where it will be registered. -/
theorem Inv.claim_of_reserved (h : Inv s) {req : Request roots}
    (hthread : s.threads id = .reserved req space index) :
    s.claims (.thread id) = some
      { start := (FatPtr.ofAddr (cfg.base space + index)).asPtr, size := req.size } := by
  have hok := h.threads id
  rw [hthread] at hok
  obtain ⟨hroom, _⟩ := hok
  rw [asPtr_ofAddr_base space (by omega)]
  change (s.threads id).claim = _
  rw [hthread]
  rfl

theorem Inv.fresh_of_reserved (h : Inv s) {req : Request roots}
    (hthread : s.threads id = .reserved req space index) :
    s.heap.metadata.lookup (FatPtr.ofAddr (cfg.base space + index)) = none :=
  h.blocks.lookup_fresh (.thread id) (fun _ => by simp) (h.claim_of_reserved hthread) rfl

/-- **A thread registers the block it has reserved** and stores the pointer to it. -/
theorem Inv.register (h : Inv s) {req : Request roots}
    (hthread : s.threads id = .reserved req space index)
    (hcareful : s.RegisterInTime req space) : Inv (s.register id req space index) := by
  have hok := h.threads id
  rw [hthread] at hok
  obtain ⟨hroom, hunforwarded⟩ := hok
  have hspace : findSpace cfg (FatPtr.ofAddr (cfg.base space + index)).asPtr = some space :=
    findSpace_ofAddr_base space (by omega)
  have hclaim := h.claim_of_reserved hthread
  have hfresh := h.fresh_of_reserved hthread
  have hrun : (allocNoConstraints cfg space { size := req.size, alignment := req.alignment }
      index).run s.heap = .ok (FatPtr.ofAddr (cfg.base space + index)) _ :=
    run_allocNoConstraints.trans (if_neg (by dsimp only; omega))
  rw [Sys.register, hrun]
  dsimp only
  have hgrows := lookup_grows { size := req.size, alignment := req.alignment } hfresh
  refine
    { blocks := ?_
      threads := ?_
      queue := h.queue
      settled := ?_
      running := ?_
      held := ?_
      succeeded := h.succeeded }
  · refine h.blocks.register (.thread id) (fun _ => by simp) hclaim rfl rfl rfl ?_
      fun other hne hentry => ?_
    · rw [Thread.claims_setThread, if_pos rfl]
      rfl
    · rw [Thread.claims_setThread, if_neg hne]
      cases other with
      | entry ptr => exact absurd rfl (hentry ptr)
      | thread other => rfl
      | task => rfl
  · refine threads_setThread (s := { s with heap := _ }) h.threads ?_
    trivial
  · intro hquiet q d hq
    change (AssocMap.emplace _ _ s.heap.metadata).lookup q = some d at hq
    rw [AssocMap.lookup_emplace hfresh] at hq
    split at hq
    · -- nothing is left to be tested, so the block lies in the current space
      rename_i heq
      rw [heq, hspace]
      refine congrArg some (hcareful.resolve_right fun hpending => ?_)
      exact Sys.Quiet.not_pending hquiet (hpending.pending q)
    · exact h.settled hquiet q d hq
  · intro r hr
    refine (h.running r hr).register hfresh (fun hmem => hunforwarded ⟨r, hr, hmem⟩) rfl rfl
  · intro slot hslot w hw hcontains
    change testPtr (writeFatPtr s.heap.mem req.slot _) slot = some w at hw
    rcases roots.disjoint slot hslot req.slot req.slot.2 with heq | hapart
    · rw [heq, testPtr_writeFatPtr_self] at hw
      cases hw
      have hmem := AssocMap.mem_of_lookup (AssocMap.lookup_emplace_self
        (v := { size := req.size, alignment := req.alignment }) hfresh)
      rcases hcareful with hcurrent | hpending
      · exact Or.inl ⟨hspace.trans (congrArg some hcurrent), hmem⟩
      · rw [heq]
        exact Or.inr ⟨Or.inl hmem, hpending.pending _⟩
    · rw [testPtr_writeFatPtr_of_apart hapart] at hw
      exact (h.held slot hslot w hw hcontains).grow hgrows rfl rfl rfl

/-! ### `collect` -/

/-- **The spaces are flipped.** Nobody holds a block in the space that becomes the current one. -/
theorem Inv.asyncCollect (h : Inv s) (hquiet : s.Quiet) (hcareful : s.FlipInTime) :
    Inv s.asyncCollect := by
  have hother : ∀ owner span space, s.claims owner = some span → Within cfg s.heap span space →
      space = s.heap.spaceNum := by
    intro owner span space hclaim hwithin
    cases owner with
    | entry ptr =>
        obtain ⟨data, hdata, rfl⟩ := entryClaim_eq_some.mp hclaim
        have hfind := hwithin.findSpace
        rw [h.settled hquiet ptr data hdata] at hfind
        exact (Option.some.inj hfind).symm
    | thread id =>
        change (s.threads id).claim = some span at hclaim
        cases hthread : s.threads id with
        | reserved req reservedSpace index =>
            rw [hthread] at hclaim
            cases hclaim
            have hok := h.threads id
            rw [hthread] at hok
            have hroom := hok.1
            have hindex : index < cfg.heapSize := by omega
            have hfind := hwithin.findSpace
            have hblock : findSpace cfg (cfg.base reservedSpace + index) = some reservedSpace := by
              rw [← asPtr_ofAddr_base reservedSpace hindex]
              exact findSpace_ofAddr_base reservedSpace hindex
            rw [hblock] at hfind
            cases hfind
            by_contra hne
            rw [SpaceNum.eq_flip_of_ne hne] at hthread
            exact hcareful id req index hthread
        | idle | attempt | collect | assign | thrown =>
            rw [hthread] at hclaim
            cases hclaim
    | task =>
        change s.worker.bind _ = some span at hclaim
        rw [hquiet.2] at hclaim
        cases hclaim
  refine
    { blocks :=
        { apart := h.blocks.apart
          within := fun owner span hspan => ?_ }
      threads := h.threads
      queue := ?_
      settled := fun hquiet' => ?_
      running := fun r hr => ?_
      held := fun slot hslot w hw hcontains => ?_
      succeeded := h.succeeded }
  · obtain ⟨space, hwithin⟩ := h.blocks.within owner span hspan
    have hspace := hother owner span space hspan hwithin
    refine ⟨space, { hwithin with below := fun heq => ?_ }⟩
    rw [hspace] at heq
    exact absurd heq.symm (SpaceNum.flip_ne _)
  · refine Or.inr ⟨?_, Or.inl ⟨?_, hquiet.2⟩⟩
    · change some (s.finished + s.worker.toList.length + s.tasks.length) = some s.finished
      rw [hquiet.1, hquiet.2]
      rfl
    · change s.tasks ++ [s.heap.spaceNum.flip] = [s.heap.spaceNum.flip]
      rw [hquiet.1]
      rfl
  · have htasks : s.tasks ++ [s.heap.spaceNum.flip] = [] := hquiet'.1
    simp at htasks
  · change s.worker = some r at hr
    rw [hquiet.2] at hr
    cases hr
  · have hpending : s.asyncCollect.Pending slot w := Or.inl (by simp [Sys.asyncCollect])
    rcases h.held slot hslot w hw hcontains with ⟨_, hmem⟩ | ⟨_, hnow⟩
    · exact Or.inr ⟨Or.inl hmem, hpending⟩
    · exact absurd hnow hquiet.not_pending

theorem Inv.quiet_of_ready (h : Inv s) (hready : s.resultReady = true) : s.Quiet := by
  rcases h.queue with hquiet | ⟨hresult, _⟩
  · exact hquiet.1
  · rw [Sys.resultReady, hresult] at hready
    simp at hready

/-- **The locked region of `collect`.** -/
theorem Inv.collectLocked (h : Inv s) {neededSpace : Nat} {resume : Option (Request roots × Nat)}
    (hresume : ∀ req retries, resume = some (req, retries) → 0 < req.size)
    (hcareful : s.Flips neededSpace → s.FlipInTime) :
    Inv (s.collectLocked id neededSpace resume) := by
  have hflipped : Inv (if s.Flips neededSpace then s.asyncCollect else s) := by
    split
    · rename_i hflips
      exact h.asyncCollect (h.quiet_of_ready hflips.2) (hcareful hflips)
    · exact h
  unfold Sys.collectLocked
  cases resume with
  | none => exact hflipped.setThread trivial rfl
  | some pair => exact hflipped.setThread (hresume pair.1 pair.2 rfl) rfl

theorem Inv.collect (h : Inv s) {neededSpace : Nat} {resume : Option (Request roots × Nat)}
    {pc : CollectPc} {t : Sys roots}
    (hresume : ∀ req retries, resume = some (req, retries) → 0 < req.size)
    (hcareful : pc = .lock → s.Flips neededSpace → s.FlipInTime)
    (hstep : s.collect id neededSpace resume pc = some t) : Inv t := by
  cases pc with
  | test =>
      cases hstep
      exact h.setThread hresume rfl
  | loadSpace =>
      cases hstep
      exact h.setThread hresume rfl
  | loadNext space =>
      cases hstep
      exact h.setThread hresume rfl
  | wait =>
      rw [Sys.collect, Option.map_eq_some_iff] at hstep
      obtain ⟨task, _, rfl⟩ := hstep
      exact h.setThread hresume rfl
  | waiting task =>
      rw [Sys.collect] at hstep
      split at hstep
      · cases hstep
        exact h.setThread hresume rfl
      · cases hstep
  | lock =>
      cases hstep
      exact h.collectLocked hresume (hcareful rfl)

/-! ### Every step of a thread -/

theorem Inv.startAlloc (h : Inv s) (req : Request roots) : Inv (s.startAlloc id req) := by
  rw [Sys.startAlloc]
  split
  · exact h.setThread (by simp [ThreadOk]) rfl
  · rename_i hsize
    exact h.setThread (show 0 < req.size by omega) rfl

theorem Inv.startLoad (h : Inv s) (src dst : roots.Slot) : Inv (s.startLoad id src dst) := by
  rw [Sys.startLoad]
  split
  · exact h.setThread trivial rfl
  · exact h.setThread (by simp [ThreadOk]) rfl

/-- **A careful step of a thread keeps the invariant.** -/
theorem Inv.stepThread (h : Inv s) {t : Sys roots} (hcareful : CarefulThread s (s.threads id))
    (hstep : s.stepThread id = some t) : Inv t := by
  have hok := h.threads id
  rw [Sys.stepThread] at hstep
  cases hthread : s.threads id with
  | idle =>
      rw [hthread] at hstep
      cases hstep
  | attempt req retries =>
      rw [hthread] at hstep hok
      obtain ⟨_, ⟨⟩⟩ := Option.ite_none_left_eq_some.mp hstep
      exact h.attempt hok retries
  | reserved req space index =>
      rw [hthread] at hstep hcareful
      cases hstep
      exact h.register hthread hcareful
  | collect neededSpace resume pc =>
      rw [hthread] at hstep hok hcareful
      refine h.collect hok (fun hpc => ?_) hstep
      subst hpc
      exact hcareful
  | assign dst value =>
      rw [hthread] at hstep hcareful
      cases hstep
      exact (h.storeRoot dst.2 hcareful).setThread trivial rfl
  | thrown e =>
      rw [hthread] at hstep
      cases hstep
      exact h.setThread trivial rfl

end Gcpp.Concurrent
