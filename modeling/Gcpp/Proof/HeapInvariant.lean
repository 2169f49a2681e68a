import Gcpp.HeapRun
import Gcpp.Proof.Evacuation

/-!
# The heap invariant

Between operations all objects lie in the current space below its bump index, and the other space is
empty. An allocation that fits is registered above the bump index. One that does not fit throws out
of the overlap check without a change; the retry that the source means to make there is never
reached. A collection that completes moves the objects over.
-/

namespace Gcpp

open ByteMemory StateExcept

variable {cfg : Config} {policy : GenPolicy} {s t : State} {size alignment padding : Nat}

theorem pageSizeCeil_ge {pageSize : Nat} (hpos : 0 < pageSize) (size : Nat) :
    size ≤ pageSizeCeil pageSize size := by
  have hdiv := Nat.div_add_mod (size + pageSize - 1) pageSize
  have hmod := Nat.mod_lt (size + pageSize - 1) hpos
  rw [pageSizeCeil, Nat.mul_comm]
  omega

theorem Config.maxAllocSize_lt (cfg : Config) (hsize : 0 < cfg.maxAllocSize) :
    cfg.maxAllocSize < cfg.heapSize := by
  have hceil := pageSizeCeil_ge cfg.pageSize_pos cfg.size
  unfold Config.maxAllocSize at hsize ⊢
  unfold Config.heapSize
  omega

/-- Every object lies in the current space below its bump index, the other space is empty, and only
objects have moved the bump index. -/
structure HeapInv (cfg : Config) (s : State) : Prop where
  placed : ∀ {ptr data}, s.metadata.lookup ptr = some data →
    Placed cfg s.spaceNum (s.nexts s.spaceNum) ptr data
  small : ∀ {ptr data}, s.metadata.lookup ptr = some data → SmallAlignment data.alignment
  separated : Separated s.metadata
  nextLe : s.nexts s.spaceNum ≤ cfg.heapSize
  otherNext : s.nexts s.spaceNum.flip = 0
  used : s.nexts s.spaceNum = 0 ∨ ∃ ptr data, s.metadata.lookup ptr = some data

namespace HeapInv

theorem initial (cfg : Config) (mem : Memory) : HeapInv cfg (State.initial mem) where
  placed := fun hlookup => by cases hlookup
  small := fun hlookup => by cases hlookup
  separated := fun _ _ _ _ hlookup => by cases hlookup
  nextLe := Nat.zero_le _
  otherNext := rfl
  used := Or.inl rfl

theorem with_mem (h : HeapInv cfg s) (mem : Memory) : HeapInv cfg { s with mem } := { h with }

theorem settled (h : HeapInv cfg s) : Settled cfg s.spaceNum s.metadata where
  lo := fun hdata => (h.placed hdata).lo
  hi := fun hdata => (h.placed hdata).inBlock
  pos := fun hdata => (h.placed hdata).pos
  separated := h.separated

theorem registered (h : HeapInv cfg s) : Registered cfg s.metadata := fun _ _ hdata =>
  ⟨s.spaceNum, (h.placed hdata).findSpace, (h.placed hdata).inBlock⟩

theorem apart (h : HeapInv cfg s) {ptr : FatPtr} {data : MetaData}
    (hdata : s.metadata.lookup ptr = some data) (padding size : Nat) :
    0 < data.size ∧ (ptr.asPtr + data.size ≤
        cfg.base s.spaceNum + (s.nexts s.spaceNum + padding) ∨
      cfg.base s.spaceNum + (s.nexts s.spaceNum + padding) + size ≤ ptr.asPtr) := by
  have hplaced := h.placed hdata
  have hhi := hplaced.hi
  exact ⟨hplaced.pos, Or.inl (by omega)⟩

end HeapInv

/-! ### Allocation -/

/-- The request fits, with its padding, below the allocation limit of the current space. -/
def Fits (cfg : Config) (s : State) (size alignment : Nat) : Prop :=
  ∃ padding, calcAlignmentBytes (cfg.base s.spaceNum + s.nexts s.spaceNum) alignment
      = some padding ∧
    s.nexts s.spaceNum + size + padding ≤ cfg.maxAllocSize

theorem run_alloc_refused (policy : GenPolicy) (gcRoots : List Nat)
    (hsize : size = 0 ∨ size > cfg.maxAllocSize) :
    (alloc cfg policy gcRoots size alignment).run s = .error .badAlloc s := by
  rw [alloc, if_pos hsize]
  rfl

theorem run_reserveAttempt_of_fits (h : HeapInv cfg s) (hpos : 0 < size)
    (hpadding : calcAlignmentBytes (cfg.base s.spaceNum + s.nexts s.spaceNum) alignment
      = some padding)
    (hfit : s.nexts s.spaceNum + size + padding ≤ cfg.maxAllocSize) :
    (reserveAttempt cfg size alignment).run s =
      .ok (s.spaceNum, some (s.nexts s.spaceNum + padding))
        (s.bump s.spaceNum (s.nexts s.spaceNum + size + padding)) := by
  have hreserve := (run_reserveSpace size cfg.maxAllocSize hpadding).trans (if_neg (by omega))
  have hcheck : (checkOverlappingAlloc cfg (some (s.nexts s.spaceNum + padding)) s.spaceNum
      size).run (s.bump s.spaceNum (s.nexts s.spaceNum + size + padding)) = .ok () _ :=
    run_checkOverlappingAlloc_some
      (noOverlap_of_apart hpos fun _ _ hdata => h.apart hdata padding size)
  simp only [reserveAttempt]
  rw [EStateM.run_bind, EStateM.run_get]
  dsimp only
  rw [run_bind_of_ok hreserve, run_bind_of_ok hcheck]
  rfl

def State.allocated (cfg : Config) (s : State) (size alignment padding : Nat) : State :=
  (s.bump s.spaceNum (s.nexts s.spaceNum + size + padding)).register
    (FatPtr.ofAddr (cfg.base s.spaceNum + (s.nexts s.spaceNum + padding))) { size, alignment }

theorem run_alloc_of_fits (h : HeapInv cfg s) (policy : GenPolicy) (gcRoots : List Nat)
    (hpos : 0 < size)
    (hmax : size ≤ cfg.maxAllocSize)
    (hpadding : calcAlignmentBytes (cfg.base s.spaceNum + s.nexts s.spaceNum) alignment
      = some padding)
    (hfit : s.nexts s.spaceNum + size + padding ≤ cfg.maxAllocSize) :
    (alloc cfg policy gcRoots size alignment).run s =
      .ok (FatPtr.ofAddr (cfg.base s.spaceNum + (s.nexts s.spaceNum + padding)))
        (s.allocated cfg size alignment padding) := by
  have hheap := cfg.maxAllocSize_lt (by omega)
  rw [alloc, if_neg (by omega), allocAttempt,
    run_bind_of_ok (run_reserveAttempt_of_fits h hpos hpadding hfit)]
  dsimp only
  exact run_allocNoConstraints.trans (if_neg (show ¬ size + _ ≥ cfg.heapSize by omega))

theorem fits_of_empty (hempty : s.nexts s.spaceNum = 0) (hsmall : SmallAlignment alignment)
    (hmax : size ≤ cfg.maxAllocSize) : Fits cfg s size alignment := by
  have hdvd : alignment ∣ cfg.base s.spaceNum + s.nexts s.spaceNum := by
    rw [hempty, Nat.add_zero]
    exact (hsmall.dvd.trans cfg.pageSize_dvd).trans (cfg.base_aligned s.spaceNum)
  exact ⟨0, calcAlignmentBytes_of_dvd hsmall hdvd, by omega⟩

/-- **A request that does not fit throws out of the overlap check.** There is an object to compare
with, since only objects fill a space. -/
theorem run_alloc_of_not_fits (h : HeapInv cfg s) (policy : GenPolicy) (gcRoots : List Nat)
    (hsmall : SmallAlignment alignment) (hpos : 0 < size) (hmax : size ≤ cfg.maxAllocSize)
    (hfull : ¬ Fits cfg s size alignment) :
    (alloc cfg policy gcRoots size alignment).run s = .error .badOptionalAccess s := by
  obtain ⟨padding, _, hpadding, _⟩ :=
    calcAlignmentBytes_spec hsmall (cfg.base s.spaceNum + s.nexts s.spaceNum)
  have hover : s.nexts s.spaceNum + size + padding > cfg.maxAllocSize := by
    by_contra hle
    exact hfull ⟨padding, hpadding, Nat.le_of_not_lt hle⟩
  have hreserve := (run_reserveSpace size cfg.maxAllocSize hpadding).trans (if_pos hover)
  obtain ⟨ptr, data, hdata⟩ := h.used.resolve_left fun hempty =>
    hfull (fits_of_empty hempty hsmall hmax)
  have hattempt : (reserveAttempt cfg size alignment).run s = .error .badOptionalAccess s := by
    simp only [reserveAttempt]
    rw [EStateM.run_bind, EStateM.run_get]
    dsimp only
    rw [run_bind_of_ok hreserve, run_bind_of_error (run_checkOverlappingAlloc_none hdata)]
  rw [alloc, if_neg (by omega), allocAttempt, run_bind_of_error hattempt]

theorem run_alloc_cases (h : HeapInv cfg s) (policy : GenPolicy) (gcRoots : List Nat) (size : Nat)
    (hsmall : SmallAlignment alignment) :
    (size = 0 ∨ size > cfg.maxAllocSize) ∧
        (alloc cfg policy gcRoots size alignment).run s = .error .badAlloc s ∨
      (0 < size ∧ size ≤ cfg.maxAllocSize) ∧ ¬ Fits cfg s size alignment ∧
        (alloc cfg policy gcRoots size alignment).run s = .error .badOptionalAccess s ∨
      (0 < size ∧ size ≤ cfg.maxAllocSize) ∧ ∃ padding < alignment,
        alignment ∣ cfg.base s.spaceNum + (s.nexts s.spaceNum + padding) ∧
        s.nexts s.spaceNum + size + padding ≤ cfg.maxAllocSize ∧
        (alloc cfg policy gcRoots size alignment).run s =
          .ok (FatPtr.ofAddr (cfg.base s.spaceNum + (s.nexts s.spaceNum + padding)))
            (s.allocated cfg size alignment padding) := by
  by_cases hrefused : size = 0 ∨ size > cfg.maxAllocSize
  · exact Or.inl ⟨hrefused, run_alloc_refused policy gcRoots hrefused⟩
  · have hpos : 0 < size := by omega
    have hmax : size ≤ cfg.maxAllocSize := by omega
    obtain ⟨padding, hlt, hpadding, hdvd⟩ :=
      calcAlignmentBytes_spec hsmall (cfg.base s.spaceNum + s.nexts s.spaceNum)
    by_cases hfit : s.nexts s.spaceNum + size + padding ≤ cfg.maxAllocSize
    · refine Or.inr (Or.inr ⟨⟨hpos, hmax⟩, padding, hlt, ?_, hfit,
        run_alloc_of_fits h policy gcRoots hpos hmax hpadding hfit⟩)
      rw [← Nat.add_assoc]
      exact hdvd
    · have hfull : ¬ Fits cfg s size alignment := by
        rintro ⟨padding', hpadding', hfit'⟩
        rw [hpadding] at hpadding'
        cases hpadding'
        exact hfit hfit'
      exact Or.inr (Or.inl ⟨⟨hpos, hmax⟩, hfull,
        run_alloc_of_not_fits h policy gcRoots hsmall hpos hmax hfull⟩)

/-- What is left behind by an allocation: the heap as it was, or with the new block in it. -/
theorem HeapInv.after_alloc (h : HeapInv cfg s) (policy : GenPolicy) (gcRoots : List Nat)
    (size : Nat) (hsmall : SmallAlignment alignment) {inv : State → Prop} (hsame : inv s)
    (hallocated : ∀ padding, 0 < size →
      alignment ∣ cfg.base s.spaceNum + (s.nexts s.spaceNum + padding) →
      s.nexts s.spaceNum + size + padding ≤ cfg.maxAllocSize →
      inv (s.allocated cfg size alignment padding)) :
    inv (finalState ((alloc cfg policy gcRoots size alignment).run s)) := by
  rcases run_alloc_cases h policy gcRoots size hsmall with
    ⟨_, hrun⟩ | ⟨_, _, hrun⟩ | ⟨⟨hpos, _⟩, padding, _, hdvd, hfit, hrun⟩
  · rw [hrun]
    exact hsame
  · rw [hrun]
    exact hsame
  · rw [hrun]
    exact hallocated padding hpos hdvd hfit

section Allocated

variable (cfg s size alignment padding)

@[simp]
theorem State.allocated_spaceNum : (s.allocated cfg size alignment padding).spaceNum = s.spaceNum :=
  rfl

@[simp]
theorem State.allocated_mem : (s.allocated cfg size alignment padding).mem = s.mem := rfl

@[simp]
theorem State.allocated_nexts_self : (s.allocated cfg size alignment padding).nexts s.spaceNum =
    s.nexts s.spaceNum + size + padding :=
  Function.update_self _ _ _

@[simp]
theorem State.allocated_nexts_flip :
    (s.allocated cfg size alignment padding).nexts s.spaceNum.flip = s.nexts s.spaceNum.flip :=
  Function.update_of_ne (SpaceNum.flip_ne _) _ _

theorem State.allocated_metadata : (s.allocated cfg size alignment padding).metadata =
    AssocMap.emplace (FatPtr.ofAddr (cfg.base s.spaceNum + (s.nexts s.spaceNum + padding)))
      { size, alignment } s.metadata := by
  simp only [State.allocated, State.register, State.bump_metadata]

end Allocated

theorem HeapInv.lookup_fresh (h : HeapInv cfg s) (padding : Nat)
    (hindex : s.nexts s.spaceNum + padding < cfg.heapSize) :
    s.metadata.lookup (FatPtr.ofAddr (cfg.base s.spaceNum + (s.nexts s.spaceNum + padding)))
      = none :=
  lookup_fresh_of_apart hindex fun _ _ hdata => h.apart hdata padding 1

/-- **An allocation that fits keeps the invariant.** -/
theorem HeapInv.allocated (h : HeapInv cfg s) (hpos : 0 < size) (hsmall : SmallAlignment alignment)
    (hdvd : alignment ∣ cfg.base s.spaceNum + (s.nexts s.spaceNum + padding))
    (hfit : s.nexts s.spaceNum + size + padding < cfg.heapSize) :
    HeapInv cfg (s.allocated cfg size alignment padding) := by
  have hindex : s.nexts s.spaceNum + padding < cfg.heapSize := by omega
  have hfresh := h.lookup_fresh padding hindex
  have haddr := asPtr_ofAddr_base s.spaceNum hindex
  have hlookup : ∀ {q d}, (s.allocated cfg size alignment padding).metadata.lookup q = some d →
      (q = FatPtr.ofAddr (cfg.base s.spaceNum + (s.nexts s.spaceNum + padding)) ∧
        d = { size, alignment }) ∨ s.metadata.lookup q = some d := by
    intro q d hq
    rw [State.allocated_metadata, AssocMap.lookup_emplace hfresh] at hq
    split at hq
    · rename_i hqnew
      cases hq
      exact Or.inl ⟨hqnew, rfl⟩
    · exact Or.inr hq
  refine
    { placed := ?_
      small := ?_
      separated := ?_
      nextLe := ?_
      otherNext := ?_
      used := ?_ }
  · intro q d hq
    rw [State.allocated_spaceNum, State.allocated_nexts_self]
    rcases hlookup hq with ⟨rfl, rfl⟩ | hq
    · exact
        { lo := by omega
          hi := by
            change _ + size ≤ _
            omega
          pos := hpos
          aligned := fun _ => by
            rw [haddr]
            exact hdvd
          inBlock := by
            change _ + size ≤ _
            omega }
    · exact (h.placed hq).mono (by omega)
  · intro q d hq
    rcases hlookup hq with ⟨_, rfl⟩ | hq
    · exact hsmall
    · exact h.small hq
  · rw [State.allocated_metadata]
    refine h.separated.emplace hfresh fun p d hp => ?_
    rw [haddr]
    exact (h.apart hp padding size).2
  · rw [State.allocated_spaceNum, State.allocated_nexts_self]
    omega
  · rw [State.allocated_spaceNum, State.allocated_nexts_flip]
    exact h.otherNext
  · refine Or.inr ⟨FatPtr.ofAddr (cfg.base s.spaceNum + (s.nexts s.spaceNum + padding)),
      { size, alignment }, ?_⟩
    rw [State.allocated_metadata, AssocMap.lookup_emplace_self hfresh]

/-! ### Collection -/

/-- What the map of a collection says while it runs, with what is true of the bump index: it has
been moved by copies only. -/
structure Filling (cfg : Config) (old : AssocMap FatPtr MetaData) (toSpace : SpaceNum)
    (visited : Visited) (s : State) : Prop extends Evacuating cfg old toSpace visited s where
  nextLe : s.nexts toSpace ≤ cfg.heapSize
  used : s.nexts toSpace = 0 ∨ ∃ v v', visited.lookup v = some v'

theorem Filling.iter_ok {old : AssocMap FatPtr MetaData} {toSpace : SpaceNum} {visited : Visited}
    (hcopies : policy.Copies) (h : Filling cfg old toSpace visited s) {p : Nat} {stack : List Nat}
    {r : List Nat × Visited}
    (hrun : (forwardIter cfg policy toSpace p stack visited).run s = .ok r t) :
    Filling cfg old toSpace r.2 t := by
  have houtcome := forwardIter_outcome hcopies h.toEvacuating p stack
  have hinv := h.toEvacuating.iter_ok hcopies hrun
  rw [hrun] at houtcome
  cases houtcome with
  | skip => exact { hinv with nextLe := h.nextLe, used := h.used }
  | update => exact { hinv with nextLe := h.nextLe, used := h.used }
  | forward v data slots padding hslot hvisited hdata hspace hscan hlength hpadding hfit =>
      refine
        { hinv with
          nextLe := ?_
          used := Or.inr ⟨v, _, AssocMap.lookup_emplace_self hvisited⟩ }
      rw [State.copied_nexts_self]
      omega

theorem Filling.forwardRoots {old : AssocMap FatPtr MetaData} {toSpace : SpaceNum}
    (hcopies : policy.Copies) (h : Filling cfg old toSpace ∅ s) {roots : List Nat}
    {visited : Visited} (hrun : (forwardRoots cfg policy toSpace roots ∅).run s = .ok visited t) :
    Filling cfg old toSpace visited t :=
  forwardRoots_invariant (Filling cfg old toSpace)
    (fun hinv hiter => hinv.iter_ok hcopies hiter) h hrun

theorem HeapInv.filling (h : HeapInv cfg s) :
    Filling cfg s.metadata s.spaceNum.flip ∅ (flipSpaces s) :=
  { h.settled.evacuating with
    nextLe := by
      rw [flipSpaces_nexts_flip, h.otherNext]
      exact Nat.zero_le _
    used := by
      rw [flipSpaces_nexts_flip, h.otherNext]
      exact Or.inl rfl }

/-- Once it has swept, a collection is over. -/
theorem Filling.heapInv {old : AssocMap FatPtr MetaData} {toSpace : SpaceNum} {visited : Visited}
    (h : Filling cfg old toSpace visited s)
    (hsmall : ∀ {v data}, old.lookup v = some data → SmallAlignment data.alignment) :
    HeapInv cfg (s.swept cfg toSpace visited) := by
  have hcurrent := h.current
  subst hcurrent
  refine
    { placed := ?_
      small := ?_
      separated := h.separated.eraseAll _
      nextLe := h.nextLe
      otherNext := h.fromNext
      used := ?_ }
  · intro ptr data hdata
    obtain ⟨v, hv, hold⟩ := h.lookup_swept.mp hdata
    exact h.placed hv hold
  · intro ptr data hdata
    obtain ⟨v, hv, hold⟩ := h.lookup_swept.mp hdata
    exact hsmall hold
  · refine h.used.imp id fun ⟨v, v', hv⟩ => ?_
    obtain ⟨data, hold, _⟩ := h.black hv
    exact ⟨v', data, h.lookup_swept.mpr ⟨v, hv, hold⟩⟩

/-- **A collection that completes keeps the invariant.** -/
theorem HeapInv.collected (hcopies : policy.Copies) (h : HeapInv cfg s)
    {gcRoots extraRoots : List Nat} {r : Visited × List FatPtr}
    (hrun : (asyncCollect cfg policy gcRoots extraRoots).run s = .ok r t) : HeapInv cfg t := by
  rw [run_asyncCollect] at hrun
  obtain ⟨u, hforward, rfl, _⟩ := collectionTask_ok
    (fun _ _ hrun => (h.filling.forwardRoots hcopies hrun).toEvacuating) hrun
  exact (h.filling.forwardRoots hcopies hforward).heapInv h.small

theorem HeapInv.collect_error (hcopies : policy.Copies) (h : HeapInv cfg s)
    {gcRoots extraRoots : List Nat} {e : Halt}
    (hrun : (asyncCollect cfg policy gcRoots extraRoots).run s = .error e t) :
    e = .badOptionalAccess ∨ e = .badAlloc ∨ e = .hang := by
  rw [run_asyncCollect] at hrun
  have hforward := collectionTask_error
    (fun _ _ hrun => (h.filling.forwardRoots hcopies hrun).toEvacuating) hrun
  refine forwardRoots_throws (Filling cfg s.metadata s.spaceNum.flip)
    (fun hinv hiter => hinv.iter_ok hcopies hiter)
    (fun e _ => e = .badOptionalAccess ∨ e = .badAlloc ∨ e = .hang) ?_
    (fun _ => Or.inr (Or.inr rfl)) h.filling hforward
  intro p stack visited s e t hinv hiter
  have houtcome := forwardIter_outcome hcopies hinv.toEvacuating p stack
  rw [hiter] at houtcome
  cases houtcome with
  | fail v data e t hdata hspace hpadding herror hmetadata => exact herror

/-- **Every operation keeps the invariant.** -/
theorem HeapInv.step (hcopies : policy.Copies) {admits : Nat → Nat → Prop}
    (hadmits : ∀ size alignment, admits size alignment → SmallAlignment alignment)
    (h : HeapInv cfg s) (hstep : HeapStep cfg policy admits s t) : HeapInv cfg t := by
  cases hstep with
  | alloc mem gcRoots size alignment hadmitted =>
      have hsmall := hadmits size alignment hadmitted
      apply (h.with_mem mem).after_alloc policy gcRoots size hsmall (h.with_mem mem)
      intro padding hpos hdvd hfit
      have hheap := cfg.maxAllocSize_lt (by omega)
      exact (h.with_mem mem).allocated hpos hsmall hdvd (by omega)
  | collect mem gcRoots extraRoots result t hrun => exact (h.with_mem mem).collected hcopies hrun

theorem HeapReachable.heapInv (hcopies : policy.Copies) {admits : Nat → Nat → Prop}
    (hadmits : ∀ size alignment, admits size alignment → SmallAlignment alignment)
    (h : HeapReachable cfg policy admits s) : HeapInv cfg s :=
  h.induction (HeapInv.initial cfg) fun _ _ hinv hstep => hinv.step hcopies hadmits hstep

/-! ### The invariant as seen from outside -/

/-- What holds of a collector between operations, and of the operation that comes next. -/
structure HeapSafe (cfg : Config) (policy : GenPolicy) (s : State) : Prop where
  extent : ∀ ptr data, s.metadata.lookup ptr = some data →
    ∃ offset, ptr.asPtr = cfg.base s.spaceNum + offset ∧ offset + data.size ≤ s.nexts s.spaceNum
  current : ∀ ptr data, s.metadata.lookup ptr = some data →
    findSpace cfg ptr.asPtr = some s.spaceNum
  aligned : ∀ ptr data, s.metadata.lookup ptr = some data → data.alignment ∣ ptr.asPtr
  next_le : s.nexts s.spaceNum ≤ cfg.heapSize
  disjoint : Separated s.metadata
  other_next : s.nexts s.spaceNum.flip = 0
  alloc_clean : ∀ (mem : Memory) (gcRoots : List Nat) (size alignment : Nat),
    SmallAlignment alignment → ∀ what t,
      (alloc cfg policy gcRoots size alignment).run { s with mem } ≠ .error (.runtimeError what) t
  collect_clean : ∀ (mem : Memory) (gcRoots extraRoots : List Nat) (what : String) (t : State),
    (asyncCollect cfg policy gcRoots extraRoots).run { s with mem } ≠ .error (.runtimeError what) t

/-- **The heap invariant.** Whatever allocations and completed collections came before, the objects
lie apart in the current space and no operation finds the heap corrupted. -/
theorem heap_safe (hcopies : policy.Copies)
    (h : HeapReachable cfg policy (fun _ alignment => SmallAlignment alignment) s) :
    HeapSafe cfg policy s := by
  have hinv := h.heapInv hcopies fun _ _ hsmall => hsmall
  refine
    { extent := fun ptr data hdata => ?_
      current := fun ptr data hdata => (hinv.placed hdata).findSpace
      aligned := fun ptr data hdata => (hinv.placed hdata).aligned (hinv.small hdata)
      next_le := hinv.nextLe
      disjoint := hinv.separated
      other_next := hinv.otherNext
      alloc_clean := fun mem gcRoots size alignment hsmall what t hrun => ?_
      collect_clean := fun mem gcRoots extraRoots what t hrun => ?_ }
  · have hlo := (hinv.placed hdata).lo
    have hhi := (hinv.placed hdata).hi
    exact ⟨ptr.asPtr - cfg.base s.spaceNum, by omega, by omega⟩
  · rcases run_alloc_cases (hinv.with_mem mem) policy gcRoots size hsmall with
      ⟨_, hcase⟩ | ⟨_, _, hcase⟩ | ⟨_, _, _, _, _, hcase⟩ <;> rw [hrun] at hcase <;> cases hcase
  · have herror := (hinv.with_mem mem).collect_error hcopies hrun
    simp at herror

theorem GenPolicy.copying_copies : GenPolicy.copying.Copies := fun _ => rfl

/-- The slot at 1024 holds an object of 64 bytes. -/
def State.oneObject : State :=
  { finalState ((alloc Config.sample GenPolicy.copying [] 64 8).run (State.initial fun _ => 0)) with
    mem := writeFatPtr (fun _ => 0) 1024 (FatPtr.ofAddr 65536) }

/-- The object is moved by a collection. -/
theorem heap_safe_after_collection :
    ∃ r t, (asyncCollect Config.sample GenPolicy.copying [1024] []).run State.oneObject =
        .ok r t ∧ r.1.entries.length = 1 ∧ HeapSafe Config.sample GenPolicy.copying t := by
  have hmoved : (match (asyncCollect Config.sample GenPolicy.copying [1024] []).run
        State.oneObject with
      | .ok r _ => r.1.entries.length
      | .error _ _ => 0) = 1 := by
    decide +kernel
  cases hrun : (asyncCollect Config.sample GenPolicy.copying [1024] []).run State.oneObject with
  | ok r t =>
      rw [hrun] at hmoved
      exact ⟨r, t, rfl, hmoved, heap_safe GenPolicy.copying_copies
        ⟨fun _ => 0, .tail (.tail .refl (.alloc _ (fun _ => 0) [] 64 8 ⟨3, by decide, rfl⟩))
          (.collect _ _ [1024] [] r t hrun)⟩⟩
  | error e t =>
      rw [hrun] at hmoved
      cases hmoved

end Gcpp
