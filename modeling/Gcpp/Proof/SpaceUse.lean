import Gcpp.Proof.Collection

/-!
# How much a collection leaves

Survivors are laid out in the order in which the traversal meets them. Their sizes were paid for
when they were allocated, but the padding between them depends on that order, so the new space may
be used up to a higher index than the old one. The difference is less than an alignment for every
survivor.
-/

namespace Gcpp

open ByteMemory StateExcept AssocMap

variable {cfg : Config} {policy : GenPolicy} {old : AssocMap FatPtr MetaData} {toSpace : SpaceNum}
  {visited : Visited} {s t : State}

/-- The most padding that the objects can need, in any order. -/
def alignmentSlack (metadata : AssocMap FatPtr MetaData) : Nat :=
  weightSum (fun _ data => data.alignment - 1) metadata

/-- What an object can take up of the space that it is copied to. -/
def footprint (cfg : Config) (space : SpaceNum) (ptr : FatPtr) (data : MetaData) : Nat :=
  if findSpace cfg ptr.asPtr = some space then data.size + (data.alignment - 1) else 0

/-- The accounts of a collection under way: the bump index covers the sizes of the copies, and no
more than their footprints. -/
structure Filled (cfg : Config) (old : AssocMap FatPtr MetaData) (toSpace : SpaceNum)
    (visited : Visited) (s : State) : Prop extends Filling cfg old toSpace visited s where
  conserved : liveSize s.metadata = liveSize old
  sizes : weightSum (inside cfg toSpace) s.metadata ≤ s.nexts toSpace
  footprints : s.nexts toSpace ≤ weightSum (footprint cfg toSpace) s.metadata

theorem Filled.iter_ok (hcopies : policy.Copies)
    (hsmall : ∀ {v data}, old.lookup v = some data → SmallAlignment data.alignment)
    (h : Filled cfg old toSpace visited s) {p : Nat} {stack : List Nat} {r : List Nat × Visited}
    (hrun : (forwardIter cfg policy toSpace p stack visited).run s = .ok r t) :
    Filled cfg old toSpace r.2 t := by
  have houtcome := forwardIter_outcome hcopies h.toEvacuating p stack
  have hinv := h.toFilling.iter_ok hcopies hrun
  rw [hrun] at houtcome
  cases houtcome with
  | skip =>
      exact { hinv with conserved := h.conserved, sizes := h.sizes, footprints := h.footprints }
  | update =>
      exact { hinv with conserved := h.conserved, sizes := h.sizes, footprints := h.footprints }
  | forward v data slots padding hslot hvisited hdata hspace hscan hlength hpadding hfit =>
      have hold := h.old_of_findSpace hdata (findSpace_ne_of_flip hspace)
      obtain ⟨padding', hlt, hpadding', _⟩ :=
        calcAlignmentBytes_spec (hsmall hold) (cfg.base toSpace + s.nexts toSpace)
      rw [hpadding] at hpadding'
      cases hpadding'
      have hfrom := findSpace_ne_of_flip hspace
      have hto : findSpace cfg (FatPtr.ofAddr
          (cfg.base toSpace + (s.nexts toSpace + padding))).asPtr = some toSpace :=
        findSpace_ofAddr_base toSpace (by omega)
      have hswap := h.weightSum_copied hdata p padding (by omega)
      refine { hinv with conserved := ?_, sizes := ?_, footprints := ?_ }
      · have hsum := hswap fun _ data => data.size
        have hconserved := h.conserved
        unfold liveSize at hconserved ⊢
        omega
      · have hsum := hswap (inside cfg toSpace)
        have hsizes := h.sizes
        rw [inside, if_neg hfrom, inside, if_pos hto] at hsum
        rw [State.copied_nexts_self]
        omega
      · have hsum := hswap (footprint cfg toSpace)
        have hfootprints := h.footprints
        rw [footprint, if_neg hfrom, footprint, if_pos hto] at hsum
        rw [State.copied_nexts_self]
        omega

/-! ### Between operations -/

/-- The bump index covers the sizes of the objects. -/
structure SizeCovered (cfg : Config) (s : State) : Prop extends HeapInv cfg s where
  covered : liveSize s.metadata ≤ s.nexts s.spaceNum

theorem SizeCovered.initial (cfg : Config) (mem : Memory) : SizeCovered cfg (State.initial mem) :=
  { HeapInv.initial cfg mem with covered := Nat.zero_le _ }

theorem SizeCovered.with_mem (h : SizeCovered cfg s) (mem : Memory) : SizeCovered cfg { s with mem } :=
  { h.toHeapInv.with_mem mem with covered := h.covered }

theorem SizeCovered.filled (h : SizeCovered cfg s) :
    Filled cfg s.metadata s.spaceNum.flip ∅ (flipSpaces s) :=
  { h.filling with
    conserved := rfl
    sizes := by
      have hnone : weightSum (inside cfg s.spaceNum.flip) s.metadata = 0 :=
        weightSum_zero fun ptr data hdata => if_neg (by
          rw [h.settled.findSpace hdata]
          exact fun heq => SpaceNum.flip_ne s.spaceNum (Option.some.inj heq).symm)
      rw [flipSpaces, hnone]
      exact Nat.zero_le _
    footprints := by
      rw [flipSpaces_nexts_flip, h.otherNext]
      exact Nat.zero_le _ }

/-- What a collection that completes leaves in use. -/
structure SpaceBound (cfg : Config) (s t : State) : Prop where
  used : t.nexts t.spaceNum ≤ s.nexts s.spaceNum + alignmentSlack t.metadata
  free : freeSpace cfg s ≤ freeSpace cfg t + alignmentSlack t.metadata

/-- The sweep takes away what lies in the other space. -/
theorem weightSum_swept {w : FatPtr → MetaData → Nat}
    (hw : ∀ ptr data, findSpace cfg ptr.asPtr ≠ some toSpace → w ptr data = 0) :
    weightSum w (s.swept cfg toSpace visited).metadata = weightSum w s.metadata := by
  refine weightSum_eraseAll_of_zero _ _ fun ptr hptr data _ => hw ptr data ?_
  have hkey := (List.mem_filter.mp hptr).2
  exact (of_decide_eq_true hkey).1

theorem SizeCovered.collected (hcopies : policy.Copies) (h : SizeCovered cfg s)
    {gcRoots extraRoots : List Nat} {r : Visited × List FatPtr}
    (hrun : (asyncCollect cfg policy gcRoots extraRoots).run s = .ok r t) :
    SizeCovered cfg t ∧ SpaceBound cfg s t := by
  have hinv := h.toHeapInv.collected hcopies hrun
  rw [run_asyncCollect] at hrun
  obtain ⟨u, hforward, rfl, _⟩ := collectionTask_ok
    (fun _ _ hrun => (h.filling.forwardRoots hcopies hrun).toEvacuating) hrun
  have hfilled : Filled cfg s.metadata s.spaceNum.flip r.1 u :=
    forwardRoots_invariant (Filled cfg s.metadata s.spaceNum.flip)
      (fun hinv hiter => hinv.iter_ok hcopies h.small hiter) h.filled hforward
  have hcurrent := hfilled.current
  have hto : ∀ ptr data, (u.swept cfg s.spaceNum.flip r.1).metadata.lookup ptr = some data →
      findSpace cfg ptr.asPtr = some s.spaceNum.flip := by
    intro ptr data hdata
    obtain ⟨v, hv, _⟩ := hfilled.lookup_swept.mp hdata
    obtain ⟨_, _, _, _, hplaced⟩ := hfilled.black hv
    exact hplaced.findSpace
  have hlive : liveSize (u.swept cfg s.spaceNum.flip r.1).metadata ≤ u.nexts s.spaceNum.flip :=
    calc liveSize (u.swept cfg s.spaceNum.flip r.1).metadata
      _ = weightSum (inside cfg s.spaceNum.flip) (u.swept cfg s.spaceNum.flip r.1).metadata :=
          weightSum_congr fun ptr data hdata => (if_pos (hto ptr data hdata)).symm
      _ = weightSum (inside cfg s.spaceNum.flip) u.metadata :=
          weightSum_swept fun ptr data hspace => if_neg hspace
      _ ≤ u.nexts s.spaceNum.flip := hfilled.sizes
  have hused : u.nexts s.spaceNum.flip ≤
      s.nexts s.spaceNum + alignmentSlack (u.swept cfg s.spaceNum.flip r.1).metadata :=
    calc u.nexts s.spaceNum.flip
      _ ≤ weightSum (footprint cfg s.spaceNum.flip) u.metadata := hfilled.footprints
      _ = weightSum (footprint cfg s.spaceNum.flip) (u.swept cfg s.spaceNum.flip r.1).metadata :=
          (weightSum_swept fun ptr data hspace => if_neg hspace).symm
      _ = weightSum (fun _ data => data.size + (data.alignment - 1))
            (u.swept cfg s.spaceNum.flip r.1).metadata :=
          weightSum_congr fun ptr data hdata => if_pos (hto ptr data hdata)
      _ = liveSize (u.swept cfg s.spaceNum.flip r.1).metadata +
            alignmentSlack (u.swept cfg s.spaceNum.flip r.1).metadata := weightSum_add _ _
      _ ≤ liveSize u.metadata + alignmentSlack (u.swept cfg s.spaceNum.flip r.1).metadata :=
          Nat.add_le_add_right (weightSum_eraseAll_le _ _ _) _
      _ ≤ s.nexts s.spaceNum + alignmentSlack (u.swept cfg s.spaceNum.flip r.1).metadata := by
          rw [hfilled.conserved]
          exact Nat.add_le_add_right h.covered _
  refine ⟨{ hinv with covered := ?_ }, { used := ?_, free := ?_ }⟩
  · rw [State.swept_nexts, State.swept_spaceNum, hcurrent]
    exact hlive
  · rw [State.swept_nexts, State.swept_spaceNum, hcurrent]
    exact hused
  · rw [freeSpace, freeSpace, spaceLeft_eq, spaceLeft_eq, State.swept_nexts, State.swept_spaceNum,
      hcurrent]
    omega

theorem SizeCovered.step (hcopies : policy.Copies) (h : SizeCovered cfg s)
    (hstep : HeapStep cfg policy (fun _ alignment => SmallAlignment alignment) s t) :
    SizeCovered cfg t := by
  cases hstep with
  | alloc mem gcRoots size alignment hsmall =>
      have hinv := (h.with_mem mem).toHeapInv
      apply hinv.after_alloc policy gcRoots size hsmall (h.with_mem mem)
      intro padding hpos hdvd hfit
      have hheap := cfg.maxAllocSize_lt (by omega)
      have hfresh := hinv.lookup_fresh padding (by omega)
      have hcovered := h.covered
      refine { hinv.allocated hpos hsmall hdvd (by omega) with covered := ?_ }
      rw [State.allocated_metadata, liveSize, weightSum_emplace _ hfresh,
        State.allocated_spaceNum, State.allocated_nexts_self]
      unfold liveSize at hcovered
      dsimp only
      omega
  | collect mem gcRoots extraRoots result t hrun =>
      exact ((h.with_mem mem).collected hcopies hrun).1

/-- **A collection takes back at most the padding.** After a collection that completes, from any
reachable state, the memory in use has grown by less than an alignment for every survivor, and not
at all where nothing is aligned. -/
theorem collection_space_bound (hcopies : policy.Copies)
    (h : HeapReachable cfg policy (fun _ alignment => SmallAlignment alignment) s) (mem : Memory)
    {gcRoots extraRoots : List Nat} {r : Visited × List FatPtr}
    (hrun : (asyncCollect cfg policy gcRoots extraRoots).run { s with mem } = .ok r t) :
    SpaceBound cfg s t := by
  have hinv : SizeCovered cfg s :=
    h.induction (SizeCovered.initial cfg) fun _ _ hinv hstep => hinv.step hcopies hstep
  obtain ⟨_, hbound⟩ := (hinv.with_mem mem).collected hcopies hrun
  exact { used := hbound.used, free := hbound.free }

/-! ### A heap that does not fit so well again -/

/-- A byte at an address that is a multiple of 256, and the byte behind it. -/
def State.spread : State :=
  finalState ((alloc Config.sample GenPolicy.copying [] 1 1).run
    (finalState ((alloc Config.sample GenPolicy.copying [] 1 256).run (State.initial fun _ => 0))))

/-- The root slots at 1024 and 2048 hold them, the second one first. -/
def spreadRoots : Memory :=
  writeFatPtr (writeFatPtr (fun _ => 0) 1024 (FatPtr.ofAddr 65537)) 2048 (FatPtr.ofAddr 65536)

theorem State.spread_reachable : HeapReachable Config.sample GenPolicy.copying
    (fun _ alignment => SmallAlignment alignment) State.spread := by
  have hfirst : HeapReachable Config.sample GenPolicy.copying
      (fun _ alignment => SmallAlignment alignment)
      (finalState ((alloc Config.sample GenPolicy.copying [] 1 256).run
        (State.initial fun _ => 0))) :=
    ⟨fun _ => 0, .single (.alloc _ (fun _ => 0) [] 1 256 ⟨8, by decide, rfl⟩)⟩
  obtain ⟨mem, hrun⟩ := hfirst
  exact ⟨mem, hrun.tail (.alloc _ _ [] 1 1 ⟨0, by decide, rfl⟩)⟩

/-- The bump index of a collection of this heap, when it completes. -/
theorem State.spread_collected :
    ∃ r t, (asyncCollect Config.sample GenPolicy.copying [1024, 2048] []).run
        { State.spread with mem := spreadRoots } = .ok r t ∧
      t.nexts t.spaceNum = 257 ∧ State.spread.nexts State.spread.spaceNum = 2 := by
  have hused : (match (asyncCollect Config.sample GenPolicy.copying [1024, 2048] []).run
      { State.spread with mem := spreadRoots } with
    | .ok _ t => some (t.nexts t.spaceNum)
    | .error _ _ => none) = some 257 := by decide +kernel
  have hbefore : State.spread.nexts State.spread.spaceNum = 2 := by decide +kernel
  cases hrun : (asyncCollect Config.sample GenPolicy.copying [1024, 2048] []).run
      { State.spread with mem := spreadRoots } with
  | ok r t =>
      rw [hrun] at hused
      exact ⟨r, t, rfl, Option.some.inj hused, hbefore⟩
  | error e t =>
      rw [hrun] at hused
      cases hused

theorem collection_space_bound_spread :
    ∃ r t, (asyncCollect Config.sample GenPolicy.copying [1024, 2048] []).run
        { State.spread with mem := spreadRoots } = .ok r t ∧
      SpaceBound Config.sample State.spread t := by
  obtain ⟨r, t, hrun, _⟩ := State.spread_collected
  exact ⟨r, t, hrun,
    collection_space_bound GenPolicy.copying_copies State.spread_reachable spreadRoots hrun⟩

/-- The byte that needs no alignment is copied first, and 255 bytes of padding come after it. -/
theorem collection_decreases_free_space :
    ¬ ∀ s, HeapReachable Config.sample GenPolicy.copying
        (fun _ alignment => SmallAlignment alignment) s →
      ∀ mem gcRoots extraRoots r t,
        (asyncCollect Config.sample GenPolicy.copying gcRoots extraRoots).run { s with mem } =
          .ok r t → freeSpace Config.sample s ≤ freeSpace Config.sample t := by
  intro h
  obtain ⟨r, t, hrun, hused, hbefore⟩ := State.spread_collected
  have hle := h State.spread State.spread_reachable spreadRoots [1024, 2048] [] r t hrun
  simp only [freeSpace, spaceLeft_eq, hused, hbefore] at hle
  revert hle
  decide

end Gcpp
