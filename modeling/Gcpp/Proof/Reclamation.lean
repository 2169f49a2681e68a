import Gcpp.Proof.SpaceUse

/-!
# What a collection gives back

Where every size is a multiple of one grain and every alignment divides it, no object is ever
padded. A collection then leaves in use exactly the bytes of the objects that were reachable, and
what can be allocated afterwards is all of the rest.
-/

namespace Gcpp

open ByteMemory StateExcept AssocMap

variable {cfg : Config} {policy : GenPolicy} {old : AssocMap FatPtr MetaData} {toSpace : SpaceNum}
  {visited : Visited} {s t : State} {grain : Nat}

/-- The sizes and alignments that keep the bump index on the grain. -/
def OnGrain (grain size alignment : Nat) : Prop :=
  SmallAlignment alignment ∧ alignment ∣ grain ∧ grain ∣ size

/-- The bytes of the objects that the roots lead to. -/
noncomputable def reachableSize (m : Memory) (metadata : AssocMap FatPtr MetaData)
    (roots : List Nat) : Nat :=
  open Classical in
  weightSum (fun v data => if Reachable m metadata roots v then data.size else 0) metadata

theorem base_dvd (cfg : Config) (space : SpaceNum) {alignment : Nat} (h : SmallAlignment alignment) :
    alignment ∣ cfg.base space := by
  obtain ⟨k, hk, rfl⟩ := h
  have hpow : 2 ^ k ∣ 256 := Nat.pow_dvd_pow 2 hk
  exact (hpow.trans cfg.pageSize_dvd).trans (cfg.base_aligned space)

theorem OnGrain.no_padding {size alignment next : Nat} (h : OnGrain grain size alignment)
    (hnext : grain ∣ next) (space : SpaceNum) :
    calcAlignmentBytes (cfg.base space + next) alignment = some 0 :=
  calcAlignmentBytes_of_dvd h.1 (Nat.dvd_add (base_dvd cfg space h.1) (h.2.1.trans hnext))

/-! ### During a collection -/

/-- The bump index has passed the bytes of the objects that have been copied. -/
structure Packing (cfg : Config) (grain : Nat) (old : AssocMap FatPtr MetaData)
    (toSpace : SpaceNum) (visited : Visited) (s : State) : Prop
    extends Filling cfg old toSpace visited s where
  onGrain : grain ∣ s.nexts toSpace
  moved : s.nexts toSpace + weightSum (pending visited MetaData.size) old = liveSize old

theorem Packing.iter_ok (hcopies : policy.Copies)
    (hgrain : ∀ {v data}, old.lookup v = some data → OnGrain grain data.size data.alignment)
    (h : Packing cfg grain old toSpace visited s) {p : Nat} {stack : List Nat}
    {r : List Nat × Visited}
    (hrun : (forwardIter cfg policy toSpace p stack visited).run s = .ok r t) :
    Packing cfg grain old toSpace r.2 t := by
  have houtcome := forwardIter_outcome hcopies h.toEvacuating p stack
  have hinv := h.toFilling.iter_ok hcopies hrun
  rw [hrun] at houtcome
  cases houtcome with
  | skip => exact { hinv with onGrain := h.onGrain, moved := h.moved }
  | update => exact { hinv with onGrain := h.onGrain, moved := h.moved }
  | forward v data slots padding hslot hvisited hdata hspace hscan hlength hpadding hfit =>
      have hold := h.old_of_findSpace hdata (findSpace_ne_of_flip hspace)
      have hon := hgrain hold
      rw [hon.no_padding h.onGrain toSpace] at hpadding
      cases hpadding
      have hpending := weightSum_pending_emplace MetaData.size
        (FatPtr.ofAddr (cfg.base toSpace + (s.nexts toSpace + 0))) hold hvisited
      refine { hinv with onGrain := ?_, moved := ?_ }
      · rw [State.copied_nexts_self]
        exact Nat.dvd_add h.onGrain hon.2.2
      · have hmoved := h.moved
        rw [State.copied_nexts_self]
        dsimp only
        omega

/-! ### Between operations -/

/-- A heap of objects without padding. -/
structure Packed (cfg : Config) (grain : Nat) (s : State) : Prop extends HeapInv cfg s where
  sizes : ∀ {ptr data}, s.metadata.lookup ptr = some data →
    OnGrain grain data.size data.alignment
  onGrain : grain ∣ s.nexts s.spaceNum

theorem Packed.with_mem (h : Packed cfg grain s) (mem : Memory) :
    Packed cfg grain { s with mem } :=
  { h.toHeapInv.with_mem mem with sizes := h.sizes, onGrain := h.onGrain }

theorem Packed.initial (cfg : Config) (grain : Nat) (mem : Memory) :
    Packed cfg grain (State.initial mem) :=
  { HeapInv.initial cfg mem with
    sizes := fun hdata => by cases hdata
    onGrain := dvd_zero grain }

theorem Packed.packing (h : Packed cfg grain s) :
    Packing cfg grain s.metadata s.spaceNum.flip ∅ (flipSpaces s) :=
  { h.filling with
    onGrain := by
      rw [flipSpaces_nexts_flip, h.otherNext]
      exact dvd_zero grain
    moved := by
      rw [flipSpaces_nexts_flip, h.otherNext, weightSum_pending_empty, Nat.zero_add]
      rfl }

theorem Packed.forwarded (hcopies : policy.Copies) (h : Packed cfg grain s) {roots : List Nat}
    (hrun : (forwardRoots cfg policy s.spaceNum.flip roots ∅).run (flipSpaces s) =
      .ok visited t) : Packing cfg grain s.metadata s.spaceNum.flip visited t :=
  forwardRoots_invariant (Packing cfg grain s.metadata s.spaceNum.flip)
    (fun hinv hiter => hinv.iter_ok hcopies h.sizes hiter) h.packing hrun

theorem Packed.collected (hcopies : policy.Copies) (h : Packed cfg grain s)
    {gcRoots extraRoots : List Nat} {r : Visited × List FatPtr}
    (hrun : (asyncCollect cfg policy gcRoots extraRoots).run s = .ok r t) :
    Packed cfg grain t := by
  have hinv := h.toHeapInv.collected hcopies hrun
  rw [run_asyncCollect] at hrun
  obtain ⟨u, hforward, rfl, _⟩ := collectionTask_ok
    (fun _ _ hrun => (h.filling.forwardRoots hcopies hrun).toEvacuating) hrun
  have hpacking := h.forwarded hcopies hforward
  refine { hinv with sizes := fun hdata => ?_, onGrain := ?_ }
  · obtain ⟨v, _, hold⟩ := hpacking.lookup_swept.mp hdata
    exact h.sizes hold
  · rw [State.swept_nexts, State.swept_spaceNum, hpacking.current]
    exact hpacking.onGrain

/-- An allocation on the grain takes its size, and fails only for want of it. -/
theorem Packed.run_alloc (h : Packed cfg grain s) (policy : GenPolicy) (gcRoots : List Nat)
    {size alignment : Nat} (hon : OnGrain grain size alignment) (hpos : 0 < size) :
    s.nexts s.spaceNum + size ≤ cfg.maxAllocSize ∧
        (alloc cfg policy gcRoots size alignment).run s =
          .ok (FatPtr.ofAddr (cfg.base s.spaceNum + (s.nexts s.spaceNum + 0)))
            (s.allocated cfg size alignment 0) ∨
      cfg.maxAllocSize < s.nexts s.spaceNum + size ∧
        ∃ e, (alloc cfg policy gcRoots size alignment).run s = .error e s := by
  have hnone : calcAlignmentBytes (cfg.base s.spaceNum + s.nexts s.spaceNum) alignment = some 0 :=
    hon.no_padding h.onGrain s.spaceNum
  by_cases hroom : s.nexts s.spaceNum + size ≤ cfg.maxAllocSize
  · exact Or.inl ⟨hroom,
      run_alloc_of_fits h.toHeapInv policy gcRoots hpos (by omega) hnone (by omega)⟩
  · refine Or.inr ⟨by omega, ?_⟩
    by_cases hmax : size > cfg.maxAllocSize
    · exact ⟨_, run_alloc_refused policy gcRoots (Or.inr hmax)⟩
    · refine ⟨_, run_alloc_of_not_fits h.toHeapInv policy gcRoots hon.1 hpos (by omega) ?_⟩
      rintro ⟨padding, hpadding, hfit⟩
      omega

theorem Packed.allocated (h : Packed cfg grain s) {size alignment : Nat}
    (hon : OnGrain grain size alignment) (hpos : 0 < size)
    (hroom : s.nexts s.spaceNum + size ≤ cfg.maxAllocSize) :
    Packed cfg grain (s.allocated cfg size alignment 0) := by
  have hheap := cfg.maxAllocSize_lt (by omega)
  have hdvd : alignment ∣ cfg.base s.spaceNum + (s.nexts s.spaceNum + 0) :=
    Nat.dvd_add (base_dvd cfg _ hon.1) (hon.2.1.trans h.onGrain)
  have hfresh := h.lookup_fresh 0 (by omega)
  refine { h.toHeapInv.allocated hpos hon.1 hdvd (by omega) with
    sizes := fun {ptr data} hdata => ?_, onGrain := ?_ }
  · rw [State.allocated_metadata, lookup_emplace hfresh] at hdata
    split at hdata
    · cases hdata
      exact hon
    · exact h.sizes hdata
  · rw [State.allocated_spaceNum, State.allocated_nexts_self, Nat.add_zero]
    exact Nat.dvd_add h.onGrain hon.2.2

theorem Packed.step (hcopies : policy.Copies) (h : Packed cfg grain s)
    (hstep : HeapStep cfg policy (OnGrain grain) s t) : Packed cfg grain t := by
  cases hstep with
  | alloc mem gcRoots size alignment hon =>
      have hmem := h.with_mem mem
      by_cases hpos : 0 < size
      · rcases hmem.run_alloc policy gcRoots hon hpos with ⟨hroom, hrun⟩ | ⟨_, e, hrun⟩
        · rw [hrun]
          exact hmem.allocated hon hpos hroom
        · rw [hrun]
          exact hmem
      · rw [run_alloc_refused policy gcRoots (by omega)]
        exact hmem
  | collect mem gcRoots extraRoots result t hrun => exact (h.with_mem mem).collected hcopies hrun

/-! ### Afterwards -/

/-- What was reachable has been moved, and nothing else. -/
theorem reachableSize_add_pending {m : Memory} {roots : List Nat}
    (hvisited : ∀ v, v ∈ visited ↔ Reachable m old roots v) :
    reachableSize m old roots + weightSum (pending visited MetaData.size) old = liveSize old := by
  classical
  rw [reachableSize, ← weightSum_add]
  refine weightSum_congr fun v data _ => ?_
  by_cases hreach : Reachable m old roots v
  · have hmem : visited.lookup v ≠ none := fun hnone =>
      notMem_of_lookup hnone ((hvisited v).mpr hreach)
    rw [if_pos hreach, pending, if_neg hmem, Nat.add_zero]
  · have hnone : visited.lookup v = none :=
      AList.lookup_eq_none.mpr fun hmem => hreach ((hvisited v).mp hmem)
    rw [if_neg hreach, pending, if_pos hnone, Nat.zero_add]

/-- What is in use after a collection from `s` in `t`, and what can be allocated then. -/
structure Reclaims (cfg : Config) (grain : Nat) (roots : List Nat) (s t : State) : Prop where
  used : t.nexts t.spaceNum = reachableSize s.mem s.metadata roots
  free : freeSpace cfg t = cfg.maxAllocSize - reachableSize s.mem s.metadata roots
  alloc : ∀ mem policy gcRoots size alignment, OnGrain grain size alignment → 0 < size →
    ((∃ ptr u, (alloc cfg policy gcRoots size alignment).run { t with mem } = .ok ptr u) ↔
      reachableSize s.mem s.metadata roots + size ≤ cfg.maxAllocSize)

theorem Packed.reclaims (hcopies : policy.Copies) (happart : SpacesApart cfg)
    (h : Packed cfg grain s) {gcRoots extraRoots : List Nat} {r : Visited × List FatPtr}
    (hroots : ∀ root ∈ gcRoots ++ extraRoots, RootApart cfg root)
    (hrun : (asyncCollect cfg policy gcRoots extraRoots).run s = .ok r t) :
    Reclaims cfg grain (gcRoots ++ extraRoots) s t := by
  have hpacked := h.collected hcopies hrun
  have hused : t.nexts t.spaceNum =
      reachableSize s.mem s.metadata (gcRoots ++ extraRoots) := by
    rw [run_asyncCollect] at hrun
    obtain ⟨u, hforward, rfl, _⟩ := collectionTask_ok
      (fun _ _ hrun => (h.filling.forwardRoots hcopies hrun).toEvacuating) hrun
    have hpacking := h.forwarded hcopies hforward
    have htrace := forwardRoots_trace hcopies happart hroots h.settled hforward
    have hmoved := hpacking.moved
    have hreach := reachableSize_add_pending fun v => htrace.mem_visited_iff
    rw [State.swept_nexts, State.swept_spaceNum, hpacking.current]
    omega
  refine { used := hused, free := ?_, alloc := fun mem policy gcRoots size alignment hon hpos => ?_ }
  · rw [freeSpace, ← hused, spaceLeft_eq]
  · rw [← hused]
    rcases (hpacked.with_mem mem).run_alloc policy gcRoots hon hpos with
      ⟨hroom, hok⟩ | ⟨hfull, e, herror⟩
    · exact iff_of_true ⟨_, _, hok⟩ hroom
    · refine iff_of_false ?_ (Nat.not_le.mpr hfull)
      rintro ⟨ptr, u, hok⟩
      rw [hok] at herror
      cases herror

/-- **A collection gives back everything else.** From any state that allocations on one grain and
collections lead to, with any memory: after a collection the objects that were reachable are all
that is in use, and an allocation succeeds exactly if it fits into the rest. -/
theorem collection_reclaims (hcopies : policy.Copies) (happart : SpacesApart cfg)
    (h : HeapReachable cfg policy (OnGrain grain) s) (mem : Memory)
    {gcRoots extraRoots : List Nat} {r : Visited × List FatPtr}
    (hroots : ∀ root ∈ gcRoots ++ extraRoots, RootApart cfg root)
    (hrun : (asyncCollect cfg policy gcRoots extraRoots).run { s with mem } = .ok r t) :
    Reclaims cfg grain (gcRoots ++ extraRoots) { s with mem } t := by
  have hpacked : Packed cfg grain s :=
    h.induction (Packed.initial cfg grain) fun _ _ hinv hstep => hinv.step hcopies hstep
  exact (hpacked.with_mem mem).reclaims hcopies happart hroots hrun

/-- Of two objects of 64 bytes the slot at 1024 holds the second, and nothing the first. -/
theorem collection_reclaims_sample :
    ∃ s r t, (asyncCollect Config.sample GenPolicy.copying [1024] []).run s = .ok r t ∧
      testPtr s.mem 1024 = some (FatPtr.ofAddr 65600) ∧
      s.metadata.lookup (FatPtr.ofAddr 65536) = some ⟨64, 8⟩ ∧
      t.nexts t.spaceNum = 64 ∧ Reclaims Config.sample 8 [1024] s t := by
  have hgrain : OnGrain 8 64 8 := ⟨⟨3, by decide, rfl⟩, dvd_refl 8, by decide⟩
  have hreachable : HeapReachable Config.sample GenPolicy.copying (OnGrain 8)
      (finalState ((alloc Config.sample GenPolicy.copying [] 64 8).run
        (finalState ((alloc Config.sample GenPolicy.copying [] 64 8).run
          (State.initial fun _ => 0))))) :=
    ⟨fun _ => 0, .tail (.tail .refl (.alloc _ (fun _ => 0) [] 64 8 hgrain))
      (.alloc _ _ [] 64 8 hgrain)⟩
  have hused : (match (asyncCollect Config.sample GenPolicy.copying [1024] []).run
        { finalState ((alloc Config.sample GenPolicy.copying [] 64 8).run
          (finalState ((alloc Config.sample GenPolicy.copying [] 64 8).run
            (State.initial fun _ => 0)))) with
          mem := writeFatPtr (fun _ => 0) 1024 (FatPtr.ofAddr 65600) } with
      | .ok _ t => t.nexts t.spaceNum
      | .error _ _ => 0) = 64 := by
    decide +kernel
  cases hrun : (asyncCollect Config.sample GenPolicy.copying [1024] []).run
      { finalState ((alloc Config.sample GenPolicy.copying [] 64 8).run
        (finalState ((alloc Config.sample GenPolicy.copying [] 64 8).run
          (State.initial fun _ => 0)))) with
        mem := writeFatPtr (fun _ => 0) 1024 (FatPtr.ofAddr 65600) } with
  | ok r t =>
      rw [hrun] at hused
      exact ⟨_, r, t, hrun, testPtr_writeFatPtr_self, by decide +kernel, hused,
        collection_reclaims GenPolicy.copying_copies Config.sample_apart hreachable _
          RootApart.sample_roots hrun⟩
  | error e t =>
      rw [hrun] at hused
      cases hused

end Gcpp
