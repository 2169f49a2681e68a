import Gcpp.Proof.HeapInvariant

/-!
# There is room for every copy

An allocation stops at half the size of the collector, so the live sizes never add up to more than
that. A copy takes its size and a padding smaller than its alignment; when no alignment exceeds its
size, all copies together take less than twice the live sizes, whatever their order. That is below
the end of the space, and the last byte of it is never asked for.
-/

namespace Gcpp

open ByteMemory StateExcept AssocMap

variable {cfg : Config} {policy : GenPolicy} {old : AssocMap FatPtr MetaData} {toSpace : SpaceNum}
  {visited : Visited} {s t : State}

def liveSize (metadata : AssocMap FatPtr MetaData) : Nat :=
  weightSum (fun _ data => data.size) metadata

/-- The most that a copy can take, its padding included. -/
def copyBound (data : MetaData) : Nat := 2 * data.size - 1

def pending (visited : Visited) (w : MetaData → Nat) (v : FatPtr) (data : MetaData) : Nat :=
  if visited.lookup v = none then w data else 0

def inside (cfg : Config) (space : SpaceNum) (ptr : FatPtr) (data : MetaData) : Nat :=
  if findSpace cfg ptr.asPtr = some space then data.size else 0

theorem weightSum_pending_emplace (w : MetaData → Nat) {v : FatPtr} (v' : FatPtr) {data : MetaData}
    (hold : old.lookup v = some data) (hvisited : visited.lookup v = none) :
    weightSum (pending (emplace v v' visited) w) old + w data = weightSum (pending visited w) old := by
  have hexcept := weightSum_congr_except (pending (emplace v v' visited) w) (pending visited w)
    hold fun k' v'' hne _ => by
      rw [pending, pending, lookup_emplace_of_ne hne]
  rw [pending, if_pos hvisited, pending, if_neg (by simp [lookup_emplace_self hvisited])] at hexcept
  exact hexcept

theorem weightSum_pending_empty (w : MetaData → Nat) :
    weightSum (pending ∅ w) old = weightSum (fun _ => w) old :=
  weightSum_congr fun _ _ _ => if_pos rfl

theorem weightSum_pending_le (visited : Visited) (w : MetaData → Nat) :
    weightSum (pending visited w) old ≤ weightSum (fun _ => w) old :=
  weightSum_le fun _ _ _ => by
    rw [pending]
    split
    · exact le_rfl
    · exact Nat.zero_le _

/-- A copy adds its own weight and takes that of its object away. -/
theorem Evacuating.weightSum_copied (h : Evacuating cfg old toSpace visited s) {v : FatPtr}
    {data : MetaData} (hdata : s.metadata.lookup v = some data) (toUpdate padding : Nat)
    (hfit : s.nexts toSpace + padding < cfg.heapSize) (w : FatPtr → MetaData → Nat) :
    weightSum w (s.copied cfg toUpdate toSpace (s.nexts toSpace + padding) v data).metadata +
        w v data =
      w (FatPtr.ofAddr (cfg.base toSpace + (s.nexts toSpace + padding))) data +
        weightSum w s.metadata := by
  have hfresh := h.lookup_fresh padding hfit
  have hne : v ≠ FatPtr.ofAddr (cfg.base toSpace + (s.nexts toSpace + padding)) := by
    intro heq
    rw [← heq, hdata] at hfresh
    cases hfresh
  rw [State.copied_metadata, weightSum_erase w (by rw [lookup_emplace_of_ne hne, hdata]),
    weightSum_emplace w hfresh]

/-! ### The traversal -/

/-- The accounts of a collection under way: no copy changes a sum over the data of the entries, what
the space has given out is covered by the objects that are done, and covers their copies. -/
structure Budgeted (cfg : Config) (old : AssocMap FatPtr MetaData) (toSpace : SpaceNum)
    (visited : Visited) (s : State) : Prop extends Filling cfg old toSpace visited s where
  conserved : ∀ w : MetaData → Nat,
    weightSum (fun _ => w) s.metadata = weightSum (fun _ => w) old
  room : s.nexts toSpace + weightSum (pending visited copyBound) old ≤
    weightSum (fun _ => copyBound) old
  filled : weightSum (inside cfg toSpace) s.metadata ≤ s.nexts toSpace

theorem Budgeted.iter_ok (hcopies : policy.Copies)
    (hfitting : ∀ {v data}, old.lookup v = some data →
      SmallAlignment data.alignment ∧ data.alignment ≤ data.size)
    (h : Budgeted cfg old toSpace visited s) {p : Nat} {stack : List Nat} {r : List Nat × Visited}
    (hrun : (forwardIter cfg policy toSpace p stack visited).run s = .ok r t) :
    Budgeted cfg old toSpace r.2 t := by
  have houtcome := forwardIter_outcome hcopies h.toEvacuating p stack
  have hinv := h.toFilling.iter_ok hcopies hrun
  rw [hrun] at houtcome
  cases houtcome with
  | skip => exact { hinv with conserved := h.conserved, room := h.room, filled := h.filled }
  | update => exact { hinv with conserved := h.conserved, room := h.room, filled := h.filled }
  | forward v data slots padding hslot hvisited hdata hspace hscan hlength hpadding hfit =>
      have hold := h.old_of_findSpace hdata (findSpace_ne_of_flip hspace)
      obtain ⟨hsmall, hle⟩ := hfitting hold
      obtain ⟨padding', hlt, hpadding', _⟩ :=
        calcAlignmentBytes_spec hsmall (cfg.base toSpace + s.nexts toSpace)
      rw [hpadding] at hpadding'
      cases hpadding'
      have hnewSpace := findSpace_ofAddr_base toSpace
        (show s.nexts toSpace + padding < cfg.heapSize by omega)
      have hswap := h.weightSum_copied hdata p padding (by omega)
      have hpending := weightSum_pending_emplace copyBound
        (FatPtr.ofAddr (cfg.base toSpace + (s.nexts toSpace + padding))) hold hvisited
      have hpos := h.settled.pos hold
      refine { hinv with conserved := fun w => ?_, room := ?_, filled := ?_ }
      · have := hswap fun _ => w
        have := h.conserved w
        omega
      · have hroom := h.room
        rw [State.copied_nexts_self]
        dsimp only
        unfold copyBound at hpending hroom ⊢
        omega
      · have hsum := hswap (inside cfg toSpace)
        have hfilled := h.filled
        rw [State.copied_nexts_self]
        rw [inside, if_neg (findSpace_ne_of_flip hspace), inside, if_pos hnewSpace] at hsum
        omega

/-- The live sizes that leave room for a collection. -/
structure Affordable (cfg : Config) (old : AssocMap FatPtr MetaData) : Prop where
  fitting : ∀ {v data}, old.lookup v = some data →
    SmallAlignment data.alignment ∧ data.alignment ≤ data.size
  live_le : liveSize old ≤ cfg.maxAllocSize

/-- **A round never runs out of space.** -/
theorem Budgeted.iter_total (hcopies : policy.Copies) (hafford : Affordable cfg old)
    (h : Budgeted cfg old toSpace visited s) (p : Nat) (stack : List Nat) :
    ∃ r t, (forwardIter cfg policy toSpace p stack visited).run s = .ok r t ∧
      Budgeted cfg old toSpace r.2 t ∧
      r.1.length + weightSum (pending r.2 fun data => data.size / 8 + 1) old ≤
        stack.length + weightSum (pending visited fun data => data.size / 8 + 1) old := by
  have houtcome := forwardIter_outcome hcopies h.toEvacuating p stack
  cases hrun : (forwardIter cfg policy toSpace p stack visited).run s with
  | ok r t =>
      refine ⟨r, t, rfl, h.iter_ok hcopies hafford.fitting hrun, ?_⟩
      rw [hrun] at houtcome
      cases houtcome with
      | skip => exact le_rfl
      | update => exact le_rfl
      | forward v data slots padding hslot hvisited hdata hspace hscan hlength hpadding hfit =>
          have hold := h.old_of_findSpace hdata (findSpace_ne_of_flip hspace)
          have hpending := weightSum_pending_emplace (fun data => data.size / 8 + 1)
            (FatPtr.ofAddr (cfg.base toSpace + (s.nexts toSpace + padding))) hold hvisited
          rw [List.length_append, List.length_reverse]
          dsimp only
          omega
  | error e t =>
      rw [hrun] at houtcome
      cases houtcome with
      | fail v data e t hdata hspace hpadding herror hmetadata =>
          have hold := h.old_of_findSpace hdata (findSpace_ne_of_flip hspace)
          have hunvisited := h.unvisited hdata
          obtain ⟨hsmall, hle⟩ := hafford.fitting hold
          obtain ⟨padding, hlt, hsome, _⟩ :=
            calcAlignmentBytes_spec hsmall (cfg.base toSpace + s.nexts toSpace)
          have hfull := hpadding padding hsome
          -- the object is among those the room was kept for
          have hroom := h.room
          have hdue : copyBound data ≤ weightSum (pending visited copyBound) old := by
            have := le_weightSum (w := pending visited copyBound) hold
            rwa [pending, if_pos hunvisited] at this
          have htwice : weightSum (fun _ => copyBound) old + 1 ≤ 2 * liveSize old := by
            have hone := weightSum_congr_except (fun _ d => 2 * d.size)
              (fun k d => if k = v then copyBound d else 2 * d.size) hold
              fun k' _ hne _ => (if_neg hne).symm
            have hrest : weightSum (fun _ => copyBound) old ≤
                weightSum (fun k d => if k = v then copyBound d else 2 * d.size) old :=
              weightSum_le fun k d _ => by
                split
                · exact le_rfl
                · exact Nat.sub_le _ _
            have hdouble : weightSum (fun _ d => 2 * d.size) old = 2 * liveSize old :=
              weightSum_mul 2 fun _ (data : MetaData) => data.size
            have hpos := h.settled.pos hold
            rw [if_pos rfl] at hone
            unfold copyBound at hone hrest
            unfold copyBound
            omega
          have hlive := hafford.live_le
          have hceil := pageSizeCeil_ge cfg.pageSize_pos cfg.size
          unfold Config.maxAllocSize at hlive
          unfold Config.heapSize at hfull
          have hbound : copyBound data = 2 * data.size - 1 := rfl
          omega

theorem Budgeted.forwardPtr_total (hcopies : policy.Copies) (hafford : Affordable cfg old)
    (root : Nat) (visited : Visited) (s : State) (h : Budgeted cfg old toSpace visited s) :
    ∃ result t, (forwardPtr cfg policy toSpace root visited).run s = .ok result t ∧
      Budgeted cfg old toSpace result t := by
  refine forwardLoop_total (Budgeted cfg old toSpace)
    (fun visited => weightSum (pending visited fun data => data.size / 8 + 1) old)
    (fun p stack visited s hinv => hinv.iter_total hcopies hafford p stack) _ [root] visited s h ?_
  have hbound : _ ≤ weightSum _ old := weightSum_pending_le visited fun data => data.size / 8 + 1
  rw [forwardRounds, h.conserved fun data => data.size / 8 + 1, List.length_singleton]
  omega

/-! ### The accounts between operations -/

/-- The live sizes fit below the allocation limit, and below the bump index. -/
structure Accounted (cfg : Config) (s : State) : Prop extends HeapInv cfg s where
  affordable : Affordable cfg s.metadata
  covered : liveSize s.metadata ≤ s.nexts s.spaceNum

namespace Accounted

theorem initial (cfg : Config) (mem : Memory) : Accounted cfg (State.initial mem) :=
  { HeapInv.initial cfg mem with
    affordable :=
      { fitting := fun hlookup => by cases hlookup
        live_le := Nat.zero_le _ }
    covered := Nat.zero_le _ }

theorem with_mem (h : Accounted cfg s) (mem : Memory) : Accounted cfg { s with mem } :=
  { h.toHeapInv.with_mem mem with affordable := h.affordable, covered := h.covered }

theorem budgeted (h : Accounted cfg s) :
    Budgeted cfg s.metadata s.spaceNum.flip ∅ (flipSpaces s) :=
  { h.filling with
    conserved := fun _ => rfl
    room := by
      rw [flipSpaces_nexts_flip, h.otherNext, weightSum_pending_empty, Nat.zero_add]
    filled := by
      rw [flipSpaces_nexts_flip, h.otherNext]
      have hzero : weightSum (inside cfg s.spaceNum.flip) s.metadata =
          weightSum (fun _ _ => 0) s.metadata :=
        weightSum_congr fun ptr data hdata => if_neg (by
          rw [h.settled.findSpace hdata]
          exact fun heq => SpaceNum.flip_ne s.spaceNum (Option.some.inj heq).symm)
      rw [flipSpaces, hzero, weightSum]
      simp }

/-- **A collection completes**, whatever the roots and the memory are. -/
theorem collect_total (hcopies : policy.Copies) (h : Accounted cfg s)
    (gcRoots extraRoots : List Nat) :
    ∃ r t, (asyncCollect cfg policy gcRoots extraRoots).run s = .ok r t ∧ Accounted cfg t := by
  obtain ⟨visited, u, hforward, hinv⟩ := forwardRoots_total _
    (fun root visited s => Budgeted.forwardPtr_total hcopies h.affordable root visited s)
    (gcRoots ++ extraRoots) ∅ (flipSpaces s) h.budgeted
  have hrun : (asyncCollect cfg policy gcRoots extraRoots).run s =
      .ok (visited, []) (u.swept cfg s.spaceNum.flip visited) := by
    rw [run_asyncCollect, collectionTask, run_bind_of_ok hforward, run_bind_of_ok hinv.run_sweep]
    rfl
  refine ⟨_, _, hrun, ?_⟩
  refine { h.toHeapInv.collected hcopies hrun with affordable := ?_, covered := ?_ }
  · refine { fitting := fun hdata => ?_, live_le := ?_ }
    · obtain ⟨v, _, hold⟩ := hinv.lookup_swept.mp hdata
      exact h.affordable.fitting hold
    · calc liveSize (u.swept cfg s.spaceNum.flip visited).metadata
        _ ≤ liveSize u.metadata := weightSum_eraseAll_le _ _ _
        _ = liveSize s.metadata := hinv.conserved fun data => data.size
        _ ≤ cfg.maxAllocSize := h.affordable.live_le
  · have hinside : liveSize (u.swept cfg s.spaceNum.flip visited).metadata =
        weightSum (inside cfg s.spaceNum.flip) (u.swept cfg s.spaceNum.flip visited).metadata := by
      refine weightSum_congr fun ptr data hdata => ?_
      obtain ⟨v, hv, _⟩ := hinv.lookup_swept.mp hdata
      obtain ⟨_, _, _, _, hplaced⟩ := hinv.black hv
      rw [inside, if_pos hplaced.findSpace]
    calc liveSize (u.swept cfg s.spaceNum.flip visited).metadata
      _ = _ := hinside
      _ ≤ weightSum (inside cfg s.spaceNum.flip) u.metadata := weightSum_eraseAll_le _ _ _
      _ ≤ u.nexts s.spaceNum.flip := hinv.filled
      _ = _ := by rw [State.swept_nexts, State.swept_spaceNum, hinv.current]

theorem allocated (h : Accounted cfg s) {size alignment padding : Nat} (hpos : 0 < size)
    (hsmall : SmallAlignment alignment) (hle : alignment ≤ size)
    (hdvd : alignment ∣ cfg.base s.spaceNum + (s.nexts s.spaceNum + padding))
    (hfit : s.nexts s.spaceNum + size + padding ≤ cfg.maxAllocSize) :
    Accounted cfg (s.allocated cfg size alignment padding) := by
  have hheap := cfg.maxAllocSize_lt (by omega)
  have hfresh := h.lookup_fresh padding (by omega)
  have hlive : liveSize (s.allocated cfg size alignment padding).metadata =
      size + liveSize s.metadata := by
    rw [liveSize, State.allocated_metadata, weightSum_emplace _ hfresh, liveSize]
  have hcovered := h.covered
  refine { h.toHeapInv.allocated hpos hsmall hdvd (by omega) with affordable := ?_, covered := ?_ }
  · refine { fitting := fun {v data} hdata => ?_, live_le := by omega }
    rw [State.allocated_metadata, lookup_emplace hfresh] at hdata
    split at hdata
    · cases hdata
      exact ⟨hsmall, hle⟩
    · exact h.affordable.fitting hdata
  · rw [hlive, State.allocated_spaceNum, State.allocated_nexts_self]
    omega

theorem step (hcopies : policy.Copies) (h : Accounted cfg s)
    (hstep : HeapStep cfg policy
      (fun size alignment => SmallAlignment alignment ∧ alignment ≤ size) s t) :
    Accounted cfg t := by
  cases hstep with
  | alloc mem gcRoots size alignment hadmitted =>
      obtain ⟨hsmall, hle⟩ := hadmitted
      apply (h.with_mem mem).toHeapInv.after_alloc policy gcRoots size hsmall (h.with_mem mem)
      intro padding hpos hdvd hfit
      exact (h.with_mem mem).allocated hpos hsmall hle hdvd hfit
  | collect mem gcRoots extraRoots result t hrun =>
      obtain ⟨r, u, hrun', haccounted⟩ := (h.with_mem mem).collect_total hcopies gcRoots extraRoots
      rw [hrun] at hrun'
      cases hrun'
      exact haccounted

end Accounted

/-- **Every collection completes.** With sizes at least as large as their alignments, a collection
from any reachable state finds room for every copy, loses no entry and ends. -/
theorem collection_completes (hcopies : policy.Copies)
    (h : HeapReachable cfg policy
      (fun size alignment => SmallAlignment alignment ∧ alignment ≤ size) s)
    (mem : Memory) (gcRoots extraRoots : List Nat) :
    ∃ r t, (asyncCollect cfg policy gcRoots extraRoots).run { s with mem } = .ok r t := by
  have hinv : Accounted cfg s :=
    h.induction (Accounted.initial cfg) fun _ _ hinv hstep => hinv.step hcopies hstep
  obtain ⟨r, t, hrun, _⟩ := (hinv.with_mem mem).collect_total hcopies gcRoots extraRoots
  exact ⟨r, t, hrun⟩

/-- Among the roots is a slot that holds an object, twice, and slots that hold nonsense. -/
theorem collection_completes_after_alloc :
    ∃ r t, (asyncCollect Config.sample GenPolicy.copying [1024, 32, 1024] [16]).run
      { finalState ((alloc Config.sample GenPolicy.copying [] 64 8).run
          (State.initial fun _ => 0)) with
        mem := writeFatPtr (fun _ => 112) 1024 (FatPtr.ofAddr 65536) } = .ok r t :=
  collection_completes GenPolicy.copying_copies
    ⟨fun _ => 0, .tail .refl
      (.alloc (.initial fun _ => 0) _ _ _ _ ⟨⟨3, by decide, rfl⟩, by decide⟩)⟩ _ _ _

end Gcpp
