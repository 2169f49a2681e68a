import Gcpp.Proof.Collection

/-!
# A collection that fails

The spaces are flipped and the bump index of the old one restarts before the first object is moved.
When a copy finds no room, the exception leaves the object where it is: registered, in a space whose
bump index says that it is empty.
-/

namespace Gcpp

open ByteMemory StateExcept

variable {cfg : Config} {policy : GenPolicy} {old : AssocMap FatPtr MetaData} {toSpace : SpaceNum}
  {visited : Visited} {s t : State} {e : Halt} {v : FatPtr} {data : MetaData}
  {gcRoots extraRoots : List Nat}

/-- Objects lie below the bump index of their space, and root slots refer to objects. -/
structure HeapUsable (cfg : Config) (roots : List Nat) (s : State) : Prop where
  below : ∀ ptr data space, s.metadata.lookup ptr = some data →
    findSpace cfg ptr.asPtr = some space → ptr.asPtr + data.size ≤ cfg.base space + s.nexts space
  registered : ∀ root ∈ roots, ∀ ptr, testPtr s.mem root = some ptr →
    contains cfg ptr.asPtr = true → ptr ∈ s.metadata

/-- An object is registered in a space that counts as empty. -/
def Stranded (cfg : Config) (s : State) : Prop :=
  ∃ ptr data space, s.metadata.lookup ptr = some data ∧ 0 < data.size ∧
    findSpace cfg ptr.asPtr = some space ∧ s.nexts space = 0

theorem Stranded.not_usable (h : Stranded cfg s) (roots : List Nat) : ¬ HeapUsable cfg roots s := by
  obtain ⟨ptr, data, space, hdata, hpos, hspace, hnext⟩ := h
  intro husable
  have hbelow := husable.below ptr data space hdata hspace
  have hlo := (findSpace_eq_some_iff.mp hspace).1
  rw [hnext] at hbelow
  omega

/-! ### The round that fails -/

/-- A copy that throws has not touched the map or the other space. -/
theorem copy_error {toUpdate : Nat} (hspace : findSpace cfg v.asPtr = some toSpace.flip)
    (hdata : s.metadata.lookup v = some data)
    (hrun : (copy cfg toUpdate toSpace v).run s = .error e t) :
    t.metadata = s.metadata ∧ t.nexts toSpace.flip = s.nexts toSpace.flip := by
  cases hpadding : calcAlignmentBytes (cfg.base toSpace + s.nexts toSpace) data.alignment with
  | none =>
      rw [run_copy_hang hspace (SpaceNum.flip_ne toSpace) hdata hpadding] at hrun
      cases hrun
      exact ⟨rfl, rfl⟩
  | some padding =>
      rw [run_copy hspace (SpaceNum.flip_ne toSpace) hdata hpadding] at hrun
      split at hrun
      · cases hrun
        exact ⟨rfl, rfl⟩
      · dsimp only at hrun
        split at hrun
        · cases hrun
          exact ⟨rfl, State.bump_nexts_flip _ _ _⟩
        · split at hrun
          · cases hrun
            exact ⟨rfl, State.bump_nexts_flip _ _ _⟩
          · cases hrun

/-- A round throws only out of `copy`. -/
theorem forwardIter_error (hcopies : policy.Copies) (h : Evacuating cfg old toSpace visited s)
    {p : Nat} {stack : List Nat}
    (hrun : (forwardIter cfg policy toSpace p stack visited).run s = .error e t) :
    ∃ v data, s.metadata.lookup v = some data ∧ findSpace cfg v.asPtr = some toSpace.flip ∧
      (copy cfg p toSpace v).run s = .error e t := by
  have hround := forwardIter_round cfg policy toSpace p stack visited s
  rw [hrun] at hround
  cases hround with
  | empty _ hresult => cases hresult
  | update _ _ _ _ hresult => cases hresult
  | unmanaged _ _ _ _ hresult => cases hresult
  | outside v data _ hdata hspace =>
      have hmanaged := h.exists_findSpace hdata
      rw [hspace] at hmanaged
      simp at hmanaged
  | moved _ _ _ _ _ _ hresult => cases hresult
  | endless v data hdata hscan =>
      obtain ⟨slots, hslots, _⟩ := h.scan hdata
      rw [hscan] at hslots
      cases hslots
  | found v data space slots _ _ hdata hspace hne _ hresult =>
      rw [if_pos (hcopies v)] at hresult
      rcases run_bind_eq_error.mp hresult.symm with hcopy | ⟨_, _, _, hfinal⟩
      · exact ⟨v, data, hdata, h.findSpace_of_ne hdata hspace hne, hcopy⟩
      · cases hfinal

/-- **Whichever copy it is that fails**, its object is stranded. -/
theorem Evacuating.stranded (hcopies : policy.Copies) (h : Evacuating cfg old toSpace visited s)
    {p : Nat} {stack : List Nat}
    (hrun : (forwardIter cfg policy toSpace p stack visited).run s = .error e t) :
    Stranded cfg t := by
  obtain ⟨v, data, hdata, hspace, hcopy⟩ := forwardIter_error hcopies h hrun
  obtain ⟨hmetadata, hnext⟩ := copy_error hspace hdata hcopy
  refine ⟨v, data, toSpace.flip, ?_, h.pos hdata, hspace, hnext.trans h.fromNext⟩
  rw [hmetadata]
  exact hdata

/-- **A collection that ends with an exception strands an object.** -/
theorem asyncCollect_error_stranded (hcopies : policy.Copies)
    (h : Settled cfg s.spaceNum s.metadata)
    (hrun : (asyncCollect cfg policy gcRoots extraRoots).run s = .error e t) (hne : e ≠ .hang) :
    Stranded cfg t := by
  rw [run_asyncCollect] at hrun
  have hstep : ∀ {p stack visited u r w}, Evacuating cfg s.metadata s.spaceNum.flip visited u →
      (forwardIter cfg policy s.spaceNum.flip p stack visited).run u = .ok r w →
      Evacuating cfg s.metadata s.spaceNum.flip r.2 w :=
    fun hinv hiter => hinv.iter_ok hcopies hiter
  have hforward := collectionTask_error
    (fun _ _ hok => forwardRoots_invariant _ hstep h.evacuating hok) hrun
  exact forwardRoots_throws _ hstep (fun e u => e ≠ .hang → Stranded cfg u)
    (fun hinv hiter _ => hinv.stranded hcopies hiter) (fun _ hhang => absurd rfl hhang)
    h.evacuating hforward hne

/-- **No heap is usable after a collection that has failed**, wherever it has failed. -/
theorem failed_collection_unusable (hcopies : policy.Copies)
    (h : Settled cfg s.spaceNum s.metadata)
    (hrun : (asyncCollect cfg policy gcRoots extraRoots).run s = .error e t) (hne : e ≠ .hang) :
    ¬ HeapUsable cfg (gcRoots ++ extraRoots) t :=
  (asyncCollect_error_stranded hcopies h hrun hne).not_usable _

/-! ### A heap that grows when it is copied -/

/-- Two blocks of one page. -/
def Config.page : Config where
  pageSize := 4096
  size := 4096
  base
    | .zero => 65536
    | .one => 131072
  pageSize_pos := Config.sample.pageSize_pos
  pageSize_dvd := Config.sample.pageSize_dvd
  size_lt := by decide
  base_pos := Config.sample.base_pos
  base_aligned := Config.sample.base_aligned
  base_lt := by rintro (_ | _) <;> decide
  spaces_disjoint := by decide

/-- The alignments of 40 objects of one byte each: as they are allocated, they lie 32 or 64 bytes
apart. -/
def crowdedAlignments : List Nat :=
  (List.replicate 2 [256, 32, 64, 32, 128, 32, 64, 32]).flatten ++
    (List.replicate 6 [256, 64, 128, 64]).flatten

/-- The objects by decreasing alignment, the first one last. In this order they no longer fit. -/
def crowdedOffsets : List Nat :=
  (List.range 7).map (fun i => 256 * i + 256) ++ (List.range 8).map (fun i => 256 * i + 128) ++
    (List.range 16).map (fun i => 128 * i + 64) ++ (List.range 8).map (fun i => 64 * i + 32) ++ [0]

def crowdedRoots : List Nat := (List.range 40).map fun i => 16 * i + 1024

def State.alloced (s : State) (alignments : List Nat) : State :=
  alignments.foldl
    (fun s alignment => finalState ((alloc Config.page GenPolicy.copying [] 1 alignment).run s)) s

/-- A root slot for each object, one behind the other from address 1024 on. -/
def crowdedMem : Memory := fun a =>
  match crowdedOffsets[(a - 1024) / 16]? with
  | some offset =>
      if 1024 ≤ a then
        writeFatPtr (fun _ => 0) (a / 16 * 16) (FatPtr.ofAddr (65536 + offset)) a
      else 0
  | none => 0

def State.crowded : State :=
  { (State.initial fun _ => 0).alloced crowdedAlignments with mem := crowdedMem }

theorem HeapReachable.alloced {admits : Nat → Nat → Prop} {s : State} {alignments : List Nat}
    (h : HeapReachable Config.page GenPolicy.copying admits s)
    (hadmits : ∀ alignment ∈ alignments, admits 1 alignment) :
    HeapReachable Config.page GenPolicy.copying admits (s.alloced alignments) := by
  induction alignments generalizing s with
  | nil => exact h
  | cons alignment alignments ih =>
      have hfirst := hadmits alignment List.mem_cons_self
      obtain ⟨mem, hrun⟩ := h
      exact ih ⟨mem, hrun.tail (.alloc s s.mem [] 1 alignment hfirst)⟩
        fun a ha => hadmits a (List.mem_cons_of_mem _ ha)

theorem State.crowded_reachable : HeapReachable Config.page GenPolicy.copying
    (fun _ alignment => SmallAlignment alignment)
    ((State.initial fun _ => 0).alloced crowdedAlignments) := by
  refine HeapReachable.alloced ⟨fun _ => 0, .refl⟩ ?_
  have hsmall : ∀ alignment ∈ crowdedAlignments, ∃ k ≤ 8, alignment = 2 ^ k := by decide
  exact hsmall

theorem State.crowded_settled : Settled Config.page State.crowded.spaceNum State.crowded.metadata :=
  ((State.crowded_reachable.heapInv GenPolicy.copying_copies fun _ _ hsmall => hsmall).with_mem
    _).settled

def State.crowdedResult : EStateM.Result Halt State (Visited × List FatPtr) :=
  (asyncCollect Config.page GenPolicy.copying crowdedRoots []).run State.crowded

/-- What the collection throws, and what the next one throws. -/
theorem thrown_crowded :
    (thrown State.crowdedResult, thrown ((asyncCollect Config.page GenPolicy.copying crowdedRoots
      []).run (finalState State.crowdedResult))) =
      (some .badOptionalAccess, some (.runtimeError "Heap corruption")) := by
  decide +kernel

theorem State.crowdedResult_eq :
    State.crowdedResult = .error .badOptionalAccess (finalState State.crowdedResult) := by
  have hthrown := thrown_crowded
  rw [Prod.mk.injEq] at hthrown
  exact eq_error_of_thrown hthrown.1

theorem failed_collection_unusable_crowded :
    ∃ e t, (asyncCollect Config.page GenPolicy.copying crowdedRoots []).run State.crowded =
      .error e t ∧ ¬ HeapUsable Config.page (crowdedRoots ++ []) t :=
  ⟨_, _, State.crowdedResult_eq, failed_collection_unusable GenPolicy.copying_copies
    State.crowded_settled State.crowdedResult_eq (by decide)⟩

/-- **A collection can fail, and the next one finds the heap corrupted** by the object that could
not be copied. -/
theorem failed_collection_corrupts :
    ¬ ∀ (s t : State) (e : Halt), Settled Config.page s.spaceNum s.metadata →
      (asyncCollect Config.page GenPolicy.copying crowdedRoots []).run s = .error e t → e ≠ .hang →
      HeapUsable Config.page crowdedRoots t ∧
        ∀ u, (asyncCollect Config.page GenPolicy.copying crowdedRoots []).run t ≠
          .error (.runtimeError "Heap corruption") u := by
  intro h
  have hthrown := thrown_crowded
  rw [Prod.mk.injEq] at hthrown
  have hclean := (h _ _ _ State.crowded_settled State.crowdedResult_eq (by decide)).2
  exact hclean _ (eq_error_of_thrown hthrown.2)

end Gcpp
