import Gcpp.Proof.Accounting
import Gcpp.Proof.Trace

/-!
# What a collection keeps

A collection that completes keeps exactly the objects that were reachable when it started, each as
one copy. The copies are faithful to the last byte, and that is where it goes wrong: an object is
copied before its fields are forwarded, and the fields that are forwarded afterwards are those of
the old object.
-/

namespace Gcpp

open ByteMemory StateExcept Tracing

variable {cfg : Config} {policy : GenPolicy} {s t : State} {gcRoots extraRoots : List Nat}
  {r : Visited × List FatPtr}

theorem asyncCollect_trace (hcopies : policy.Copies) (happart : SpacesApart cfg)
    (hroots : ∀ root ∈ gcRoots ++ extraRoots, RootApart cfg root)
    (h : Settled cfg s.spaceNum s.metadata)
    (hrun : (asyncCollect cfg policy gcRoots extraRoots).run s = .ok r t) :
    ∃ u, TraceInv cfg s.metadata s.spaceNum.flip s.mem (gcRoots ++ extraRoots)
        ((gcRoots ++ extraRoots).reverse ++ []) [] r.1 u ∧ t = u.swept cfg s.spaceNum.flip r.1 := by
  rw [run_asyncCollect] at hrun
  have htrace : ∀ visited u, (forwardRoots cfg policy s.spaceNum.flip (gcRoots ++ extraRoots) ∅).run
      (flipSpaces s) = .ok visited u → TraceInv cfg s.metadata s.spaceNum.flip s.mem
        (gcRoots ++ extraRoots) ((gcRoots ++ extraRoots).reverse ++ []) [] visited u :=
    fun _ _ hforward => forwardRoots_trace hcopies happart hroots h hforward
  obtain ⟨u, hforward, hswept, _⟩ :=
    collectionTask_ok (fun _ _ hforward => (htrace _ _ hforward).toEvacuating) hrun
  exact ⟨u, htrace _ _ hforward, hswept⟩

section Trace

variable {old : AssocMap FatPtr MetaData} {toSpace : SpaceNum} {m₀ : Memory} {roots : List Nat}
  {visited : Visited}

/-- When every root has had its turn and the stack is empty, what was forwarded is what was
reachable. -/
theorem TraceInv.mem_visited_iff
    (h : TraceInv cfg old toSpace m₀ roots (roots.reverse ++ []) [] visited s) {w : FatPtr} :
    w ∈ visited ↔ Reachable m₀ old roots w := by
  apply h.traced.marked_iff_reach
  · intro slot hslot
    rw [List.append_nil]
    exact List.mem_reverse.mpr hslot
  · intro slot hslot
    cases hslot
  · rintro slot w hdone ⟨hslot, hmem⟩
    obtain ⟨w', hw', _⟩ := hdone w hslot hmem
    exact AssocMap.mem_of_lookup hw'

theorem TraceInv.root_forwarded
    (h : TraceInv cfg old toSpace m₀ roots (roots.reverse ++ []) [] visited s) {root : Nat}
    (hroot : root ∈ roots) : Forwarded old m₀ visited s.mem root := by
  refine (h.traced.grey root (Or.inl ?_)).resolve_left fun hmem => by cases hmem
  rw [List.append_nil]
  exact List.mem_reverse.mpr hroot

/-- A slot inside a copy holds what it held in the object when the collection started. -/
theorem TraceInv.slot_of_copy {handled stack : List Nat}
    (h : TraceInv cfg old toSpace m₀ roots handled stack visited s) {v v' : FatPtr} {slot : Nat}
    (hvisited : visited.lookup v = some v') (hfield : (objectGraph m₀ old roots).field v slot) :
    testPtr s.mem (v'.asPtr + (slot - v.asPtr)) = testPtr m₀ slot := by
  obtain ⟨data, hold, _, hge, hlt, _⟩ := (field_iff h.settled).mp hfield
  refine testPtr_of_bytes fun i hi => ?_
  have hbyte := h.memory.copies hvisited hold (slot - v.asPtr + i) (by omega)
  rwa [← Nat.add_assoc, show v.asPtr + (slot - v.asPtr + i) = slot + i by omega] at hbyte

end Trace

/-! ### Exactly the reachable objects -/

/-- The outcome of a collection from `s` in `t`: `visited` relates each reachable object to its
copy. -/
structure KeepsReachable (roots : List Nat) (cfg : Config) (visited : Visited) (s t : State) :
    Prop where
  forwarded_iff : ∀ w, w ∈ visited ↔ Reachable s.mem s.metadata roots w
  kept : ∀ w data, Reachable s.mem s.metadata roots w → s.metadata.lookup w = some data →
    ∃ w', visited.lookup w = some w' ∧ findSpace cfg w'.asPtr = some s.spaceNum.flip ∧
      t.metadata.lookup w' = some data
  once : ∀ v w u, visited.lookup v = some u → visited.lookup w = some u → v = w
  nothing_else : ∀ ptr data, t.metadata.lookup ptr = some data →
    findSpace cfg ptr.asPtr = some s.spaceNum.flip ∧ ∃ w, Reachable s.mem s.metadata roots w ∧
      visited.lookup w = some ptr ∧ s.metadata.lookup w = some data

/-- **A collection keeps exactly the reachable objects**, each as one copy of the old size and
alignment. -/
theorem collection_keeps_reachable (hcopies : policy.Copies) (happart : SpacesApart cfg)
    (hroots : ∀ root ∈ gcRoots ++ extraRoots, RootApart cfg root)
    (h : Settled cfg s.spaceNum s.metadata)
    (hrun : (asyncCollect cfg policy gcRoots extraRoots).run s = .ok r t) :
    KeepsReachable (gcRoots ++ extraRoots) cfg r.1 s t := by
  obtain ⟨u, htrace, rfl⟩ := asyncCollect_trace hcopies happart hroots h hrun
  refine
    { forwarded_iff := fun w => htrace.mem_visited_iff
      kept := fun w data hreach hold => ?_
      once := fun v w u hv hw => htrace.injective hv hw
      nothing_else := fun ptr data hdata => ?_ }
  · obtain ⟨w', hw'⟩ := lookup_eq_some_of_mem (htrace.mem_visited_iff.mpr hreach)
    obtain ⟨_, _, _, _, hplaced⟩ := htrace.black hw'
    exact ⟨w', hw', hplaced.findSpace, htrace.lookup_swept.mpr ⟨w, hw', hold⟩⟩
  · obtain ⟨w, hw, hold⟩ := htrace.lookup_swept.mp hdata
    obtain ⟨_, _, _, _, hplaced⟩ := htrace.black hw
    exact ⟨hplaced.findSpace, w,
      htrace.mem_visited_iff.mp (AssocMap.mem_of_lookup hw), hw, hold⟩

/-! ### A heap with a pointer in it -/

/-- A root slot at 1024 holds an object of 40 bytes, whose first field holds one of 8 bytes. -/
def State.sample : State :=
  { ((State.initial fun _ => 0).allocated Config.sample 40 8 0).allocated Config.sample 8 8 0 with
    mem := writeFatPtr (writeFatPtr (fun _ => 0) 65536 (FatPtr.ofAddr 65576)) 1024
      (FatPtr.ofAddr 65536) }

theorem State.sample_accounted : Accounted Config.sample State.sample := by
  have height : SmallAlignment 8 := ⟨3, by decide, rfl⟩
  have hfirst : Accounted Config.sample ((State.initial fun _ => 0).allocated Config.sample 40 8 0) :=
    (Accounted.initial Config.sample fun _ => 0).allocated (by decide) height (by decide)
      (by decide) (by decide)
  have hnext : ((State.initial fun _ => 0).allocated Config.sample 40 8 0).nexts .zero = 40 :=
    State.allocated_nexts_self _ _ _ _ _
  refine (hfirst.allocated (by decide) height (by decide) ?_ ?_).with_mem _
  · rw [State.allocated_spaceNum]
    change 8 ∣ 65536 + (State.nexts _ .zero + 0)
    rw [hnext]
    decide
  · rw [State.allocated_spaceNum]
    change State.nexts _ .zero + 8 + 0 ≤ 4096
    rw [hnext]
    decide

theorem Config.sample_apart : SpacesApart Config.sample := Or.inl (by decide)

theorem RootApart.sample {slot : Nat} (h : slot ≤ 4096) : RootApart Config.sample slot := by
  have hbase : ∀ space, 4096 + gcPtrSize ≤ Config.sample.base space := by
    rintro (_ | _) <;> decide
  exact fun space => Or.inl ((Nat.add_le_add_right h _).trans (hbase space))

theorem RootApart.sample_roots : ∀ root ∈ [1024] ++ [], RootApart Config.sample root := by
  intro root hroot
  rw [List.mem_singleton.mp hroot]
  exact RootApart.sample (by decide)

theorem collection_keeps_sample :
    ∃ r t, (asyncCollect Config.sample GenPolicy.copying [1024] []).run State.sample = .ok r t ∧
      KeepsReachable [1024] Config.sample r.1 State.sample t := by
  obtain ⟨r, t, hrun, _⟩ :=
    State.sample_accounted.collect_total GenPolicy.copying_copies [1024] []
  exact ⟨r, t, hrun, collection_keeps_reachable GenPolicy.copying_copies Config.sample_apart
    RootApart.sample_roots State.sample_accounted.settled hrun⟩

/-! ### Interior pointers -/

/-- Every field of a copy that held an object holds the copy of that object. -/
def FieldsForwarded (m₀ : Memory) (old : AssocMap FatPtr MetaData) (visited : Visited) (m : Memory) :
    Prop :=
  ∀ v v' slot w, visited.lookup v = some v' → (objectGraph m₀ old []).field v slot →
    (objectGraph m₀ old []).target slot w →
    ∃ w', visited.lookup w = some w' ∧ testPtr m (v'.asPtr + (slot - v.asPtr)) = some w'

/-- The objects that the roots hold have no fields that hold objects. -/
def RootsHoldLeaves (m₀ : Memory) (old : AssocMap FatPtr MetaData) (roots : List Nat) : Prop :=
  ∀ root ∈ roots, ∀ v, (objectGraph m₀ old roots).target root v →
    ∀ slot w, (objectGraph m₀ old roots).field v slot → ¬ (objectGraph m₀ old roots).target slot w

theorem RootsHoldLeaves.leaf {m₀ : Memory} {old : AssocMap FatPtr MetaData} {roots : List Nat}
    (h : RootsHoldLeaves m₀ old roots) {v : FatPtr} (hreach : Reachable m₀ old roots v) :
    ∀ slot w, (objectGraph m₀ old roots).field v slot →
      ¬ (objectGraph m₀ old roots).target slot w := by
  induction hreach with
  | root hroot htarget => exact h _ hroot _ htarget
  | field _ hfield htarget ih => exact absurd htarget (ih _ _ hfield)

/-- A copy with such a field is stale. -/
theorem TraceInv.stale {old : AssocMap FatPtr MetaData} {toSpace : SpaceNum} {m₀ : Memory}
    {roots handled stack : List Nat} {visited : Visited}
    (h : TraceInv cfg old toSpace m₀ roots handled stack visited s) {v w : FatPtr} {slot : Nat}
    (hv : v ∈ visited) (hfield : (objectGraph m₀ old roots).field v slot)
    (htarget : (objectGraph m₀ old roots).target slot w) :
    ¬ FieldsForwarded m₀ old visited s.mem := by
  intro hforwarded
  obtain ⟨v', hv'⟩ := lookup_eq_some_of_mem hv
  obtain ⟨w', hw', hslot⟩ := hforwarded v v' slot w hv' hfield htarget
  rw [h.slot_of_copy hv' hfield, htarget.1] at hslot
  cases hslot
  obtain ⟨data, hold⟩ := lookup_eq_some_of_mem htarget.2
  exact findSpace_ne_flip (h.placed hw' hold).findSpace (h.settled.findSpace hold)

/-- **Interior pointers are forwarded only where there are none.** -/
theorem fieldsForwarded_iff (hcopies : policy.Copies) (happart : SpacesApart cfg)
    (hroots : ∀ root ∈ gcRoots ++ extraRoots, RootApart cfg root)
    (h : Settled cfg s.spaceNum s.metadata)
    (hrun : (asyncCollect cfg policy gcRoots extraRoots).run s = .ok r t) :
    FieldsForwarded s.mem s.metadata r.1 t.mem ↔
      RootsHoldLeaves s.mem s.metadata (gcRoots ++ extraRoots) := by
  obtain ⟨u, htrace, rfl⟩ := asyncCollect_trace hcopies happart hroots h hrun
  constructor
  · intro hforwarded root hroot v hv slot w hfield htarget
    refine htrace.stale ?_ hfield htarget hforwarded
    exact htrace.mem_visited_iff.mpr (.root hroot hv)
  · intro hleaves v v' slot w hvisited hfield htarget
    have hreach := htrace.mem_visited_iff.mp (AssocMap.mem_of_lookup hvisited)
    exact absurd htarget (hleaves.leaf hreach slot w hfield)

theorem fieldsForwarded_iff_sample :
    ∃ r t, (asyncCollect Config.sample GenPolicy.copying [1024] []).run State.sample = .ok r t ∧
      (FieldsForwarded State.sample.mem State.sample.metadata r.1 t.mem ↔
        RootsHoldLeaves State.sample.mem State.sample.metadata [1024]) := by
  obtain ⟨r, t, hrun, _⟩ :=
    State.sample_accounted.collect_total GenPolicy.copying_copies [1024] []
  exact ⟨r, t, hrun, fieldsForwarded_iff GenPolicy.copying_copies Config.sample_apart RootApart.sample_roots
    State.sample_accounted.settled hrun⟩

/-- The copy of the first object of the sample heap keeps the old address of the second. -/
theorem copy_of_sample_stale :
    ∃ r t, (asyncCollect Config.sample GenPolicy.copying [1024] []).run State.sample = .ok r t ∧
      ¬ FieldsForwarded State.sample.mem State.sample.metadata r.1 t.mem := by
  obtain ⟨r, t, hrun, _⟩ :=
    State.sample_accounted.collect_total GenPolicy.copying_copies [1024] []
  refine ⟨r, t, hrun, ?_⟩
  obtain ⟨u, htrace, rfl⟩ := asyncCollect_trace GenPolicy.copying_copies Config.sample_apart
    RootApart.sample_roots State.sample_accounted.settled hrun
  have hroot : testPtr State.sample.mem 1024 = some (FatPtr.ofAddr 65536) :=
    testPtr_writeFatPtr_self
  have hslot : testPtr State.sample.mem 65536 = some (FatPtr.ofAddr 65576) :=
    (testPtr_writeFatPtr_of_apart (by decide)).trans testPtr_writeFatPtr_self
  have hfirst : State.sample.metadata.lookup (FatPtr.ofAddr 65536) = some ⟨40, 8⟩ := by decide
  have hsecond : State.sample.metadata.lookup (FatPtr.ofAddr 65576) = some ⟨8, 8⟩ := by decide
  have hfield : (objectGraph State.sample.mem State.sample.metadata [1024]).field
      (FatPtr.ofAddr 65536) 65536 :=
    (field_iff State.sample_accounted.settled).mpr
      ⟨_, hfirst, by decide, by decide, by decide, maybePtr_of_testPtr hslot⟩
  refine htrace.stale ?_ hfield ⟨hslot, AssocMap.mem_of_lookup hsecond⟩
  exact htrace.mem_visited_iff.mpr
    (.root (List.mem_singleton_self 1024) ⟨hroot, AssocMap.mem_of_lookup hfirst⟩)

end Gcpp
