import Gcpp.RootedRun
import Gcpp.Proof.ManyCollectors
import Gcpp.Proof.GlobalRoots
import Gcpp.Proof.StackRanges

/-!
# From the stacks to the objects

The collector refines the object store with the roots that `get_roots` finds, as long as every slot
in use is a global root or lies in a range that its thread has reported. Whatever else on the stacks
looks like a slot is forwarded as well, and disturbs nothing.
-/

namespace Gcpp

open ByteMemory StateExcept ObjectStore

variable {cfg : Config} {policy : GenPolicy} {env : Surroundings cfg} {store : Store Nat UInt8}

/-! ### What is found -/

/-- The global roots lie outside of the blocks, and every range on its stack. -/
structure RootsSettled (env : Surroundings cfg) (roots : GCRoots) : Prop where
  globalsApart : ∀ slot ∈ roots.globalRoots, RootApart cfg slot
  onStack : ∀ t stackStart stackEnd, roots.stackRanges.lookup t = some (stackStart, stackEnd) →
    env.OnStack t stackStart stackEnd

theorem RootsSettled.update {roots : GCRoots} (h : RootsSettled env roots) {id : ThreadId}
    {basePtr sp : Nat} (hstack : env.OnStack id basePtr sp) :
    RootsSettled env
      { roots with stackRanges := updateStackRange roots.stackRanges id basePtr sp } where
  globalsApart := h.globalsApart
  onStack := by
    intro t stackStart stackEnd hrange
    dsimp only at hrange
    by_cases hid : t = id
    · subst hid
      cases hold : roots.stackRanges.lookup t with
      | none =>
          rw [lookup_updateStackRange_new hold] at hrange
          cases hrange
          exact hstack
      | some range =>
          rw [lookup_updateStackRange hold] at hrange
          cases hrange
          exact
            { redZone := hstack.redZone
              sp_le := hstack.sp_le.trans (le_max_right _ _)
              base_le := max_le (h.onStack t _ _ hold).base_le hstack.base_le }
    · rw [lookup_updateStackRange_of_ne hid] at hrange
      exact h.onStack t stackStart stackEnd hrange

theorem RootsSettled.rangesWithin {roots : GCRoots} (h : RootsSettled env roots) :
    RangesWithin roots.stackRanges := by
  intro t stackStart stackEnd hrange
  have hstack := h.onStack t stackStart stackEnd hrange
  have hred := hstack.redZone
  have hbase := hstack.base_le
  have hhi := env.hi_le t
  exact ⟨by omega, hstack.sp_le, by omega⟩

theorem RootsSettled.build {m : Memory} {roots : GCRoots}
    (hbuild : GCRoots.build m env.maps = some roots) : RootsSettled env roots := by
  obtain ⟨globals, hglobals, rfl⟩ := Option.map_eq_some_iff.mp hbuild
  exact
    { globalsApart := env.globalsApart m globals hglobals
      onStack := fun t stackStart stackEnd hrange => by cases hrange }

theorem RootsSettled.getInstance {gInstance : Option GCRoots} {m : Memory} {roots : GCRoots}
    (h : ∀ known, gInstance = some known → RootsSettled env known)
    (hinstance : getInstance gInstance m env.maps = some roots) : RootsSettled env roots := by
  cases gInstance with
  | none => exact .build hinstance
  | some known =>
      cases hinstance
      exact h roots rfl

/-- The scan of all ranges finds the slots of each. -/
theorem mem_locals {m : Memory} {ranges : StackRanges} {locals : List Nat} {slot : Nat}
    (hwithin : RangesWithin ranges) (hlocals : appendAll (scanLocals m ranges) ranges.keys =
      some locals) :
    slot ∈ locals ↔ ∃ t stackStart stackEnd, ranges.lookup t = some (stackStart, stackEnd) ∧
      SlotWithin m (stackEnd - redZoneSize) stackStart slot := by
  rw [mem_appendAll hlocals]
  constructor
  · rintro ⟨t, ht, found, hfound, hmem⟩
    obtain ⟨⟨stackStart, stackEnd⟩, hrange⟩ :=
      Option.isSome_iff_exists.mp (AList.lookup_isSome.mpr (AList.mem_keys.mpr ht))
    obtain ⟨found', hfound', _, hexact⟩ := scanLocals_exact m hwithin hrange
    rw [hfound] at hfound'
    cases hfound'
    exact ⟨t, stackStart, stackEnd, hrange, (hexact slot).mp hmem⟩
  · rintro ⟨t, stackStart, stackEnd, hrange, hslot⟩
    obtain ⟨found, hfound, _, hexact⟩ := scanLocals_exact m hwithin hrange
    exact ⟨t, AList.mem_keys.mp (AssocMap.mem_of_lookup hrange), found, hfound,
      (hexact slot).mpr hslot⟩

/-- What `get_roots` reports lies outside of the blocks, and every covered slot that holds a pointer
is among it. -/
theorem RootsSettled.getRoots {m : Memory} {roots found : GCRoots} {gcRoots : List Nat}
    {id : ThreadId} {basePtr sp : Nat} (h : RootsSettled env roots)
    (hstack : env.OnStack id basePtr sp)
    (hfound : Gcpp.getRoots m roots id basePtr sp = some (found, gcRoots)) :
    RootsSettled env found ∧ (∀ slot ∈ gcRoots, RootApart cfg slot) ∧
      ∀ slot, found.Covers slot → maybePtr m slot = true → slot ∈ gcRoots := by
  have hsize : gcPtrSize = 16 := rfl
  rw [Gcpp.getRoots] at hfound
  obtain ⟨locals, hlocals, hpair⟩ := Option.map_eq_some_iff.mp hfound
  cases hpair
  have hsettled := h.update hstack
  have hmem : ∀ slot, slot ∈ locals ↔ _ := fun slot =>
    mem_locals hsettled.rangesWithin hlocals
  refine ⟨hsettled, fun slot hslot => ?_, fun slot hcovers hmaybe => ?_⟩
  · rcases List.mem_append.mp hslot with hglobal | hlocal
    · exact h.globalsApart slot hglobal
    · obtain ⟨t, stackStart, stackEnd, hrange, _, hlo, hhi, _⟩ := (hmem slot).mp hlocal
      have hon := hsettled.onStack t stackStart stackEnd hrange
      have hred := hon.redZone
      have hbase := hon.base_le
      intro space
      have happart := env.stackApart t space
      omega
  · rcases hcovers with hglobal | ⟨hdvd, t, stackStart, stackEnd, hrange, hlo, hhi⟩
    · exact List.mem_append_left _ hglobal
    · exact List.mem_append_right _
        ((hmem slot).mpr ⟨t, stackStart, stackEnd, hrange, hdvd, hlo, hhi, hmaybe⟩)

theorem RootsSettled.getRoots_returns {roots : GCRoots} (h : RootsSettled env roots) (m : Memory)
    {id : ThreadId} {basePtr sp : Nat} (hstack : env.OnStack id basePtr sp) :
    ∃ gcRoots, Gcpp.getRoots m roots id basePtr sp =
      some ({ roots with stackRanges := updateStackRange roots.stackRanges id basePtr sp },
        gcRoots) := by
  have hwithin := (h.update hstack).rangesWithin
  obtain ⟨locals, hlocals⟩ : ∃ locals, appendAll
      (scanLocals m (updateStackRange roots.stackRanges id basePtr sp))
      (updateStackRange roots.stackRanges id basePtr sp).keys = some locals := by
    apply appendAll_returns
    intro t ht
    obtain ⟨⟨stackStart, stackEnd⟩, hrange⟩ :=
      Option.isSome_iff_exists.mp (AList.lookup_isSome.mpr (AList.mem_keys.mpr ht))
    obtain ⟨found, hfound, _⟩ := scanLocals_exact m hwithin hrange
    exact ⟨found, hfound⟩
  exact ⟨_, by rw [Gcpp.getRoots, hlocals, Option.map_some]⟩

/-! ### The steps -/

/-- The program simulates the store, and what is known of its roots is settled. -/
structure RootedSim (env : Surroundings cfg) (store : Store Nat UInt8) (p : Rooted) : Prop where
  simulates : ∃ addr, Simulates cfg store p.program addr
  settled : ∀ roots, p.gInstance = some roots → RootsSettled env roots

namespace RootedSim

variable {p q : Rooted}

theorem report (h : RootedSim env store p) {id : ThreadId} {basePtr sp : Nat}
    (hstack : env.OnStack id basePtr sp) (hreport : p.report env id basePtr sp = some q) :
    RootedSim env store q := by
  obtain ⟨roots, hinstance, hq⟩ := Option.bind_eq_some_iff.mp hreport
  cases hq
  refine { simulates := h.simulates, settled := fun roots' hroots' => ?_ }
  cases hroots'
  exact (RootsSettled.getInstance h.settled hinstance).update hstack

theorem getRoots_returns (h : RootedSim env store p) {known : GCRoots}
    (hknown : p.gInstance = some known) {id : ThreadId} {basePtr sp : Nat}
    (hstack : env.OnStack id basePtr sp) :
    ∃ gcRoots, p.getRoots env id basePtr sp = some
      ({ known with stackRanges := updateStackRange known.stackRanges id basePtr sp }, gcRoots) := by
  rw [Rooted.getRoots, hknown]
  exact (h.settled known hknown).getRoots_returns _ hstack

theorem elsewhere (h : RootedSim env store p) {mem : Memory}
    (hblocks : ∀ space x, cfg.base space ≤ x → x < cfg.base space + cfg.heapSize →
      mem x = p.program.heap.mem x)
    (hslots : ∀ slot ∈ p.program.roots, ∀ i < gcPtrSize,
      mem (slot + i) = p.program.heap.mem (slot + i)) :
    RootedSim env store
      { p with program := { p.program with heap := { p.program.heap with mem } } } := by
  obtain ⟨addr, hsim⟩ := h.simulates
  refine { simulates := ⟨addr, ?_⟩, settled := h.settled }
  refine hsim.transport hsim.numbered (fun r hr => ⟨hr, rfl⟩) (fun _ _ _ _ => ⟨rfl, rfl, rfl⟩)
    fun x hx => ?_
  rcases hx with ⟨space, hlo, hhi⟩ | ⟨r, hr, hlo, hhi⟩
  · exact hblocks space x hlo hhi
  · obtain ⟨i, rfl⟩ := Nat.exists_eq_add_of_le hlo
    exact hslots r hr i (by omega)

theorem collect (hcopies : policy.Copies) (happart : SpacesApart cfg)
    (h : RootedSim env store p) {id : ThreadId} {basePtr sp : Nat} {roots : GCRoots}
    {gcRoots : List Nat} {result : Visited × List FatPtr} {t : State}
    (hstack : env.OnStack id basePtr sp)
    (hfound : p.getRoots env id basePtr sp = some (roots, gcRoots))
    (hcovered : ∀ slot ∈ p.program.roots, roots.Covers slot)
    (hrun : (asyncCollect cfg policy gcRoots []).run p.program.heap = .ok result t) :
    RootedSim env store { program := { p.program with heap := t }, gInstance := some roots } := by
  obtain ⟨addr, hsim⟩ := h.simulates
  obtain ⟨known, hinstance, hget⟩ := Option.bind_eq_some_iff.mp hfound
  obtain ⟨hsettled, hapart, hmem⟩ :=
    (RootsSettled.getInstance h.settled hinstance).getRoots hstack hget
  have hholds : ∀ slot ∈ p.program.roots, maybePtr p.program.heap.mem slot = true := by
    intro slot hslot
    cases ho : store.root slot with
    | none => exact maybePtr_of_testPtr (hsim.null slot hslot ho)
    | some o => exact maybePtr_of_testPtr (hsim.held slot hslot o ho).1
  have hroots : ∀ slot ∈ p.program.roots, slot ∈ gcRoots ++ [] := fun slot hslot =>
    List.mem_append_left _ (hmem slot (hcovered slot hslot) (hholds slot hslot))
  have hall : ∀ slot ∈ gcRoots ++ [], RootApart cfg slot := by
    rw [List.append_nil]
    exact hapart
  refine { simulates := ⟨_, hsim.collect hcopies happart hroots hall hrun⟩, settled := ?_ }
  intro roots' hroots'
  cases hroots'
  exact hsettled

/-- **A step is what its events do to the store.** -/
theorem step (hcopies : policy.Copies) (happart : SpacesApart cfg) (h : RootedSim env store p)
    {events : List RootEvent} (hstep : RootedStep env policy p events q) :
    RootedSim env (events.foldl Store.apply store) q := by
  cases hstep with
  | report _ id basePtr sp hstack hreport => exact h.report hstack hreport
  | elsewhere mem hblocks hslots => exact h.elsewhere hblocks hslots
  | program e q hcollect hstep =>
      obtain ⟨addr, hsim⟩ := h.simulates
      exact { simulates := hsim.step hcopies happart hstep, settled := h.settled }
  | collect id basePtr sp roots gcRoots result t hstack hfound hcovered hrun =>
      obtain ⟨⟨addr, hsim⟩, hsettled⟩ := h.collect hcopies happart hstack hfound hcovered hrun
      exact { simulates := ⟨addr, hsim⟩, settled := hsettled }

end RootedSim

theorem RootedRun.simulates (hcopies : policy.Copies) (happart : SpacesApart cfg) {p : Rooted}
    {events : List RootEvent} (hrun : RootedRun env policy events p) :
    RootedSim env (Store.after events) p := by
  induction hrun with
  | start mem =>
      exact
        { simulates := ⟨_, Simulates.initial cfg mem⟩
          settled := fun roots hroots => by cases hroots }
  | step _ hstep ih =>
      rw [Store.after, List.foldl_append, ← Store.after]
      exact ih.step hcopies happart hstep

/-- **From the stacks to the objects.** However the threads have reported their stacks, and whatever
the rest of the process has written: as long as every collection finds each slot in use among the
global roots or in a reported range, the slots designate what they designate in the store and show
the bytes last written. -/
theorem rooted_collector_refines_store (hcopies : policy.Copies) (happart : SpacesApart cfg)
    {p : Rooted} {events : List RootEvent} (hrun : RootedRun env policy events p) :
    Faithful (Store.after events) p.program := by
  obtain ⟨addr, h⟩ := (hrun.simulates hcopies happart).simulates
  exact h.faithful

/-- A process of one thread and no mapped files. -/
def Surroundings.sample : Surroundings Config.sample where
  maps := []
  lo := fun t => if t = 0 then 1024 else 0
  hi := fun t => if t = 0 then 8192 else 0
  hi_le := fun t => by split <;> decide
  stackApart := fun t space => Or.inl (by split <;> cases space <;> decide)
  globalsApart := fun m globals hglobals slot hslot => by
    cases hglobals
    cases hslot

/-- A thread reports its stack, allocates into a slot of it, writes to the object, and collects. -/
theorem rooted_collector_refines_store_sample :
    ∃ p, RootedRun Surroundings.sample .copying [.alloc 2048 64, .write 2048 3 7, .collect] p ∧
      Faithful (Store.after [.alloc 2048 64, .write 2048 3 7, .collect]) p.program := by
  have height : SmallAlignment 8 := ⟨3, by decide, rfl⟩
  have hstack : ∀ sp, 1152 ≤ sp → sp ≤ 4096 → Surroundings.sample.OnStack 0 4096 sp :=
    fun sp hlo hhi => { redZone := hlo, sp_le := hhi, base_le := by decide }
  have hempty : calcAlignmentBytes (Config.sample.base .zero + 0) 8 = some 0 :=
    calcAlignmentBytes_of_dvd height (by decide)
  have halloc := run_alloc_of_fits (HeapInv.initial Config.sample fun _ => 0) .copying []
    (show 0 < 64 by decide) (by decide) hempty (by decide)
  have hreported : RootedRun Surroundings.sample .copying [] _ :=
    .step (.start fun _ => 0) (.report _ _ 0 4096 2000 (hstack _ (by decide) (by decide)) rfl)
  have hallocated : RootedRun Surroundings.sample .copying [.alloc 2048 64] _ :=
    .step hreported (.program _ _ _ nofun (.alloc _ [] 64 8 2048 _ _ height
      { apart := .sample (by decide), disjoint := fun r hr => by cases hr } halloc))
  have hwritten : RootedRun Surroundings.sample .copying [.alloc 2048 64, .write 2048 3 7] _ :=
    .step hallocated (.program _ _ _ nofun (.write _ 2048 3 7 (FatPtr.ofAddr 65536) ⟨64, 8⟩
      (by decide) (atomicLoad_of_testPtr testPtr_writeFatPtr_self) (by decide +kernel)
      (by decide)))
  have haccounted : Accounted Config.sample
      ((State.initial fun _ => 0).allocated Config.sample 64 8 0) :=
    (Accounted.initial Config.sample fun _ => 0).allocated (by decide) height (by decide)
      (by decide) (by decide)
  obtain ⟨gcRoots, hfound⟩ :=
    (hwritten.simulates GenPolicy.copying_copies Config.sample_apart).getRoots_returns rfl
      (hstack 1900 (by decide) (by decide))
  obtain ⟨r, t, hrun, _⟩ := (haccounted.with_mem _).collect_total
    GenPolicy.copying_copies gcRoots []
  have hcovered : ∀ slot ∈ [2048], GCRoots.Covers
      { globalRoots := []
        stackRanges := updateStackRange (updateStackRange ∅ 0 4096 2000) 0 4096 1900 } slot := by
    intro slot hslot
    rw [List.mem_singleton.mp hslot]
    exact Or.inr ⟨by decide, 0, 4096, 1900, by decide, by decide, by decide⟩
  have hcollected : RootedRun Surroundings.sample .copying
      ([.alloc 2048 64, .write 2048 3 7] ++ [.collect]) _ :=
    .step hwritten (.collect _ 0 4096 1900 _ gcRoots r t (hstack _ (by decide) (by decide))
      hfound hcovered hrun)
  exact ⟨_, hcollected,
    rooted_collector_refines_store GenPolicy.copying_copies Config.sample_apart hcollected⟩

end Gcpp
