import Gcpp.Proof.Frames
import Gcpp.Proof.Evacuation

/-!
# What a collection leaves alone

Outside of its own blocks a collector writes to the root slots that hold pointers into them, and to
nothing else. This holds for every policy, however much the roots repeat, and also for a collection
that ends with an exception.
-/

namespace Gcpp

open ByteMemory StateExcept

variable {cfg : Config} {policy : GenPolicy} {alone : Nat → Prop} {toSpace : SpaceNum}
  {visited : Visited} {s : State}

/-- Every object ends inside of its block. -/
def Contained (cfg : Config) (s : State) : Prop :=
  ∀ ptr data space, s.metadata.lookup ptr = some data → findSpace cfg ptr.asPtr = some space →
    ptr.asPtr + data.size ≤ cfg.base space + cfg.heapSize

/-- The address lies outside of both blocks and of the 8 bytes behind them, which a copy may reach
into. -/
def Outside (cfg : Config) (x : Nat) : Prop :=
  ∀ space, x < cfg.base space ∨ cfg.base space + cfg.heapSize + 8 ≤ x

/-- The bytes that are to be left alone keep their values. -/
def LeavesAlone (cfg : Config) (alone : Nat → Prop) (s t : State) : Prop :=
  Contained cfg s → Contained cfg t ∧ ∀ x, alone x → t.mem x = s.mem x

instance : Std.Refl (LeavesAlone cfg alone) where
  refl _ hcontained := ⟨hcontained, fun _ _ => rfl⟩

instance : IsTrans State (LeavesAlone cfg alone) where
  trans _ _ _ hfirst hsecond hcontained := by
    obtain ⟨hmid, hbefore⟩ := hfirst hcontained
    obtain ⟨hlast, hafter⟩ := hsecond hmid
    exact ⟨hlast, fun x hx => (hafter x hx).trans (hbefore x hx)⟩

theorem LeavesAlone.of_metadata {t : State} (hmem : t.mem = s.mem)
    (hmetadata : ∀ ptr data, t.metadata.lookup ptr = some data →
      s.metadata.lookup ptr = some data) : LeavesAlone cfg alone s t := by
  intro hcontained
  refine ⟨fun ptr data space hdata => hcontained ptr data space (hmetadata ptr data hdata), ?_⟩
  intro x _
  rw [hmem]

theorem LeavesAlone.of_mem {mem : Memory} (hmem : ∀ x, alone x → mem x = s.mem x) :
    LeavesAlone cfg alone s { s with mem } := fun hcontained => ⟨hcontained, hmem⟩

/-! ### One object -/

/-- No byte that is to be left alone lies in the address word of the slot. -/
def SlotFree (alone : Nat → Prop) (p : Nat) : Prop := ∀ x, alone x → x < p + 8 ∨ p + 16 ≤ x

theorem leavesAlone_compareExchange {p : Nat} (hp : SlotFree alone p) (expected desired : FatPtr) :
    LeavesAlone cfg alone s { s with mem := (compareExchange s.mem p expected desired).2 } := by
  apply LeavesAlone.of_mem
  intro x hx
  have hagree : AgreeOn (compareExchange s.mem p expected desired).2 s.mem x 1 :=
    agreeOn_compareExchange (by have := hp x hx; omega)
  have hbyte := hagree 0 Nat.one_pos
  rwa [Nat.add_zero] at hbyte

theorem leavesAlone_allocNoConstraints (toSpace : SpaceNum) (data : MetaData) (index : Nat) :
    Frames (LeavesAlone cfg alone) (allocNoConstraints cfg toSpace data index) := by
  intro s
  rw [run_allocNoConstraints]
  split
  · exact refl_of _ s
  · rename_i hroom
    intro hcontained
    refine ⟨fun ptr other space hother hspace => ?_, fun _ _ => rfl⟩
    rcases AssocMap.of_lookup_emplace hother with ⟨rfl, rfl⟩ | hold
    · rw [findSpace_ofAddr_base toSpace (by omega), Option.some_inj] at hspace
      rw [asPtr_ofAddr_base toSpace (by omega), ← hspace]
      omega
    · exact hcontained ptr other space hold hspace

theorem leavesAlone_copy {p : Nat} (halone : ∀ x, alone x → Outside cfg x)
    (hp : SlotFree alone p) (toSpace : SpaceNum) (ptr : FatPtr) :
    Frames (LeavesAlone cfg alone) (copy cfg p toSpace ptr) := by
  refine Frames.bind (frames_getSpaceNum ptr) fun space => ?_
  split
  · exact Frames.pure _
  refine Frames.bind (frames_metadataAt ptr) fun oldData => ?_
  refine Frames.bind (frames_reserveSpace (fun s _ _ => .of_metadata rfl fun _ _ => id) _ _ _)
    fun index => ?_
  refine Frames.bind (frames_checkOverlappingAlloc index toSpace oldData.size) fun _ => ?_
  cases index with
  | none => exact Frames.throw _
  | some index =>
      refine Frames.bind_of_run (leavesAlone_allocNoConstraints toSpace oldData index) ?_
      intro u newObj v hrun
      rw [run_allocNoConstraints] at hrun
      split at hrun
      · cases hrun
      · rename_i hroom
        cases hrun
        refine Frames.bind (Frames.modify fun w => ?_) (fun _ => ?_) _
        · -- the last move ends less than 8 bytes behind the copy
          apply LeavesAlone.of_mem
          intro x hx
          have hout := halone x hx toSpace
          rw [asPtr_ofAddr_base toSpace (by omega)]
          exact seqCstCpy_outside (by omega)
        · refine Frames.bind (Frames.modify fun w => leavesAlone_compareExchange hp _ _) fun _ => ?_
          refine Frames.bind (Frames.modify fun w => ?_) fun _ => Frames.pure _
          exact .of_metadata rfl fun q data hdata => (AssocMap.of_lookup_erase hdata).2

/-! ### The traversal -/

/-- A slot inside of one of the blocks. -/
def InBlocks (cfg : Config) (p : Nat) : Prop :=
  ∃ space, cfg.base space ≤ p ∧ p + 16 ≤ cfg.base space + cfg.heapSize

theorem InBlocks.slotFree {p : Nat} (h : InBlocks cfg p) (halone : ∀ x, alone x → Outside cfg x) :
    SlotFree alone p := by
  obtain ⟨space, hlo, hhi⟩ := h
  intro x hx
  have hout := halone x hx space
  omega

/-- A scan of an object finds slots of the block that it lies in. -/
theorem within_of_scan (hcontained : Contained cfg s) {ptr : FatPtr} {data : MetaData}
    {space : SpaceNum} {slots : List Nat} (hdata : s.metadata.lookup ptr = some data)
    (hspace : findSpace cfg ptr.asPtr = some space)
    (hscan : scanMemory s.mem ptr.asPtr (ptr.asPtr + data.size) = some slots) :
    ∀ q ∈ slots, InBlocks cfg q := by
  intro q hq
  have hend := hcontained ptr data space hdata hspace
  have hlo := (findSpace_eq_some_iff.mp hspace).1
  have hblock := cfg.block_lt space
  obtain ⟨_, hge, hlt, _⟩ := (mem_of_scanMemory hscan (by omega) (by omega)).mp hq
  exact ⟨space, by omega, by omega⟩

/-- **One round**: it leaves the bytes alone, and what it adds to the stack are slots inside of the
blocks. -/
theorem forwardIter_frame (policy : GenPolicy) (toSpace : SpaceNum) (visited : Visited)
    (halone : ∀ x, alone x → Outside cfg x) {p : Nat} (hp : SlotFree alone p)
    (hcontained : Contained cfg s) (stack : List Nat) :
    LeavesAlone cfg alone s
        (finalState ((forwardIter cfg policy toSpace p stack visited).run s)) ∧
      ∀ r t, (forwardIter cfg policy toSpace p stack visited).run s = .ok r t →
        ∀ q ∈ r.1, q ∈ stack ∨ InBlocks cfg q := by
  cases forwardIter_round cfg policy toSpace p stack visited s with
  | empty _ hresult | unmanaged _ _ _ _ hresult | moved _ _ _ _ _ _ hresult =>
      rw [hresult]
      refine ⟨refl_of _ s, fun r t hrun q hq => ?_⟩
      cases hrun
      exact Or.inl hq
  | update v v' _ _ hresult =>
      rw [hresult]
      refine ⟨leavesAlone_compareExchange hp v v', fun r t hrun q hq => ?_⟩
      cases hrun
      exact Or.inl hq
  | outside _ _ _ _ _ hresult | endless _ _ _ _ hresult =>
      rw [hresult]
      exact ⟨refl_of _ s, nofun⟩
  | found v data space slots _ _ hdata hspace _ hscan hresult =>
      rw [hresult]
      have hnew : Frames (LeavesAlone cfg alone)
          (if policy.needPromotion v then copy cfg p toSpace v
            else pure (policy.promote v data)) := by
        split
        · exact leavesAlone_copy halone hp toSpace v
        · exact Frames.pure _
      refine ⟨Frames.bind hnew (fun _ => Frames.pure _) s, fun r t hrun q hq => ?_⟩
      obtain ⟨_, _, _, hrest⟩ := run_bind_eq_ok.mp hrun
      cases hrest
      rcases List.mem_append.mp hq with hq | hq
      · exact Or.inr (within_of_scan hcontained hdata hspace hscan q (List.mem_reverse.mp hq))
      · exact Or.inl hq

theorem forwardLoop_frame (halone : ∀ x, alone x → Outside cfg x) (rounds : Nat) :
    ∀ (stack : List Nat) (visited : Visited) (s : State), (∀ p ∈ stack, SlotFree alone p) →
      LeavesAlone cfg alone s
        (finalState ((forwardLoop cfg policy toSpace rounds stack visited).run s)) := by
  induction rounds with
  | zero =>
      intro stack visited s _
      cases stack <;> exact refl_of _ s
  | succ rounds ih =>
      intro stack visited s hstack
      cases stack with
      | nil => exact refl_of _ s
      | cons p stack =>
          intro hcontained
          obtain ⟨hfirst, hslots⟩ := forwardIter_frame policy toSpace visited halone
            (hstack p List.mem_cons_self) hcontained stack
          rw [forwardLoop, EStateM.run_bind]
          cases hrun : (forwardIter cfg policy toSpace p stack visited).run s with
          | error e t =>
              rw [hrun] at hfirst
              exact hfirst hcontained
          | ok r t =>
              rw [hrun] at hfirst
              have hrest : ∀ q ∈ r.1, SlotFree alone q := by
                intro q hq
                rcases hslots r t hrun q hq with hq | hwithin
                · exact hstack q (List.mem_cons_of_mem p hq)
                · exact hwithin.slotFree halone
              exact trans_of (LeavesAlone cfg alone) hfirst (ih r.1 r.2 t hrest) hcontained

/-- A root slot that holds no pointer into the blocks, and is to be left alone itself. -/
def Passive (cfg : Config) (alone : Nat → Prop) (mem : Memory) (root : Nat) : Prop :=
  (∀ i < 16, alone (root + i)) ∧
    ∀ ptr, testPtr mem root = some ptr → contains cfg ptr.asPtr = false

theorem Passive.keep {m m' : Memory} {root : Nat} (h : Passive cfg alone m root)
    (hmem : ∀ x, alone x → m' x = m x) : Passive cfg alone m' root := by
  refine ⟨h.1, fun ptr hptr => h.2 ptr ?_⟩
  rw [← hptr]
  exact testPtr_of_bytes fun i hi => (hmem _ (h.1 i hi)).symm

theorem forwardRoots_frame (halone : ∀ x, alone x → Outside cfg x) (roots : List Nat) :
    ∀ (visited : Visited) (s : State),
      (∀ root ∈ roots, SlotFree alone root ∨ Passive cfg alone s.mem root) →
      LeavesAlone cfg alone s
        (finalState ((forwardRoots cfg policy toSpace roots visited).run s)) := by
  induction roots with
  | nil => exact fun visited s _ => refl_of _ s
  | cons root roots ih =>
      intro visited s hroots hcontained
      obtain ⟨hroot, hrest⟩ := List.forall_mem_cons.mp hroots
      rcases held_or_not cfg s.mem root with ⟨ptr, hslot, hcontains⟩ | hnone
      · have hfree : SlotFree alone root := by
          refine hroot.resolve_right fun hpassive => ?_
          rw [hpassive.2 ptr hslot] at hcontains
          cases hcontains
        have hfirst : LeavesAlone cfg alone s
            (finalState ((forwardPtr cfg policy toSpace root visited).run s)) :=
          forwardLoop_frame halone _ [root] visited s (by
            intro p hp
            rwa [List.mem_singleton.mp hp])
        rw [run_forwardRoots_of_held hslot hcontains, EStateM.run_bind]
        cases hrun : (forwardPtr cfg policy toSpace root visited).run s with
        | error e t =>
            rw [hrun] at hfirst
            exact hfirst hcontained
        | ok visited' t =>
            rw [hrun] at hfirst
            have hpassed := (hfirst hcontained).2
            refine trans_of (LeavesAlone cfg alone) hfirst (ih visited' t fun q hq => ?_) hcontained
            exact (hrest q hq).imp_right fun hpassive => hpassive.keep hpassed
      · rw [run_forwardRoots_of_not_held hnone]
        exact ih visited s hrest hcontained

/-! ### The collection -/

theorem leavesAlone_sweep (toSpace : SpaceNum) (visited : Visited) :
    Frames (LeavesAlone cfg alone) (sweep cfg toSpace visited) := by
  apply Frames.get_bind
  intro s
  refine Frames.bind (frames_sweepKeys toSpace visited s.metadata.keys) (fun keys => ?_) s
  refine Frames.modify fun t => .of_metadata rfl fun ptr data hdata => ?_
  rw [AssocMap.lookup_eraseAll] at hdata
  split at hdata
  · cases hdata
  · exact hdata

/-- **A collection is confined** to the blocks of its collector and to the root slots that hold
pointers into them, whether it completes or throws. -/
theorem asyncCollect_frame (halone : ∀ x, alone x → Outside cfg x) {gcRoots extraRoots : List Nat}
    (hroots : ∀ root ∈ gcRoots ++ extraRoots, SlotFree alone root ∨ Passive cfg alone s.mem root) :
    LeavesAlone cfg alone s
      (finalState ((asyncCollect cfg policy gcRoots extraRoots).run s)) := by
  have hflip : LeavesAlone cfg alone s (flipSpaces s) := .of_metadata rfl fun _ _ => id
  refine trans_of (LeavesAlone cfg alone) hflip ?_
  rw [run_asyncCollect, collectionTask]
  have hforward : LeavesAlone cfg alone (flipSpaces s) (finalState
      ((forwardRoots cfg policy s.spaceNum.flip (gcRoots ++ extraRoots) ∅).run (flipSpaces s))) :=
    forwardRoots_frame halone _ ∅ (flipSpaces s) hroots
  rw [EStateM.run_bind]
  cases hrun : (forwardRoots cfg policy s.spaceNum.flip (gcRoots ++ extraRoots) ∅).run
      (flipSpaces s) with
  | error e t =>
      rw [hrun] at hforward
      exact hforward
  | ok visited t =>
      rw [hrun] at hforward
      exact trans_of (LeavesAlone cfg alone) hforward
        (Frames.bind (leavesAlone_sweep _ _) (fun _ => Frames.pure _) t)

end Gcpp
