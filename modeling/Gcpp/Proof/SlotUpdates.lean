import Gcpp.Lib.Keyed
import Gcpp.Proof.Trace

/-!
# Updates of pointer slots

Whatever the memory holds, the slots in it are a map from addresses to pointers, and an update of
one slot changes the map at one address. So the updates neither make slots nor destroy them, and
between different slots their order does not matter. What `forward_ptr` does to the slots is such
updates, one a round.
-/

namespace Gcpp

open ByteMemory StateExcept

/-! ### Operations -/

/-- The two ways to update a slot. -/
inductive SlotOp where
  | atomicUpdate (slot : Nat) (other : FatPtr)
  | compareExchange (slot : Nat) (expected desired : FatPtr)
deriving DecidableEq

namespace SlotOp

def slot : SlotOp → Nat
  | .atomicUpdate slot _ => slot
  | .compareExchange slot _ _ => slot

def apply (m : Memory) : SlotOp → Memory
  | .atomicUpdate slot other => Gcpp.atomicUpdate m slot other
  | .compareExchange slot expected desired => (Gcpp.compareExchange m slot expected desired).2

def run (ops : List SlotOp) (m : Memory) : Memory := ops.foldl apply m

/-- What the operation makes of the pointer in its slot. -/
def change : SlotOp → Option FatPtr → Option FatPtr
  | .atomicUpdate _ other, held => held.map fun _ => other
  | .compareExchange _ expected desired, held =>
      held.map fun value => if value = expected then desired else value

def keyed (op : SlotOp) : Keyed.Op Nat (Option FatPtr) := { key := op.slot, change := op.change }

variable {m : Memory} {op : SlotOp} {ops ops' : List SlotOp} {a x : Nat}

theorem isSome_change (op : SlotOp) (held : Option FatPtr) :
    (op.change held).isSome = held.isSome := by
  cases op <;> exact Option.isSome_map ..

/-- At a slot, an operation leaves the memory alone or retargets the slot. -/
theorem apply_cases (h : maybePtr m op.slot = true) :
    (op.apply m = m ∧ op.change (testPtr m op.slot) = testPtr m op.slot) ∨
      ∃ value, op.apply m = Gcpp.atomicUpdate m op.slot value ∧
        op.change (testPtr m op.slot) = some value := by
  obtain ⟨held, hheld⟩ := exists_testPtr h
  rw [hheld]
  cases op with
  | atomicUpdate slot other => exact Or.inr ⟨other, rfl, rfl⟩
  | compareExchange slot expected desired =>
      have hslot : testPtr m slot = some held := hheld
      rw [change, Option.map_some]
      by_cases heq : held = expected
      · rw [if_pos heq]
        rw [heq] at hslot
        refine Or.inr ⟨desired, ?_, rfl⟩
        rw [apply, compareExchange_of_testPtr hslot, SlotOp.slot]
      · rw [if_neg heq]
        refine Or.inl ⟨?_, rfl⟩
        rw [apply, compareExchange_of_ne hslot heq]

theorem testPtr_apply_self (h : maybePtr m op.slot = true) :
    testPtr (op.apply m) op.slot = op.change (testPtr m op.slot) := by
  rcases apply_cases h with ⟨hmem, hheld⟩ | ⟨value, hmem, hheld⟩
  · rw [hmem, hheld]
  · rw [hmem, hheld, testPtr_atomicUpdate_self h]

theorem testPtr_apply_of_ne (h : maybePtr m op.slot = true) (hne : a ≠ op.slot) :
    testPtr (op.apply m) a = testPtr m a := by
  rcases apply_cases h with ⟨hmem, _⟩ | ⟨value, hmem, _⟩
  · rw [hmem]
  · rw [hmem, testPtr_atomicUpdate_of_ne h hne]

/-- **An operation on a slot changes the map of the slots at one address.** -/
theorem testPtr_apply (h : maybePtr m op.slot = true) :
    testPtr (op.apply m) = Keyed.apply (testPtr m) op.keyed := by
  funext b
  by_cases hb : b = op.slot
  · rw [hb, testPtr_apply_self h]
    exact (Keyed.apply_self (testPtr m) op.keyed).symm
  · rw [testPtr_apply_of_ne h hb]
    exact (Keyed.apply_of_ne (testPtr m) hb).symm

theorem maybePtr_apply (h : maybePtr m op.slot = true) (a : Nat) :
    maybePtr (op.apply m) a = maybePtr m a := by
  rw [maybePtr_eq_isSome, maybePtr_eq_isSome]
  by_cases ha : a = op.slot
  · rw [ha, testPtr_apply_self h, isSome_change]
  · rw [testPtr_apply_of_ne h ha]

theorem apply_outside (m : Memory) (h : x < op.slot + 8 ∨ op.slot + 16 ≤ x) :
    op.apply m x = m x := by
  cases op with
  | atomicUpdate slot other => exact store_outside h
  | compareExchange slot expected desired =>
      rw [apply, Gcpp.compareExchange]
      split
      · exact store_outside h
      · rfl

/-! ### Runs -/

/-- **The slots are a store of single keys.** -/
theorem testPtr_run (ops : List SlotOp) :
    ∀ m, (∀ op ∈ ops, maybePtr m op.slot = true) →
      testPtr (run ops m) = Keyed.run (ops.map keyed) (testPtr m) := by
  induction ops with
  | nil =>
      intro m _
      rw [run, List.foldl_nil, List.map_nil, Keyed.run, List.foldl_nil]
  | cons op ops ih =>
      intro m hslots
      have hslot := hslots op List.mem_cons_self
      have hrest : ∀ other ∈ ops, maybePtr (op.apply m) other.slot = true := by
        intro other hother
        rw [maybePtr_apply hslot]
        exact hslots other (List.mem_cons_of_mem _ hother)
      rw [run, List.foldl_cons, ← run, ih _ hrest, testPtr_apply hslot, List.map_cons, Keyed.run,
        Keyed.run, List.foldl_cons]

theorem maybePtr_run (hslots : ∀ op ∈ ops, maybePtr m op.slot = true) (a : Nat) :
    maybePtr (run ops m) a = maybePtr m a := by
  rw [maybePtr_eq_isSome, maybePtr_eq_isSome, testPtr_run ops m hslots,
    Keyed.run_invariant Option.isSome]
  intro op hop value
  obtain ⟨slotOp, _, rfl⟩ := List.mem_map.mp hop
  exact isSome_change slotOp value

theorem testPtr_run_of_ne (hslots : ∀ op ∈ ops, maybePtr m op.slot = true)
    (h : ∀ op ∈ ops, op.slot ≠ a) : testPtr (run ops m) a = testPtr m a := by
  rw [testPtr_run ops m hslots]
  apply Keyed.run_of_ne
  intro op hop
  obtain ⟨slotOp, hslotOp, rfl⟩ := List.mem_map.mp hop
  exact h slotOp hslotOp

theorem run_outside (ops : List SlotOp) :
    ∀ m, (∀ op ∈ ops, x < op.slot + 8 ∨ op.slot + 16 ≤ x) → run ops m x = m x := by
  induction ops with
  | nil => exact fun m _ => rfl
  | cons op ops ih =>
      intro m hout
      have hrest : ∀ other ∈ ops, x < other.slot + 8 ∨ other.slot + 16 ≤ x :=
        fun other hother => hout other (List.mem_cons_of_mem _ hother)
      rw [run, List.foldl_cons, ← run, ih _ hrest]
      exact apply_outside m (hout op List.mem_cons_self)

/-- The operations on one slot, in order. -/
def opsAt (ops : List SlotOp) (a : Nat) : List SlotOp := ops.filter fun op => op.slot = a

theorem opsAt_keyed (ops : List SlotOp) (a : Nat) :
    Keyed.opsAt (ops.map keyed) a = (opsAt ops a).map keyed := by
  rw [Keyed.opsAt, opsAt, List.filter_map]
  rfl

/-- What a slot holds in the end depends on the operations on it and on no other. -/
theorem testPtr_run_eq (hslots : ∀ op ∈ ops, maybePtr m op.slot = true) (a : Nat) :
    testPtr (run ops m) a =
      (opsAt ops a).foldl (fun held op => op.change held) (testPtr m a) := by
  rw [testPtr_run ops m hslots, Keyed.run_apply, opsAt_keyed, List.foldl_map]
  rfl

/-- **The order between different slots does not matter**, down to the last byte. -/
theorem run_congr (hslots : ∀ op ∈ ops, maybePtr m op.slot = true)
    (h : ∀ a, opsAt ops' a = opsAt ops a) : run ops' m = run ops m := by
  have hmem : ∀ op, op ∈ ops' ↔ op ∈ ops := by
    intro op
    have hop := congrArg (op ∈ ·) (h op.slot)
    simpa [opsAt] using hop
  have hslots' : ∀ op ∈ ops', maybePtr m op.slot = true :=
    fun op hop => hslots op ((hmem op).mp hop)
  have hheld : testPtr (run ops' m) = testPtr (run ops m) := by
    rw [testPtr_run ops' m hslots', testPtr_run ops m hslots]
    apply Keyed.run_congr
    intro a
    rw [opsAt_keyed, opsAt_keyed, h]
  funext x
  by_cases hinside : ∃ op ∈ ops, op.slot + 8 ≤ x ∧ x < op.slot + 16
  · -- the byte belongs to the address word of a slot, which is the same after both
    obtain ⟨op, hop, hlo, hhi⟩ := hinside
    have hslot : maybePtr (run ops m) op.slot = true := by
      rw [maybePtr_run hslots]
      exact hslots op hop
    obtain ⟨value, hvalue⟩ := exists_testPtr hslot
    have hvalue' : testPtr (run ops' m) op.slot = some value := by
      rw [hheld, hvalue]
    have hbyte := toNat_eq_load_div (run ops m) (op.slot + 8) (show x - (op.slot + 8) < 8 by omega)
    have hbyte' := toNat_eq_load_div (run ops' m) (op.slot + 8)
      (show x - (op.slot + 8) < 8 by omega)
    rw [← load64, (testPtr_eq_some_iff.mp hvalue).2, Nat.add_sub_cancel' hlo] at hbyte
    rw [← load64, (testPtr_eq_some_iff.mp hvalue').2, Nat.add_sub_cancel' hlo] at hbyte'
    exact UInt8.toNat_inj.mp (hbyte'.trans hbyte.symm)
  · have hout : ∀ op ∈ ops, x < op.slot + 8 ∨ op.slot + 16 ≤ x := by
      intro op hop
      by_contra hclose
      exact hinside ⟨op, hop, by omega, by omega⟩
    rw [run_outside ops m hout, run_outside ops' m fun op hop => hout op ((hmem op).mp hop)]

end SlotOp

/-! ### The updates of `forward_ptr` -/

variable {cfg : Config} {policy : GenPolicy} {toSpace : SpaceNum} {visited : Visited} {s : State}
  {stack stack' : List Nat} {p : Nat} {m : Memory}

/-- What `forward_ptr` does to a slot whose object has been visited. -/
def forwardOp (visited : Visited) (m : Memory) (p : Nat) : Option SlotOp :=
  (testPtr m p).bind fun v =>
    (visited.lookup v).map fun forwarded => .compareExchange p v forwarded

def forwardOps (visited : Visited) (m : Memory) (stack : List Nat) : List SlotOp :=
  stack.filterMap (forwardOp visited m)

/-- If the slot holds a pointer, then to a visited object, to none, or into the to space. -/
def NothingNew (cfg : Config) (toSpace : SpaceNum) (visited : Visited) (s : State) (p : Nat) :
    Prop :=
  ∀ v, testPtr s.mem p = some v → visited.lookup v ≠ none ∨ s.metadata.lookup v = none ∨
    findSpace cfg v.asPtr = some toSpace

theorem forwardOp_slot {op : SlotOp} (h : forwardOp visited m p = some op) :
    op.slot = p ∧ maybePtr m p = true := by
  obtain ⟨v, hv, hop⟩ := Option.bind_eq_some_iff.mp h
  obtain ⟨forwarded, _, rfl⟩ := Option.map_eq_some_iff.mp hop
  exact ⟨rfl, maybePtr_of_testPtr hv⟩

theorem forwardOps_slots {op : SlotOp} (h : op ∈ forwardOps visited m stack) :
    op.slot ∈ stack ∧ maybePtr m op.slot = true := by
  obtain ⟨p, hp, hop⟩ := List.mem_filterMap.mp h
  obtain ⟨hslot, hmaybe⟩ := forwardOp_slot hop
  rw [hslot]
  exact ⟨hp, hmaybe⟩

theorem forwardOps_eq_nil (h : forwardOp visited m p = none) : forwardOps visited m [p] = [] :=
  List.filterMap_cons_none h

/-- A round that takes up no object is an update of its slot, or nothing. -/
theorem forwardIter_of_nothingNew (policy : GenPolicy) (stack : List Nat)
    (h : NothingNew cfg toSpace visited s p) :
    (forwardIter cfg policy toSpace p stack visited).run s =
      .ok (stack, visited) { s with mem := SlotOp.run (forwardOps visited s.mem [p]) s.mem } := by
  have hquiet : forwardOp visited s.mem p = none →
      SlotOp.run (forwardOps visited s.mem [p]) s.mem = s.mem := by
    intro hnone
    rw [forwardOps_eq_nil hnone, SlotOp.run, List.foldl_nil]
  simp only [forwardIter]
  rw [EStateM.run_bind, EStateM.run_get]
  dsimp only
  cases hslot : testPtr s.mem p with
  | none =>
      rw [hquiet (by rw [forwardOp, hslot, Option.bind_none])]
      rfl
  | some v =>
      dsimp only
      cases hvisited : visited.lookup v with
      | some forwarded =>
          have hop : forwardOp visited s.mem p = some (.compareExchange p v forwarded) := by
            rw [forwardOp, hslot, Option.bind_some, hvisited, Option.map_some]
          rw [forwardOps, List.filterMap_cons_some hop, List.filterMap_nil]
          rfl
      | none =>
          have hop : forwardOp visited s.mem p = none := by
            rw [forwardOp, hslot, Option.bind_some, hvisited, Option.map_none]
          rw [hquiet hop]
          dsimp only
          cases hdata : s.metadata.lookup v with
          | none => rfl
          | some data =>
              have hspace : findSpace cfg v.asPtr = some toSpace := by
                rcases h v hslot with hseen | hgone | hto
                · exact absurd hvisited hseen
                · rw [hdata] at hgone
                  cases hgone
                · exact hto
              dsimp only
              rw [run_bind_of_ok (run_getSpaceNum s hspace), if_pos rfl]
              rfl

/-- **Over slots whose objects have all been visited, the loop is the run of their updates.** -/
theorem forwardLoop_of_nothingNew (policy : GenPolicy) (stack : List Nat) :
    ∀ rounds s, stack.length ≤ rounds → stack.Nodup →
      (∀ p ∈ stack, NothingNew cfg toSpace visited s p) →
      (forwardLoop cfg policy toSpace rounds stack visited).run s =
        .ok visited { s with mem := SlotOp.run (forwardOps visited s.mem stack) s.mem } := by
  induction stack with
  | nil =>
      intro rounds s _ _ _
      cases rounds <;> rfl
  | cons p stack ih =>
      intro rounds s hrounds hnodup hnew
      rw [List.length_cons] at hrounds
      obtain ⟨rounds, rfl⟩ : ∃ n, rounds = n + 1 := ⟨rounds - 1, by omega⟩
      obtain ⟨hp, hrest⟩ := List.nodup_cons.mp hnodup
      have hround := forwardIter_of_nothingNew policy stack (hnew p List.mem_cons_self)
      -- the update of this slot leaves the slots that wait as they are
      have hkept : ∀ q ∈ stack,
          testPtr (SlotOp.run (forwardOps visited s.mem [p]) s.mem) q = testPtr s.mem q := by
        intro q hq
        apply SlotOp.testPtr_run_of_ne
        · exact fun op hop => (forwardOps_slots hop).2
        · rintro op hop rfl
          rw [List.mem_singleton.mp (forwardOps_slots hop).1] at hq
          exact hp hq
      have hops : forwardOps visited (SlotOp.run (forwardOps visited s.mem [p]) s.mem) stack =
          forwardOps visited s.mem stack := by
        apply List.filterMap_congr
        intro q hq
        rw [forwardOp, forwardOp, hkept q hq]
      have hnew' : ∀ q ∈ stack, NothingNew cfg toSpace visited
          { s with mem := SlotOp.run (forwardOps visited s.mem [p]) s.mem } q := by
        intro q hq v hv
        dsimp only at hv
        rw [hkept q hq] at hv
        exact hnew q (List.mem_cons_of_mem _ hq) v hv
      have hloop := ih rounds
        { s with mem := SlotOp.run (forwardOps visited s.mem [p]) s.mem } (by omega) hrest hnew'
      rw [forwardLoop, run_bind_of_ok hround, hloop]
      dsimp only
      have hsplit : forwardOps visited s.mem (p :: stack) =
          forwardOps visited s.mem [p] ++ forwardOps visited s.mem stack :=
        List.filterMap_append (l := [p])
      rw [hops, hsplit, SlotOp.run, SlotOp.run, SlotOp.run, List.foldl_append]

theorem nodup_forwardOps (hnodup : stack.Nodup) :
    ((forwardOps visited m stack).map SlotOp.slot).Nodup := by
  induction stack with
  | nil => exact List.nodup_nil
  | cons p stack ih =>
      obtain ⟨hp, hrest⟩ := List.nodup_cons.mp hnodup
      cases hop : forwardOp visited m p with
      | none =>
          rw [forwardOps, List.filterMap_cons_none hop]
          exact ih hrest
      | some op =>
          rw [forwardOps, List.filterMap_cons_some hop, List.map_cons]
          refine List.nodup_cons.mpr ⟨?_, ih hrest⟩
          intro hmem
          obtain ⟨other, hother, hslot⟩ := List.mem_map.mp hmem
          rw [(forwardOp_slot hop).1] at hslot
          exact hp (hslot ▸ (forwardOps_slots hother).1)

/-- Any order of the slots leaves the same memory. -/
theorem run_forwardOps_perm (hperm : stack'.Perm stack) (hnodup : stack.Nodup) :
    SlotOp.run (forwardOps visited m stack') m = SlotOp.run (forwardOps visited m stack) m := by
  apply SlotOp.run_congr
  · exact fun op hop => (forwardOps_slots hop).2
  · intro a
    apply Keyed.filter_key_perm (hperm.filterMap _)
    exact nodup_forwardOps (hperm.nodup_iff.mpr hnodup)

/-! ### Any round of `forward_ptr` -/

/-- The slot lies apart from the part of the space that nothing has been copied to yet. -/
def FreeApart (cfg : Config) (toSpace : SpaceNum) (s : State) (a : Nat) : Prop :=
  a + 16 ≤ cfg.base toSpace + s.nexts toSpace ∨ cfg.base toSpace + cfg.heapSize + 8 ≤ a

theorem SlotApart.freeApart {a : Nat} (h : SlotApart cfg toSpace a) (s : State) :
    FreeApart cfg toSpace s a := by
  unfold SlotApart at h
  exact h.imp (fun _ => by omega) id

theorem testPtr_seqCstCpy {a dst src size : Nat} (ha : FreeApart cfg toSpace s a)
    (hlo : cfg.base toSpace + s.nexts toSpace ≤ dst)
    (hhi : dst + size < cfg.base toSpace + cfg.heapSize) :
    testPtr (seqCstCpy s.mem dst src size) a = testPtr s.mem a := by
  unfold FreeApart at ha
  exact testPtr_congr (agreeOn_seqCstCpy (by omega))

/-- The memory after `copy`, returned or thrown: as it was, or with the object in the free part of
the space and the slot updated. -/
theorem mem_copy {space : SpaceNum} {v : FatPtr} {data : MetaData} (toUpdate : Nat)
    (hspace : findSpace cfg v.asPtr = some space) (hne : space ≠ toSpace)
    (hdata : s.metadata.lookup v = some data) :
    (finalState ((copy cfg toUpdate toSpace v).run s)).mem = s.mem ∨
      ∃ dst newObj, cfg.base toSpace + s.nexts toSpace ≤ dst ∧
        dst + data.size < cfg.base toSpace + cfg.heapSize ∧
        (finalState ((copy cfg toUpdate toSpace v).run s)).mem =
          (compareExchange (seqCstCpy s.mem dst v.asPtr data.size) toUpdate v newObj).2 := by
  cases hpadding : calcAlignmentBytes (cfg.base toSpace + s.nexts toSpace) data.alignment with
  | none =>
      rw [run_copy_hang hspace hne hdata hpadding, finalState_error]
      exact Or.inl rfl
  | some padding =>
      rw [run_copy hspace hne hdata hpadding]
      by_cases hfull : s.nexts toSpace + data.size + padding > cfg.heapSize
      · rw [if_pos hfull, finalState_error]
        exact Or.inl rfl
      rw [if_neg hfull]
      dsimp only
      by_cases hfree : NoOverlap s.metadata (cfg.base toSpace + (s.nexts toSpace + padding))
        data.size
      · rw [if_neg (not_not.mpr hfree)]
        by_cases hlast : data.size + (s.nexts toSpace + padding) ≥ cfg.heapSize
        · rw [if_pos hlast, finalState_error, State.bump_mem]
          exact Or.inl rfl
        · rw [if_neg hlast, finalState_ok, State.relocate_mem, State.bump_mem,
            asPtr_ofAddr_base toSpace (by omega)]
          exact Or.inr ⟨cfg.base toSpace + (s.nexts toSpace + padding),
            FatPtr.ofAddr (cfg.base toSpace + (s.nexts toSpace + padding)), by omega, by omega, rfl⟩
      · rw [if_pos hfree, finalState_error, State.bump_mem]
        exact Or.inl rfl

/-- `after` is what at most one update, of the slot `p`, makes of a memory with the slots of `s`,
the free part of the space aside. -/
def UpdatesOne (cfg : Config) (toSpace : SpaceNum) (s : State) (p : Nat) (after : Memory) : Prop :=
  ∃ before : Memory, (∀ a, FreeApart cfg toSpace s a → testPtr before a = testPtr s.mem a) ∧
    (after = before ∨
      maybePtr s.mem p = true ∧ ∃ op : SlotOp, op.slot = p ∧ after = op.apply before)

theorem UpdatesOne.none (cfg : Config) (toSpace : SpaceNum) (s : State) (p : Nat) :
    UpdatesOne cfg toSpace s p s.mem := by
  refine ⟨s.mem, ?_, Or.inl rfl⟩
  intro a _
  rfl

/-- **One round updates one slot**, whether it returns or throws. -/
theorem forwardIter_updatesOne (cfg : Config) (policy : GenPolicy) (toSpace : SpaceNum) (p : Nat)
    (stack : List Nat) (visited : Visited) (s : State) :
    UpdatesOne cfg toSpace s p
      (finalState ((forwardIter cfg policy toSpace p stack visited).run s)).mem := by
  cases forwardIter_round cfg policy toSpace p stack visited s with
  | empty _ hresult | unmanaged _ _ _ _ hresult | moved _ _ _ _ _ _ hresult =>
      rw [hresult, finalState_ok]
      exact .none cfg toSpace s p
  | outside _ _ _ _ _ hresult | endless _ _ _ _ hresult =>
      rw [hresult, finalState_error]
      exact .none cfg toSpace s p
  | update v forwarded hslot _ hresult =>
      rw [hresult, finalState_ok]
      refine ⟨s.mem, ?_, Or.inr ⟨maybePtr_of_testPtr hslot, .compareExchange p v forwarded, ?_, ?_⟩⟩
      · intro a _
        rfl
      · rw [SlotOp.slot]
      · rw [SlotOp.apply]
  | found v data space slots hslot _ hdata hspace hne _ hresult =>
      rw [hresult, finalState_run_bind_pure]
      cases policy.needPromotion v with
      | false =>
          rw [if_neg Bool.false_ne_true, EStateM.run_pure, finalState_ok]
          exact .none cfg toSpace s p
      | true =>
          rw [if_pos rfl]
          rcases mem_copy p hspace hne hdata with hmem | ⟨dst, newObj, hlo, hhi, hmem⟩
          · rw [hmem]
            exact .none cfg toSpace s p
          · refine ⟨seqCstCpy s.mem dst v.asPtr data.size, ?_,
              Or.inr ⟨maybePtr_of_testPtr hslot, .compareExchange p v newObj, ?_, ?_⟩⟩
            · intro a ha
              exact testPtr_seqCstCpy ha hlo hhi
            · rw [SlotOp.slot]
            · rw [hmem, SlotOp.apply]

/-- So a round makes no slot, destroys none and retargets no other. -/
theorem UpdatesOne.slots {after : Memory} {a : Nat} (h : UpdatesOne cfg toSpace s p after)
    (hp : FreeApart cfg toSpace s p) (ha : FreeApart cfg toSpace s a) :
    maybePtr after a = maybePtr s.mem a ∧ (a ≠ p → testPtr after a = testPtr s.mem a) := by
  obtain ⟨before, hbefore, hafter⟩ := h
  have hmaybe : ∀ b, FreeApart cfg toSpace s b → maybePtr before b = maybePtr s.mem b := by
    intro b hb
    rw [maybePtr_eq_isSome, maybePtr_eq_isSome, hbefore b hb]
  rcases hafter with rfl | ⟨hslot, op, rfl, rfl⟩
  · exact ⟨hmaybe a ha, fun _ => hbefore a ha⟩
  · rw [← hmaybe op.slot hp] at hslot
    refine ⟨?_, fun hne => ?_⟩
    · rw [SlotOp.maybePtr_apply hslot, hmaybe a ha]
    · rw [SlotOp.testPtr_apply_of_ne hslot hne, hbefore a ha]

/-- **A whole traversal makes no slot and destroys none** outside the space that it fills, in
whatever order it pops them. -/
theorem forwardLoop_slots {old : AssocMap FatPtr MetaData} {result : Visited} {t : State} {a : Nat}
    (hcopies : policy.Copies) (happart : SpacesApart cfg)
    (h : Evacuating cfg old toSpace visited s) (hstack : ∀ p ∈ stack, SlotApart cfg toSpace p)
    {rounds : Nat} (hrun : (forwardLoop cfg policy toSpace rounds stack visited).run s = .ok result t)
    (ha : SlotApart cfg toSpace a) : maybePtr t.mem a = maybePtr s.mem a := by
  have hinv := forwardLoop_ok
    (fun stack visited t => Evacuating cfg old toSpace visited t ∧
      (∀ p ∈ stack, SlotApart cfg toSpace p) ∧ maybePtr t.mem a = maybePtr s.mem a)
    ?_ rounds stack visited s result t ⟨h, hstack, rfl⟩ hrun
  · exact hinv.2.2
  rintro p stack visited t next u ⟨ht, hstack, hkept⟩ hiter
  have hround := (forwardIter_updatesOne cfg policy toSpace p stack visited t).slots
    ((hstack p List.mem_cons_self).freeApart t) (ha.freeApart t)
  rw [hiter, finalState_ok] at hround
  refine ⟨ht.iter_ok hcopies hiter, ?_, hround.1.trans hkept⟩
  have houtcome := forwardIter_outcome hcopies ht p stack
  rw [hiter] at houtcome
  intro q hq
  cases houtcome with
  | skip | update => exact hstack q (List.mem_cons_of_mem p hq)
  | forward v data slots padding hslot hvisited hdata hspace hscan =>
      rcases List.mem_append.mp hq with hq | hq
      · exact slotApart_of_inScan happart ht.settled
          (ht.old_of_findSpace hdata (findSpace_ne_of_flip hspace))
          ((hscan q).mp (List.mem_reverse.mp hq))
      · exact hstack q (List.mem_cons_of_mem p hq)

/-! ### The result -/

/-- The slots of the memory `m` and the operations `ops` on them. -/
structure SlotsKept (m : Memory) (ops : List SlotOp) : Prop where
  apart : ∀ a b, maybePtr m a = true → maybePtr m b = true → a ≠ b → a + 16 ≤ b ∨ b + 16 ≤ a
  slots : ∀ a, maybePtr (SlotOp.run ops m) a = maybePtr m a
  others : ∀ a, (∀ op ∈ ops, op.slot ≠ a) → testPtr (SlotOp.run ops m) a = testPtr m a
  bytes : ∀ x, (∀ op ∈ ops, x < op.slot + 8 ∨ op.slot + 16 ≤ x) → SlotOp.run ops m x = m x
  own : ∀ a, testPtr (SlotOp.run ops m) a =
    (SlotOp.opsAt ops a).foldl (fun held op => op.change held) (testPtr m a)
  order : ∀ ops', (∀ a, SlotOp.opsAt ops' a = SlotOp.opsAt ops a) →
    SlotOp.run ops' m = SlotOp.run ops m
  /-- A round of `forward_ptr`, whatever it does: it updates at most the slot it has popped. -/
  round : ∀ cfg policy toSpace visited s p stack, s.mem = m → FreeApart cfg toSpace s p →
    ∀ a, FreeApart cfg toSpace s a →
      maybePtr (finalState ((forwardIter cfg policy toSpace p stack visited).run s)).mem a =
        maybePtr m a ∧
      (a ≠ p →
        testPtr (finalState ((forwardIter cfg policy toSpace p stack visited).run s)).mem a =
          testPtr m a)
  /-- The rounds over distinct slots that hold nothing new, popped in any order. -/
  rounds : ∀ cfg policy toSpace visited s n stack stack', s.mem = m → stack.length ≤ n →
    stack.Nodup → (∀ p ∈ stack, NothingNew cfg toSpace visited s p) → stack'.Perm stack →
      (forwardLoop cfg policy toSpace n stack' visited).run s =
        .ok visited { s with mem := SlotOp.run (forwardOps visited m stack) m }

/-- **Pointer slots never interfere.** -/
theorem slots_never_interfere {ops : List SlotOp}
    (hslots : ∀ op ∈ ops, maybePtr m op.slot = true) : SlotsKept m ops where
  apart a b ha hb hne := slots_disjoint ha hb hne
  slots a := SlotOp.maybePtr_run hslots a
  others a h := SlotOp.testPtr_run_of_ne hslots h
  bytes x h := SlotOp.run_outside ops m h
  own a := SlotOp.testPtr_run_eq hslots a
  order ops' h := SlotOp.run_congr hslots h
  round cfg policy toSpace visited s p stack hmem hp a ha := by
    rw [← hmem]
    exact (forwardIter_updatesOne cfg policy toSpace p stack visited s).slots hp ha
  rounds cfg policy toSpace visited s n stack stack' hmem hlength hnodup hnew hperm := by
    have hloop := forwardLoop_of_nothingNew policy stack' n s (hperm.length_eq.trans_le hlength)
      (hperm.nodup_iff.mpr hnodup) fun p hp => hnew p (hperm.mem_iff.mp hp)
    rw [hloop, hmem, run_forwardOps_perm hperm hnodup]

theorem slots_never_interfere_adjacent :
    SlotsKept
      (writeFatPtr (writeFatPtr (fun _ => 0) 1024 (FatPtr.ofAddr 65536)) 1040 (FatPtr.ofAddr 65576))
      [.compareExchange 1024 (FatPtr.ofAddr 65536) (FatPtr.ofAddr 131072),
        .atomicUpdate 1040 (FatPtr.ofAddr 131112)] := by
  apply slots_never_interfere
  intro op hop
  rw [List.mem_cons, List.mem_singleton] at hop
  rcases hop with rfl | rfl
  · apply maybePtr_of_testPtr
    rw [SlotOp.slot, testPtr_writeFatPtr_of_apart (Or.inl le_rfl)]
    exact testPtr_writeFatPtr_self
  · apply maybePtr_of_testPtr
    rw [SlotOp.slot]
    exact testPtr_writeFatPtr_self

end Gcpp
