import Gcpp.RootRun
import Gcpp.Proof.Collection

/-!
# The collector refines the object store

Through its root slots a program sees an object store. Every object that a root slot designates has
an address of its own, a managed block of the right size there, and in it the bytes last written. An
allocation gives out an address no object has, and a collection changes all addresses at once: the
root slots and the bytes go along.
-/

namespace Gcpp

open ByteMemory StateExcept ObjectStore

variable {cfg : Config} {policy : GenPolicy} {store : Store Nat UInt8} {addr : Nat → FatPtr}
  {s t : State} {roots : List Nat} {slot : Nat}

theorem Usable.slotApart (h : Usable cfg roots slot) (space : SpaceNum) :
    SlotApart cfg space slot := h.apart.slotApart space

/-- The managed block at its address holds the object. -/
structure Represents (store : Store Nat UInt8) (s : State) (addr : Nat → FatPtr) (o : Nat) :
    Prop where
  block : ∃ data, s.metadata.lookup (addr o) = some data ∧ data.size = store.size o
  bytes : ∀ k b, store.content o k = some b → k < store.size o ∧ s.mem ((addr o).asPtr + k) = b

/-- What the root slots designate in the store, the heap holds at the addresses `addr`. -/
structure Simulates (cfg : Config) (store : Store Nat UInt8) (p : Program) (addr : Nat → FatPtr) :
    Prop where
  heap : HeapInv cfg p.heap
  numbered : store.Numbered
  usable : ∀ r ∈ p.roots, Usable cfg p.roots r
  null : ∀ r ∈ p.roots, store.root r = none → testPtr p.heap.mem r = some (FatPtr.ofAddr 0)
  held : ∀ r ∈ p.roots, ∀ o, store.root r = some o →
    testPtr p.heap.mem r = some (addr o) ∧ Represents store p.heap addr o
  injective : ∀ r ∈ p.roots, ∀ r' ∈ p.roots, ∀ o o', store.root r = some o →
    store.root r' = some o' → addr o = addr o' → o = o'

theorem HeapInv.lookup_null (h : HeapInv cfg s) : s.metadata.lookup (FatPtr.ofAddr 0) = none := by
  by_contra hne
  obtain ⟨data, hdata⟩ := Option.ne_none_iff_exists'.mp hne
  have hlo := (h.placed hdata).lo
  have hbase := cfg.base_pos s.spaceNum
  rw [FatPtr.asPtr_ofAddr_of_lt (by decide)] at hlo
  omega

theorem HeapInv.root_apart (h : HeapInv cfg s) {ptr : FatPtr} {data : MetaData}
    (hdata : s.metadata.lookup ptr = some data) (hslot : RootApart cfg slot) :
    ptr.asPtr + data.size ≤ slot ∨ slot + 16 ≤ ptr.asPtr := by
  have hlo := (h.placed hdata).lo
  have hin := (h.placed hdata).inBlock
  have happart := hslot.slotApart s.spaceNum
  unfold SlotApart at happart
  omega

namespace Simulates

theorem testPtr_eq_iff {p : Program} (h : Simulates cfg store p addr) {r r' : Nat}
    (hr : r ∈ p.roots) (hr' : r' ∈ p.roots) :
    testPtr p.heap.mem r = testPtr p.heap.mem r' ↔ store.root r = store.root r' := by
  have hne : ∀ q ∈ p.roots, ∀ o, store.root q = some o → addr o ≠ FatPtr.ofAddr 0 := by
    intro q hq o ho heq
    obtain ⟨data, hdata, _⟩ := (h.held q hq o ho).2.block
    rw [heq, h.heap.lookup_null] at hdata
    cases hdata
  cases ho : store.root r with
  | none =>
      rw [h.null r hr ho]
      cases ho' : store.root r' with
      | none => simp [h.null r' hr' ho']
      | some o' =>
          rw [(h.held r' hr' o' ho').1]
          simp [(hne r' hr' o' ho').symm]
  | some o =>
      rw [(h.held r hr o ho).1]
      cases ho' : store.root r' with
      | none =>
          rw [h.null r' hr' ho']
          simp [hne r hr o ho]
      | some o' =>
          rw [(h.held r' hr' o' ho').1, Option.some.injEq, Option.some.injEq]
          exact ⟨h.injective r hr r' hr' o o' ho ho', congrArg addr⟩

/-! ### Assignments -/

/-- A write to a root slot disturbs neither the other root slots nor the objects. -/
theorem assign (h : Simulates cfg store { heap := s, roots } addr)
    (hslot : Usable cfg roots slot) {mem : Memory} {value : FatPtr} {target : Option Nat}
    (hagree : ∀ a width, a + width ≤ slot ∨ slot + 16 ≤ a → AgreeOn mem s.mem a width)
    (hvalue : testPtr mem slot = some value) (hnone : target = none → value = FatPtr.ofAddr 0)
    (hsome : ∀ o, target = some o → o < store.next ∧ value = addr o ∧ Represents store s addr o ∧
      ∀ r ∈ roots, ∀ o', store.root r = some o' → addr o' = addr o → o' = o) :
    Simulates cfg { store with root := fun r => if some slot = some r then target else store.root r }
      { heap := { s with mem }, roots := roots.insert slot } addr := by
  have hsize : gcPtrSize = 16 := rfl
  have hmem : ∀ {r}, r ∈ roots.insert slot → r ≠ slot → r ∈ roots := fun hr hne =>
    (List.mem_insert_iff.mp hr).resolve_left hne
  have hother : ∀ {r}, r ∈ roots → r ≠ slot → testPtr mem r = testPtr s.mem r := fun hr hne => by
    refine testPtr_congr (hagree _ 16 ?_)
    have hdisjoint := hslot.disjoint _ hr
    omega
  have hrepresents : ∀ {o}, Represents store s addr o → Represents
      { store with root := fun r => if some slot = some r then target else store.root r }
      { s with mem } addr o := fun {o} hrep => by
    refine { block := hrep.block, bytes := fun k b hb => ?_ }
    obtain ⟨hk, hbyte⟩ := hrep.bytes k b hb
    obtain ⟨data, hdata, hdsize⟩ := hrep.block
    have happart := h.heap.root_apart hdata hslot.apart
    exact ⟨hk, (hagree _ data.size happart k (by omega)).trans hbyte⟩
  refine
    { heap := h.heap.with_mem mem
      numbered := fun r o ho => ?_
      usable := fun r hr => ?_
      null := fun r hr ho => ?_
      held := fun r hr o ho => ?_
      injective := fun r hr r' hr' o o' ho ho' heq => ?_ }
  · dsimp only at ho ⊢
    split at ho
    · exact (hsome o ho).1
    · exact h.numbered r o ho
  · by_cases hrs : r = slot
    · subst hrs
      refine { apart := hslot.apart, disjoint := fun q hq => ?_ }
      rcases List.mem_insert_iff.mp hq with rfl | hq
      · exact Or.inl rfl
      · exact hslot.disjoint q hq
    · have hin := hmem hr hrs
      refine { apart := (h.usable r hin).apart, disjoint := fun q hq => ?_ }
      rcases List.mem_insert_iff.mp hq with hqs | hq
      · rw [hqs]
        exact Or.inr ((hslot.disjoint r hin).resolve_left hrs).symm
      · exact (h.usable r hin).disjoint q hq
  · dsimp only at ho
    split at ho
    · rename_i heq
      rw [← Option.some.inj heq]
      exact hvalue.trans (by rw [hnone ho])
    · rename_i hne
      have hrs : r ≠ slot := fun heq => hne (congrArg some heq.symm)
      exact (hother (hmem hr hrs) hrs).trans (h.null r (hmem hr hrs) ho)
  · dsimp only at ho
    split at ho
    · rename_i heq
      rw [← Option.some.inj heq]
      obtain ⟨_, hval, hrep, _⟩ := hsome o ho
      exact ⟨hvalue.trans (by rw [hval]), hrepresents hrep⟩
    · rename_i hne
      have hrs : r ≠ slot := fun heq => hne (congrArg some heq.symm)
      obtain ⟨hheld, hrep⟩ := h.held r (hmem hr hrs) o ho
      exact ⟨(hother (hmem hr hrs) hrs).trans hheld, hrepresents hrep⟩
  · dsimp only at ho ho'
    split at ho <;> split at ho'
    · rw [ho] at ho'
      exact Option.some.inj ho'
    · rename_i hne
      have hrs : r' ≠ slot := fun heq => hne (congrArg some heq.symm)
      exact ((hsome o ho).2.2.2 r' (hmem hr' hrs) o' ho' heq.symm).symm
    · rename_i hne _
      have hrs : r ≠ slot := fun heq => hne (congrArg some heq.symm)
      exact (hsome o' ho').2.2.2 r (hmem hr hrs) o ho heq
    · rename_i hne hne'
      have hrs : r ≠ slot := fun heq => hne (congrArg some heq.symm)
      have hrs' : r' ≠ slot := fun heq => hne' (congrArg some heq.symm)
      exact h.injective r (hmem hr hrs) r' (hmem hr' hrs') o o' ho ho' heq

/-! ### The steps -/

/-- A new object gets an address that no object has. -/
theorem alloc (h : Simulates cfg store { heap := s, roots } addr) {size alignment padding : Nat}
    (hpos : 0 < size) (hsmall : SmallAlignment alignment)
    (hdvd : alignment ∣ cfg.base s.spaceNum + (s.nexts s.spaceNum + padding))
    (hfit : s.nexts s.spaceNum + size + padding < cfg.heapSize) (hslot : Usable cfg roots slot) :
    Simulates cfg (store.apply (.alloc slot size))
      { heap := { s.allocated cfg size alignment padding with
          mem := writeFatPtr s.mem slot
            (FatPtr.ofAddr (cfg.base s.spaceNum + (s.nexts s.spaceNum + padding))) }
        roots := roots.insert slot }
      (Function.update addr store.next
        (FatPtr.ofAddr (cfg.base s.spaceNum + (s.nexts s.spaceNum + padding)))) := by
  have hfresh := h.heap.lookup_fresh padding (show s.nexts s.spaceNum + padding < cfg.heapSize by
    omega)
  generalize hptr : FatPtr.ofAddr (cfg.base s.spaceNum + (s.nexts s.spaceNum + padding)) = ptr at *
  have hlookup : ∀ q, (s.allocated cfg size alignment padding).metadata.lookup q =
      if q = ptr then some { size, alignment } else s.metadata.lookup q := fun q => by
    rw [State.allocated_metadata, hptr, AssocMap.lookup_emplace hfresh]
  have hold : ∀ {r o}, store.root r = some o → o ≠ store.next := fun ho heq =>
    Nat.lt_irrefl _ (heq ▸ h.numbered _ _ ho)
  -- first the object, which no slot designates yet, then the slot
  have hcreated : Simulates cfg
      { store with
        next := store.next + 1
        size := Function.update store.size store.next size
        content := Function.update store.content store.next fun _ => none }
      { heap := s.allocated cfg size alignment padding, roots }
      (Function.update addr store.next ptr) := by
    refine
      { heap := h.heap.allocated hpos hsmall hdvd hfit
        numbered := fun r o ho => Nat.lt_succ_of_lt (h.numbered r o ho)
        usable := h.usable
        null := h.null
        held := fun r hr o ho => ?_
        injective := fun r hr r' hr' o o' ho ho' heq => ?_ }
    · have hne := hold ho
      obtain ⟨hheld, ⟨data, hdata, hsize⟩, hbytes⟩ := h.held r hr o ho
      have hnew : addr o ≠ ptr := fun heq => by
        rw [heq] at hdata
        exact absurd (hdata.symm.trans hfresh) (by simp)
      rw [Function.update_of_ne hne]
      refine ⟨hheld, ⟨data, ?_, ?_⟩, fun k b hb => ?_⟩
      · rw [Function.update_of_ne hne, hlookup, if_neg hnew]
        exact hdata
      · dsimp only
        rw [Function.update_of_ne hne]
        exact hsize
      · dsimp only at hb ⊢
        rw [Function.update_of_ne hne] at hb ⊢
        rw [Function.update_of_ne hne]
        exact hbytes k b hb
    · rw [Function.update_of_ne (hold ho), Function.update_of_ne (hold ho')] at heq
      exact h.injective r hr r' hr' o o' ho ho' heq
  refine hcreated.assign hslot (fun a width => agreeOn_writeFatPtr) testPtr_writeFatPtr_self
    (fun hnone => by cases hnone) fun o ho => ?_
  cases ho
  refine ⟨Nat.lt_succ_self _, (Function.update_self store.next ptr addr).symm,
    ⟨⟨{ size, alignment }, ?_, ?_⟩, fun k b hb => ?_⟩, fun r hr o' ho' heq => ?_⟩
  · rw [Function.update_self, hlookup, if_pos rfl]
  · dsimp only
    rw [Function.update_self]
  · dsimp only at hb
    rw [Function.update_self] at hb
    cases hb
  · by_contra hne
    obtain ⟨data, hdata, _⟩ := (h.held r hr o' ho').2.block
    rw [Function.update_self, Function.update_of_ne hne] at heq
    rw [heq] at hdata
    exact absurd (hdata.symm.trans hfresh) (by simp)

theorem copy (h : Simulates cfg store { heap := s, roots } addr) {src : Nat} (hsrc : src ∈ roots)
    (hslot : Usable cfg roots slot) :
    Simulates cfg (store.apply (.copy slot src))
      { heap := { s with mem := move s.mem slot src gcPtrSize }, roots := roots.insert slot }
      addr := by
  have hsize : gcPtrSize = 16 := rfl
  have hmoved : testPtr (move s.mem slot src gcPtrSize) slot = testPtr s.mem src :=
    testPtr_of_bytes fun i hi => move_inside (by omega)
  have hagree : ∀ a width, a + width ≤ slot ∨ slot + 16 ≤ a →
      AgreeOn (move s.mem slot src gcPtrSize) s.mem a width := fun a width happart i hi =>
    move_outside (by omega)
  cases ho : store.root src with
  | none =>
      refine h.assign hslot hagree (hmoved.trans (h.null src hsrc ho)) (fun _ => rfl) fun o ho' => ?_
      rw [ObjectStore.Store.assigned, ho] at ho'
      cases ho'
  | some o =>
      obtain ⟨hheld, hrep⟩ := h.held src hsrc o ho
      refine h.assign hslot hagree (hmoved.trans hheld) (fun hnone => ?_) fun o' ho' => ?_
      · rw [ObjectStore.Store.assigned, ho] at hnone
        cases hnone
      · rw [ObjectStore.Store.assigned, ho] at ho'
        cases ho'
        exact ⟨h.numbered src o ho, rfl, hrep, fun r hr o' ho' heq =>
          h.injective r hr src hsrc o' o ho' ho heq⟩

theorem clear (h : Simulates cfg store { heap := s, roots } addr) (hslot : Usable cfg roots slot) :
    Simulates cfg (store.apply (.clear slot))
      { heap := { s with mem := writeFatPtr s.mem slot (FatPtr.ofAddr 0) }
        roots := roots.insert slot } addr :=
  h.assign hslot (fun _ _ => agreeOn_writeFatPtr) testPtr_writeFatPtr_self (fun _ => rfl)
    fun o ho => by cases ho

/-- A byte written through a slot is a byte of the object that the slot designates, and of no
other. -/
theorem write (h : Simulates cfg store { heap := s, roots } addr) {ptr : FatPtr} {data : MetaData}
    {offset : Nat} (byte : UInt8) (hslot : slot ∈ roots) (hload : atomicLoad s.mem slot = some ptr)
    (hdata : s.metadata.lookup ptr = some data) (hoffset : offset < data.size) :
    Simulates cfg (store.apply (.write slot offset byte))
      { heap := { s with mem := Function.update s.mem (ptr.asPtr + offset) byte }, roots } addr := by
  have hload' : ∀ {p}, testPtr s.mem slot = some p → p = ptr := fun hp =>
    Option.some.inj ((atomicLoad_of_testPtr hp).symm.trans hload)
  cases ho : store.root slot with
  | none =>
      rw [← hload' (h.null slot hslot ho), h.heap.lookup_null] at hdata
      cases hdata
  | some o =>
      obtain ⟨hheld, hrep⟩ := h.held slot hslot o ho
      have hptr := hload' hheld
      subst hptr
      have hbyte : ∀ a, a ≠ (addr o).asPtr + offset →
          Function.update s.mem ((addr o).asPtr + offset) byte a = s.mem a := fun a hne =>
        Function.update_of_ne hne _ _
      have hroot : ∀ r ∈ roots, testPtr
          (Function.update s.mem ((addr o).asPtr + offset) byte) r = testPtr s.mem r := by
        intro r hr
        have happart := h.heap.root_apart hdata (h.usable r hr).apart
        exact testPtr_congr fun i hi => hbyte _ (by omega)
      refine
        { heap := h.heap.with_mem _
          numbered := h.numbered.apply _
          usable := h.usable
          null := fun r hr hr' => (hroot r hr).trans (h.null r hr hr')
          held := fun r hr o' ho' => ?_
          injective := fun r hr r' hr' o o' ho ho' => h.injective r hr r' hr' o o' ho ho' }
      obtain ⟨hheld', ⟨data', hdata', hsize'⟩, hbytes'⟩ := h.held r hr o' ho'
      refine ⟨(hroot r hr).trans hheld', ⟨data', hdata', hsize'⟩, fun k b hb => ?_⟩
      change (if store.root slot = some o' ∧ k = offset then some byte else store.content o' k)
        = some b at hb
      change k < store.size o' ∧
        Function.update s.mem ((addr o).asPtr + offset) byte ((addr o').asPtr + k) = b
      by_cases hsame : o' = o
      · subst hsame
        obtain ⟨data₀, hdata₀, hsize₀⟩ := hrep.block
        rw [hdata] at hdata₀
        cases hdata₀
        by_cases hk : k = offset
        · rw [if_pos ⟨ho, hk⟩] at hb
          cases hb
          rw [hk, Function.update_self]
          exact ⟨by omega, rfl⟩
        · rw [if_neg fun hand => hk hand.2] at hb
          rw [hbyte _ (by omega)]
          exact hbytes' k b hb
      · rw [if_neg fun hand => hsame (Option.some.inj (ho.symm.trans hand.1)).symm] at hb
        obtain ⟨hk, hbyte'⟩ := hbytes' k b hb
        have hne : addr o' ≠ addr o := fun heq =>
          hsame (h.injective r hr slot hslot o' o ho' ho heq)
        have happart := h.heap.separated _ _ _ _ hdata' hdata hne
        rw [hbyte _ (by omega)]
        exact ⟨hk, hbyte'⟩

theorem drop (h : Simulates cfg store { heap := s, roots } addr) (slot : Nat) :
    Simulates cfg (store.apply (.drop slot)) { heap := s, roots := roots.filter (· ≠ slot) }
      addr := by
  have hmem : ∀ {r}, r ∈ roots.filter (· ≠ slot) → r ∈ roots ∧ r ≠ slot := fun hr => by
    simpa using hr
  have hroot : ∀ {r}, r ≠ slot → (store.apply (.drop slot)).root r = store.root r := fun hne =>
    store.root_apply_of_ne fun heq => hne (Option.some.inj heq).symm
  refine
    { heap := h.heap
      numbered := h.numbered.apply _
      usable := fun r hr => ?_
      null := fun r hr ho => ?_
      held := fun r hr o ho => ?_
      injective := fun r hr r' hr' o o' ho ho' => ?_ }
  · have husable := h.usable r (hmem hr).1
    exact { apart := husable.apart, disjoint := fun q hq => husable.disjoint q (hmem hq).1 }
  · rw [hroot (hmem hr).2] at ho
    exact h.null r (hmem hr).1 ho
  · rw [hroot (hmem hr).2] at ho
    obtain ⟨hheld, hblock, hbytes⟩ := h.held r (hmem hr).1 o ho
    exact ⟨hheld, hblock, hbytes⟩
  · rw [hroot (hmem hr).2] at ho
    rw [hroot (hmem hr').2] at ho'
    exact h.injective r (hmem hr).1 r' (hmem hr').1 o o' ho ho'

/-- A collection moves all objects at once, and the slots and the bytes with them. Other slots may be
roots as well. -/
theorem collect (hcopies : policy.Copies) (happart : SpacesApart cfg)
    (h : Simulates cfg store { heap := s, roots } addr) {gcRoots extraRoots : List Nat}
    {r : Visited × List FatPtr} (hroots : ∀ slot ∈ roots, slot ∈ gcRoots ++ extraRoots)
    (hapart : ∀ slot ∈ gcRoots ++ extraRoots, RootApart cfg slot)
    (hrun : (asyncCollect cfg policy gcRoots extraRoots).run s = .ok r t) :
    Simulates cfg store { heap := t, roots }
      fun o => (r.1.lookup (addr o)).getD (FatPtr.ofAddr 0) := by
  have hheap := h.heap.collected hcopies hrun
  obtain ⟨u, htrace, rfl⟩ := asyncCollect_trace hcopies happart hapart h.heap.settled hrun
  have hmoved : ∀ q ∈ roots, ∀ o, store.root q = some o → ∃ w', r.1.lookup (addr o) = some w' ∧
      testPtr u.mem q = some w' := by
    intro q hq o ho
    obtain ⟨hheld, ⟨data, hdata, _⟩, _⟩ := h.held q hq o ho
    exact htrace.root_forwarded (hroots q hq) (addr o) hheld (AssocMap.mem_of_lookup hdata)
  refine
    { heap := hheap
      numbered := h.numbered
      usable := h.usable
      null := fun q hq ho => ?_
      held := fun q hq o ho => ?_
      injective := fun q hq q' hq' o o' ho ho' heq => ?_ }
  · -- null was never in the map, so no copy can have replaced it
    have hslot := (h.usable q hq).slotApart s.spaceNum.flip
    rcases htrace.memory.slots q hslot with hsame | ⟨v, v', hv, hvisited, _⟩
    · exact hsame.trans (h.null q hq ho)
    · rw [h.null q hq ho] at hv
      cases hv
      obtain ⟨data, hold, _⟩ := htrace.black hvisited
      rw [h.heap.lookup_null] at hold
      cases hold
  · obtain ⟨w', hw', hslot⟩ := hmoved q hq o ho
    obtain ⟨_, ⟨data, hdata, hsize⟩, hbytes⟩ := h.held q hq o ho
    dsimp only
    rw [hw', Option.getD_some]
    refine ⟨hslot, ⟨data, ?_, hsize⟩, fun k b hb => ?_⟩
    · rw [hw', Option.getD_some]
      exact htrace.lookup_swept.mpr ⟨addr o, hw', hdata⟩
    · obtain ⟨hk, hbyte⟩ := hbytes k b hb
      rw [hw', Option.getD_some]
      exact ⟨hk, (htrace.memory.copies hw' hdata k (by omega)).trans hbyte⟩
  · obtain ⟨w, hw, _⟩ := hmoved q hq o ho
    obtain ⟨w', hw', _⟩ := hmoved q' hq' o' ho'
    rw [hw, hw', Option.getD_some, Option.getD_some] at heq
    rw [heq] at hw
    exact h.injective q hq q' hq' o o' ho ho' (htrace.injective hw hw')

/-- **Every step of the program is a step of the store.** -/
theorem step (hcopies : policy.Copies) (happart : SpacesApart cfg) {p q : Program} {e : RootEvent}
    (h : Simulates cfg store p addr) (hstep : ProgramStep cfg policy p e q) :
    ∃ addr', Simulates cfg (store.apply e) q addr' := by
  cases hstep with
  | alloc gcRoots size alignment slot ptr t hsmall hslot hrun =>
      rcases run_alloc_cases h.heap policy gcRoots size hsmall with
        ⟨_, hcase⟩ | ⟨_, _, hcase⟩ | ⟨⟨hpos, hmax⟩, padding, _, hdvd, hfit, hcase⟩
      · rw [hrun] at hcase
        cases hcase
      · rw [hrun] at hcase
        cases hcase
      · have hheap := cfg.maxAllocSize_lt (by omega)
        rw [hrun] at hcase
        cases hcase
        exact ⟨_, h.alloc hpos hsmall hdvd (by omega) hslot⟩
  | allocFailed gcRoots size alignment e t hsmall hrun =>
      rcases run_alloc_cases h.heap policy gcRoots size hsmall with
        ⟨_, hcase⟩ | ⟨_, _, hcase⟩ | ⟨_, _, _, _, _, hcase⟩
      · rw [hrun] at hcase
        cases hcase
        exact ⟨addr, h⟩
      · rw [hrun] at hcase
        cases hcase
        exact ⟨addr, h⟩
      · rw [hrun] at hcase
        cases hcase
  | copy dst src hsrc hdst => exact ⟨addr, h.copy hsrc hdst⟩
  | clear slot hslot => exact ⟨addr, h.clear hslot⟩
  | write slot offset byte ptr data hslot hload hdata hoffset =>
      exact ⟨addr, h.write byte hslot hload hdata hoffset⟩
  | collect gcRoots extraRoots result t hroots hrun =>
      have hapart : ∀ slot ∈ gcRoots ++ extraRoots, RootApart cfg slot := fun slot hslot =>
        (h.usable slot ((hroots slot).mp hslot)).apart
      exact ⟨_, h.collect hcopies happart (fun slot hslot => (hroots slot).mpr hslot) hapart hrun⟩
  | drop slot => exact ⟨addr, h.drop slot⟩

end Simulates

theorem ProgramRun.simulates (hcopies : policy.Copies) (happart : SpacesApart cfg)
    {events : List RootEvent} {p : Program} (hrun : ProgramRun cfg policy events p) :
    ∃ addr, Simulates cfg (Store.after events) p addr := by
  induction hrun with
  | start mem =>
      exact ⟨fun _ => FatPtr.ofAddr 0,
        { heap := HeapInv.initial cfg mem
          numbered := Store.numbered_empty
          usable := fun r hr => by cases hr
          null := fun r hr => by cases hr
          held := fun r hr => by cases hr
          injective := fun r hr => by cases hr }⟩
  | step _ hstep ih =>
      obtain ⟨addr, h⟩ := ih
      rw [Store.after_concat]
      exact h.step hcopies happart hstep

/-! ### What the program sees -/

/-- The bytes read through the root slots are those last written, and the root slots share objects
as they do in the store. -/
structure Faithful (store : Store Nat UInt8) (p : Program) : Prop where
  bytes : ∀ slot ∈ p.roots, ∀ o k b, store.root slot = some o → store.content o k = some b →
    ∃ ptr, testPtr p.heap.mem slot = some ptr ∧ p.heap.mem (ptr.asPtr + k) = b
  sharing : ∀ slot ∈ p.roots, ∀ slot' ∈ p.roots,
    testPtr p.heap.mem slot = testPtr p.heap.mem slot' ↔ store.root slot = store.root slot'

theorem Simulates.faithful {p : Program} (h : Simulates cfg store p addr) : Faithful store p where
  bytes := fun slot hslot o k b ho hb => by
    obtain ⟨hheld, hrep⟩ := h.held slot hslot o ho
    exact ⟨addr o, hheld, (hrep.bytes k b hb).2⟩
  sharing := fun _ hslot _ hslot' => h.testPtr_eq_iff hslot hslot'

/-- **The collector refines the object store.** After every run, the root slots designate what they
designate in the store and show the bytes last written; and whatever step comes next, two slots that
it does not assign hold equal pointers after it exactly if they did before. -/
theorem collector_refines_store (hcopies : policy.Copies) (happart : SpacesApart cfg)
    {events : List RootEvent} {p : Program} (hrun : ProgramRun cfg policy events p) :
    Faithful (Store.after events) p ∧
      ∀ e q, ProgramStep cfg policy p e q → ∀ slot slot', slot ∈ p.roots → slot' ∈ p.roots →
        slot ∈ q.roots → slot' ∈ q.roots → e.target ≠ some slot → e.target ≠ some slot' →
        (testPtr q.heap.mem slot = testPtr q.heap.mem slot' ↔
          testPtr p.heap.mem slot = testPtr p.heap.mem slot') := by
  obtain ⟨addr, h⟩ := hrun.simulates hcopies happart
  refine ⟨h.faithful, fun e q hstep slot slot' hslot hslot' hafter hafter' hne hne' => ?_⟩
  obtain ⟨addr', h'⟩ := h.step hcopies happart hstep
  rw [h'.testPtr_eq_iff hafter hafter', h.testPtr_eq_iff hslot hslot',
    Store.root_apply_of_ne _ hne, Store.root_apply_of_ne _ hne']

/-- An object in one slot is shared with a second, and a collection moves it. -/
theorem collector_refines_store_sample :
    ∃ p, ProgramRun Config.sample .copying [.alloc 1024 64, .copy 2048 1024, .collect] p ∧
      Faithful (Store.after [.alloc 1024 64, .copy 2048 1024, .collect]) p := by
  have height : SmallAlignment 8 := ⟨3, by decide, rfl⟩
  have hempty : ∀ space, calcAlignmentBytes (Config.sample.base space + 0) 8 = some 0 :=
    fun space => calcAlignmentBytes_of_dvd height (by cases space <;> decide)
  have hfirst := run_alloc_of_fits (HeapInv.initial Config.sample fun _ => 0) .copying []
    (show 0 < 64 by decide) (by decide) (hempty _) (by decide)
  have hallocated : ProgramRun Config.sample .copying [.alloc 1024 64] _ :=
    .step (.start fun _ => 0) (.alloc _ [] 64 8 1024 _ _ height
      { apart := .sample (by decide), disjoint := fun r hr => by cases hr } hfirst)
  have hcopied : ProgramRun Config.sample .copying [.alloc 1024 64, .copy 2048 1024] _ :=
    .step hallocated (.copy _ 2048 1024 (by decide)
      { apart := .sample (by decide), disjoint := by decide })
  have haccounted : Accounted Config.sample
      ((State.initial fun _ => 0).allocated Config.sample 64 8 0) :=
    (Accounted.initial Config.sample fun _ => 0).allocated (by decide) height (by decide)
      (by decide) (by decide)
  obtain ⟨r, t, hrun, _⟩ := ((haccounted.with_mem _).with_mem _).collect_total
    GenPolicy.copying_copies [2048, 1024] [1024]
  have hroots : ∀ slot, slot ∈ [2048, 1024] ++ [1024] ↔ slot ∈ [2048, 1024] := fun slot => by simp
  have hcollected : ProgramRun Config.sample .copying
      [.alloc 1024 64, .copy 2048 1024, .collect] _ :=
    .step hcopied (.collect _ [2048, 1024] [1024] r t hroots hrun)
  exact ⟨_, hcollected,
    (collector_refines_store GenPolicy.copying_copies Config.sample_apart hcollected).1⟩

end Gcpp
