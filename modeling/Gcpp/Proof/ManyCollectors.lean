import Gcpp.ManyCollectors
import Gcpp.Proof.CollectionFrame
import Gcpp.Proof.Refinement

/-!
# Several collectors, one object store

Each collector simulates the part of the store whose objects are its own. A step of one collector
stays out of the footprints of the others, so that together they simulate the whole store.
-/

namespace Gcpp

open ByteMemory StateExcept ObjectStore

/-! ### The part of one collector -/

section Part

variable {cfg : Config} {store store' : Store Nat UInt8} {addr addr' : Nat → FatPtr} {s : State}
  {roots roots' : List Nat}

/-- The bytes of the blocks and of the slots. -/
def Footprint (cfg : Config) (roots : List Nat) (x : Nat) : Prop :=
  (∃ space, cfg.base space ≤ x ∧ x < cfg.base space + cfg.heapSize) ∨
    ∃ r ∈ roots, r ≤ x ∧ x < r + gcPtrSize

theorem footprint_slot {r i : Nat} (hr : r ∈ roots) (hi : i < 16) : Footprint cfg roots (r + i) :=
  Or.inr ⟨r, hr, Nat.le_add_right _ _, Nat.add_lt_add_left hi r⟩

theorem HeapInv.inBlock (h : HeapInv cfg s) {ptr : FatPtr} {data : MetaData}
    (hdata : s.metadata.lookup ptr = some data) : cfg.base s.spaceNum ≤ ptr.asPtr ∧
      ptr.asPtr + data.size ≤ cfg.base s.spaceNum + cfg.heapSize ∧ 0 < data.size :=
  ⟨(h.placed hdata).lo, (h.placed hdata).inBlock, (h.placed hdata).pos⟩

theorem Simulates.initial (cfg : Config) (mem : Memory) :
    Simulates cfg Store.empty { heap := .initial mem, roots := [] } fun _ => FatPtr.ofAddr 0 where
  heap := HeapInv.initial cfg mem
  numbered := Store.numbered_empty
  usable := fun r hr => by cases hr
  null := fun r hr => by cases hr
  held := fun r hr => by cases hr
  injective := fun r hr => by cases hr

theorem Simulates.heapInv (h : Simulates cfg store { heap := s, roots } addr) : HeapInv cfg s :=
  h.heap

/-- A simulation depends on nothing but what its slots designate and the bytes of its footprint. -/
theorem Simulates.transport (h : Simulates cfg store { heap := s, roots } addr) {mem : Memory}
    (hnumbered : store'.Numbered)
    (hroots : ∀ r ∈ roots', r ∈ roots ∧ store'.root r = store.root r)
    (hobjects : ∀ r ∈ roots', ∀ o, store.root r = some o → store'.size o = store.size o ∧
      store'.content o = store.content o ∧ addr' o = addr o)
    (hmem : ∀ x, Footprint cfg roots' x → mem x = s.mem x) :
    Simulates cfg store' { heap := { s with mem }, roots := roots' } addr' := by
  have hslot : ∀ r ∈ roots', testPtr mem r = testPtr s.mem r := fun r hr =>
    testPtr_of_bytes fun i hi => hmem _ (footprint_slot hr hi)
  refine
    { heap := h.heap.with_mem mem
      numbered := hnumbered
      usable := fun r hr => ?_
      null := fun r hr ho => ?_
      held := fun r hr o ho => ?_
      injective := fun r hr r' hr' o o' ho ho' heq => ?_ }
  · have husable := h.usable r (hroots r hr).1
    exact { apart := husable.apart, disjoint := fun q hq => husable.disjoint q (hroots q hq).1 }
  · rw [(hroots r hr).2] at ho
    exact (hslot r hr).trans (h.null r (hroots r hr).1 ho)
  · rw [(hroots r hr).2] at ho
    obtain ⟨hheld, ⟨data, hdata, hdsize⟩, hbytes⟩ := h.held r (hroots r hr).1 o ho
    obtain ⟨hsize, hcontent, haddr⟩ := hobjects r hr o ho
    refine ⟨(hslot r hr).trans (haddr ▸ hheld), ⟨data, haddr ▸ hdata, hdsize.trans hsize.symm⟩,
      fun k b hb => ?_⟩
    rw [hcontent] at hb
    obtain ⟨hk, hbyte⟩ := hbytes k b hb
    obtain ⟨hlo, hin, _⟩ := h.heapInv.inBlock hdata
    rw [hsize, haddr]
    exact ⟨hk, (hmem _ (Or.inl ⟨s.spaceNum, by omega, by omega⟩)).trans hbyte⟩
  · rw [(hroots r hr).2] at ho
    rw [(hroots r' hr').2] at ho'
    rw [(hobjects r hr o ho).2.2, (hobjects r' hr' o' ho').2.2] at heq
    exact h.injective r (hroots r hr).1 r' (hroots r' hr').1 o o' ho ho' heq

theorem Simulates.restrict (h : Simulates cfg store { heap := s, roots } addr)
    (hroots : ∀ r ∈ roots', r ∈ roots) : Simulates cfg store { heap := s, roots := roots' } addr :=
  h.transport h.numbered (fun r hr => ⟨hroots r hr, rfl⟩) (fun _ _ _ _ => ⟨rfl, rfl, rfl⟩)
    fun _ _ => rfl

theorem Simulates.inBlock (h : Simulates cfg store { heap := s, roots } addr) {r o : Nat}
    (hr : r ∈ roots) (ho : store.root r = some o) :
    cfg.base s.spaceNum ≤ (addr o).asPtr ∧
      (addr o).asPtr < cfg.base s.spaceNum + cfg.heapSize := by
  obtain ⟨data, hdata, _⟩ := (h.held r hr o ho).2.block
  obtain ⟨hlo, hin, hpos⟩ := h.heapInv.inBlock hdata
  exact ⟨hlo, by omega⟩

theorem usable_insert {slot : Nat} (hroots : ∀ r ∈ roots, Usable cfg roots r)
    (hslot : Usable cfg roots slot) :
    ∀ r ∈ roots.insert slot, Usable cfg (roots.insert slot) r := by
  intro r hr
  rcases List.mem_insert_iff.mp hr with heq | hr
  · rw [heq]
    refine { apart := hslot.apart, disjoint := fun q hq => ?_ }
    rcases List.mem_insert_iff.mp hq with hq | hq
    · exact Or.inl hq
    · exact hslot.disjoint q hq
  · refine { apart := (hroots r hr).apart, disjoint := fun q hq => ?_ }
    rcases List.mem_insert_iff.mp hq with hq | hq
    · rw [hq]
      exact (hslot.disjoint r hr).imp Eq.symm Or.symm
    · exact (hroots r hr).disjoint q hq

end Part

theorem writeFatPtr_outside {m : Memory} {a x : Nat} {ptr : FatPtr}
    (h : x < a ∨ a + gcPtrSize ≤ x) : writeFatPtr m a ptr x = m x := by
  have hsize : gcPtrSize = 16 := rfl
  have hagree : AgreeOn (writeFatPtr m a ptr) m x 1 := agreeOn_writeFatPtr (by omega)
  have hbyte := hagree 0 Nat.one_pos
  rwa [Nat.add_zero] at hbyte

/-- No object ends outside of its block. -/
theorem HeapInv.contained (h : HeapInv cfg s) : Contained cfg s := by
  intro ptr data space hdata hspace
  rw [Option.some.inj (hspace.symm.trans (h.settled.findSpace hdata))]
  exact (h.inBlock hdata).2.1

/-! ### All collectors -/

variable {ι : Type} [DecidableEq ι] {cs : Collectors ι} {store : Store Nat UInt8}
  {owner : Nat → ι} {addr : Nat → FatPtr} {p q : Shared ι} {i j : ι}

/-- The slots that designate nothing or an object of the collector. -/
def ownSlots (store : Store Nat UInt8) (owner : Nat → ι) (i : ι) (roots : List Nat) : List Nat :=
  roots.filter fun r => (store.root r).all fun o => owner o = i

theorem mem_ownSlots {roots : List Nat} {r : Nat} : r ∈ ownSlots store owner i roots ↔
    r ∈ roots ∧ ∀ o, store.root r = some o → owner o = i := by
  rw [ownSlots, List.mem_filter, Option.all_eq_true]
  simp only [decide_eq_true_eq]

theorem ownSlots_some {roots : List Nat} {r o : Nat} (hr : r ∈ roots) (ho : store.root r = some o) :
    r ∈ ownSlots store owner (owner o) roots :=
  mem_ownSlots.mpr ⟨hr, fun o' ho' => by rw [Option.some.inj (ho.symm.trans ho')]⟩

theorem ownSlots_none {roots : List Nat} {r : Nat} (hr : r ∈ roots) (ho : store.root r = none) :
    r ∈ ownSlots store owner j roots :=
  mem_ownSlots.mpr ⟨hr, fun o ho' => by
    rw [ho] at ho'
    cases ho'⟩

/-- Every object has an owner, and the owners hold the objects at the addresses `addr`. -/
structure SharedSim (cs : Collectors ι) (store : Store Nat UInt8) (owner : Nat → ι)
    (addr : Nat → FatPtr) (p : Shared ι) : Prop where
  numbered : store.Numbered
  usable : ∀ i, ∀ r ∈ p.roots, Usable (cs.cfg i) p.roots r
  part : ∀ i, Simulates (cs.cfg i) store
    { heap := p.view i, roots := ownSlots store owner i p.roots } addr

namespace SharedSim

omit [DecidableEq ι] in
theorem foreign_apart (cs : Collectors ι) (hne : i ≠ j) {x : Nat} {space : SpaceNum}
    (hlo : (cs.cfg j).base space ≤ x) (hhi : x < (cs.cfg j).base space + (cs.cfg j).heapSize) :
    Outside (cs.cfg i) x := by
  intro space'
  have hdisjoint := cs.disjoint i j hne space' space
  omega

/-- No collector manages an address of an object of another. -/
theorem lookup_foreign (h : SharedSim cs store owner addr p) {r o : Nat} {data : MetaData}
    (hr : r ∈ p.roots) (ho : store.root r = some o)
    (hdata : (p.fields i).metadata.lookup (addr o) = some data) : owner o = i := by
  by_contra hne
  obtain ⟨hlo, hhi⟩ := (h.part (owner o)).inBlock (ownSlots_some hr ho) ho
  obtain ⟨hge, hin, hpos⟩ := (h.part i).heapInv.inBlock hdata
  have hout := foreign_apart cs (Ne.symm hne) hlo hhi (p.view i).spaceNum
  omega

/-- A slot of the collector is one of nothing or of an object with an address of its own. -/
theorem passive (h : SharedSim cs store owner addr p) (hne : i ≠ j) {r : Nat}
    (hr : r ∈ ownSlots store owner j p.roots) {ptr : FatPtr} (hptr : testPtr p.mem r = some ptr) :
    contains (cs.cfg i) ptr.asPtr = false := by
  have hout : Outside (cs.cfg i) ptr.asPtr := by
    cases ho : store.root r with
    | none =>
        have hnull := (h.part j).null r hr ho
        rw [Option.some.inj (hptr.symm.trans hnull), FatPtr.asPtr_ofAddr_of_lt (by decide)]
        exact fun space => Or.inl ((cs.cfg i).base_pos space)
    | some o =>
        have hheld := ((h.part j).held r hr o ho).1
        rw [Option.some.inj (hptr.symm.trans hheld)]
        obtain ⟨hlo, hhi⟩ := (h.part j).inBlock hr ho
        exact foreign_apart cs hne hlo hhi
  by_contra hcontains
  rw [Bool.not_eq_false, contains_iff] at hcontains
  obtain ⟨space, hspace⟩ := Option.isSome_iff_exists.mp hcontains
  have hin := findSpace_eq_some_iff.mp hspace
  have := hout space
  omega

/-! ### Assignments -/

/-- An assignment concerns the collectors whose slots the target then is one of. For the others it
is a write outside of their footprint. -/
theorem assign (h : SharedSim cs store owner addr p) {e : RootEvent} {slot : Nat} {mem : Memory}
    {fields : ι → Fields} {owner' : Nat → ι} {addr' : Nat → FatPtr} (htarget : e.target = some slot)
    (hslot : ∀ j, Usable (cs.cfg j) p.roots slot)
    (hmem : ∀ x, x < slot ∨ slot + gcPtrSize ≤ x → mem x = p.mem x)
    (hold : ∀ o < store.next, (store.apply e).size o = store.size o ∧
      (store.apply e).content o = store.content o ∧ owner' o = owner o ∧ addr' o = addr o)
    (hpart : ∀ j, (∀ o, (store.apply e).root slot = some o → owner' o = j) →
      Simulates (cs.cfg j) (store.apply e)
        { heap := Shared.view { fields, mem, roots := p.roots } j
          roots := (ownSlots store owner j p.roots).insert slot } addr')
    (hfields : ∀ j, (¬ ∀ o, (store.apply e).root slot = some o → owner' o = j) →
      fields j = p.fields j) :
    SharedSim cs (store.apply e) owner' addr' { fields, mem, roots := p.roots.insert slot } := by
  have hsame : ∀ {r}, r ≠ slot → (store.apply e).root r = store.root r := fun hne =>
    store.root_apply_of_ne fun heq => hne (Option.some.inj (heq.symm.trans htarget))
  have hown : ∀ {j r}, r ∈ ownSlots (store.apply e) owner' j (p.roots.insert slot) → r ≠ slot →
      r ∈ ownSlots store owner j p.roots := by
    intro j r hr hne
    obtain ⟨hmember, howner⟩ := mem_ownSlots.mp hr
    refine mem_ownSlots.mpr ⟨(List.mem_insert_iff.mp hmember).resolve_left hne, fun o ho => ?_⟩
    rw [← (hold o (h.numbered r o ho)).2.2.1]
    exact howner o ((hsame hne).trans ho)
  refine
    { numbered := h.numbered.apply e
      usable := fun j => usable_insert (h.usable j) (hslot j)
      part := fun j => ?_ }
  by_cases hconcerns : ∀ o, (store.apply e).root slot = some o → owner' o = j
  · refine (hpart j hconcerns).restrict fun r hr => List.mem_insert_iff.mpr ?_
    by_cases hne : r = slot
    · exact Or.inl hne
    · exact Or.inr (hown hr hne)
  · have hother : ∀ r ∈ ownSlots (store.apply e) owner' j (p.roots.insert slot), r ≠ slot := by
      rintro r hr rfl
      exact hconcerns (mem_ownSlots.mp hr).2
    have hview : Shared.view { fields, mem, roots := p.roots.insert slot } j =
        { p.view j with mem } := by
      simp only [Shared.view, hfields j hconcerns]
    rw [hview]
    refine (h.part j).transport (h.numbered.apply e)
      (fun r hr => ⟨hown hr (hother r hr), hsame (hother r hr)⟩) (fun r hr o ho => ?_) fun x hx => ?_
    · obtain ⟨hsize, hcontent, _, haddr⟩ := hold o (h.numbered r o ho)
      exact ⟨hsize, hcontent, haddr⟩
    · apply hmem
      rcases hx with ⟨space, hlo, hhi⟩ | ⟨r, hr, hlo, hhi⟩
      · have happart := (hslot j).apart space
        omega
      · have hin := (mem_ownSlots.mp (hown hr (hother r hr))).1
        have hdisjoint := (hslot j).disjoint r hin
        have hne := hother r hr
        omega

/-- What a slot gets that designates nothing or an old object. -/
theorem assign_old (h : SharedSim cs store owner addr p) {e : RootEvent} {slot : Nat} {mem : Memory}
    (htarget : e.target = some slot) (hslot : ∀ j, Usable (cs.cfg j) p.roots slot)
    (hmem : ∀ x, x < slot ∨ slot + gcPtrSize ≤ x → mem x = p.mem x)
    (hsize : (store.apply e).size = store.size) (hcontent : (store.apply e).content = store.content)
    (hpart : ∀ j, (∀ o, (store.apply e).root slot = some o → owner o = j) →
      Simulates (cs.cfg j) (store.apply e)
        { heap := { p.view j with mem }, roots := (ownSlots store owner j p.roots).insert slot }
        addr) :
    SharedSim cs (store.apply e) owner addr (p.assign slot mem) :=
  h.assign htarget hslot hmem
    (fun o _ => ⟨congrFun hsize o, congrFun hcontent o, rfl, rfl⟩) hpart fun _ _ => rfl

theorem copy (h : SharedSim cs store owner addr p) {dst src : Nat} (hsrc : src ∈ p.roots)
    (hdst : ∀ j, Usable (cs.cfg j) p.roots dst) :
    SharedSim cs (store.apply (.copy dst src)) owner addr
      (p.assign dst (move p.mem dst src gcPtrSize)) := by
  refine h.assign_old rfl hdst (fun x hx => move_outside hx) rfl rfl fun j hj => ?_
  have hown : src ∈ ownSlots store owner j p.roots := by
    refine mem_ownSlots.mpr ⟨hsrc, fun o ho => hj o ?_⟩
    rw [Store.root_apply_of_eq store rfl]
    exact ho
  refine (h.part j).copy hown
    { apart := (hdst j).apart, disjoint := fun r hr => ?_ }
  exact (hdst j).disjoint r (mem_ownSlots.mp hr).1

theorem clear (h : SharedSim cs store owner addr p) {slot : Nat}
    (hslot : ∀ j, Usable (cs.cfg j) p.roots slot) :
    SharedSim cs (store.apply (.clear slot)) owner addr
      (p.assign slot (writeFatPtr p.mem slot (FatPtr.ofAddr 0))) := by
  refine h.assign_old rfl hslot (fun x hx => writeFatPtr_outside hx) rfl rfl fun j _ => ?_
  refine (h.part j).clear { apart := (hslot j).apart, disjoint := fun r hr => ?_ }
  exact (hslot j).disjoint r (mem_ownSlots.mp hr).1

/-- A new object belongs to the collector that has allocated it. -/
theorem alloc (h : SharedSim cs store owner addr p) {size alignment slot padding : Nat}
    (hpos : 0 < size) (hsmall : SmallAlignment alignment)
    (hdvd : alignment ∣ (cs.cfg i).base (p.view i).spaceNum +
      ((p.view i).nexts (p.view i).spaceNum + padding))
    (hfit : (p.view i).nexts (p.view i).spaceNum + size + padding < (cs.cfg i).heapSize)
    (hslot : ∀ j, Usable (cs.cfg j) p.roots slot) :
    ∃ owner' addr', SharedSim cs (store.apply (.alloc slot size)) owner' addr'
      ((p.leave i ((p.view i).allocated (cs.cfg i) size alignment padding)).assign slot
        (writeFatPtr p.mem slot (FatPtr.ofAddr ((cs.cfg i).base (p.view i).spaceNum +
          ((p.view i).nexts (p.view i).spaceNum + padding))))) := by
  have hown : (store.apply (.alloc slot size)).root slot = some store.next :=
    Store.root_apply_of_eq store rfl
  refine ⟨Function.update owner store.next i, Function.update addr store.next
    (FatPtr.ofAddr ((cs.cfg i).base (p.view i).spaceNum +
      ((p.view i).nexts (p.view i).spaceNum + padding))),
    h.assign rfl hslot (fun x hx => writeFatPtr_outside hx) (fun o ho => ?_) (fun j hj => ?_)
      fun j hj => ?_⟩
  · have hne : o ≠ store.next := Nat.ne_of_lt ho
    exact ⟨Function.update_of_ne hne _ _, Function.update_of_ne hne _ _,
      Function.update_of_ne hne _ _, Function.update_of_ne hne _ _⟩
  · have heq := hj _ hown
    rw [Function.update_self] at heq
    subst heq
    have husable : Usable (cs.cfg i) (ownSlots store owner i p.roots) slot :=
      { apart := (hslot i).apart
        disjoint := fun r hr => (hslot i).disjoint r (mem_ownSlots.mp hr).1 }
    have hpart := (h.part i).alloc hpos hsmall hdvd hfit husable
    simp only [Shared.view, Shared.leave, Function.update_self, State.fields]
    exact hpart
  · refine Function.update_of_ne (fun heq => hj fun o ho => ?_) _ _
    rw [hown, Option.some_inj] at ho
    rw [← ho, Function.update_self, heq]

/-! ### The other steps -/

/-- A byte is written into an object of the collector, or not at all. -/
theorem write (h : SharedSim cs store owner addr p) {slot offset : Nat} {ptr : FatPtr}
    {data : MetaData} (byte : UInt8) (hslot : slot ∈ p.roots)
    (hload : atomicLoad p.mem slot = some ptr)
    (hdata : (p.fields i).metadata.lookup ptr = some data) (hoffset : offset < data.size) :
    SharedSim cs (store.apply (.write slot offset byte)) owner addr
      { p with mem := Function.update p.mem (ptr.asPtr + offset) byte } := by
  have hobject : ∀ {k o}, slot ∈ ownSlots store owner k p.roots → store.root slot = some o →
      ptr = addr o := fun hk ho =>
    Option.some.inj (hload.symm.trans (atomicLoad_of_testPtr ((h.part _).held slot hk _ ho).1))
  have howner : ∀ o, store.root slot = some o → owner o = i := by
    intro o ho
    rw [hobject (ownSlots_some hslot ho) ho] at hdata
    exact h.lookup_foreign hslot ho hdata
  have hown : slot ∈ ownSlots store owner i p.roots := mem_ownSlots.mpr ⟨hslot, howner⟩
  refine { numbered := h.numbered.apply _, usable := h.usable, part := fun j => ?_ }
  by_cases hji : j = i
  · subst hji
    exact (h.part j).write byte hown hload hdata hoffset
  · obtain ⟨hlo, hin, _⟩ := (h.part i).heapInv.inBlock hdata
    refine (h.part j).transport (h.numbered.apply _) (fun r hr => ⟨hr, rfl⟩) (fun r hr o ho => ?_)
      fun x hx => Function.update_of_ne ?_ _ _
    · refine ⟨rfl, funext fun k => if_neg fun hand => hji ?_, rfl⟩
      rw [← howner o hand.1, (mem_ownSlots.mp hr).2 o ho]
    · rintro rfl
      rcases hx with ⟨space, hge, hlt⟩ | ⟨r, hr, hge, hlt⟩
      · have hout := foreign_apart cs (Ne.symm hji) hge hlt (p.view i).spaceNum
        omega
      · have happart := (h.usable i r (mem_ownSlots.mp hr).1).apart (p.view i).spaceNum
        omega

/-- What a collection leaves alone includes the footprints of the other collectors. -/
theorem collect_foreign (h : SharedSim cs store owner addr p) (hne : i ≠ j)
    {gcRoots extraRoots : List Nat} {result : Visited × List FatPtr} {t : State}
    (hroots : ∀ slot, slot ∈ gcRoots ++ extraRoots → slot ∈ p.roots)
    (hrun : (asyncCollect (cs.cfg i) (cs.policy i) gcRoots extraRoots).run (p.view i) =
      .ok result t) :
    ∀ x, Footprint (cs.cfg j) (ownSlots store owner j p.roots) x → t.mem x = p.mem x := by
  have hsize : gcPtrSize = 16 := rfl
  have halone : ∀ x, Footprint (cs.cfg j) (ownSlots store owner j p.roots) x →
      Outside (cs.cfg i) x := by
    rintro x (⟨space, hlo, hhi⟩ | ⟨r, hr, hlo, hhi⟩)
    · exact foreign_apart cs hne hlo hhi
    · intro space
      have happart := (h.usable i r (mem_ownSlots.mp hr).1).apart space
      omega
  have hslots : ∀ r ∈ gcRoots ++ extraRoots,
      SlotFree (Footprint (cs.cfg j) (ownSlots store owner j p.roots)) r ∨
        Passive (cs.cfg i) (Footprint (cs.cfg j) (ownSlots store owner j p.roots)) p.mem r := by
    intro r hr
    by_cases hown : r ∈ ownSlots store owner j p.roots
    · exact Or.inr ⟨fun k hk => footprint_slot hown hk, fun ptr hptr => h.passive hne hown hptr⟩
    · refine Or.inl fun x hx => ?_
      have husable := h.usable j r (hroots r hr)
      rcases hx with ⟨space, hlo, hhi⟩ | ⟨q, hq, hlo, hhi⟩
      · have happart := husable.apart space
        omega
      · have hdisjoint := husable.disjoint q (mem_ownSlots.mp hq).1
        have hqr : q ≠ r := fun heq => hown (heq ▸ hq)
        omega
  have hframe : LeavesAlone (cs.cfg i) _ (p.view i) (finalState
      ((asyncCollect (cs.cfg i) (cs.policy i) gcRoots extraRoots).run (p.view i))) :=
    asyncCollect_frame halone hslots
  rw [hrun] at hframe
  exact (hframe (h.part i).heapInv.contained).2

/-- A collection moves the objects of its collector and stays out of the footprints of the
others. -/
theorem collect (hcopies : (cs.policy i).Copies) (h : SharedSim cs store owner addr p)
    {gcRoots extraRoots : List Nat} {result : Visited × List FatPtr} {t : State}
    (hroots : ∀ slot, slot ∈ gcRoots ++ extraRoots ↔ slot ∈ p.roots)
    (hrun : (asyncCollect (cs.cfg i) (cs.policy i) gcRoots extraRoots).run (p.view i) =
      .ok result t) :
    ∃ addr', SharedSim cs store owner addr' (p.leave i t) := by
  refine ⟨fun o => if owner o = i then (result.1.lookup (addr o)).getD (FatPtr.ofAddr 0)
    else addr o, h.numbered, h.usable, fun j => ?_⟩
  by_cases hji : j = i
  · subst hji
    have hpart := (h.part j).collect hcopies (cs.apart j)
      (fun slot hslot => (hroots slot).mpr (mem_ownSlots.mp hslot).1)
      (fun slot hslot => (h.usable j slot ((hroots slot).mp hslot)).apart) hrun
    have hview : (p.leave j t).view j = t := by
      simp only [Shared.view, Shared.leave, Function.update_self, State.fields]
    rw [hview]
    refine hpart.transport h.numbered (fun r hr => ⟨hr, rfl⟩) (fun r hr o ho => ⟨rfl, rfl, ?_⟩)
      fun _ _ => rfl
    exact if_pos ((mem_ownSlots.mp hr).2 o ho)
  · have hview : (p.leave i t).view j = { p.view j with mem := t.mem } := by
      simp only [Shared.view, Shared.leave, Function.update_of_ne hji]
    rw [hview]
    refine (h.part j).transport h.numbered (fun r hr => ⟨hr, rfl⟩) (fun r hr o ho => ⟨rfl, rfl, ?_⟩)
      ?_
    · refine if_neg fun heq => hji ?_
      rw [← heq, (mem_ownSlots.mp hr).2 o ho]
    · exact h.collect_foreign (Ne.symm hji) (fun slot hslot => (hroots slot).mp hslot) hrun

theorem drop (h : SharedSim cs store owner addr p) (slot : Nat) :
    SharedSim cs (store.apply (.drop slot)) owner addr
      { p with roots := p.roots.filter (· ≠ slot) } := by
  have hmem : ∀ {r}, r ∈ p.roots.filter (· ≠ slot) → r ∈ p.roots ∧ r ≠ slot := fun hr => by
    simpa using hr
  have hroot : ∀ {r}, r ≠ slot → (store.apply (.drop slot)).root r = store.root r := fun hne =>
    store.root_apply_of_ne fun heq => hne (Option.some.inj heq).symm
  refine { numbered := h.numbered.apply _, usable := fun j r hr => ?_, part := fun j => ?_ }
  · have husable := h.usable j r (hmem hr).1
    exact { apart := husable.apart, disjoint := fun q hq => husable.disjoint q (hmem hq).1 }
  · refine ((h.part j).drop slot).restrict fun r hr => ?_
    obtain ⟨hin, howner⟩ := mem_ownSlots.mp hr
    obtain ⟨hold, hne⟩ := hmem hin
    refine List.mem_filter.mpr ⟨mem_ownSlots.mpr ⟨hold, fun o ho => ?_⟩, decide_eq_true hne⟩
    exact howner o ((hroot hne).trans ho)

theorem leave_view (p : Shared ι) (i : ι) : p.leave i (p.view i) = p := by
  have hfields : (p.view i).fields = p.fields i := rfl
  rw [Shared.leave, hfields, Function.update_eq_self]
  rfl

theorem step (hcopies : ∀ i, (cs.policy i).Copies) (h : SharedSim cs store owner addr p)
    {e : RootEvent} (hstep : SharedStep cs p e q) :
    ∃ owner' addr', SharedSim cs (store.apply e) owner' addr' q := by
  cases hstep with
  | alloc i gcRoots size alignment slot ptr t hsmall hslot hrun =>
      rcases run_alloc_cases (h.part i).heapInv (cs.policy i) gcRoots size hsmall with
        ⟨_, hcase⟩ | ⟨_, _, hcase⟩ | ⟨⟨hpos, hmax⟩, padding, _, hdvd, hfit, hcase⟩
      · rw [hrun] at hcase
        cases hcase
      · rw [hrun] at hcase
        cases hcase
      · have hheap := (cs.cfg i).maxAllocSize_lt (by omega)
        rw [hrun] at hcase
        cases hcase
        exact h.alloc hpos hsmall hdvd (by omega) hslot
  | allocFailed i gcRoots size alignment e t hsmall hrun =>
      rcases run_alloc_cases (h.part i).heapInv (cs.policy i) gcRoots size hsmall with
        ⟨_, hcase⟩ | ⟨_, _, hcase⟩ | ⟨_, _, _, _, _, hcase⟩
      · rw [hrun] at hcase
        cases hcase
        rw [leave_view]
        exact ⟨owner, addr, h⟩
      · rw [hrun] at hcase
        cases hcase
        rw [leave_view]
        exact ⟨owner, addr, h⟩
      · rw [hrun] at hcase
        cases hcase
  | copy dst src hsrc hdst => exact ⟨owner, addr, h.copy hsrc hdst⟩
  | clear slot hslot => exact ⟨owner, addr, h.clear hslot⟩
  | write i slot offset byte ptr data hslot hload hdata hoffset =>
      exact ⟨owner, addr, h.write byte hslot hload hdata hoffset⟩
  | collect i gcRoots extraRoots result t hroots hrun =>
      exact ⟨owner, h.collect (hcopies i) hroots hrun⟩
  | drop slot => exact ⟨owner, addr, h.drop slot⟩

theorem initial (cs : Collectors ι) (owner : Nat → ι) (mem : Memory) :
    SharedSim cs Store.empty owner (fun _ => FatPtr.ofAddr 0) (.initial mem) where
  numbered := Store.numbered_empty
  usable := fun i r hr => by cases hr
  part := fun i => Simulates.initial (cs.cfg i) mem

/-- Objects of different collectors have different addresses. -/
theorem addr_ne (h : SharedSim cs store owner addr p) {r r' o o' : Nat} (hr : r ∈ p.roots)
    (hr' : r' ∈ p.roots) (ho : store.root r = some o) (ho' : store.root r' = some o')
    (hne : owner o ≠ owner o') : addr o ≠ addr o' := by
  intro heq
  obtain ⟨hlo, hhi⟩ := (h.part _).inBlock (ownSlots_some hr ho) ho
  obtain ⟨hlo', hhi'⟩ := (h.part _).inBlock (ownSlots_some hr' ho') ho'
  rw [heq] at hlo hhi
  have hout := foreign_apart cs hne hlo' hhi' (p.view (owner o)).spaceNum
  omega

theorem sharing (h : SharedSim cs store owner addr p) {r r' : Nat} (hr : r ∈ p.roots)
    (hr' : r' ∈ p.roots) : testPtr p.mem r = testPtr p.mem r' ↔ store.root r = store.root r' := by
  by_cases hboth : ∃ j, r ∈ ownSlots store owner j p.roots ∧ r' ∈ ownSlots store owner j p.roots
  · obtain ⟨j, hown, hown'⟩ := hboth
    exact (h.part j).testPtr_eq_iff hown hown'
  -- otherwise they designate objects of different collectors
  cases ho : store.root r with
  | none =>
      cases ho' : store.root r' with
      | none => exact absurd ⟨owner 0, ownSlots_none hr ho, ownSlots_none hr' ho'⟩ hboth
      | some o' => exact absurd ⟨owner o', ownSlots_none hr ho, ownSlots_some hr' ho'⟩ hboth
  | some o =>
      cases ho' : store.root r' with
      | none => exact absurd ⟨owner o, ownSlots_some hr ho, ownSlots_none hr' ho'⟩ hboth
      | some o' =>
          have hne : owner o ≠ owner o' := fun heq =>
            hboth ⟨owner o, ownSlots_some hr ho, heq ▸ ownSlots_some hr' ho'⟩
          refine iff_of_false (fun heq => ?_) fun heq => hne (by rw [Option.some.inj heq])
          have hheld : testPtr p.mem r = some (addr o) :=
            ((h.part (owner o)).held r (ownSlots_some hr ho) o ho).1
          have hheld' : testPtr p.mem r' = some (addr o') :=
            ((h.part (owner o')).held r' (ownSlots_some hr' ho') o' ho').1
          rw [hheld, hheld', Option.some_inj] at heq
          exact h.addr_ne hr hr' ho ho' hne heq

theorem faithful (h : SharedSim cs store owner addr p) (i : ι) : Faithful store (p.program i) where
  bytes := fun r hr o k b ho hb =>
    (h.part (owner o)).faithful.bytes r (ownSlots_some hr ho) o k b ho hb
  sharing := fun _ hr _ hr' => h.sharing hr hr'

end SharedSim

theorem SharedRun.simulates (hcopies : ∀ i, (cs.policy i).Copies) (owner : Nat → ι)
    {events : List RootEvent} (hrun : SharedRun cs events p) :
    ∃ owner addr, SharedSim cs (Store.after events) owner addr p := by
  induction hrun with
  | start mem => exact ⟨owner, _, .initial cs owner mem⟩
  | step _ hstep ih =>
      obtain ⟨owner, addr, h⟩ := ih
      rw [Store.after_concat]
      exact h.step hcopies hstep

/-- **The collectors refine one object store.** Whatever their calls and collections, in any order:
the root slots show the bytes last written into what they designate, and two of them hold equal
pointers exactly if they designate the same object. -/
theorem collectors_refine_store (hcopies : ∀ i, (cs.policy i).Copies) {events : List RootEvent}
    (hrun : SharedRun cs events p) (i : ι) : Faithful (Store.after events) (p.program i) := by
  obtain ⟨owner, addr, h⟩ := hrun.simulates hcopies fun _ => i
  exact h.faithful i

/-- A collector like that of the sample, with blocks of its own. -/
def Config.second : Config where
  __ := Config.sample
  base space := Config.sample.base space + 196608
  base_pos := by rintro (_ | _) <;> decide
  base_aligned := by rintro (_ | _) <;> decide
  base_lt := by rintro (_ | _) <;> decide
  spaces_disjoint := by decide

def Collectors.sample : Collectors Bool where
  cfg := fun i => if i then Config.second else Config.sample
  policy := fun _ => GenPolicy.copying
  apart := by rintro (_ | _) <;> exact Or.inl (by decide)
  disjoint := by rintro (_ | _) (_ | _) hne (_ | _) (_ | _) <;> first | contradiction | decide

/-- Two collectors, each with an object in a slot of its own. A byte of the object of the second is
written, and the second collects. -/
theorem collectors_refine_store_sample :
    ∃ p, SharedRun Collectors.sample
        [.alloc 1024 64, .alloc 2048 32, .write 1024 3 7, .collect] p ∧
      Faithful (Store.after [.alloc 1024 64, .alloc 2048 32, .write 1024 3 7, .collect])
        (p.program true) := by
  have height : SmallAlignment 8 := ⟨3, by decide, rfl⟩
  have husable : ∀ roots slot, slot ≤ 4096 →
      (∀ root ∈ roots, root = slot ∨ root + gcPtrSize ≤ slot ∨ slot + gcPtrSize ≤ root) →
      ∀ j, Usable (Collectors.sample.cfg j) roots slot := by
    intro roots slot hslot hdisjoint j
    have hbase : ∀ space, 4096 + gcPtrSize ≤ (Collectors.sample.cfg j).base space := by
      cases j <;> rintro (_ | _) <;> decide
    exact { apart := fun space => Or.inl ((Nat.add_le_add_right hslot _).trans (hbase space))
            disjoint := hdisjoint }
  have hempty : ∀ j space,
      calcAlignmentBytes ((Collectors.sample.cfg j).base space + 0) 8 = some 0 := fun j space =>
    calcAlignmentBytes_of_dvd height (by cases j <;> cases space <;> decide)
  have hfirst := run_alloc_of_fits (HeapInv.initial Config.second fun _ => 0) .copying []
    (show 0 < 64 by decide) (by decide) (hempty true _) (by decide)
  have hone : SharedRun Collectors.sample [.alloc 1024 64] _ :=
    .step (.start fun _ => 0) (.alloc _ true [] 64 8 1024 _ _ height
      (husable _ _ (by decide) fun r hr => by cases hr) hfirst)
  have hsecond := run_alloc_of_fits (HeapInv.initial Config.sample
      (writeFatPtr (fun _ => 0) 1024 (FatPtr.ofAddr 262144))) .copying []
    (show 0 < 32 by decide) (by decide) (hempty false _) (by decide)
  have htwo : SharedRun Collectors.sample [.alloc 1024 64, .alloc 2048 32] _ :=
    .step hone (.alloc _ false [] 32 8 2048 _ _ height
      (husable _ _ (by decide) (by decide)) hsecond)
  have hload : atomicLoad (writeFatPtr (writeFatPtr (fun _ => 0) 1024 (FatPtr.ofAddr 262144)) 2048
      (FatPtr.ofAddr 65536)) 1024 = some (FatPtr.ofAddr 262144) := by
    apply atomicLoad_of_testPtr
    rw [testPtr_writeFatPtr_of_apart (Or.inl (by decide))]
    exact testPtr_writeFatPtr_self
  have hthree : SharedRun Collectors.sample
      [.alloc 1024 64, .alloc 2048 32, .write 1024 3 7] _ :=
    .step htwo (.write _ true 1024 3 7 (FatPtr.ofAddr 262144) ⟨64, 8⟩ (by decide) hload
      (by decide +kernel) (by decide))
  have haccounted : Accounted Config.second
      ((State.initial fun _ => 0).allocated Config.second 64 8 0) :=
    (Accounted.initial Config.second fun _ => 0).allocated (by decide) height (by decide)
      (by decide) (by decide)
  obtain ⟨r, t, hrun, _⟩ := (haccounted.with_mem _).collect_total
    GenPolicy.copying_copies [2048, 1024] []
  have hroots : ∀ slot, slot ∈ [2048, 1024] ++ [] ↔ slot ∈ [2048, 1024] := fun slot => by simp
  have hcollected : SharedRun Collectors.sample
      [.alloc 1024 64, .alloc 2048 32, .write 1024 3 7, .collect] _ :=
    .step hthree (.collect _ true [2048, 1024] [] r t hroots hrun)
  exact ⟨_, hcollected,
    collectors_refine_store (fun _ => GenPolicy.copying_copies) hcollected true⟩

end Gcpp
