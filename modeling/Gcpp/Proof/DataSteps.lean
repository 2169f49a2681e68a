import Gcpp.Proof.Homes

/-!
# Loads, stores and copies

What the threads have loaded and the root slots hold always refers to an object by an address at
which it has its home, or had it before. A store that lands changes the home of the bytes it is
meant for and of no others, and a step of the task leaves every byte in its home.
-/

namespace Gcpp.Concurrent

open ByteMemory StateExcept Arena

variable {cfg : Config} {roots : RootSlots cfg} {s : Sys roots} {r r' : Running} {origin : State}
  {ptr obj newObj : FatPtr} {data : MetaData} {i p : Nat}

/-! ### The steps of a thread -/

/-- Where the task stands: it has not started, it is running, or it has come to its end. -/
def Phase (s : Sys roots) (r : Running) : Prop :=
  (s.tasks = [r.toSpace] ∧ s.worker = none ∧
      r = { r with visited := ∅, roots := roots.slots, stack := [], stage := .roots }) ∨
    (s.tasks = [] ∧ s.worker = some r) ∨
    (s.Quiet ∧ r.stage = .sweep ∧ r.toSpace = s.heap.spaceNum)

structure WriteInv (origin : State) (w : WriteSys roots) (r : Running) : Prop where
  inv : Inv w.sys
  phase : Phase w.sys r
  copying : Copying roots origin.metadata w.sys.heap.metadata r
  mirrors : Mirrors roots origin w.sys.heap.mem w.loaded w.written r

theorem objectAt_eq_some {slot : Nat} :
    origin.objectAt slot = some (obj, data) ↔
      testPtr origin.mem slot = some obj ∧ origin.metadata.lookup obj = some data := by
  simp only [State.objectAt, Option.bind_eq_some_iff, Option.map_eq_some_iff, Prod.mk.injEq]
  constructor
  · rintro ⟨ptr, hptr, d, hd, rfl, rfl⟩
    exact ⟨hptr, hd⟩
  · rintro ⟨hptr, hd⟩
    exact ⟨obj, hptr, data, hd, rfl, rfl⟩

namespace WriteInv

variable {w u : WriteSys roots} {t : ThreadId}

/-- **A thread loads a root slot.** -/
theorem load (h : WriteInv origin w r) {slot : roots.Slot} (hstep : w.load t slot = some u) :
    WriteInv origin u r := by
  obtain ⟨ptr, hptr, rfl⟩ := Option.map_eq_some_iff.mp hstep
  refine
    { inv := h.inv
      phase := h.phase
      copying := h.copying
      mirrors := { h.mirrors with loads := fun {t' slot' ptr' obj data} hload hobj => ?_ } }
  change Function.update w.loaded t _ t' = _ at hload
  by_cases ht : t' = t
  · subst ht
    rw [Function.update_self] at hload
    cases hload
    obtain ⟨held, hheld, hrefers⟩ := h.mirrors.held slot slot.2 hobj
    rw [atomicLoad_of_testPtr hheld] at hptr
    cases hptr
    exact hrefers
  · rw [Function.update_of_ne ht] at hload
    exact h.mirrors.loads hload hobj

/-- **A pointer that is still registered is the home** of the bytes that the task has not copied. -/
theorem home_of_refers (h : WriteInv origin w r) (hrefers : r.Refers obj ptr)
    (hmem : ptr ∈ w.sys.heap.metadata) (hcopied : r.stage.copied ptr i = none) :
    r.home obj i = ptr := by
  rcases hrefers with rfl | hvisited | herase
  · refine Running.home_of_not_copied ?_ hcopied
    -- what has been copied is not registered
    by_contra hne
    obtain ⟨new, hnew⟩ := Option.ne_none_iff_exists'.mp hne
    exact AList.lookup_eq_none.mp (h.copying.gone hnew) hmem
  · exact Running.home_of_visited hvisited
  · have htarget : r.stage.target = some (obj, ptr) := by rw [herase]; rfl
    refine Running.home_of_copied (h.copying.unvisited htarget) ?_
    rw [herase]
    exact if_pos rfl

section Store

variable {offset width value : Nat}

/-- A word of an object lies nowhere in a root slot. -/
theorem testPtr_store_word (h : WriteInv origin w r)
    (hdata : origin.metadata.lookup obj = some data)
    (hhome : ∀ k < width, r.home obj (offset + k) = ptr) (hfit : offset + width ≤ data.size)
    {slot : Nat} (hslot : slot ∈ roots.slots) (m : Memory) :
    testPtr (ByteMemory.store m (ptr.asPtr + offset) value width) slot = testPtr m slot := by
  refine testPtr_congr fun x hx => store_of_ne fun k hk heq => ?_
  obtain ⟨space, hlo, hhi⟩ := h.copying.home_within (i := offset + k) h.inv.blocks hdata
  have houtside := roots.apart slot hslot space
  have hsize : gcPtrSize = 16 := rfl
  rw [hhome k hk] at hlo hhi
  omega

/-- The word is where it is meant to be, and every other byte of an object is as it was. -/
theorem bytes_store_word (h : WriteInv origin w r) (hdata : origin.metadata.lookup obj = some data)
    (hhome : ∀ k < width, r.home obj (offset + k) = ptr) (hfit : offset + width ≤ data.size)
    {o : FatPtr} {d : MetaData} (ho : origin.metadata.lookup o = some d) {j : Nat}
    (hj : j < d.size) :
    ByteMemory.store w.sys.heap.mem (ptr.asPtr + offset) value width ((r.home o j).asPtr + j) =
      Function.update w.written obj (ByteMemory.store (w.written obj) offset value width) o j := by
  by_cases hmeant : o = obj ∧ offset ≤ j ∧ j < offset + width
  · obtain ⟨rfl, hlo, hhi⟩ := hmeant
    have hplace : r.home o j = ptr := by
      rw [show j = offset + (j - offset) by omega]
      exact hhome _ (by omega)
    rw [Function.update_self, hplace, store_inside hlo hhi,
      store_inside (by omega) (by omega),
      show ptr.asPtr + j - (ptr.asPtr + offset) = j - offset by omega]
  · have hkept : ByteMemory.store w.sys.heap.mem (ptr.asPtr + offset) value width
        ((r.home o j).asPtr + j) = w.sys.heap.mem ((r.home o j).asPtr + j) := by
      refine store_of_ne fun k hk heq => ?_
      have hdiffers : ¬ (o = obj ∧ j = offset + k) := by
        rintro ⟨rfl, rfl⟩
        exact hmeant ⟨rfl, by omega, by omega⟩
      have hne := h.copying.home_ne h.inv.blocks ho hdata hj
        (show offset + k < data.size by omega) hdiffers
      rw [hhome k hk] at hne
      omega
    rw [hkept, h.mirrors.bytes ho j hj]
    by_cases heq : o = obj
    · subst heq
      rw [Function.update_self, store_outside]
      by_contra hinside
      exact hmeant ⟨rfl, by omega, by omega⟩
    · rw [Function.update_of_ne heq]

/-- **A store that lands** changes what it is meant to change, and nothing else that belongs to an
object. -/
theorem store (h : WriteInv origin w r) (hlands : Lands w (.store t offset width value))
    (hstep : w.store origin t offset width value = some u) : WriteInv origin u r := by
  rw [WriteSys.store] at hstep
  cases hload : w.loaded t with
  | none =>
      rw [hload] at hstep
      cases hstep
  | some pair =>
      obtain ⟨slot, ptr⟩ := pair
      cases hobj : origin.objectAt slot with
      | none =>
          simp only [hload, hobj] at hstep
          cases hstep
      | some object =>
          obtain ⟨obj, data⟩ := object
          simp only [hload, hobj, Option.ite_none_right_eq_some, Option.some.injEq] at hstep
          obtain ⟨⟨_, hfit⟩, rfl⟩ := hstep
          obtain ⟨hmem, hearly⟩ := hlands (slot, ptr) hload
          have hdata := (objectAt_eq_some.mp hobj).2
          have hhome : ∀ k < width, r.home obj (offset + k) = ptr := by
            intro k hk
            refine h.home_of_refers (h.mirrors.loads hload hobj) hmem ?_
            rcases h.phase with ⟨_, _, hr⟩ | ⟨_, hworker⟩ | ⟨_, hstage, _⟩
            · rw [hr]
              rfl
            · exact hearly r hworker k hk
            · rw [hstage]
              rfl
          have hslots : ∀ other ∈ roots.slots, testPtr (ByteMemory.store w.sys.heap.mem
              (ptr.asPtr + offset) value width) other = testPtr w.sys.heap.mem other :=
            fun _ hother => h.testPtr_store_word hdata hhome hfit hother _
          refine
            { inv := h.inv.setMem _ fun other hother v hv hcontains => ?_
              phase := h.phase
              copying := h.copying
              mirrors :=
                { held := fun other hother {o d} ho => ?_
                  loads := h.mirrors.loads
                  bytes := fun ho j hj => h.bytes_store_word hdata hhome hfit ho hj } }
          · rw [hslots other hother] at hv
            exact h.inv.held other hother v hv hcontains
          · obtain ⟨p, hp, hrefers⟩ := h.mirrors.held other hother ho
            exact ⟨p, (hslots other hother).trans hp, hrefers⟩

end Store

end WriteInv

/-! ### The steps of the task -/

/-- What a step of the task leaves behind. -/
structure Kept (origin : State) (w : WriteSys roots) (heap : State) (r : Running) : Prop where
  copying : Copying roots origin.metadata heap.metadata r
  mirrors : Mirrors roots origin heap.mem w.loaded w.written r

namespace WriteInv

variable {w : WriteSys roots} {heap : State}

theorem white (h : WriteInv origin w r) (hwhite : White cfg w.sys.heap.metadata r.toSpace r.visited
    ptr data) : origin.metadata.lookup ptr = some data :=
  h.copying.old hwhite.lookup hwhite.space

/-- **A step that moves no byte**, neither of an object nor of the map. -/
theorem calm (h : WriteInv origin w r) (hmetadata : heap.metadata = w.sys.heap.metadata)
    (hmem : heap.mem = w.sys.heap.mem) (hspace : r'.toSpace = r.toSpace)
    (hvisited : r'.visited = r.visited) (hbefore : r.stage.target = none)
    (hafter : r'.stage.target = none)
    (htop : ∀ {index data}, r'.stage.reserved = some (index, data) → ∀ {ptr d},
      w.sys.heap.metadata.lookup ptr = some d → findSpace cfg ptr.asPtr = some r.toSpace →
      ptr.asPtr + d.size ≤ cfg.base r.toSpace + index)
    (hstack : ∀ q ∈ r'.stack, LeftBehind roots origin.metadata
      (fun obj => obj ∈ r.visited ∨ r'.stage.moving = some obj) q)
    (hhand : ∀ {q v}, r'.stage.inHand = some (q, v) →
      LeftBehind roots origin.metadata (· ∈ r.visited) q) : Kept origin w heap r' where
  mirrors := by
    rw [hmem]
    exact h.mirrors.keep (.of_no_target hvisited hbefore hafter)
  copying := by
    have hcopying := h.copying
    have htarget : ∀ {obj newObj}, r'.Target obj newObj → r.Target obj newObj := by
      rintro obj newObj (hv | hnow)
      · exact Or.inl (hvisited ▸ hv)
      · rw [hafter] at hnow
        cases hnow
    rw [hmetadata]
    exact
      { settled := by
          rw [hspace]
          exact hcopying.settled
        old := fun hdata hfrom => hcopying.old hdata (hspace ▸ hfrom)
        gone := fun hv => hcopying.gone (hvisited ▸ hv)
        target := fun hnow => by
          rw [hspace]
          exact hcopying.target (htarget hnow)
        injective := fun ha hb => hcopying.injective (htarget ha) (htarget hb)
        unvisited := fun hnow => by
          rw [hafter] at hnow
          cases hnow
        top := fun hreserved _ _ hdata hto => by
          rw [hspace] at hto ⊢
          exact htop hreserved hdata hto
        last := fun hwords => by
          rw [hwords] at hafter
          cases hafter
        stack := fun q hq => by
          rw [hvisited]
          exact hstack q hq
        hand := fun hnow => by
          rw [hvisited]
          exact hhand hnow }

/-! #### Looking for pointers -/

theorem left_of_visited {q : Nat} {gone : FatPtr → Prop}
    (h : LeftBehind roots origin.metadata (· ∈ r.visited) q) :
    LeftBehind roots origin.metadata (fun obj => obj ∈ r.visited ∨ gone obj) q :=
  h.mono fun _ => Or.inl

/-- What is on the stack when no object is being moved. -/
theorem stack_of_not_moving (h : WriteInv origin w r) (hmoving : r.stage.moving = none) {q : Nat}
    (hq : q ∈ r.stack) : LeftBehind roots origin.metadata (· ∈ r.visited) q := by
  refine (h.copying.stack q hq).mono ?_
  rintro obj (hvisited | hnow)
  · exact hvisited
  · rw [hmoving] at hnow
    cases hnow

theorem kept_roots (h : WriteInv origin w r) (hworker : w.sys.worker = some r)
    (hstage : r.stage = .roots) (hrun : (r.step cfg).run w.sys.heap = .ok (some r') heap) :
    Kept origin w heap r' := by
  have hok := h.inv.running r hworker
  have hstack := hok.atRoots hstage
  have hbefore : r.stage.target = none := by rw [hstage]; rfl
  have hnone : ∀ q ∈ r.stack, LeftBehind roots origin.metadata
      (fun obj => obj ∈ r.visited ∨ none = some obj) q := fun q hq => by
    rw [hstack] at hq
    cases hq
  simp only [Running.step, hstage] at hrun
  split at hrun
  · cases hrun
    exact h.calm rfl rfl rfl rfl hbefore rfl (fun heq => by cases heq) hnone
      (fun heq => by cases heq)
  · rename_i root rest hroots
    have hroot : root ∈ roots.slots := hok.rootsOk root (by rw [hroots]; simp)
    have hpassed : Kept origin w w.sys.heap { r with roots := rest, stage := .roots } :=
      h.calm rfl rfl rfl rfl hbefore rfl (fun heq => by cases heq) hnone (fun heq => by cases heq)
    rw [EStateM.run_bind, EStateM.run_get] at hrun
    dsimp only at hrun
    split at hrun
    · split at hrun
      · cases hrun
        refine h.calm rfl rfl rfl rfl hbefore rfl (fun heq => by cases heq) ?_
          (fun heq => by cases heq)
        intro q hq
        rw [List.mem_singleton.mp hq]
        exact Or.inl hroot
      · cases hrun
        exact hpassed
    · cases hrun
      exact hpassed

theorem kept_forward (h : WriteInv origin w r) (hstage : r.stage = .forward)
    (hrun : (r.step cfg).run w.sys.heap = .ok (some r') heap) : Kept origin w heap r' := by
  have hbefore : r.stage.target = none := by rw [hstage]; rfl
  have hstack : ∀ q ∈ r.stack, LeftBehind roots origin.metadata (· ∈ r.visited) q := fun q hq =>
    h.stack_of_not_moving (by rw [hstage]; rfl) hq
  simp only [Running.step, hstage] at hrun
  split at hrun
  · cases hrun
    exact h.calm rfl rfl rfl rfl hbefore rfl (fun heq => by cases heq)
      (fun q hq => left_of_visited (hstack q hq)) (fun heq => by cases heq)
  · rename_i p stack hcons
    have hrest : ∀ q ∈ stack, LeftBehind roots origin.metadata (· ∈ r.visited) q := fun q hq =>
      hstack q (by rw [hcons]; simp [hq])
    rw [EStateM.run_bind, EStateM.run_get] at hrun
    dsimp only at hrun
    split at hrun
    · cases hrun
      exact h.calm rfl rfl rfl rfl hbefore rfl (fun heq => by cases heq)
        (fun q hq => left_of_visited (hrest q hq)) (fun heq => by cases heq)
    · cases hrun
      refine h.calm rfl rfl rfl rfl hbefore rfl (fun heq => by cases heq)
        (fun q hq => left_of_visited (hrest q hq)) (fun heq => ?_)
      cases heq
      exact hstack p (by rw [hcons]; simp)

theorem kept_tested (h : WriteInv origin w r) (hstage : r.stage = .tested p ptr)
    (hrun : (r.step cfg).run w.sys.heap = .ok (some r') heap) : Kept origin w heap r' := by
  have hbefore : r.stage.target = none := by rw [hstage]; rfl
  have hp : LeftBehind roots origin.metadata (· ∈ r.visited) p :=
    h.copying.hand (by rw [hstage]; rfl)
  have hstack : ∀ q ∈ r.stack, LeftBehind roots origin.metadata (· ∈ r.visited) q := fun q hq =>
    h.stack_of_not_moving (by rw [hstage]; rfl) hq
  have hforward : Kept origin w w.sys.heap { r with stage := .forward } :=
    h.calm rfl rfl rfl rfl hbefore rfl (fun heq => by cases heq)
      (fun q hq => left_of_visited (hstack q hq)) (fun heq => by cases heq)
  simp only [Running.step, hstage] at hrun
  split at hrun
  · -- the object has been copied before
    rename_i forwarded hvisited
    obtain ⟨d, hd, _⟩ := h.copying.target (Or.inl hvisited)
    have hsame : SameHomes origin.metadata r { r with stage := .forward } :=
      .of_no_target rfl hbefore rfl
    have hmirrors := h.copying.compareExchange h.inv.blocks h.mirrors hp
      (h.copying.settled.findSpace hd) hsame (Or.inr (Or.inl hvisited))
    cases hrun
    refine ⟨hforward.copying, ?_⟩
    dsimp only
    exact hmirrors
  · rw [EStateM.run_bind, EStateM.run_get] at hrun
    dsimp only at hrun
    split at hrun
    · cases hrun
      exact hforward
    · obtain ⟨space, u, hspace, hnext⟩ := run_bind_eq_ok.mp hrun
      obtain rfl := (state_of_getSpaceNum hspace).symm
      split at hnext
      · cases hnext
        exact hforward
      · cases hnext
        refine h.calm rfl rfl rfl rfl hbefore rfl (fun heq => by cases heq)
          (fun q hq => left_of_visited (hstack q hq)) (fun heq => ?_)
        cases heq
        exact hp

/-! #### Copying an object -/

/-- A step up to the registration of the copy. -/
theorem calm_moving (h : WriteInv origin w r) {stage : Stage}
    (hmetadata : heap.metadata = w.sys.heap.metadata) (hmem : heap.mem = w.sys.heap.mem)
    (hbefore : r.stage.target = none) (hafter : stage.target = none) (hmoving : stage.moving = r.stage.moving)
    (hhand : stage.inHand = r.stage.inHand)
    (htop : ∀ {index data}, stage.reserved = some (index, data) → ∀ {ptr d},
      w.sys.heap.metadata.lookup ptr = some d → findSpace cfg ptr.asPtr = some r.toSpace →
      ptr.asPtr + d.size ≤ cfg.base r.toSpace + index) : Kept origin w heap { r with stage } :=
  h.calm hmetadata hmem rfl rfl hbefore hafter htop
    (fun q hq => by
      dsimp only
      rw [hmoving]
      exact h.copying.stack q hq)
    fun heq => h.copying.hand (hhand ▸ heq)

theorem kept_found (h : WriteInv origin w r) (hworker : w.sys.worker = some r)
    (hstage : r.stage = .found p ptr) (hrun : (r.step cfg).run w.sys.heap = .ok (some r') heap) :
    Kept origin w heap r' := by
  have hstageOk := (h.inv.running r hworker).stageOk
  rw [hstage] at hstageOk
  obtain ⟨_, data, hwhite⟩ := hstageOk
  have hend : ptr.asPtr + data.size + 24 ≤ 2 ^ 64 := by
    have hblock := cfg.block_lt r.toSpace.flip
    have hhi := h.copying.settled.hi (h.white hwhite)
    omega
  have hp : LeftBehind roots origin.metadata (· ∈ r.visited) p :=
    h.copying.hand (by rw [hstage]; rfl)
  simp only [Running.step, hstage] at hrun
  rw [run_bind_of_ok (run_metadataAt hwhite.lookup), EStateM.run_bind, EStateM.run_get] at hrun
  dsimp only at hrun
  split at hrun
  · cases hrun
  · rename_i slots hscan
    cases hrun
    refine h.calm rfl rfl rfl rfl (by rw [hstage]; rfl) rfl (fun heq => by cases heq) ?_
      (fun heq => by cases heq; exact hp)
    intro q hq
    rcases List.mem_append.mp hq with hq | hq
    · obtain ⟨_, hlo, hhi, _⟩ := (mem_of_scanMemory hscan (Nat.le_add_right _ _) hend).mp
        (List.mem_reverse.mp hq)
      exact Or.inr ⟨ptr, data, h.white hwhite, Or.inr rfl, hlo, by omega⟩
    · exact left_of_visited (h.stack_of_not_moving (by rw [hstage]; rfl) hq)

theorem kept_copy (h : WriteInv origin w r) (hworker : w.sys.worker = some r)
    (hstage : r.stage = .copy p ptr) (hrun : (r.step cfg).run w.sys.heap = .ok (some r') heap) :
    Kept origin w heap r' := by
  have hstageOk := (h.inv.running r hworker).stageOk
  rw [hstage] at hstageOk
  obtain ⟨_, data, hwhite⟩ := hstageOk
  simp only [Running.step, hstage] at hrun
  rw [run_bind_of_ok (run_getSpaceNum _ hwhite.space), if_neg (SpaceNum.flip_ne _)] at hrun
  cases hrun
  exact h.calm_moving rfl rfl (by rw [hstage]; rfl) rfl (by rw [hstage]; rfl) (by rw [hstage]; rfl)
    fun heq => by cases heq

theorem kept_lookup (h : WriteInv origin w r) (hstage : r.stage = .lookup p ptr)
    (hrun : (r.step cfg).run w.sys.heap = .ok (some r') heap) : Kept origin w heap r' := by
  simp only [Running.step, hstage] at hrun
  obtain ⟨oldData, u, hdata, hnext⟩ := run_bind_eq_ok.mp hrun
  obtain rfl := (state_of_metadataAt hdata).symm
  cases hnext
  exact h.calm_moving rfl rfl (by rw [hstage]; rfl) rfl (by rw [hstage]; rfl) (by rw [hstage]; rfl)
    fun heq => by cases heq

/-- The block lies above all objects of the space. -/
theorem kept_reserve (h : WriteInv origin w r) (hworker : w.sys.worker = some r)
    (hstage : r.stage = .reserve p ptr data)
    (hrun : (r.step cfg).run w.sys.heap = .ok (some r') heap) : Kept origin w heap r' := by
  have hcurrent := (h.inv.running r hworker).current
  simp only [Running.step, hstage] at hrun
  obtain ⟨index, u, hreserve, hnext⟩ := run_bind_eq_ok.mp hrun
  cases hnext
  refine h.calm_moving (metadata_of_reserveSpace hreserve) (mem_of_reserveSpace hreserve)
    (by rw [hstage]; rfl) rfl (by rw [hstage]; rfl) (by rw [hstage]; rfl) ?_
  intro i d heq ptr d' hdata hspace
  cases index with
  | none => cases heq
  | some index =>
      cases heq
      have hbelow := (h.inv.blocks.within_of_findSpace hdata hspace).below hcurrent
      obtain ⟨padding, _, rfl⟩ := index_of_reserveSpace hreserve
      dsimp only at hbelow
      omega

theorem kept_check (h : WriteInv origin w r) {index : Option Nat}
    (hstage : r.stage = .check p ptr data index)
    (hrun : (r.step cfg).run w.sys.heap = .ok (some r') heap) : Kept origin w heap r' := by
  simp only [Running.step, hstage] at hrun
  obtain ⟨_, u, hcheck, hnext⟩ := run_bind_eq_ok.mp hrun
  obtain rfl := (state_of_checkOverlappingAlloc hcheck).symm
  cases hnext
  have hreserved : Stage.reserved (.register p ptr data index) = r.stage.reserved := by
    rw [hstage]
    cases index <;> rfl
  exact h.calm_moving rfl rfl (by rw [hstage]; rfl) rfl (by rw [hstage]; rfl) (by rw [hstage]; rfl)
    fun heq => h.copying.top (hreserved ▸ heq)

/-- **The copy is registered**, above all objects of the space. -/
theorem kept_register (h : WriteInv origin w r) (hworker : w.sys.worker = some r)
    {index : Option Nat} (hstage : r.stage = .register p ptr data index)
    (hrun : (r.step cfg).run w.sys.heap = .ok (some r') heap) : Kept origin w heap r' := by
  have hstageOk := (h.inv.running r hworker).stageOk
  rw [hstage] at hstageOk
  obtain ⟨_, hwhite, i, rfl, hroom⟩ := hstageOk
  have haddr : (FatPtr.ofAddr (cfg.base r.toSpace + i)).asPtr = cfg.base r.toSpace + i :=
    asPtr_ofAddr_base r.toSpace (by omega)
  have hfresh := h.inv.blocks.lookup_fresh .task (fun _ => by simp)
    (claims_task hworker (by rw [hstage]; rfl)) haddr
  simp only [Running.step, hstage] at hrun
  rw [run_bind_of_ok (run_allocNoConstraints.trans (if_neg (by omega)))] at hrun
  cases hrun
  exact
    { copying := h.copying.register hstage (h.white hwhite) hwhite.unvisited hfresh haddr
        (findSpace_ofAddr_base r.toSpace (by omega))
      mirrors := h.mirrors.keep (.of_register hstage) }

theorem kept_words (h : WriteInv origin w r) (hapart : SpacesApart cfg)
    (hworker : w.sys.worker = some r) {done : Nat}
    (hstage : r.stage = .words p ptr data newObj done)
    (hrun : (r.step cfg).run w.sys.heap = .ok (some r') heap) : Kept origin w heap r' := by
  have hstageOk := (h.inv.running r hworker).stageOk
  rw [hstage] at hstageOk
  obtain ⟨_, hwhite, _⟩ := hstageOk
  have hold := h.white hwhite
  simp only [Running.step, hstage] at hrun
  split at hrun
  · rename_i hdone
    have hmirrors := h.copying.move h.inv.blocks h.mirrors hapart hstage hdone
      (cpyWidth_le (ptr.asPtr + done)) hold
    cases hrun
    refine ⟨?_, ?_⟩
    · refine h.copying.same_target (by rw [hstage]; rfl) rfl (fun heq => ?_) (by rw [hstage]; rfl)
        (fun heq => by rw [hstage]; exact heq)
      cases heq
      exact ⟨done, hstage⟩
    · dsimp only
      exact hmirrors
  · rename_i hdone
    cases hrun
    refine ⟨h.copying.same_target (by rw [hstage]; rfl) rfl (fun heq => by cases heq)
      (by rw [hstage]; rfl) (fun heq => by rw [hstage]; exact heq), h.mirrors.keep ?_⟩
    refine
      { home := fun {obj d i} hdata hi => ?_
        refers := fun hrefers => hrefers.of_visited rfl fun v new herase => ?_ }
    · by_cases heq : obj = ptr
      · subst heq
        rw [hold] at hdata
        cases hdata
        rw [home_of_done hstage hwhite.unvisited (by omega)]
        exact Running.home_of_copied hwhite.unvisited (if_pos rfl)
      · have hbefore : r.stage.copied obj i = none := by
          rw [hstage]
          exact if_neg fun hmeant => heq hmeant.1
        have hafter : (Stage.exchange p ptr newObj).copied obj i = none := if_neg heq
        exact Running.home_congr rfl (hafter.trans hbefore.symm)
    · rw [hstage] at herase
      cases herase

theorem kept_exchange (h : WriteInv origin w r) (hworker : w.sys.worker = some r)
    (hstage : r.stage = .exchange p ptr newObj)
    (hrun : (r.step cfg).run w.sys.heap = .ok (some r') heap) : Kept origin w heap r' := by
  have hstageOk := (h.inv.running r hworker).stageOk
  rw [hstage] at hstageOk
  obtain ⟨_, ⟨data, hwhite⟩, _⟩ := hstageOk
  have hsame : SameHomes origin.metadata r { r with stage := .erase ptr newObj } :=
    { home := fun {obj _ i} _ _ => by
        have hstill : (Stage.erase ptr newObj).copied obj i = r.stage.copied obj i := by
          rw [hstage]
          rfl
        exact Running.home_congr rfl hstill
      refers := fun hrefers => hrefers.of_visited rfl fun v new herase => by
        rw [hstage] at herase
        cases herase }
  have hmirrors := h.copying.compareExchange h.inv.blocks h.mirrors
    (h.copying.hand (by rw [hstage]; rfl)) hwhite.space hsame (Or.inr (Or.inr rfl))
  simp only [Running.step, hstage] at hrun
  cases hrun
  refine ⟨?_, ?_⟩
  · exact h.copying.same_target (by rw [hstage]; rfl) rfl (fun heq => by cases heq)
      (by rw [hstage]; rfl) (fun heq => by cases heq)
  · dsimp only
    exact hmirrors

theorem kept_erase (h : WriteInv origin w r) (hstage : r.stage = .erase ptr newObj)
    (hrun : (r.step cfg).run w.sys.heap = .ok (some r') heap) : Kept origin w heap r' := by
  have hunvisited : r.visited.lookup ptr = none :=
    h.copying.unvisited (by rw [hstage]; rfl)
  simp only [Running.step, hstage] at hrun
  cases hrun
  exact
    { copying := h.copying.erase hstage
      mirrors := h.mirrors.keep (.of_erase hstage hunvisited) }

/-- **A step of the task** leaves the bytes of all objects, in their homes. -/
theorem kept (h : WriteInv origin w r) (hapart : SpacesApart cfg)
    (hworker : w.sys.worker = some r) (hrun : (r.step cfg).run w.sys.heap = .ok (some r') heap) :
    Kept origin w heap r' := by
  cases hstage : r.stage with
  | roots => exact h.kept_roots hworker hstage hrun
  | forward => exact h.kept_forward hstage hrun
  | tested p ptr => exact h.kept_tested hstage hrun
  | found p ptr => exact h.kept_found hworker hstage hrun
  | copy p ptr => exact h.kept_copy hworker hstage hrun
  | lookup p ptr => exact h.kept_lookup hstage hrun
  | reserve p ptr data => exact h.kept_reserve hworker hstage hrun
  | check p ptr data index => exact h.kept_check hstage hrun
  | register p ptr data index => exact h.kept_register hworker hstage hrun
  | words p ptr data newObj done => exact h.kept_words hapart hworker hstage hrun
  | exchange p ptr newObj => exact h.kept_exchange hworker hstage hrun
  | erase ptr newObj => exact h.kept_erase hstage hrun
  | sweep =>
      obtain ⟨_, hswept, _⟩ := h.inv.task_sweep hworker hstage
      rw [hrun] at hswept
      cases hswept

/-- The sweep leaves the copies. -/
theorem kept_sweep (h : WriteInv origin w r) (hworker : w.sys.worker = some r)
    (hstage : r.stage = .sweep) (hrun : (r.step cfg).run w.sys.heap = .ok none heap) :
    Kept origin w heap r := by
  obtain ⟨heap', hswept, hmem, hlookup, _⟩ := h.inv.task_sweep hworker hstage
  rw [hrun] at hswept
  cases hswept
  have hcopying := h.copying
  have hcurrent := (h.inv.running r hworker).current
  have hsub : ∀ {q d}, heap.metadata.lookup q = some d → w.sys.heap.metadata.lookup q = some d := by
    intro q d hq
    rw [hlookup] at hq
    split at hq
    · exact hq
    · cases hq
  refine
    { mirrors := by
        rw [hmem]
        exact h.mirrors
      copying :=
        { hcopying with
          old := fun hq hfrom => hcopying.old (hsub hq) hfrom
          gone := fun {obj _} hvisited => ?_
          target := fun {_ new} hnow => ?_
          top := fun heq => by rw [hstage] at heq; cases heq
          last := fun heq => by rw [hstage] at heq; cases heq } }
  · rw [hlookup, hcopying.gone hvisited]
    split <;> rfl
  · obtain ⟨d, hd, hdata, hto⟩ := hcopying.target hnow
    refine ⟨d, hd, ?_, hto⟩
    rw [hlookup, if_pos (hcurrent ▸ hto)]
    exact hdata

end WriteInv

end Gcpp.Concurrent
