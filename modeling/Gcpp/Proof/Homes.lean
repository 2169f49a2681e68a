import Gcpp.DataRun
import Gcpp.Proof.Interleavings

/-!
# Where the bytes are

Every byte of an object has a home while a collection runs: in the copy once it has been copied, and
in the old block before that. No two bytes share a home, so what one store changes is one object's.
The steps of the task move homes without changing what is there.
-/

namespace Gcpp.Concurrent

open ByteMemory StateExcept Arena

variable {cfg : Config} {roots : RootSlots cfg}

/-! ### Old blocks and copies -/

/-- The object that is being copied, and its copy. -/
def Stage.target : Stage → Option (FatPtr × FatPtr)
  | .words _ ptrVal _ newObj _ => some (ptrVal, newObj)
  | .exchange _ ptrVal newObj => some (ptrVal, newObj)
  | .erase ptrVal newObj => some (ptrVal, newObj)
  | _ => none

/-- The object whose slots have been pushed and that is not yet counted as copied. -/
def Stage.moving : Stage → Option FatPtr
  | .copy _ ptrVal => some ptrVal
  | .lookup _ ptrVal => some ptrVal
  | .reserve _ ptrVal _ => some ptrVal
  | .check _ ptrVal _ _ => some ptrVal
  | .register _ ptrVal _ _ => some ptrVal
  | .words _ ptrVal _ _ _ => some ptrVal
  | .exchange _ ptrVal _ => some ptrVal
  | .erase ptrVal _ => some ptrVal
  | _ => none

namespace Running

/-- The copy of an object, or the block that is to become it. -/
def Target (r : Running) (obj newObj : FatPtr) : Prop :=
  r.visited.lookup obj = some newObj ∨ r.stage.target = some (obj, newObj)

/-- Where a byte of an object is. -/
def home (r : Running) (obj : FatPtr) (i : Nat) : FatPtr :=
  ((r.visited.lookup obj).or (r.stage.copied obj i)).getD obj

/-- What a root slot of the object can hold. -/
def Refers (r : Running) (obj ptr : FatPtr) : Prop :=
  ptr = obj ∨ r.visited.lookup obj = some ptr ∨ r.stage = .erase obj ptr

end Running

/-- A root slot, or a slot in an old block that is not read any more. -/
def LeftBehind (roots : RootSlots cfg) (origin : AssocMap FatPtr MetaData) (gone : FatPtr → Prop)
    (q : Nat) : Prop :=
  q ∈ roots.slots ∨ ∃ obj data, origin.lookup obj = some data ∧ gone obj ∧
    obj.asPtr ≤ q ∧ q + 16 ≤ obj.asPtr + data.size

/-- What the map says about objects and copies while the task runs. -/
structure Copying (roots : RootSlots cfg) (origin metadata : AssocMap FatPtr MetaData)
    (r : Running) : Prop where
  settled : Settled cfg r.toSpace.flip origin
  old : ∀ {ptr data}, metadata.lookup ptr = some data →
    findSpace cfg ptr.asPtr = some r.toSpace.flip → origin.lookup ptr = some data
  gone : ∀ {obj newObj}, r.visited.lookup obj = some newObj → metadata.lookup obj = none
  target : ∀ {obj newObj}, r.Target obj newObj → ∃ data, origin.lookup obj = some data ∧
    metadata.lookup newObj = some data ∧ findSpace cfg newObj.asPtr = some r.toSpace
  injective : ∀ {a b newObj}, r.Target a newObj → r.Target b newObj → a = b
  unvisited : ∀ {obj newObj}, r.stage.target = some (obj, newObj) → r.visited.lookup obj = none
  top : ∀ {index data}, r.stage.reserved = some (index, data) → ∀ {ptr d},
    metadata.lookup ptr = some d → findSpace cfg ptr.asPtr = some r.toSpace →
    ptr.asPtr + d.size ≤ cfg.base r.toSpace + index
  last : ∀ {p ptrVal data newObj done}, r.stage = .words p ptrVal data newObj done → ∀ {ptr d},
    metadata.lookup ptr = some d → findSpace cfg ptr.asPtr = some r.toSpace → ptr ≠ newObj →
    ptr.asPtr + d.size ≤ newObj.asPtr
  stack : ∀ q ∈ r.stack,
    LeftBehind roots origin (fun obj => obj ∈ r.visited ∨ r.stage.moving = some obj) q
  hand : ∀ {q w}, r.stage.inHand = some (q, w) → LeftBehind roots origin (· ∈ r.visited) q

/-- What memory and threads have of the objects. -/
structure Mirrors (roots : RootSlots cfg) (origin : State) (mem : Memory)
    (loaded : ThreadId → Option (roots.Slot × FatPtr)) (written : FatPtr → Memory) (r : Running) :
    Prop where
  held : ∀ slot ∈ roots.slots, ∀ {obj data}, origin.objectAt slot = some (obj, data) →
    ∃ ptr, testPtr mem slot = some ptr ∧ r.Refers obj ptr
  loads : ∀ {t slot ptr obj data}, loaded t = some (slot, ptr) →
    origin.objectAt slot = some (obj, data) → r.Refers obj ptr
  bytes : ∀ {obj data}, origin.metadata.lookup obj = some data → ∀ i < data.size,
    mem ((r.home obj i).asPtr + i) = written obj i

variable {s : Sys roots} {r r' : Running} {origin : State} {metadata : AssocMap FatPtr MetaData}
  {ptr obj newObj : FatPtr} {data : MetaData} {i : Nat}

/-! ### Homes -/

theorem Stage.target_of_copied {stage : Stage} (h : stage.copied obj i = some newObj) :
    stage.target = some (obj, newObj) := by
  cases stage with
  | words p ptrVal data new done =>
      simp only [Stage.copied, Option.ite_none_right_eq_some] at h
      obtain ⟨⟨rfl, _⟩, h⟩ := h
      cases h
      rfl
  | exchange p ptrVal new =>
      simp only [Stage.copied, Option.ite_none_right_eq_some] at h
      obtain ⟨rfl, h⟩ := h
      cases h
      rfl
  | erase ptrVal new =>
      simp only [Stage.copied, Option.ite_none_right_eq_some] at h
      obtain ⟨rfl, h⟩ := h
      cases h
      rfl
  | _ => cases h

theorem Stage.copied_of_not_target {stage : Stage} (h : ∀ new, stage.target ≠ some (obj, new)) :
    stage.copied obj i = none := by
  by_contra hne
  obtain ⟨new, hnew⟩ := Option.ne_none_iff_exists'.mp hne
  exact h new (Stage.target_of_copied hnew)

namespace Running

theorem home_of_visited (h : r.visited.lookup obj = some newObj) : r.home obj i = newObj := by
  rw [home, h]
  rfl

theorem home_of_copied (h : r.visited.lookup obj = none)
    (hcopied : r.stage.copied obj i = some newObj) : r.home obj i = newObj := by
  rw [home, h, hcopied]
  rfl

theorem home_of_not_copied (h : r.visited.lookup obj = none)
    (hcopied : r.stage.copied obj i = none) : r.home obj i = obj := by
  rw [home, h, hcopied]
  rfl

theorem home_congr (hvisited : r'.visited.lookup obj = r.visited.lookup obj)
    (hcopied : r'.stage.copied obj i = r.stage.copied obj i) : r'.home obj i = r.home obj i := by
  rw [home, home, hvisited, hcopied]

theorem Refers.of_visited (h : r.Refers obj ptr) (hvisited : r'.visited = r.visited)
    (hstage : ∀ v new, r.stage ≠ .erase v new) : r'.Refers obj ptr := by
  rcases h with rfl | hlookup | herase
  · exact Or.inl rfl
  · exact Or.inr (Or.inl (hvisited ▸ hlookup))
  · exact absurd herase (hstage _ _)

theorem home_cases (r : Running) (obj : FatPtr) (i : Nat) :
    (r.home obj i = obj ∧ r.visited.lookup obj = none) ∨ r.Target obj (r.home obj i) := by
  cases hvisited : r.visited.lookup obj with
  | some newObj =>
      rw [home_of_visited hvisited]
      exact Or.inr (Or.inl hvisited)
  | none =>
      cases hcopied : r.stage.copied obj i with
      | some newObj =>
          rw [home_of_copied hvisited hcopied]
          exact Or.inr (Or.inr (Stage.target_of_copied hcopied))
      | none => exact Or.inl ⟨home_of_not_copied hvisited hcopied, rfl⟩

end Running

/-! ### No two bytes share a home -/

namespace Copying

theorem target_within (h : Copying roots origin.metadata s.heap.metadata r) (hblocks : Blocks s)
    (hdata : origin.metadata.lookup obj = some data) (htarget : r.Target obj newObj) :
    cfg.base r.toSpace ≤ newObj.asPtr ∧
      newObj.asPtr + data.size ≤ cfg.base r.toSpace + cfg.heapSize := by
  obtain ⟨d, hd, hnew, hspace⟩ := h.target htarget
  rw [hdata] at hd
  cases hd
  have hwithin := hblocks.within_of_findSpace hnew hspace
  exact ⟨hwithin.lo, hwithin.hi⟩

/-- An old block lies apart from every copy. -/
theorem old_apart_target (h : Copying roots origin.metadata s.heap.metadata r) (hblocks : Blocks s)
    {a b : FatPtr} {dataA dataB : MetaData} (ha : origin.metadata.lookup a = some dataA)
    (hb : origin.metadata.lookup b = some dataB) (htarget : r.Target b newObj) :
    a.asPtr + dataA.size ≤ newObj.asPtr ∨ newObj.asPtr + dataB.size ≤ a.asPtr := by
  have hspaces := cfg.blocks_disjoint (SpaceNum.flip_ne r.toSpace)
  have hlo := h.settled.lo ha
  have hhi := h.settled.hi ha
  obtain ⟨hnewLo, hnewHi⟩ := h.target_within hblocks hb htarget
  omega

theorem targets_apart (h : Copying roots origin.metadata s.heap.metadata r) (hblocks : Blocks s)
    {a b newA newB : FatPtr} {dataA dataB : MetaData}
    (ha : origin.metadata.lookup a = some dataA) (hb : origin.metadata.lookup b = some dataB)
    (htargetA : r.Target a newA) (htargetB : r.Target b newB) (hne : a ≠ b) :
    newA.asPtr + dataA.size ≤ newB.asPtr ∨ newB.asPtr + dataB.size ≤ newA.asPtr := by
  obtain ⟨dA, hdA, hnewA, _⟩ := h.target htargetA
  obtain ⟨dB, hdB, hnewB, _⟩ := h.target htargetB
  rw [ha] at hdA
  rw [hb] at hdB
  cases hdA
  cases hdB
  have hnew : newA ≠ newB := by
    rintro rfl
    exact hne (h.injective htargetA htargetB)
  exact hblocks.apart _ _ _ _ (claims_entry hnewA) (claims_entry hnewB)
    fun heq => hnew (Owner.entry.inj heq)

theorem target_unique (h : Copying roots origin.metadata s.heap.metadata r) {newA newB : FatPtr}
    (hA : r.Target obj newA) (hB : r.Target obj newB) : newA = newB := by
  rcases hA with hA | hA <;> rcases hB with hB | hB
  · exact Option.some.inj (hA.symm.trans hB)
  · rw [h.unvisited hB] at hA
    cases hA
  · rw [h.unvisited hA] at hB
    cases hB
  · exact congrArg Prod.snd (Option.some.inj (hA.symm.trans hB))

/-- The homes of an object's bytes lie apart from the homes of another one's. -/
theorem homes_apart (h : Copying roots origin.metadata s.heap.metadata r) (hblocks : Blocks s)
    {a b : FatPtr} {dataA dataB : MetaData} {j : Nat}
    (ha : origin.metadata.lookup a = some dataA) (hb : origin.metadata.lookup b = some dataB)
    (hne : a ≠ b) : (r.home a i).asPtr + dataA.size ≤ (r.home b j).asPtr ∨
      (r.home b j).asPtr + dataB.size ≤ (r.home a i).asPtr := by
  rcases r.home_cases a i with ⟨hownA, _⟩ | htargetA
  · rw [hownA]
    rcases r.home_cases b j with ⟨hownB, _⟩ | htargetB
    · rw [hownB]
      exact h.settled.separated a dataA b dataB ha hb hne
    · exact h.old_apart_target hblocks ha hb htargetB
  · rcases r.home_cases b j with ⟨hownB, _⟩ | htargetB
    · rw [hownB]
      exact (h.old_apart_target hblocks hb ha htargetA).symm
    · exact h.targets_apart hblocks ha hb htargetA htargetB hne

theorem home_within (h : Copying roots origin.metadata s.heap.metadata r) (hblocks : Blocks s)
    (hdata : origin.metadata.lookup obj = some data) :
    ∃ space, cfg.base space ≤ (r.home obj i).asPtr ∧
      (r.home obj i).asPtr + data.size ≤ cfg.base space + cfg.heapSize := by
  rcases r.home_cases obj i with ⟨hown, _⟩ | htarget
  · rw [hown]
    exact ⟨r.toSpace.flip, h.settled.lo hdata, h.settled.hi hdata⟩
  · exact ⟨r.toSpace, h.target_within hblocks hdata htarget⟩

/-- **No two bytes share a home.** -/
theorem home_ne (h : Copying roots origin.metadata s.heap.metadata r) (hblocks : Blocks s)
    {a b : FatPtr} {dataA dataB : MetaData} {j : Nat}
    (ha : origin.metadata.lookup a = some dataA) (hb : origin.metadata.lookup b = some dataB)
    (hi : i < dataA.size) (hj : j < dataB.size) (hne : ¬ (a = b ∧ i = j)) :
    (r.home a i).asPtr + i ≠ (r.home b j).asPtr + j := by
  by_cases heq : a = b
  · subst heq
    rw [ha] at hb
    cases hb
    have hij : i ≠ j := fun hij => hne ⟨rfl, hij⟩
    rcases r.home_cases a i with ⟨hown, _⟩ | htarget
    · rcases r.home_cases a j with ⟨hown', _⟩ | htarget'
      · rw [hown, hown']
        omega
      · have hapart := h.old_apart_target hblocks ha ha htarget'
        rw [hown]
        omega
    · rcases r.home_cases a j with ⟨hown', _⟩ | htarget'
      · have hapart := h.old_apart_target hblocks ha ha htarget
        rw [hown']
        omega
      · rw [h.target_unique htarget htarget']
        omega
  · have hapart : (r.home a i).asPtr + dataA.size ≤ (r.home b j).asPtr ∨
        (r.home b j).asPtr + dataB.size ≤ (r.home a i).asPtr := h.homes_apart hblocks ha hb heq
    omega

end Copying

/-! ### What a step of the task keeps -/

theorem LeftBehind.slotAt {gone : FatPtr → Prop} {q : Nat}
    (hsettled : Settled cfg r.toSpace.flip origin.metadata)
    (h : LeftBehind roots origin.metadata gone q) : SlotAt roots q := by
  rcases h with hroot | ⟨obj, data, hdata, _, hlo, hhi⟩
  · exact Or.inl hroot
  · have hsize : gcPtrSize = 16 := rfl
    have hblockLo := hsettled.lo hdata
    have hblockHi := hsettled.hi hdata
    exact Or.inr ⟨r.toSpace.flip, by omega, by omega⟩

theorem LeftBehind.mono {gone gone' : FatPtr → Prop} {q : Nat} {old : AssocMap FatPtr MetaData}
    (h : LeftBehind roots old gone q) (hsub : ∀ obj, gone obj → gone' obj) :
    LeftBehind roots old gone' q := by
  refine h.imp_right ?_
  rintro ⟨obj, data, hdata, hgone, hrange⟩
  exact ⟨obj, data, hdata, hsub obj hgone, hrange⟩

/-- Homes stay, and what a slot could hold it still can. -/
structure SameHomes (origin : AssocMap FatPtr MetaData) (r r' : Running) : Prop where
  home : ∀ {obj data i}, origin.lookup obj = some data → i < data.size →
    r'.home obj i = r.home obj i
  refers : ∀ {obj ptr}, r.Refers obj ptr → r'.Refers obj ptr

theorem SameHomes.of_no_target {old : AssocMap FatPtr MetaData} (hvisited : r'.visited = r.visited)
    (hbefore : r.stage.target = none) (hafter : r'.stage.target = none) : SameHomes old r r' where
  home := fun {obj _ i} _ _ => by
    have hnone : ∀ {stage : Stage}, stage.target = none → stage.copied obj i = none :=
      fun htarget => Stage.copied_of_not_target fun new heq => by
        rw [htarget] at heq
        cases heq
    exact Running.home_congr (by rw [hvisited]) ((hnone hafter).trans (hnone hbefore).symm)
  refers := fun hrefers => hrefers.of_visited hvisited fun v new herase => by
    rw [herase] at hbefore
    cases hbefore

variable {mem : Memory} {loaded : ThreadId → Option (roots.Slot × FatPtr)}
  {written : FatPtr → Memory} {p : Nat}

theorem Mirrors.keep (h : Mirrors roots origin mem loaded written r)
    (hsame : SameHomes origin.metadata r r') : Mirrors roots origin mem loaded written r' where
  held := fun slot hslot _ _ hobj => by
    obtain ⟨ptr, hptr, hrefers⟩ := h.held slot hslot hobj
    exact ⟨ptr, hptr, hsame.refers hrefers⟩
  loads := fun hload hobj => hsame.refers (h.loads hload hobj)
  bytes := fun hdata i hi => by
    rw [hsame.home hdata hi]
    exact h.bytes hdata i hi

/-- A root slot with a pointer still holds it after a compare-exchange, or the new one instead. -/
theorem testPtr_compareExchange_cases {slot : Nat} {v : FatPtr} (hp : SlotAt roots p)
    (hslot : slot ∈ roots.slots) (hv : testPtr mem slot = some v) :
    testPtr (compareExchange mem p ptr newObj).2 slot = some v ∨
      (v = ptr ∧ testPtr (compareExchange mem p ptr newObj).2 slot = some newObj) := by
  by_cases hne : slot = p
  · subst hne
    by_cases heq : v = ptr
    · subst heq
      refine Or.inr ⟨rfl, ?_⟩
      rw [compareExchange_of_testPtr hv]
      exact testPtr_atomicUpdate_self (maybePtr_of_testPtr hv)
    · left
      rw [compareExchange_of_ne hv heq]
      exact hv
  · left
    have hapart := hp.apart hslot hne
    rw [testPtr_congr (agreeOn_compareExchange (by omega))]
    exact hv

namespace Copying

/-- A root slot that holds an object's old address holds no other object. -/
theorem eq_of_refers (h : Copying roots origin.metadata metadata r) (hrefers : r.Refers obj ptr)
    (hspace : findSpace cfg ptr.asPtr = some r.toSpace.flip) : ptr = obj := by
  have hnot : ¬ r.Target obj ptr := fun htarget => by
    obtain ⟨_, _, _, hto⟩ := h.target htarget
    exact findSpace_ne_flip hto hspace
  rcases hrefers with rfl | hvisited | herase
  · rfl
  · exact absurd (Or.inl hvisited) hnot
  · exact absurd (Or.inr (by rw [herase]; rfl)) hnot

/-- No byte of an object has its home in a slot that is left behind. -/
theorem home_outside (h : Copying roots origin.metadata s.heap.metadata r) (hblocks : Blocks s)
    (hp : LeftBehind roots origin.metadata (· ∈ r.visited) p)
    (hdata : origin.metadata.lookup obj = some data) (hi : i < data.size) :
    (r.home obj i).asPtr + i < p ∨ p + 16 ≤ (r.home obj i).asPtr + i := by
  rcases hp with hroot | ⟨left, d, hleft, hvisited, hlo, hhi⟩
  · obtain ⟨space, hblockLo, hblockHi⟩ := h.home_within (i := i) hblocks hdata
    have houtside := roots.apart p hroot space
    have hsize : gcPtrSize = 16 := rfl
    omega
  · rcases r.home_cases obj i with ⟨hown, hunvisited⟩ | htarget
    · have hne : obj ≠ left := by
        rintro rfl
        exact AList.lookup_eq_none.mp hunvisited hvisited
      have hapart := h.settled.separated obj data left d hdata hleft hne
      rw [hown]
      omega
    · have hapart := h.old_apart_target hblocks hleft hdata htarget
      omega

/-- **A slot is updated** from the old address of an object. -/
theorem compareExchange (h : Copying roots origin.metadata s.heap.metadata r) (hblocks : Blocks s)
    (hmirrors : Mirrors roots origin mem loaded written r)
    (hp : LeftBehind roots origin.metadata (· ∈ r.visited) p)
    (hspace : findSpace cfg ptr.asPtr = some r.toSpace.flip)
    (hsame : SameHomes origin.metadata r r') (hnew : r'.Refers ptr newObj) :
    Mirrors roots origin (Gcpp.compareExchange mem p ptr newObj).2 loaded written r' where
  held := fun slot hslot obj data hobj => by
    obtain ⟨v, hv, hrefers⟩ := hmirrors.held slot hslot hobj
    have hcases : _ ∨ (v = ptr ∧ testPtr (Gcpp.compareExchange mem p ptr newObj).2 slot = _) :=
      testPtr_compareExchange_cases (hp.slotAt h.settled) hslot hv
    rcases hcases with hkept | ⟨rfl, hset⟩
    · exact ⟨v, hkept, hsame.refers hrefers⟩
    · obtain rfl := h.eq_of_refers hrefers hspace
      exact ⟨newObj, hset, hnew⟩
  loads := fun hload hobj => hsame.refers (hmirrors.loads hload hobj)
  bytes := fun {obj data} hdata i hi => by
    have houtside := h.home_outside hblocks hp hdata hi
    have hagree : AgreeOn (Gcpp.compareExchange mem p ptr newObj).2 mem
        ((r.home obj i).asPtr + i) 1 := agreeOn_compareExchange (by omega)
    have hkept := hagree 0 Nat.zero_lt_one
    rw [Nat.add_zero] at hkept
    rw [hsame.home hdata hi, hkept]
    exact hmirrors.bytes hdata i hi

end Copying

theorem SameHomes.of_register {old : AssocMap FatPtr MetaData} {index : Option Nat}
    (hstage : r.stage = .register p ptr data index) :
    SameHomes old r { r with stage := .words p ptr data newObj 0 } where
  home := fun {obj _ i} _ _ => by
    have hbefore : r.stage.copied obj i = none := by rw [hstage]; rfl
    have hafter : (Stage.words p ptr data newObj 0).copied obj i = none :=
      if_neg fun hmeant => Nat.not_lt_zero _ hmeant.2
    exact Running.home_congr rfl (hafter.trans hbefore.symm)
  refers := fun hrefers => hrefers.of_visited rfl fun v new herase => by
    rw [hstage] at herase
    cases herase

/-- **A copy is registered** above all objects of the space. -/
theorem Copying.register (h : Copying roots origin.metadata metadata r) {index : Nat}
    (hstage : r.stage = .register p ptr data (some index))
    (hold : origin.metadata.lookup ptr = some data) (hunvisited : r.visited.lookup ptr = none)
    (hfresh : metadata.lookup newObj = none) (haddr : newObj.asPtr = cfg.base r.toSpace + index)
    (hspace : findSpace cfg newObj.asPtr = some r.toSpace) :
    Copying roots origin.metadata (AssocMap.emplace newObj data metadata)
      { r with stage := .words p ptr data newObj 0 } where
  settled := h.settled
  old := fun {q d} hq hfrom => by
    rw [AssocMap.lookup_emplace hfresh] at hq
    split at hq
    · rename_i heq
      rw [heq] at hfrom
      exact absurd hfrom (findSpace_ne_flip hspace)
    · exact h.old hq hfrom
  gone := fun {obj new} hvisited => by
    have hne : obj ≠ newObj := by
      rintro rfl
      obtain ⟨d, hd, _⟩ := h.target (Or.inl hvisited)
      exact findSpace_ne_flip hspace (h.settled.findSpace hd)
    rw [AssocMap.lookup_emplace_of_ne hne]
    exact h.gone hvisited
  target := by
    rintro obj new (hvisited | hnow)
    · obtain ⟨d, hd, hdata, hto⟩ := h.target (Or.inl hvisited)
      exact ⟨d, hd, lookup_grows data hfresh _ _ hdata, hto⟩
    · cases hnow
      exact ⟨data, hold, AssocMap.lookup_emplace_self hfresh, hspace⟩
  injective := by
    -- the new copy is none of those that were there
    have hnew : ∀ obj, r.visited.lookup obj ≠ some newObj := fun obj hvisited => by
      obtain ⟨d, _, hd, _⟩ := h.target (Or.inl hvisited)
      rw [hfresh] at hd
      cases hd
    rintro a b new (ha | ha) (hb | hb)
    · exact h.injective (Or.inl ha) (Or.inl hb)
    · cases hb
      exact absurd ha (hnew a)
    · cases ha
      exact absurd hb (hnew b)
    · cases ha
      cases hb
      rfl
  unvisited := fun hnow => by
    cases hnow
    exact hunvisited
  top := fun heq => by cases heq
  last := fun heq q d hq hto hne => by
    cases heq
    rw [AssocMap.lookup_emplace_of_ne hne] at hq
    rw [haddr]
    exact h.top (by rw [hstage]; rfl) hq hto
  stack := fun q hq => by
    refine (h.stack q hq).mono ?_
    rintro obj (hvisited | hmoving)
    · exact Or.inl hvisited
    · rw [hstage] at hmoving
      exact Or.inr hmoving
  hand := fun heq => by
    cases heq
    exact h.hand (by rw [hstage]; rfl)

/-- **The old object is erased**, and counts as copied from then on. -/
theorem Copying.erase (h : Copying roots origin.metadata metadata r)
    (hstage : r.stage = .erase ptr newObj) :
    Copying roots origin.metadata (metadata.erase ptr)
      { r with visited := AssocMap.emplace ptr newObj r.visited, stage := .forward } := by
  have hnow : r.stage.target = some (ptr, newObj) := by rw [hstage]; rfl
  have hunvisited := h.unvisited hnow
  have htarget : ∀ {obj new}, (AssocMap.emplace ptr newObj r.visited).lookup obj = some new →
      r.Target obj new := fun {obj new} hv => by
    rw [AssocMap.lookup_emplace hunvisited] at hv
    split at hv
    · rename_i heq
      cases hv
      rw [heq]
      exact Or.inr hnow
    · exact Or.inl hv
  have hvisits : ∀ obj, (obj ∈ r.visited ∨ r.stage.moving = some obj) →
      obj ∈ AssocMap.emplace ptr newObj r.visited := by
    rintro obj (hmem | hmoving)
    · obtain ⟨new, hnew⟩ := Option.isSome_iff_exists.mp (AList.lookup_isSome.mpr hmem)
      exact AssocMap.mem_of_lookup (AssocMap.lookup_emplace_of_some hnew)
    · rw [hstage] at hmoving
      cases hmoving
      exact AssocMap.mem_of_lookup (AssocMap.lookup_emplace_self hunvisited)
  obtain ⟨data, hold, _, _⟩ := h.target (Or.inr hnow)
  exact
    { settled := h.settled
      old := fun hq hfrom => by
        rw [AssocMap.lookup_erase_eq] at hq
        split at hq
        · cases hq
        · exact h.old hq hfrom
      gone := fun {obj new} hv => by
        rw [AssocMap.lookup_erase_eq]
        split
        · rfl
        · rename_i hne
          rw [AssocMap.lookup_emplace_of_ne hne] at hv
          exact h.gone hv
      target := by
        rintro obj new (hv | hnone)
        · obtain ⟨d, hd, hdata, hto⟩ := h.target (htarget hv)
          have hne : new ≠ ptr := by
            rintro rfl
            exact findSpace_ne_flip hto (h.settled.findSpace hold)
          refine ⟨d, hd, ?_, hto⟩
          rw [AssocMap.lookup_erase_eq, if_neg hne]
          exact hdata
        · cases hnone
      injective := by
        rintro a b new (ha | hnone) (hb | hnone')
        · exact h.injective (htarget ha) (htarget hb)
        · cases hnone'
        · cases hnone
        · cases hnone
      unvisited := fun hnone => by cases hnone
      top := fun heq => by cases heq
      last := fun heq => by cases heq
      stack := fun q hq => (h.stack q hq).mono fun obj hobj => Or.inl (hvisits obj hobj)
      hand := fun heq => by cases heq }

theorem SameHomes.of_erase {old : AssocMap FatPtr MetaData} (hstage : r.stage = .erase ptr newObj)
    (hunvisited : r.visited.lookup ptr = none) :
    SameHomes old r
      { r with visited := AssocMap.emplace ptr newObj r.visited, stage := .forward } where
  home := fun {obj _ i} _ _ => by
    by_cases heq : obj = ptr
    · subst heq
      have hbefore : r.stage.copied obj i = some newObj := by
        rw [hstage]
        exact if_pos rfl
      rw [Running.home_of_copied hunvisited hbefore]
      exact Running.home_of_visited (AssocMap.lookup_emplace_self hunvisited)
    · have hbefore : r.stage.copied obj i = none := by
        rw [hstage]
        exact if_neg heq
      exact Running.home_congr (AssocMap.lookup_emplace_of_ne heq) hbefore.symm
  refers := by
    rintro obj v (rfl | hvisited | herase)
    · exact Or.inl rfl
    · exact Or.inr (Or.inl (AssocMap.lookup_emplace_of_some hvisited))
    · rw [hstage] at herase
      cases herase
      exact Or.inr (Or.inl (AssocMap.lookup_emplace_self hunvisited))

/-- The stages from the first word of a copy to its registration as the object's place. -/
theorem Copying.same_target (h : Copying roots origin.metadata metadata r) {stage : Stage}
    (htarget : stage.target = r.stage.target) (hreserved : stage.reserved = none)
    (hwords : ∀ {p ptr data newObj i}, stage = .words p ptr data newObj i →
      ∃ j, r.stage = .words p ptr data newObj j)
    (hmoving : stage.moving = r.stage.moving)
    (hhand : ∀ {q v}, stage.inHand = some (q, v) → r.stage.inHand = some (q, v)) :
    Copying roots origin.metadata metadata { r with stage } := by
  have hkept : ∀ {obj new}, Running.Target { r with stage } obj new → r.Target obj new :=
    fun hnow => hnow.imp_right fun heq => htarget ▸ heq
  exact
    { settled := h.settled
      old := h.old
      gone := h.gone
      target := fun hnow => h.target (hkept hnow)
      injective := fun ha hb => h.injective (hkept ha) (hkept hb)
      unvisited := fun hnow => h.unvisited (htarget ▸ hnow)
      top := fun heq => by
        rw [hreserved] at heq
        cases heq
      last := fun {_ _ _ _ _} heq {_ _} hdata hto hne => by
        obtain ⟨j, hj⟩ := hwords heq
        exact h.last hj hdata hto hne
      stack := fun q hq => by
        dsimp only
        rw [hmoving]
        exact h.stack q hq
      hand := fun heq => h.hand (hhand heq) }

section Words

variable {done width : Nat}

/-- What is not yet copied, and what belongs to another object, lies apart from what the copy can
write to. -/
theorem Copying.home_outside_copy (h : Copying roots origin.metadata s.heap.metadata r)
    (hapart : SpacesApart cfg)
    (hstage : r.stage = .words p ptr data newObj done)
    (hnew : cfg.base r.toSpace ≤ newObj.asPtr ∧
      newObj.asPtr + data.size ≤ cfg.base r.toSpace + cfg.heapSize)
    {d : MetaData} (hdata : origin.metadata.lookup obj = some d) (hi : i < d.size)
    (hother : r.home obj i ≠ newObj) : (r.home obj i).asPtr + i < newObj.asPtr ∨
      newObj.asPtr + data.size + 7 ≤ (r.home obj i).asPtr + i := by
  rcases r.home_cases obj i with ⟨hown, _⟩ | htarget
  · have hlo := h.settled.lo hdata
    have hhi := h.settled.hi hdata
    have hgap : cfg.base r.toSpace + cfg.heapSize + 8 ≤ cfg.base r.toSpace.flip ∨
        cfg.base r.toSpace.flip + cfg.heapSize + 8 ≤ cfg.base r.toSpace := by
      cases r.toSpace with
      | zero => exact hapart
      | one => exact hapart.symm
    rw [hown]
    omega
  · obtain ⟨d', hd', hregistered, hspace⟩ := h.target htarget
    rw [hdata] at hd'
    cases hd'
    have hlast := h.last hstage hregistered hspace hother
    omega

/-- Only the object that is being copied has bytes in the copy. -/
theorem Copying.home_ne_copy (h : Copying roots origin.metadata metadata r)
    (hnow : r.stage.target = some (ptr, newObj)) {d : MetaData}
    (hdata : origin.metadata.lookup obj = some d) (hne : obj ≠ ptr) : r.home obj i ≠ newObj := by
  intro heq
  rcases r.home_cases obj i with ⟨hown, _⟩ | htarget
  · obtain ⟨_, _, _, hto⟩ := h.target (Or.inr hnow)
    rw [← heq, hown] at hto
    exact findSpace_ne_flip hto (h.settled.findSpace hdata)
  · rw [heq] at htarget
    exact hne (h.injective htarget (Or.inr hnow))

theorem home_words (hstage : r.stage = .words p ptr data newObj done)
    (hother : ¬ (obj = ptr ∧ i < done + width)) :
    Running.home { r with stage := .words p ptr data newObj (done + width) } obj i =
      r.home obj i := by
  have hbefore : r.stage.copied obj i = none := by
    rw [hstage]
    exact if_neg fun heq => hother ⟨heq.1, by omega⟩
  have hafter : (Stage.words p ptr data newObj (done + width)).copied obj i = none :=
    if_neg hother
  exact Running.home_congr rfl (hafter.trans hbefore.symm)

theorem home_of_done (hstage : r.stage = .words p ptr data newObj done)
    (hunvisited : r.visited.lookup ptr = none) (hi : i < done) : r.home ptr i = newObj := by
  refine Running.home_of_copied hunvisited ?_
  rw [hstage]
  exact if_pos ⟨rfl, hi⟩

theorem home_of_waiting (hstage : r.stage = .words p ptr data newObj done)
    (hunvisited : r.visited.lookup ptr = none) (hi : done ≤ i) : r.home ptr i = ptr := by
  refine Running.home_of_not_copied hunvisited ?_
  rw [hstage]
  exact if_neg fun heq => absurd heq.2 (by omega)

/-- **A word is copied.** -/
theorem Copying.move (h : Copying roots origin.metadata s.heap.metadata r) (hblocks : Blocks s)
    (hmirrors : Mirrors roots origin mem loaded written r) (hapart : SpacesApart cfg)
    (hstage : r.stage = .words p ptr data newObj done) (hdone : done < data.size)
    (hwidth : width ≤ 8) (hold : origin.metadata.lookup ptr = some data) :
    Mirrors roots origin (move mem (newObj.asPtr + done) (ptr.asPtr + done) width) loaded written
      { r with stage := .words p ptr data newObj (done + width) } := by
  have hnow : r.stage.target = some (ptr, newObj) := by rw [hstage]; rfl
  have hnew := h.target_within hblocks hold (Or.inr hnow)
  have hunvisited := h.unvisited hnow
  refine
    { held := fun slot hslot {obj d} hobj => ?_
      loads := fun hload hobj => ?_
      bytes := fun {obj d} hdata i hi => ?_ }
  · obtain ⟨v, hv, hrefers⟩ := hmirrors.held slot hslot hobj
    refine ⟨v, ?_, hrefers.imp_right (Or.imp_right fun herase => ?_)⟩
    · have houtside := roots.apart slot hslot r.toSpace
      have hsize : gcPtrSize = 16 := rfl
      rw [← hv]
      exact testPtr_congr fun x hx => move_outside (by omega)
    · rw [hstage] at herase
      cases herase
  · refine (hmirrors.loads hload hobj).imp_right (Or.imp_right fun herase => ?_)
    rw [hstage] at herase
    cases herase
  · by_cases hcopied : obj = ptr ∧ i < done + width
    · obtain ⟨rfl, hi'⟩ := hcopied
      have hafter : Running.home { r with stage := .words p obj data newObj (done + width) } obj i =
          newObj := home_of_done rfl hunvisited hi'
      have hbytes := hmirrors.bytes hdata i hi
      rw [hafter]
      by_cases hearlier : i < done
      · rw [home_of_done hstage hunvisited hearlier] at hbytes
        rw [move_outside (by omega)]
        exact hbytes
      · have hmoved : ByteMemory.move mem (newObj.asPtr + done) (obj.asPtr + done) width
            (newObj.asPtr + done + (i - done)) = mem (obj.asPtr + done + (i - done)) :=
          move_inside (by omega)
        rw [show newObj.asPtr + done + (i - done) = newObj.asPtr + i by omega,
          show obj.asPtr + done + (i - done) = obj.asPtr + i by omega] at hmoved
        rw [home_of_waiting hstage hunvisited (by omega)] at hbytes
        exact hmoved.trans hbytes
    · -- the byte stays, and the word that is written does not reach it
      have hother : r.home obj i ≠ newObj := by
        by_cases heq : obj = ptr
        · subst heq
          have hwaiting : done ≤ i := by
            by_contra
            exact hcopied ⟨rfl, by omega⟩
          rw [home_of_waiting hstage hunvisited hwaiting]
          rintro rfl
          obtain ⟨_, _, _, hto⟩ := h.target (Or.inr hnow)
          exact findSpace_ne_flip hto (h.settled.findSpace hold)
        · exact h.home_ne_copy hnow hdata heq
      have houtside := h.home_outside_copy hapart hstage hnew hdata hi hother
      rw [home_words hstage hcopied, move_outside (by omega)]
      exact hmirrors.bytes hdata i hi

end Words

end Gcpp.Concurrent
