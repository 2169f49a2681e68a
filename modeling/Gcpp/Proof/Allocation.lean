import Gcpp.CopyCollector

/-!
# What one allocation step does

The padding search, the reservation, the overlap check and the registration, each as an equation for
its run. `copy` and the reserving region of `alloc_attempt` are put together from them, and nothing
later unfolds these functions again.
-/

namespace Gcpp

open ByteMemory StateExcept

/-! ### Padding -/

theorem SmallAlignment.pos {alignment : Nat} (h : SmallAlignment alignment) : 0 < alignment := by
  obtain ⟨k, _, rfl⟩ := h
  exact Nat.two_pow_pos k

theorem SmallAlignment.le {alignment : Nat} (h : SmallAlignment alignment) : alignment ≤ 256 := by
  obtain ⟨k, hk, rfl⟩ := h
  exact Nat.pow_le_pow_right (by decide) hk

theorem SmallAlignment.dvd {alignment : Nat} (h : SmallAlignment alignment) : alignment ∣ 256 := by
  obtain ⟨k, hk, rfl⟩ := h
  exact Nat.pow_dvd_pow 2 hk

theorem SmallAlignment.and_mask_eq {alignment : Nat} (h : SmallAlignment alignment) (p : Nat) :
    p &&& ((alignment + (2 ^ 64 - 1)) % 2 ^ 64) = p % alignment := by
  have hle := h.le
  have hpos := h.pos
  obtain ⟨k, _, rfl⟩ := h
  rw [show (2 ^ k + (2 ^ 64 - 1)) % 2 ^ 64 = 2 ^ k - 1 by omega, Nat.and_two_pow_sub_one_eq_mod]

theorem calcAlignmentLoop_eq_some {curPtr alignment result : Nat} (rounds : Nat) :
    ∀ start, calcAlignmentLoop curPtr alignment rounds start = some result →
      start ≤ result ∧ (curPtr + result) &&& ((alignment + (2 ^ 64 - 1)) % 2 ^ 64) = 0 := by
  induction rounds with
  | zero =>
      intro start h
      cases h
  | succ rounds ih =>
      intro start h
      rw [calcAlignmentLoop] at h
      split at h
      · obtain ⟨hle, hzero⟩ := ih _ h
        exact ⟨by omega, hzero⟩
      · rename_i hzero
        cases h
        exact ⟨le_rfl, not_not.mp hzero⟩

theorem calcAlignmentLoop_exists {curPtr alignment goal : Nat}
    (hgoal : (curPtr + goal) &&& ((alignment + (2 ^ 64 - 1)) % 2 ^ 64) = 0) (rounds : Nat) :
    ∀ start, start ≤ goal → goal < start + rounds →
      ∃ result ≤ goal, calcAlignmentLoop curPtr alignment rounds start = some result := by
  induction rounds with
  | zero => intro start hle hlt; omega
  | succ rounds ih =>
      intro start hle hlt
      rw [calcAlignmentLoop]
      by_cases hstart : (curPtr + start) &&& ((alignment + (2 ^ 64 - 1)) % 2 ^ 64) = 0
      · exact ⟨start, hle, by rw [if_neg (not_not.mpr hstart)]⟩
      · have hne : start ≠ goal := fun heq => hstart (heq ▸ hgoal)
        rw [if_pos hstart]
        exact ih (start + 1) (by omega) (by omega)

/-- From any address the search finds a padding smaller than the alignment. -/
theorem calcAlignmentBytes_spec {alignment : Nat} (h : SmallAlignment alignment) (curPtr : Nat) :
    ∃ padding < alignment, calcAlignmentBytes curPtr alignment = some padding ∧
      alignment ∣ curPtr + padding := by
  have hpos := h.pos
  have hle := h.le
  have hmod := Nat.mod_lt curPtr hpos
  have hgoal : (curPtr + (alignment - curPtr % alignment) % alignment) % alignment = 0 := by
    by_cases hzero : curPtr % alignment = 0
    · rw [hzero, Nat.sub_zero, Nat.mod_self, Nat.add_zero, hzero]
    · rw [Nat.mod_eq_of_lt (show alignment - curPtr % alignment < alignment by omega),
        Nat.add_mod, Nat.mod_eq_of_lt (show alignment - curPtr % alignment < alignment by omega),
        Nat.add_sub_cancel' hmod.le, Nat.mod_self]
  have hlt : (alignment - curPtr % alignment) % alignment < alignment := Nat.mod_lt _ hpos
  obtain ⟨padding, hpadding, hsome⟩ := calcAlignmentLoop_exists
    ((h.and_mask_eq _).trans hgoal) 256 0 (Nat.zero_le _) (by omega)
  refine ⟨padding, by omega, hsome, ?_⟩
  have hzero := (calcAlignmentLoop_eq_some 256 0 hsome).2
  rw [h.and_mask_eq] at hzero
  exact Nat.dvd_of_mod_eq_zero hzero

theorem calcAlignmentBytes_of_dvd {alignment curPtr : Nat} (h : SmallAlignment alignment)
    (hdvd : alignment ∣ curPtr) : calcAlignmentBytes curPtr alignment = some 0 := by
  rw [calcAlignmentBytes, calcAlignmentLoop, Nat.add_zero, h.and_mask_eq,
    Nat.mod_eq_zero_of_dvd hdvd, if_neg (by decide)]

/-! ### The two blocks -/

variable {cfg : Config}

namespace SpaceNum

theorem flip_ne (space : SpaceNum) : space.flip ≠ space := by cases space <;> decide

@[simp]
theorem flip_flip (space : SpaceNum) : space.flip.flip = space := by cases space <;> rfl

theorem eq_flip_of_ne {space other : SpaceNum} (h : other ≠ space) : other = space.flip := by
  cases space <;> cases other <;> first | rfl | exact absurd rfl h

end SpaceNum

theorem Config.block_lt (cfg : Config) (space : SpaceNum) :
    cfg.base space + cfg.heapSize ≤ 2 ^ 56 := cfg.base_lt space

theorem Config.blocks_disjoint (cfg : Config) {space other : SpaceNum} (h : space ≠ other) :
    cfg.base space + cfg.heapSize ≤ cfg.base other ∨
      cfg.base other + cfg.heapSize ≤ cfg.base space := by
  have hdisjoint := cfg.spaces_disjoint
  unfold Config.heapSize
  cases space <;> cases other
  · exact absurd rfl h
  · exact hdisjoint
  · exact hdisjoint.symm
  · exact absurd rfl h

theorem findSpace_eq_some_iff {addr : Nat} {space : SpaceNum} :
    findSpace cfg addr = some space ↔
      cfg.base space ≤ addr ∧ addr < cfg.base space + cfg.heapSize := by
  have hdisjoint := cfg.blocks_disjoint (show SpaceNum.zero ≠ SpaceNum.one by decide)
  rw [findSpace]
  cases space with
  | zero => split_ifs <;> simp_all
  | one =>
      split_ifs with hzero hone
      · simp only [Option.some.injEq, reduceCtorEq, false_iff]
        omega
      · simpa using hone
      · simpa using hone

theorem findSpace_ne_flip {addr : Nat} {space : SpaceNum} (h : findSpace cfg addr = some space) :
    findSpace cfg addr ≠ some space.flip := by
  rw [h]
  exact fun heq => SpaceNum.flip_ne _ (Option.some.inj heq).symm

theorem findSpace_ne_of_flip {addr : Nat} {space : SpaceNum}
    (h : findSpace cfg addr = some space.flip) : findSpace cfg addr ≠ some space :=
  fun hto => findSpace_ne_flip hto h

theorem contains_iff {addr : Nat} : contains cfg addr = true ↔ (findSpace cfg addr).isSome := by
  rw [contains, findSpace]
  split_ifs <;> simp_all

theorem run_getSpaceNum {ptr : FatPtr} {space : SpaceNum} (s : State)
    (h : findSpace cfg ptr.asPtr = some space) : (getSpaceNum cfg ptr).run s = .ok space s := by
  rw [getSpaceNum, h]
  rfl

theorem asPtr_ofAddr_base (space : SpaceNum) {index : Nat} (h : index < cfg.heapSize) :
    (FatPtr.ofAddr (cfg.base space + index)).asPtr = cfg.base space + index := by
  have hblock := cfg.block_lt space
  exact FatPtr.asPtr_ofAddr_of_lt (by omega)

theorem findSpace_ofAddr_base (space : SpaceNum) {index : Nat} (h : index < cfg.heapSize) :
    findSpace cfg (FatPtr.ofAddr (cfg.base space + index)).asPtr = some space := by
  rw [asPtr_ofAddr_base space h, findSpace_eq_some_iff]
  omega

/-! ### The steps of an allocation -/

def State.bump (s : State) (space : SpaceNum) (next : Nat) : State :=
  { s with nexts := Function.update s.nexts space next }

section Bump

variable (s : State) (space : SpaceNum) (next : Nat)

@[simp] theorem State.bump_metadata : (s.bump space next).metadata = s.metadata := rfl
@[simp] theorem State.bump_mem : (s.bump space next).mem = s.mem := rfl
@[simp] theorem State.bump_spaceNum : (s.bump space next).spaceNum = s.spaceNum := rfl

@[simp]
theorem State.bump_nexts_self : (s.bump space next).nexts space = next :=
  Function.update_self _ _ _

@[simp]
theorem State.bump_nexts_flip : (s.bump space next).nexts space.flip = s.nexts space.flip :=
  Function.update_of_ne (SpaceNum.flip_ne space) _ _

end Bump

variable {s : State} {size alignment padding index : Nat} {space toSpace : SpaceNum}
  {ptr : FatPtr} {data : MetaData}

theorem run_reserveSpace (size limit : Nat)
    (hpadding : calcAlignmentBytes (cfg.base toSpace + s.nexts toSpace) alignment = some padding) :
    (reserveSpace cfg size toSpace alignment limit).run s =
      if s.nexts toSpace + size + padding > limit then .ok none s
      else .ok (some (s.nexts toSpace + padding))
        (s.bump toSpace (s.nexts toSpace + size + padding)) := by
  simp only [reserveSpace, EStateM.run_bind, EStateM.run_get, hpadding]
  split <;> rfl

/-- No managed block meets the block of `size` bytes at `addr`. -/
def NoOverlap (metadata : AssocMap FatPtr MetaData) (addr size : Nat) : Prop :=
  ∀ ptr data, metadata.lookup ptr = some data → overlaps addr size ptr data = false

theorem any_overlaps_eq_false_iff {addr : Nat} :
    (s.metadata.entries.any fun e => overlaps addr size e.1 e.2) = false ↔
      NoOverlap s.metadata addr size := by
  rw [List.any_eq_false]
  constructor
  · intro h ptr data hlookup
    have := h ⟨ptr, data⟩ (AList.mem_lookup_iff.mp hlookup)
    simpa using this
  · intro h e he
    simp [h e.1 e.2 (AList.mem_lookup_iff.mpr he)]

theorem run_checkOverlappingAlloc_none (h : s.metadata.lookup ptr = some data) :
    (checkOverlappingAlloc cfg none toSpace size).run s = .error .badOptionalAccess s := by
  have hne := AssocMap.entries_ne_nil_of_lookup h
  simp only [checkOverlappingAlloc, EStateM.run_bind, EStateM.run_get]
  rw [if_neg (by simpa using hne)]
  rfl

theorem run_checkOverlappingAlloc_none_empty (h : s.metadata.entries = []) :
    (checkOverlappingAlloc cfg none toSpace size).run s = .ok () s := by
  simp only [checkOverlappingAlloc, EStateM.run_bind, EStateM.run_get, h]
  rfl

theorem run_checkOverlappingAlloc_some (h : NoOverlap s.metadata (cfg.base toSpace + index) size) :
    (checkOverlappingAlloc cfg (some index) toSpace size).run s = .ok () s := by
  simp only [checkOverlappingAlloc, EStateM.run_bind, EStateM.run_get,
    any_overlaps_eq_false_iff.mpr h]
  split <;> rfl

theorem run_checkOverlappingAlloc_overlap
    (h : ¬ NoOverlap s.metadata (cfg.base toSpace + index) size) :
    (checkOverlappingAlloc cfg (some index) toSpace size).run s =
      .error (.runtimeError "Heap corruption") s := by
  have hany : (s.metadata.entries.any
      fun e => overlaps (cfg.base toSpace + index) size e.1 e.2) = true := by
    rw [← Bool.not_eq_false, any_overlaps_eq_false_iff]
    exact h
  have hne : s.metadata.entries.isEmpty = false := by
    by_contra hempty
    rw [Bool.not_eq_false, List.isEmpty_iff] at hempty
    rw [hempty] at hany
    cases hany
  simp only [checkOverlappingAlloc, EStateM.run_bind, EStateM.run_get, hne, hany]
  rfl

def State.register (s : State) (ptr : FatPtr) (data : MetaData) : State :=
  { s with metadata := AssocMap.emplace ptr data s.metadata }

@[simp] theorem State.register_nexts : (s.register ptr data).nexts = s.nexts := rfl
@[simp] theorem State.register_mem : (s.register ptr data).mem = s.mem := rfl
@[simp] theorem State.register_spaceNum : (s.register ptr data).spaceNum = s.spaceNum := rfl

theorem run_allocNoConstraints :
    (allocNoConstraints cfg toSpace data index).run s =
      if data.size + index ≥ cfg.heapSize then .error .badAlloc s
      else .ok (FatPtr.ofAddr (cfg.base toSpace + index))
        (s.register (FatPtr.ofAddr (cfg.base toSpace + index)) data) := by
  rw [allocNoConstraints]
  split <;> rfl

/-- The state after the object at `ptr` has been moved to `newObj`. -/
def State.relocate (s : State) (toUpdate : Nat) (ptr newObj : FatPtr) (data : MetaData) : State :=
  { s with
    metadata := (AssocMap.emplace newObj data s.metadata).erase ptr
    mem := (compareExchange (seqCstCpy s.mem newObj.asPtr ptr.asPtr data.size) toUpdate ptr
      newObj).2 }

section Relocate

variable (toUpdate : Nat) (newObj : FatPtr)

@[simp]
theorem State.relocate_metadata : (s.relocate toUpdate ptr newObj data).metadata =
    (AssocMap.emplace newObj data s.metadata).erase ptr := by
  rw [State.relocate]

@[simp]
theorem State.relocate_mem : (s.relocate toUpdate ptr newObj data).mem =
    (compareExchange (seqCstCpy s.mem newObj.asPtr ptr.asPtr data.size) toUpdate ptr newObj).2 := by
  rw [State.relocate]

end Relocate

theorem run_metadataAt (hdata : s.metadata.lookup ptr = some data) :
    (metadataAt ptr).run s = .ok data s := by
  simp only [metadataAt, EStateM.run_bind, EStateM.run_get, hdata]
  rfl

theorem run_copy_hang {toUpdate : Nat} (hspace : findSpace cfg ptr.asPtr = some space)
    (hne : space ≠ toSpace) (hdata : s.metadata.lookup ptr = some data)
    (hpadding : calcAlignmentBytes (cfg.base toSpace + s.nexts toSpace) data.alignment = none) :
    (copy cfg toUpdate toSpace ptr).run s = .error .hang s := by
  have hreserve : (reserveSpace cfg data.size toSpace data.alignment cfg.heapSize).run s
      = .error .hang s := by
    simp only [reserveSpace, EStateM.run_bind, EStateM.run_get, hpadding]
    rfl
  rw [copy, run_bind_of_ok (run_getSpaceNum s hspace), if_neg hne,
    run_bind_of_ok (run_metadataAt hdata), run_bind_of_error hreserve]

/-- **Every outcome of `copy`** for a managed object of the other space. -/
theorem run_copy {toUpdate : Nat} (hspace : findSpace cfg ptr.asPtr = some space)
    (hne : space ≠ toSpace) (hdata : s.metadata.lookup ptr = some data)
    (hpadding : calcAlignmentBytes (cfg.base toSpace + s.nexts toSpace) data.alignment
      = some padding) :
    (copy cfg toUpdate toSpace ptr).run s =
      if s.nexts toSpace + data.size + padding > cfg.heapSize then .error .badOptionalAccess s
      else
        let index := s.nexts toSpace + padding
        let reserved := s.bump toSpace (s.nexts toSpace + data.size + padding)
        let newObj := FatPtr.ofAddr (cfg.base toSpace + index)
        open Classical in
        if ¬ NoOverlap s.metadata (cfg.base toSpace + index) data.size then
          .error (.runtimeError "Heap corruption") reserved
        else if data.size + index ≥ cfg.heapSize then .error .badAlloc reserved
        else .ok newObj (reserved.relocate toUpdate ptr newObj data) := by
  rw [copy, run_bind_of_ok (run_getSpaceNum s hspace), if_neg hne,
    run_bind_of_ok (run_metadataAt hdata)]
  by_cases hfit : s.nexts toSpace + data.size + padding > cfg.heapSize
  · rw [if_pos hfit, run_bind_of_ok ((run_reserveSpace _ _ hpadding).trans (if_pos hfit)),
      run_bind_of_error (run_checkOverlappingAlloc_none hdata)]
  · rw [if_neg hfit, run_bind_of_ok ((run_reserveSpace _ _ hpadding).trans (if_neg hfit))]
    dsimp only
    by_cases hover : NoOverlap s.metadata (cfg.base toSpace + (s.nexts toSpace + padding)) data.size
    · -- the check runs after the reservation, which leaves the map alone
      have hcheck : (checkOverlappingAlloc cfg (some (s.nexts toSpace + padding)) toSpace
          data.size).run (s.bump toSpace (s.nexts toSpace + data.size + padding)) = .ok () _ :=
        run_checkOverlappingAlloc_some hover
      rw [if_neg (not_not.mpr hover), run_bind_of_ok hcheck]
      by_cases hroom : data.size + (s.nexts toSpace + padding) ≥ cfg.heapSize
      · rw [if_pos hroom, run_bind_of_error (run_allocNoConstraints.trans (if_pos hroom))]
      · rw [if_neg hroom, run_bind_of_ok (run_allocNoConstraints.trans (if_neg hroom))]
        simp only [EStateM.run_bind, EStateM.run_modify, EStateM.run_pure, State.relocate,
          State.register]
    · have hcheck : (checkOverlappingAlloc cfg (some (s.nexts toSpace + padding)) toSpace
          data.size).run (s.bump toSpace (s.nexts toSpace + data.size + padding)) = .error _ _ :=
        run_checkOverlappingAlloc_overlap hover
      rw [if_pos hover, run_bind_of_error hcheck]

/-! ### What the parts leave alone -/

section Frame

variable {t : State} {v : FatPtr}

theorem state_of_reserveSpace {size alignment limit : Nat} {index : Option Nat}
    (hrun : (reserveSpace cfg size toSpace alignment limit).run s = .ok index t) :
    ∃ nexts, t = { s with nexts } := by
  simp only [reserveSpace] at hrun
  rw [EStateM.run_bind, EStateM.run_get] at hrun
  dsimp only at hrun
  split at hrun
  · cases hrun
  · split at hrun <;> cases hrun <;> exact ⟨_, rfl⟩

theorem metadata_of_reserveSpace {size alignment limit : Nat} {index : Option Nat}
    (hrun : (reserveSpace cfg size toSpace alignment limit).run s = .ok index t) :
    t.metadata = s.metadata := by
  obtain ⟨_, rfl⟩ := state_of_reserveSpace hrun
  rfl

theorem mem_of_reserveSpace {size alignment limit : Nat} {index : Option Nat}
    (hrun : (reserveSpace cfg size toSpace alignment limit).run s = .ok index t) :
    t.mem = s.mem := by
  obtain ⟨_, rfl⟩ := state_of_reserveSpace hrun
  rfl

theorem index_of_reserveSpace {size alignment limit i : Nat}
    (hrun : (reserveSpace cfg size toSpace alignment limit).run s = .ok (some i) t) :
    ∃ padding, calcAlignmentBytes (cfg.base toSpace + s.nexts toSpace) alignment = some padding ∧
      i = s.nexts toSpace + padding := by
  simp only [reserveSpace] at hrun
  rw [EStateM.run_bind, EStateM.run_get] at hrun
  dsimp only at hrun
  split at hrun
  · cases hrun
  · rename_i padding hpadding
    split at hrun <;> cases hrun
    exact ⟨padding, hpadding, rfl⟩

theorem state_of_checkOverlappingAlloc {index : Option Nat} {size : Nat} {u : Unit}
    (hrun : (checkOverlappingAlloc cfg index toSpace size).run s = .ok u t) : t = s := by
  simp only [checkOverlappingAlloc] at hrun
  rw [EStateM.run_bind, EStateM.run_get] at hrun
  dsimp only at hrun
  split at hrun
  · cases hrun
    rfl
  · split at hrun
    · cases hrun
    · split at hrun <;> cases hrun
      rfl

theorem state_of_getSpaceNum {space : SpaceNum} (hrun : (getSpaceNum cfg v).run s = .ok space t) :
    t = s := by
  rw [getSpaceNum] at hrun
  split at hrun <;> cases hrun
  rfl

theorem state_of_metadataAt (hrun : (metadataAt v).run s = .ok data t) : t = s := by
  simp only [metadataAt] at hrun
  rw [EStateM.run_bind, EStateM.run_get] at hrun
  dsimp only at hrun
  split at hrun <;> cases hrun
  rfl

theorem metadata_of_allocNoConstraints {index : Nat} {newObj : FatPtr}
    (hrun : (allocNoConstraints cfg toSpace data index).run s = .ok newObj t) :
    t.metadata = AssocMap.emplace newObj data s.metadata := by
  rw [allocNoConstraints] at hrun
  split at hrun <;> cases hrun
  rfl

end Frame

end Gcpp
