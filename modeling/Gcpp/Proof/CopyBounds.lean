import Gcpp.Proof.Padding
import Gcpp.Proof.Collection

/-!
# The last byte of a space

`reserve_space` grants a block that ends with the space, and `alloc_no_constraints` refuses it, when
the bump index has been moved already. A block that does not fit at all is refused by an exception
that nobody meant: the overlap check unwraps the empty index. So `copy` keeps its contract exactly
when the object leaves at least one byte of the space free.
-/

namespace Gcpp

open ByteMemory StateExcept Align

variable {cfg : Config} {toSpace : SpaceNum} {s t : State} {ptr : FatPtr} {data : MetaData}

/-- The managed blocks lie apart from each other and inside of the spaces, and those of the space
that is filled below its bump index. -/
structure DisjointBlocks (cfg : Config) (toSpace : SpaceNum) (s : State) : Prop where
  registered : Registered cfg s.metadata
  pos : ∀ {ptr data}, s.metadata.lookup ptr = some data → 0 < data.size
  below : ∀ {ptr data}, s.metadata.lookup ptr = some data →
    findSpace cfg ptr.asPtr = some toSpace →
    ptr.asPtr + data.size ≤ cfg.base toSpace + s.nexts toSpace
  separated : Separated s.metadata

/-- A collection under way keeps its blocks apart. -/
theorem Evacuating.disjointBlocks {old : AssocMap FatPtr MetaData} {visited : Visited}
    (h : Evacuating cfg old toSpace visited s) : DisjointBlocks cfg toSpace s where
  registered := fun ptr data hdata => by
    rcases h.entry hdata with hplaced | hold
    · exact ⟨toSpace, hplaced.1.findSpace, hplaced.1.inBlock⟩
    · exact ⟨toSpace.flip, h.settled.findSpace hold, h.settled.hi hold⟩
  pos := h.pos
  below := fun hdata hspace => by
    rcases h.entry hdata with hplaced | hold
    · exact hplaced.1.hi
    · exact absurd hspace (findSpace_ne_of_flip (h.settled.findSpace hold))
  separated := h.separated

/-- The blocks above the bump index are free. -/
theorem DisjointBlocks.apart (h : DisjointBlocks cfg toSpace s)
    (hdata : s.metadata.lookup ptr = some data) {index size : Nat}
    (hindex : s.nexts toSpace ≤ index) (hfit : index + size ≤ cfg.heapSize) :
    ptr.asPtr + data.size ≤ cfg.base toSpace + index ∨
      cfg.base toSpace + index + size ≤ ptr.asPtr := by
  obtain ⟨space, hspace, hhi⟩ := h.registered ptr data hdata
  by_cases hto : space = toSpace
  · subst hto
    have hbelow := h.below hdata hspace
    left
    omega
  · have hlo := (findSpace_eq_some_iff.mp hspace).1
    have hblocks := cfg.blocks_disjoint hto
    omega

theorem DisjointBlocks.noOverlap (h : DisjointBlocks cfg toSpace s) {index size : Nat}
    (hsize : 0 < size) (hindex : s.nexts toSpace ≤ index) (hfit : index + size ≤ cfg.heapSize) :
    NoOverlap s.metadata (cfg.base toSpace + index) size :=
  noOverlap_of_apart hsize fun _ _ hdata => ⟨h.pos hdata, h.apart hdata hindex hfit⟩

theorem DisjointBlocks.lookup_fresh (h : DisjointBlocks cfg toSpace s) {index : Nat}
    (hindex : s.nexts toSpace ≤ index) (hfit : index < cfg.heapSize) :
    s.metadata.lookup (FatPtr.ofAddr (cfg.base toSpace + index)) = none :=
  lookup_fresh_of_apart hfit fun _ _ hdata => ⟨h.pos hdata, h.apart hdata hindex hfit⟩

/-! ### The contract of `copy` -/

/-- The object has been moved: the entry of the copy has come, its own has gone, and the slot holds
the copy if it still held the object. -/
structure Relocated (cfg : Config) (s : State) (toUpdate : Nat) (toSpace : SpaceNum) (ptr : FatPtr)
    (data : MetaData) (newObj : FatPtr) (t : State) : Prop where
  placed : findSpace cfg newObj.asPtr = some toSpace
  fresh : s.metadata.lookup newObj = none
  entry : t.metadata.lookup newObj = some data
  erased : t.metadata.lookup ptr = none
  others : ∀ p, p ≠ ptr → p ≠ newObj → t.metadata.lookup p = s.metadata.lookup p
  slot :
    let copied := seqCstCpy s.mem newObj.asPtr ptr.asPtr data.size
    load64 t.mem (toUpdate + 8) =
      if load64 copied (toUpdate + 8) = ptr.mPtr then newObj.mPtr else load64 copied (toUpdate + 8)

/-- Nothing that the caller sees has changed. -/
structure Untouched (s : State) (toUpdate : Nat) (t : State) : Prop where
  nexts : t.nexts = s.nexts
  metadata : t.metadata = s.metadata
  slot : AgreeOn t.mem s.mem toUpdate gcPtrSize

/-- The object does not fit above the bump index. -/
def Exhausted (cfg : Config) (s : State) (toSpace : SpaceNum) (data : MetaData) : Prop :=
  s.nexts toSpace + padding data.alignment (cfg.base toSpace + s.nexts toSpace) + data.size >
    cfg.heapSize

/-- What `copy` promises: it moves the object, or throws `std::bad_alloc`, and only for want of
space, with nothing touched. What the reservation grants, the allocation accepts. -/
structure AllOrNothing (cfg : Config) (s : State) (toUpdate : Nat) (toSpace : SpaceNum)
    (ptr : FatPtr) (data : MetaData) : Prop where
  outcome :
    (∃ newObj t, (copy cfg toUpdate toSpace ptr).run s = .ok newObj t ∧
      Relocated cfg s toUpdate toSpace ptr data newObj t) ∨
    (∃ t, (copy cfg toUpdate toSpace ptr).run s = .error .badAlloc t ∧
      Untouched s toUpdate t ∧ Exhausted cfg s toSpace data)
  granted : ∀ index t,
    (reserveSpace cfg data.size toSpace data.alignment cfg.heapSize).run s = .ok (some index) t →
    ∃ newObj u, (allocNoConstraints cfg toSpace data index).run t = .ok newObj u

theorem load64_compareExchange (m : Memory) (a : Nat) (expected desired : FatPtr) :
    load64 (compareExchange m a expected desired).2 (a + 8) =
      if load64 m (a + 8) = expected.mPtr then desired.mPtr else load64 m (a + 8) := by
  rw [compareExchange]
  split
  · exact load_store_self m (a + 8) desired.mPtr_lt
  · rfl

theorem DisjointBlocks.relocated (h : DisjointBlocks cfg toSpace s)
    (hspace : findSpace cfg ptr.asPtr = some toSpace.flip) (data : MetaData) (toUpdate next : Nat)
    {index : Nat} (hindex : s.nexts toSpace ≤ index) (hfit : index < cfg.heapSize) :
    Relocated cfg s toUpdate toSpace ptr data (FatPtr.ofAddr (cfg.base toSpace + index))
      ((s.bump toSpace next).relocate toUpdate ptr (FatPtr.ofAddr (cfg.base toSpace + index))
        data) := by
  have hto : findSpace cfg (FatPtr.ofAddr (cfg.base toSpace + index)).asPtr = some toSpace :=
    findSpace_ofAddr_base toSpace hfit
  have hfresh := h.lookup_fresh hindex hfit
  have hne : FatPtr.ofAddr (cfg.base toSpace + index) ≠ ptr := by
    intro heq
    rw [heq] at hto
    exact findSpace_ne_flip hto hspace
  refine
    { placed := hto
      fresh := hfresh
      entry := ?_
      erased := AList.lookup_erase _ _
      others := fun p hptr hnew => ?_
      slot := ?_ }
  · rw [State.relocate_metadata, AList.lookup_erase_ne hne]
    exact AssocMap.lookup_emplace_self hfresh
  · rw [State.relocate_metadata, AList.lookup_erase_ne hptr]
    exact AssocMap.lookup_emplace_of_ne hnew
  · rw [State.relocate_mem]
    exact load64_compareExchange _ _ _ _

theorem search_iff (hexponent : ∃ exponent < 64, data.alignment = 2 ^ exponent) (curPtr : Nat) :
    (calcAlignmentBytes curPtr data.alignment = some (padding data.alignment curPtr) ↔
      padding data.alignment curPtr ≤ 255) ∧
    (calcAlignmentBytes curPtr data.alignment = none ↔ ¬ padding data.alignment curPtr ≤ 255) := by
  obtain ⟨exponent, hlt, hpow⟩ := hexponent
  rw [hpow, calcAlignmentBytes_eq_some_iff hlt, calcAlignmentBytes_eq_none_iff hlt]
  omega

/-- A block that ends with its space is granted and refused, one that does not fit has no index to
unwrap, and from a padding of 256 on there is no end. -/
theorem AllOrNothing.fits {toUpdate : Nat} (h : AllOrNothing cfg s toUpdate toSpace ptr data)
    (hdata : s.metadata.lookup ptr = some data)
    (hspace : findSpace cfg ptr.asPtr = some toSpace.flip)
    (halignment : ∃ exponent < 64, data.alignment = 2 ^ exponent) :
    padding data.alignment (cfg.base toSpace + s.nexts toSpace) ≤ 255 ∧
      s.nexts toSpace + padding data.alignment (cfg.base toSpace + s.nexts toSpace) + data.size <
        cfg.heapSize := by
  obtain ⟨hsearch, hendless⟩ := search_iff halignment (cfg.base toSpace + s.nexts toSpace)
  have hthrows : ∀ e t, (copy cfg toUpdate toSpace ptr).run s = .error e t → e = .badAlloc := by
    intro e t hrun
    rcases h.outcome with ⟨newObj, u, hok, _⟩ | ⟨u, hthrown, _⟩
    · rw [hrun] at hok
      cases hok
    · rw [hrun] at hthrown
      cases hthrown
      rfl
  have hbyte : padding data.alignment (cfg.base toSpace + s.nexts toSpace) ≤ 255 := by
    by_contra hwide
    have hhang := hthrows _ _
      (run_copy_hang hspace (SpaceNum.flip_ne toSpace) hdata (hendless.mpr hwide))
    cases hhang
  have hsome := hsearch.mpr hbyte
  have hfits : ¬ s.nexts toSpace + data.size +
      padding data.alignment (cfg.base toSpace + s.nexts toSpace) > cfg.heapSize := by
    intro hover
    have hunwrapped := hthrows _ _
      ((run_copy hspace (SpaceNum.flip_ne toSpace) hdata hsome).trans (if_pos hover))
    cases hunwrapped
  obtain ⟨newObj, u, haccepted⟩ :=
    h.granted _ _ ((run_reserveSpace data.size cfg.heapSize hsome).trans (if_neg hfits))
  refine ⟨hbyte, Nat.lt_of_not_le fun hle => ?_⟩
  rw [run_allocNoConstraints, if_pos (by omega)] at haccepted
  cases haccepted

theorem DisjointBlocks.allOrNothing (h : DisjointBlocks cfg toSpace s)
    (hdata : s.metadata.lookup ptr = some data)
    (hspace : findSpace cfg ptr.asPtr = some toSpace.flip) (toUpdate : Nat) {paddingBytes : Nat}
    (hsome : calcAlignmentBytes (cfg.base toSpace + s.nexts toSpace) data.alignment =
      some paddingBytes)
    (hfit : s.nexts toSpace + paddingBytes + data.size < cfg.heapSize) :
    AllOrNothing cfg s toUpdate toSpace ptr data := by
  have hfree : NoOverlap s.metadata (cfg.base toSpace + (s.nexts toSpace + paddingBytes))
      data.size := h.noOverlap (h.pos hdata) (Nat.le_add_right _ _) hfit.le
  have hrelocated := h.relocated hspace data toUpdate
    (s.nexts toSpace + data.size + paddingBytes) (Nat.le_add_right _ paddingBytes) (by omega)
  refine
    { outcome := Or.inl ⟨_, _, ?_, hrelocated⟩
      granted := fun index t hgranted => ?_ }
  · rw [run_copy hspace (SpaceNum.flip_ne toSpace) hdata hsome, if_neg (by omega)]
    dsimp only
    rw [if_neg (not_not.mpr hfree), if_neg (by omega)]
  · rw [run_reserveSpace _ _ hsome, if_neg (by omega)] at hgranted
    cases hgranted
    exact ⟨_, _, run_allocNoConstraints.trans (if_neg (by omega))⟩

/-- **When `copy` keeps its contract.** In every heap with disjoint blocks, for every object of the
space that is left and every slot: the object is moved, or refused with nothing touched, if and only
if its padding is a byte and its block ends before the last byte of the space. -/
theorem allOrNothing_iff (h : DisjointBlocks cfg toSpace s)
    (hdata : s.metadata.lookup ptr = some data)
    (hspace : findSpace cfg ptr.asPtr = some toSpace.flip)
    (halignment : ∃ exponent < 64, data.alignment = 2 ^ exponent) (toUpdate : Nat) :
    AllOrNothing cfg s toUpdate toSpace ptr data ↔
      padding data.alignment (cfg.base toSpace + s.nexts toSpace) ≤ 255 ∧
        s.nexts toSpace + padding data.alignment (cfg.base toSpace + s.nexts toSpace) + data.size <
          cfg.heapSize := by
  constructor
  · intro hcontract
    exact hcontract.fits hdata hspace halignment
  · rintro ⟨hbyte, hfit⟩
    have hsome := (search_iff halignment (cfg.base toSpace + s.nexts toSpace)).1.mpr hbyte
    exact h.allOrNothing hdata hspace toUpdate hsome hfit

/-! ### A space that is almost full -/

theorem HeapInv.disjointBlocks (h : HeapInv cfg s) (next : Nat) :
    DisjointBlocks cfg s.spaceNum.flip (s.bump s.spaceNum.flip next) where
  registered := h.registered
  pos := fun hdata => (h.placed hdata).pos
  below := fun hdata hspace =>
    absurd (h.placed hdata).findSpace (findSpace_ne_of_flip hspace)
  separated := h.separated

theorem State.sample_lookup : State.sample.metadata.lookup (FatPtr.ofAddr 65536) = some ⟨40, 8⟩ := by
  decide

theorem allOrNothing_iff_sample :
    AllOrNothing Config.sample (State.sample.bump .one 0) 1024 .one (FatPtr.ofAddr 65536) ⟨40, 8⟩ ↔
      padding 8 131072 ≤ 255 ∧ 0 + padding 8 131072 + 40 < 8192 :=
  allOrNothing_iff (State.sample_accounted.disjointBlocks 0) State.sample_lookup (by decide)
    ⟨3, by decide, rfl⟩ 1024

/-- Exactly the 40 bytes of the object are left: they are reserved, and the object is refused. -/
theorem copy_fails_at_exact_fit :
    let s := State.sample.bump .one 8152
    (DisjointBlocks Config.sample .one s ∧ s.nexts .one ≤ Config.sample.heapSize ∧
      s.metadata.lookup (FatPtr.ofAddr 65536) = some ⟨40, 8⟩ ∧
      findSpace Config.sample (FatPtr.ofAddr 65536).asPtr = some .zero) ∧
    ¬ AllOrNothing Config.sample s 1024 .one (FatPtr.ofAddr 65536) ⟨40, 8⟩ := by
  have hspace : findSpace Config.sample (FatPtr.ofAddr 65536).asPtr = some .zero := by decide
  refine ⟨⟨State.sample_accounted.disjointBlocks 8152, by decide, State.sample_lookup,
    hspace⟩, fun hcontract => ?_⟩
  have hfits := hcontract.fits State.sample_lookup hspace ⟨3, by decide, rfl⟩
  revert hfits
  decide

end Gcpp
