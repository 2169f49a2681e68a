import Gcpp.Proof.Allocation
import Gcpp.Proof.Scan

/-!
# Where the managed blocks lie

Before a collection all objects lie in one space. While it runs, an entry of the map is either one
of these, untouched, or a copy below the bump index of the other space. A block handed out above
that index therefore meets no other, and this is all that the overlap check and the registration
ask for.
-/

namespace Gcpp

open ByteMemory StateExcept

variable {cfg : Config} {old : AssocMap FatPtr MetaData} {visited : Visited} {s : State}
  {space toSpace : SpaceNum} {ptr : FatPtr} {data : MetaData} {padding : Nat}

def Separated (metadata : AssocMap FatPtr MetaData) : Prop :=
  ∀ p dp q dq, metadata.lookup p = some dp → metadata.lookup q = some dq → p ≠ q →
    p.asPtr + dp.size ≤ q.asPtr ∨ q.asPtr + dq.size ≤ p.asPtr

/-- Every block of the map lies in one of the spaces: `alloc_no_constraints` makes the entries, and
refuses any other block. -/
def Registered (cfg : Config) (metadata : AssocMap FatPtr MetaData) : Prop :=
  ∀ ptr data, metadata.lookup ptr = some data → ∃ space, findSpace cfg ptr.asPtr = some space ∧
    ptr.asPtr + data.size ≤ cfg.base space + cfg.heapSize

/-- All objects lie in one space, apart from each other. No object is empty: `alloc` refuses the
size 0. -/
structure Settled (cfg : Config) (space : SpaceNum) (metadata : AssocMap FatPtr MetaData) :
    Prop where
  lo : ∀ {ptr data}, metadata.lookup ptr = some data → cfg.base space ≤ ptr.asPtr
  hi : ∀ {ptr data}, metadata.lookup ptr = some data →
    ptr.asPtr + data.size ≤ cfg.base space + cfg.heapSize
  pos : ∀ {ptr data}, metadata.lookup ptr = some data → 0 < data.size
  separated : Separated metadata

theorem Settled.findSpace (h : Settled cfg space old) (hdata : old.lookup ptr = some data) :
    findSpace cfg ptr.asPtr = some space := by
  have hlo := h.lo hdata
  have hhi := h.hi hdata
  have hpos := h.pos hdata
  exact findSpace_eq_some_iff.mpr ⟨hlo, by omega⟩

/-- A block below the bump index of a space. -/
structure Placed (cfg : Config) (space : SpaceNum) (next : Nat) (ptr : FatPtr) (data : MetaData) :
    Prop where
  lo : cfg.base space ≤ ptr.asPtr
  hi : ptr.asPtr + data.size ≤ cfg.base space + next
  pos : 0 < data.size
  aligned : SmallAlignment data.alignment → data.alignment ∣ ptr.asPtr
  inBlock : ptr.asPtr + data.size ≤ cfg.base space + cfg.heapSize

theorem Placed.findSpace {next : Nat} (h : Placed cfg space next ptr data) :
    findSpace cfg ptr.asPtr = some space := by
  have hlo := h.lo
  have hin := h.inBlock
  have hpos := h.pos
  exact findSpace_eq_some_iff.mpr ⟨hlo, by omega⟩

theorem Placed.mono {next next' : Nat} (h : Placed cfg space next ptr data) (hle : next ≤ next') :
    Placed cfg space next' ptr data :=
  { h with hi := Nat.le_trans h.hi (Nat.add_le_add_left hle _) }

/-- A block with its padding is placed above what was used before. -/
theorem Placed.of_padding {next padding : Nat} (hpos : 0 < data.size)
    (hpadding : calcAlignmentBytes (cfg.base space + next) data.alignment = some padding)
    (hfit : data.size + (next + padding) < cfg.heapSize) :
    Placed cfg space (next + padding + data.size)
      (FatPtr.ofAddr (cfg.base space + (next + padding))) data := by
  have haddr : (FatPtr.ofAddr (cfg.base space + (next + padding))).asPtr =
      cfg.base space + (next + padding) := asPtr_ofAddr_base space (by omega)
  exact
    { lo := by omega
      hi := by omega
      pos := hpos
      aligned := fun hsmall => by
        obtain ⟨padding', _, hsome, hdvd⟩ := calcAlignmentBytes_spec hsmall (cfg.base space + next)
        rw [hpadding] at hsome
        cases hsome
        rw [haddr, ← Nat.add_assoc]
        exact hdvd
      inBlock := by omega }

/-! ### Free blocks -/

/-- A block that keeps apart from all managed blocks passes the overlap check. -/
theorem noOverlap_of_apart {metadata : AssocMap FatPtr MetaData} {addr size : Nat}
    (hsize : 0 < size)
    (hapart : ∀ ptr data, metadata.lookup ptr = some data → 0 < data.size ∧
      (ptr.asPtr + data.size ≤ addr ∨ addr + size ≤ ptr.asPtr)) :
    NoOverlap metadata addr size := by
  intro ptr data hdata
  obtain ⟨hpos, happart⟩ := hapart ptr data hdata
  simp only [overlaps, Bool.or_eq_false_iff, Bool.and_eq_false_iff, decide_eq_false_iff_not]
  omega

theorem lookup_fresh_of_apart {metadata : AssocMap FatPtr MetaData} {index : Nat}
    (hindex : index < cfg.heapSize)
    (hapart : ∀ ptr data, metadata.lookup ptr = some data → 0 < data.size ∧
      (ptr.asPtr + data.size ≤ cfg.base space + index ∨
        cfg.base space + index + 1 ≤ ptr.asPtr)) :
    metadata.lookup (FatPtr.ofAddr (cfg.base space + index)) = none := by
  by_contra hne
  obtain ⟨data, hdata⟩ := Option.ne_none_iff_exists'.mp hne
  obtain ⟨hpos, happart⟩ := hapart _ _ hdata
  rw [asPtr_ofAddr_base space hindex] at happart
  omega

/-- A collection into `toSpace` is under way: an object that has not been forwarded is where it was,
a forwarded one has left its entry to its copy, and there is nothing else in the map. -/
structure Evacuating (cfg : Config) (old : AssocMap FatPtr MetaData) (toSpace : SpaceNum)
    (visited : Visited) (s : State) : Prop where
  current : s.spaceNum = toSpace
  fromNext : s.nexts toSpace.flip = 0
  settled : Settled cfg toSpace.flip old
  white : ∀ {v data}, old.lookup v = some data → visited.lookup v = none →
    s.metadata.lookup v = some data
  black : ∀ {v v'}, visited.lookup v = some v' → ∃ data, old.lookup v = some data ∧
    s.metadata.lookup v = none ∧ s.metadata.lookup v' = some data ∧
    Placed cfg toSpace (s.nexts toSpace) v' data
  entry : ∀ {ptr data}, s.metadata.lookup ptr = some data →
    (Placed cfg toSpace (s.nexts toSpace) ptr data ∧ ∃ v, visited.lookup v = some ptr) ∨
      old.lookup ptr = some data
  injective : ∀ {v w u}, visited.lookup v = some u → visited.lookup w = some u → v = w
  separated : Separated s.metadata

namespace Evacuating

theorem old_of_findSpace (h : Evacuating cfg old toSpace visited s)
    (hdata : s.metadata.lookup ptr = some data) (hspace : findSpace cfg ptr.asPtr ≠ some toSpace) :
    old.lookup ptr = some data :=
  (h.entry hdata).resolve_left fun hplaced => hspace hplaced.1.findSpace

theorem exists_findSpace (h : Evacuating cfg old toSpace visited s)
    (hdata : s.metadata.lookup ptr = some data) :
    findSpace cfg ptr.asPtr = some toSpace ∨ findSpace cfg ptr.asPtr = some toSpace.flip :=
  (h.entry hdata).imp (fun hplaced => hplaced.1.findSpace) fun hold => h.settled.findSpace hold

theorem pos (h : Evacuating cfg old toSpace visited s) (hdata : s.metadata.lookup ptr = some data) :
    0 < data.size :=
  (h.entry hdata).elim (fun hplaced => hplaced.1.pos) fun hold => h.settled.pos hold

/-- What is registered has not been forwarded. -/
theorem unvisited (h : Evacuating cfg old toSpace visited s)
    (hdata : s.metadata.lookup ptr = some data) : visited.lookup ptr = none := by
  by_contra hne
  obtain ⟨new, hvisited⟩ := Option.ne_none_iff_exists'.mp hne
  obtain ⟨_, _, hgone, _⟩ := h.black hvisited
  rw [hgone] at hdata
  cases hdata

/-- A copy is placed with the size of its object. -/
theorem placed (h : Evacuating cfg old toSpace visited s) {v v' : FatPtr}
    (hvisited : visited.lookup v = some v') (hold : old.lookup v = some data) :
    Placed cfg toSpace (s.nexts toSpace) v' data := by
  obtain ⟨data', hold', _, _, hplaced⟩ := h.black hvisited
  rw [hold] at hold'
  cases hold'
  exact hplaced

theorem end_lt (h : Evacuating cfg old toSpace visited s)
    (hdata : s.metadata.lookup ptr = some data) : ptr.asPtr + data.size ≤ 2 ^ 56 := by
  rcases h.entry hdata with hplaced | hold
  · exact hplaced.1.inBlock.trans (cfg.block_lt toSpace)
  · exact (h.settled.hi hold).trans (cfg.block_lt toSpace.flip)

theorem old_apart (h : Settled cfg toSpace.flip old) (hold : old.lookup ptr = some data)
    {addr size : Nat} (hlo : cfg.base toSpace ≤ addr)
    (hhi : addr + size ≤ cfg.base toSpace + cfg.heapSize) :
    ptr.asPtr + data.size ≤ addr ∨ addr + size ≤ ptr.asPtr := by
  have hblocks := cfg.blocks_disjoint (SpaceNum.flip_ne toSpace)
  have hoLo := h.lo hold
  have hoHi := h.hi hold
  omega

/-- **A block above the bump index is free.** -/
theorem apart (h : Evacuating cfg old toSpace visited s) (hdata : s.metadata.lookup ptr = some data)
    (padding size : Nat) (hfit : s.nexts toSpace + padding + size ≤ cfg.heapSize) :
    ptr.asPtr + data.size ≤ cfg.base toSpace + (s.nexts toSpace + padding) ∨
      cfg.base toSpace + (s.nexts toSpace + padding) + size ≤ ptr.asPtr := by
  rcases h.entry hdata with hplaced | hold
  · have hhi := hplaced.1.hi
    left
    omega
  · exact old_apart h.settled hold (by omega) (by omega)

theorem noOverlap (h : Evacuating cfg old toSpace visited s) {size : Nat} (hsize : 0 < size)
    (hfit : s.nexts toSpace + padding + size ≤ cfg.heapSize) :
    NoOverlap s.metadata (cfg.base toSpace + (s.nexts toSpace + padding)) size :=
  noOverlap_of_apart hsize fun _ _ hdata => ⟨h.pos hdata, h.apart hdata _ _ hfit⟩

theorem lookup_fresh (h : Evacuating cfg old toSpace visited s) (padding : Nat)
    (hfit : s.nexts toSpace + padding < cfg.heapSize) :
    s.metadata.lookup (FatPtr.ofAddr (cfg.base toSpace + (s.nexts toSpace + padding))) = none :=
  lookup_fresh_of_apart hfit fun _ _ hdata => ⟨h.pos hdata, h.apart hdata _ 1 (by omega)⟩

end Evacuating

theorem Separated.erase {metadata : AssocMap FatPtr MetaData} (h : Separated metadata) :
    Separated (metadata.erase ptr) := by
  intro p dp q dq hp hq hne
  rw [AssocMap.lookup_erase_eq] at hp hq
  split at hp
  · cases hp
  · split at hq
    · cases hq
    · exact h p dp q dq hp hq hne

theorem Separated.eraseAll {metadata : AssocMap FatPtr MetaData} (h : Separated metadata)
    (ks : List FatPtr) : Separated (AssocMap.eraseAll ks metadata) := by
  intro p dp q dq hp hq hne
  rw [AssocMap.lookup_eraseAll] at hp hq
  split at hp
  · cases hp
  · split at hq
    · cases hq
    · exact h p dp q dq hp hq hne

theorem Separated.emplace {metadata : AssocMap FatPtr MetaData} (h : Separated metadata)
    (hfresh : metadata.lookup ptr = none)
    (hapart : ∀ p d, metadata.lookup p = some d →
      p.asPtr + d.size ≤ ptr.asPtr ∨ ptr.asPtr + data.size ≤ p.asPtr) :
    Separated (AssocMap.emplace ptr data metadata) := by
  intro p dp q dq hp hq hne
  rw [AssocMap.lookup_emplace hfresh] at hp hq
  split at hp
  · rename_i hpeq
    cases hp
    rw [if_neg fun hqeq => hne (hpeq.trans hqeq.symm)] at hq
    exact hpeq ▸ (hapart q dq hq).symm
  · split at hq
    · rename_i hqeq
      cases hq
      exact hqeq ▸ hapart p dp hp
    · exact h p dp q dq hp hq hne

end Gcpp
