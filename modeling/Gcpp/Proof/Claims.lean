import Gcpp.Lib.Arena
import Gcpp.Interleaving
import Gcpp.Proof.HeapLayout

/-!
# Who holds which block

An object holds its block as long as it is registered. Before that the block belongs to the thread
that has reserved it, or to the task that is about to copy an object there. No two of these share a
byte, whatever the interleaving, and all in the current space lie below its bump index.
-/

namespace Gcpp.Concurrent

open ByteMemory Arena

variable {cfg : Config} {roots : RootSlots cfg}

inductive Owner where
  | entry (ptr : FatPtr)
  | thread (t : ThreadId)
  | task
deriving DecidableEq

def Thread.claim : Thread roots → Option Span
  | .reserved req space index => some { start := cfg.base space + index, size := req.size }
  | _ => none

/-- The block a task has reserved and not yet registered. -/
def Stage.reserved : Stage → Option (Nat × MetaData)
  | .check _ _ oldData (some index) => some (index, oldData)
  | .register _ _ oldData (some index) => some (index, oldData)
  | _ => none

def Running.claim (cfg : Config) (r : Running) : Option Span :=
  r.stage.reserved.map fun (index, oldData) =>
    { start := cfg.base r.toSpace + index, size := oldData.size }

def entryClaim (metadata : AssocMap FatPtr MetaData) (ptr : FatPtr) : Option Span :=
  (metadata.lookup ptr).map fun data => { start := ptr.asPtr, size := data.size }

def Sys.claims (s : Sys roots) : Claims Owner
  | .entry ptr => entryClaim s.heap.metadata ptr
  | .thread t => (s.threads t).claim
  | .task => s.worker.bind (Running.claim cfg)

/-- A span lies in a space, and below the bump index if it is the current one. -/
structure Within (cfg : Config) (s : State) (span : Span) (space : SpaceNum) : Prop where
  pos : 0 < span.size
  lo : cfg.base space ≤ span.start
  hi : span.start + span.size ≤ cfg.base space + cfg.heapSize
  below : space = s.spaceNum → span.start + span.size ≤ cfg.base space + s.nexts space

/-- Every block lies in a space, and no two share a byte. -/
structure Blocks (s : Sys roots) : Prop where
  apart : Apart s.claims
  within : ∀ owner span, s.claims owner = some span → ∃ space, Within cfg s.heap span space

variable {s t : Sys roots} {ptr : FatPtr} {data : MetaData} {space : SpaceNum} {span : Span}

theorem entryClaim_eq_some {metadata : AssocMap FatPtr MetaData} :
    entryClaim metadata ptr = some span ↔
      ∃ data, metadata.lookup ptr = some data ∧ span = { start := ptr.asPtr, size := data.size } := by
  rw [entryClaim, Option.map_eq_some_iff]
  constructor
  · rintro ⟨data, hdata, rfl⟩
    exact ⟨data, hdata, rfl⟩
  · rintro ⟨data, hdata, rfl⟩
    exact ⟨data, hdata, rfl⟩

theorem claims_entry (hdata : s.heap.metadata.lookup ptr = some data) :
    s.claims (.entry ptr) = some { start := ptr.asPtr, size := data.size } :=
  entryClaim_eq_some.mpr ⟨data, hdata, rfl⟩

namespace Within

variable {heap : State}

theorem findSpace (h : Within cfg heap span space) : findSpace cfg span.start = some space := by
  have hpos := h.pos
  have hlo := h.lo
  have hhi := h.hi
  exact findSpace_eq_some_iff.mpr ⟨hlo, by omega⟩

theorem disjoint (h : Within cfg heap span space) {start size : Nat}
    (hlo : cfg.base heap.spaceNum + heap.nexts heap.spaceNum ≤ start)
    (hhi : start + size ≤ cfg.base heap.spaceNum + cfg.heapSize) :
    span.Disjoint { start, size } := by
  by_cases hspace : space = heap.spaceNum
  · have hbelow := h.below hspace
    subst hspace
    exact Or.inl (hbelow.trans hlo)
  · have hblocks := cfg.blocks_disjoint hspace
    have hspanLo := h.lo
    have hspanHi := h.hi
    rcases hblocks with hblocks | hblocks
    · left
      dsimp only
      omega
    · right
      dsimp only
      omega

theorem bump (h : Within cfg heap span space) {next : Nat}
    (hnext : heap.nexts heap.spaceNum ≤ next) :
    Within cfg (heap.bump heap.spaceNum next) span space :=
  { pos := h.pos
    lo := h.lo
    hi := h.hi
    below := fun hspace => by
      obtain rfl : space = heap.spaceNum := hspace
      have hbelow := h.below rfl
      rw [State.bump_nexts_self]
      exact hbelow.trans (Nat.add_le_add_left hnext _) }

end Within

namespace Blocks

theorem entry_within (h : Blocks s) (hdata : s.heap.metadata.lookup ptr = some data) :
    ∃ space, Within cfg s.heap { start := ptr.asPtr, size := data.size } space :=
  h.within (.entry ptr) _ (claims_entry hdata)

theorem within_of_findSpace (h : Blocks s) (hdata : s.heap.metadata.lookup ptr = some data)
    (hspace : findSpace cfg ptr.asPtr = some space) :
    Within cfg s.heap { start := ptr.asPtr, size := data.size } space := by
  obtain ⟨space', hwithin⟩ := h.entry_within hdata
  have hfind := hwithin.findSpace
  rw [hspace] at hfind
  cases hfind
  exact hwithin

theorem findSpace_ne_none (h : Blocks s) (hdata : s.heap.metadata.lookup ptr = some data) :
    ∃ space, findSpace cfg ptr.asPtr = some space := by
  obtain ⟨space, hwithin⟩ := h.entry_within hdata
  exact ⟨space, hwithin.findSpace⟩

theorem mono (h : Blocks s) (hsub : ∀ owner span, t.claims owner = some span →
      s.claims owner = some span)
    (hcurrent : t.heap.spaceNum = s.heap.spaceNum) (hnexts : t.heap.nexts = s.heap.nexts) :
    Blocks t where
  apart := h.apart.mono hsub
  within := fun owner span hspan => by
    obtain ⟨space, hwithin⟩ := h.within owner span (hsub owner span hspan)
    refine ⟨space, { hwithin with below := fun hspace => ?_ }⟩
    rw [hnexts]
    exact hwithin.below (hspace.trans hcurrent)

/-- Entries may go, and so may what the task has reserved. -/
theorem forget (h : Blocks s)
    (hlookup : ∀ {q d}, t.heap.metadata.lookup q = some d → s.heap.metadata.lookup q = some d)
    (hthreads : t.threads = s.threads) (hclaim : t.claims .task = none)
    (hcurrent : t.heap.spaceNum = s.heap.spaceNum) (hnexts : t.heap.nexts = s.heap.nexts) :
    Blocks t := by
  refine h.mono (fun owner span hspan => ?_) hcurrent hnexts
  cases owner with
  | entry q =>
      obtain ⟨d, hd, rfl⟩ := entryClaim_eq_some.mp hspan
      exact claims_entry (hlookup hd)
  | thread id =>
      change (t.threads id).claim = some span at hspan
      rw [hthreads] at hspan
      exact hspan
  | task =>
      rw [hclaim] at hspan
      cases hspan

/-- **A new block above the bump index**, which moves up to its end. -/
theorem take (h : Blocks s) (owner : Owner) {padding size : Nat} (hsize : 0 < size)
    (hfit : s.heap.nexts s.heap.spaceNum + size + padding ≤ cfg.heapSize)
    (hheap : t.heap = s.heap.bump s.heap.spaceNum (s.heap.nexts s.heap.spaceNum + size + padding))
    (howner : t.claims owner = some
      { start := cfg.base s.heap.spaceNum + (s.heap.nexts s.heap.spaceNum + padding), size })
    (hothers : ∀ other ≠ owner, t.claims other = s.claims other) : Blocks t where
  apart := by
    refine h.apart.take owner
      { start := cfg.base s.heap.spaceNum + (s.heap.nexts s.heap.spaceNum + padding), size }
      (fun a spanA ha => ?_) fun a spanA hne ha => ?_
    · by_cases hne : a = owner
      · subst hne
        rw [howner] at ha
        cases ha
        exact Or.inl ⟨rfl, rfl⟩
      · rw [hothers a hne] at ha
        exact Or.inr ⟨hne, ha⟩
    · obtain ⟨space, hwithin⟩ := h.within a spanA ha
      exact hwithin.disjoint (by omega) (by omega)
  within := fun a spanA ha => by
    rw [hheap]
    by_cases hne : a = owner
    · subst hne
      rw [howner] at ha
      cases ha
      refine ⟨s.heap.spaceNum, ?_⟩
      refine
        { pos := hsize
          lo := Nat.le_add_right _ _
          hi := ?_
          below := fun _ => ?_ }
      · dsimp only
        omega
      · rw [State.bump_nexts_self]
        dsimp only
        omega
    · rw [hothers a hne] at ha
      obtain ⟨space, hwithin⟩ := h.within a spanA ha
      exact ⟨space, hwithin.bump (by omega)⟩

theorem noOverlap (h : Blocks s) (owner : Owner) (howner : ∀ ptr, owner ≠ .entry ptr)
    (hclaim : s.claims owner = some span) : NoOverlap s.heap.metadata span.start span.size := by
  obtain ⟨_, hwithin⟩ := h.within owner span hclaim
  refine noOverlap_of_apart hwithin.pos fun ptr data hdata => ?_
  obtain ⟨_, hentry⟩ := h.entry_within hdata
  exact ⟨hentry.pos, h.apart _ _ _ _ (claims_entry hdata) hclaim (howner ptr).symm⟩

theorem lookup_fresh (h : Blocks s) (owner : Owner) (howner : ∀ ptr, owner ≠ .entry ptr)
    (hclaim : s.claims owner = some span) (hptr : ptr.asPtr = span.start) :
    s.heap.metadata.lookup ptr = none := by
  by_contra hne
  obtain ⟨data, hdata⟩ := Option.ne_none_iff_exists'.mp hne
  obtain ⟨_, hwithin⟩ := h.within owner span hclaim
  obtain ⟨_, hentry⟩ := h.entry_within hdata
  have hdisjoint := h.apart _ _ _ _ (claims_entry hdata) hclaim (howner ptr).symm
  exact hdisjoint.start_ne hentry.pos hwithin.pos hptr

/-- **A reserved block becomes an object.** -/
theorem register (h : Blocks s) (owner : Owner) (howner : ∀ ptr, owner ≠ .entry ptr)
    (hclaim : s.claims owner = some { start := ptr.asPtr, size := data.size })
    (hmetadata : t.heap.metadata = AssocMap.emplace ptr data s.heap.metadata)
    (hcurrent : t.heap.spaceNum = s.heap.spaceNum) (hnexts : t.heap.nexts = s.heap.nexts)
    (hreleased : t.claims owner = none)
    (hothers : ∀ other ≠ owner, (∀ ptr, other ≠ .entry ptr) → t.claims other = s.claims other) :
    Blocks t := by
  have hfresh := h.lookup_fresh owner howner hclaim rfl
  have hentry : ∀ q, t.claims (.entry q) =
      if q = ptr then s.claims owner else s.claims (.entry q) := by
    intro q
    change entryClaim t.heap.metadata q = _
    rw [entryClaim, hmetadata, AssocMap.lookup_emplace hfresh]
    split
    · rename_i heq
      rw [heq, hclaim]
      rfl
    · rfl
  -- the block's new owner is the entry, all others keep theirs
  let origin : Owner → Owner := fun a => if a = .entry ptr then owner else a
  have horigin : ∀ a span, t.claims a = some span → s.claims (origin a) = some span := by
    intro a span ha
    by_cases hnew : a = .entry ptr
    · subst hnew
      rw [hentry, if_pos rfl] at ha
      rwa [show origin (.entry ptr) = owner from if_pos rfl]
    · rw [show origin a = a from if_neg hnew]
      cases a with
      | entry q =>
          rw [hentry, if_neg fun heq => hnew (congrArg Owner.entry heq)] at ha
          exact ha
      | thread id =>
          by_cases heq : Owner.thread id = owner
          · rw [heq, hreleased] at ha
            cases ha
          · rwa [hothers _ heq fun _ => by simp] at ha
      | task =>
          by_cases heq : Owner.task = owner
          · rw [heq, hreleased] at ha
            cases ha
          · rwa [hothers _ heq fun _ => by simp] at ha
  refine { apart := h.apart.handOver origin horigin ?_, within := fun a span ha => ?_ }
  · intro a b ha hb heq
    have hkeeps : ∀ c, t.claims c ≠ none → c ≠ owner := fun c hc hceq => hc (hceq ▸ hreleased)
    by_cases hnewA : a = .entry ptr <;> by_cases hnewB : b = .entry ptr
    · exact hnewA.trans hnewB.symm
    · rw [show origin a = owner from if_pos hnewA, show origin b = b from if_neg hnewB] at heq
      exact absurd heq.symm (hkeeps b hb)
    · rw [show origin a = a from if_neg hnewA, show origin b = owner from if_pos hnewB] at heq
      exact absurd heq (hkeeps a ha)
    · rwa [show origin a = a from if_neg hnewA, show origin b = b from if_neg hnewB] at heq
  · obtain ⟨space, hwithin⟩ := h.within _ span (horigin a span ha)
    refine ⟨space, { hwithin with below := fun hspace => ?_ }⟩
    rw [hnexts]
    exact hwithin.below (hspace.trans hcurrent)

end Blocks

end Gcpp.Concurrent
