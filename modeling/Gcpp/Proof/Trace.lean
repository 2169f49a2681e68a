import Gcpp.ObjectGraph
import Gcpp.Proof.Evacuation

/-!
# The traversal, and what it does to memory

Outside the space that is filled, memory changes only where a slot is retargeted, from an object to
its copy. An object keeps its bytes until it is copied, and the copy keeps them from then on, since
whatever is written later lies above it or outside the space. So the traversal meets the slots of
the memory it started from, whatever it has done before.
-/

namespace Gcpp

open ByteMemory StateExcept Tracing

variable {cfg : Config} {policy : GenPolicy} {old : AssocMap FatPtr MetaData} {toSpace : SpaceNum}
  {visited : Visited} {s t : State} {m₀ : Memory} {roots : List Nat} {v w : FatPtr}
  {data : MetaData}

/-- A slot that lies apart from the space that is filled. -/
def SlotApart (cfg : Config) (toSpace : SpaceNum) (a : Nat) : Prop :=
  a + 16 ≤ cfg.base toSpace ∨ cfg.base toSpace + cfg.heapSize + 8 ≤ a

theorem SpacesApart.flip (h : SpacesApart cfg) (space : SpaceNum) :
    cfg.base space.flip + cfg.heapSize + 8 ≤ cfg.base space ∨
      cfg.base space + cfg.heapSize + 8 ≤ cfg.base space.flip := by
  cases space
  · exact h.symm
  · exact h

theorem RootApart.slotApart {root : Nat} (h : RootApart cfg root) (space : SpaceNum) :
    SlotApart cfg space root := by
  have hsize : gcPtrSize = 16 := rfl
  have happart := h space
  rwa [hsize] at happart

/-- A location that holds an object when the collection starts holds its copy now. -/
def Forwarded (old : AssocMap FatPtr MetaData) (m₀ : Memory) (visited : Visited) (m : Memory)
    (a : Nat) : Prop :=
  ∀ w, testPtr m₀ a = some w → w ∈ old → ∃ w', visited.lookup w = some w' ∧ testPtr m a = some w'

/-- What a collection does to the memory `m₀` it starts from. -/
structure MemInv (cfg : Config) (old : AssocMap FatPtr MetaData) (toSpace : SpaceNum) (m₀ : Memory)
    (visited : Visited) (m : Memory) : Prop where
  slots : ∀ a, SlotApart cfg toSpace a → testPtr m a = testPtr m₀ a ∨
    ∃ v v', testPtr m₀ a = some v ∧ visited.lookup v = some v' ∧ testPtr m a = some v'
  white : ∀ {v data}, old.lookup v = some data → visited.lookup v = none →
    AgreeOn m m₀ v.asPtr data.size
  copies : ∀ {v v' data}, visited.lookup v = some v' → old.lookup v = some data →
    ∀ i < data.size, m (v'.asPtr + i) = m₀ (v.asPtr + i)

/-- The traversal of the object graph of `m₀`, with the slots on the stack pending. -/
structure TraceInv (cfg : Config) (old : AssocMap FatPtr MetaData) (toSpace : SpaceNum)
    (m₀ : Memory) (roots handled stack : List Nat) (visited : Visited) (s : State) : Prop
    extends Evacuating cfg old toSpace visited s where
  memory : MemInv cfg old toSpace m₀ visited s.mem
  traced : Traced (objectGraph m₀ old roots) (· ∈ handled) (· ∈ visited) (· ∈ stack)
    (Forwarded old m₀ visited s.mem)

theorem lookup_eq_some_of_mem {κ α : Type} [DecidableEq κ] {m : AssocMap κ α} {k : κ} (h : k ∈ m) :
    ∃ a, m.lookup k = some a :=
  Option.isSome_iff_exists.mp (AList.lookup_isSome.mpr h)

theorem slotApart_of_inScan (happart : SpacesApart cfg) (hsettled : Settled cfg toSpace.flip old)
    (hold : old.lookup v = some data) {m : Memory} {a : Nat}
    (hscan : InScan m v.asPtr (v.asPtr + data.size) a) : SlotApart cfg toSpace a := by
  have hlo := hsettled.lo hold
  have hhi := hsettled.hi hold
  obtain ⟨_, hge, hlt, _⟩ := hscan
  exact (happart.flip toSpace).imp (fun _ => by omega) fun _ => by omega

theorem field_iff (hsettled : Settled cfg toSpace old) {a : Nat} :
    (objectGraph m₀ old roots).field v a ↔
      ∃ data, old.lookup v = some data ∧ InScan m₀ v.asPtr (v.asPtr + data.size) a := by
  have hend : ∀ {data}, old.lookup v = some data → v.asPtr + data.size + 24 ≤ 2 ^ 64 := by
    intro data hold
    have hhi := hsettled.hi hold
    have hblock := cfg.block_lt toSpace
    omega
  constructor
  · rintro ⟨data, slots, hold, hscan, hslot⟩
    exact ⟨data, hold, (mem_of_scanMemory hscan (Nat.le_add_right _ _) (hend hold)).mp hslot⟩
  · rintro ⟨data, hold, hslot⟩
    obtain ⟨slots, hscan, hmem, _⟩ :=
      scanMemory_spec m₀ (Nat.le_add_right v.asPtr data.size) (hend hold)
    exact ⟨data, slots, hold, hscan, (hmem a).mpr hslot⟩

/-! ### Retargeting a slot -/

/-- Memory keeps its invariant when a slot is retargeted from an object to its copy. -/
theorem MemInv.retarget {m : Memory} (h : MemInv cfg old toSpace m₀ visited m) {p : Nat}
    {v v' : FatPtr} (hslot : testPtr m p = some v) (hslot₀ : testPtr m₀ p = some v)
    (hvisited : visited.lookup v = some v') (hp : SlotApart cfg toSpace p)
    (hcopies : ∀ {w w' data}, visited.lookup w = some w' → old.lookup w = some data →
      cfg.base toSpace ≤ w'.asPtr ∧ w'.asPtr + data.size ≤ cfg.base toSpace + cfg.heapSize)
    (hwhite : ∀ {w data}, old.lookup w = some data → visited.lookup w = none →
      w.asPtr + data.size ≤ p ∨ p + 16 ≤ w.asPtr) :
    MemInv cfg old toSpace m₀ visited (atomicUpdate m p v') where
  slots := fun a ha => by
    by_cases heq : a = p
    · rw [heq]
      exact Or.inr ⟨v, v', hslot₀, hvisited,
        testPtr_atomicUpdate_self (maybePtr_of_testPtr hslot)⟩
    · rw [testPtr_atomicUpdate_of_ne (maybePtr_of_testPtr hslot) heq]
      exact h.slots a ha
  white := fun {w data} hold hunvisited => by
    have happart := hwhite hold hunvisited
    exact (agreeOn_atomicUpdate (by omega)).trans (h.white hold hunvisited)
  copies := fun {w w' data} hw hold i hi => by
    have hinside := hcopies hw hold
    unfold SlotApart at hp
    have hbytes : AgreeOn (atomicUpdate m p v') m w'.asPtr data.size :=
      agreeOn_atomicUpdate (by omega)
    rw [hbytes i hi, h.copies hw hold i hi]

/-- Memory keeps its invariant when an object is copied to a block above all copies. -/
theorem MemInv.copy {m : Memory} (h : MemInv cfg old toSpace m₀ visited m) (newObj : FatPtr)
    (hvisited : visited.lookup v = none) (hold : old.lookup v = some data)
    (hlo : cfg.base toSpace ≤ newObj.asPtr)
    (hhi : newObj.asPtr + data.size ≤ cfg.base toSpace + cfg.heapSize)
    (hbelow : ∀ {w w' dw}, visited.lookup w = some w' → old.lookup w = some dw →
      w'.asPtr + dw.size ≤ newObj.asPtr)
    (hfar : ∀ {w dw}, old.lookup w = some dw → w.asPtr + dw.size ≤ cfg.base toSpace ∨
      cfg.base toSpace + cfg.heapSize + 8 ≤ w.asPtr) :
    MemInv cfg old toSpace m₀ (AssocMap.emplace v newObj visited)
      (seqCstCpy m newObj.asPtr v.asPtr data.size) where
  slots := fun a ha => by
    unfold SlotApart at ha
    rw [testPtr_congr (agreeOn_seqCstCpy (by omega))]
    exact (h.slots a ha).imp id fun ⟨u, u', hu, hvisited', hslot⟩ =>
      ⟨u, u', hu, AssocMap.lookup_emplace_of_some hvisited', hslot⟩
  white := fun {w dw} hw hunvisited => by
    rw [AssocMap.lookup_emplace hvisited] at hunvisited
    split at hunvisited
    · cases hunvisited
    · have happart := hfar hw
      exact (agreeOn_seqCstCpy (by omega)).trans (h.white hw hunvisited)
  copies := fun {w w' dw} hw hwold i hi => by
    rw [AssocMap.lookup_emplace hvisited] at hw
    split at hw
    · rename_i heq
      cases hw
      rw [heq, hold] at hwold
      cases hwold
      have happart := hfar hold
      rw [heq, seqCstCpy_inside (by omega) hi]
      exact h.white hold hvisited i hi
    · have hunder := hbelow hw hwold
      rw [seqCstCpy_outside (by omega)]
      exact h.copies hw hwold i hi

namespace TraceInv

variable {handled stack : List Nat} {p : Nat}

/-- A slot that was met is a root, or lies in an object that was copied. -/
theorem of_met (h : TraceInv cfg old toSpace m₀ roots handled stack visited s)
    (hmet : (objectGraph m₀ old roots).Met (· ∈ handled) (· ∈ visited) p) :
    p ∈ roots ∨ ∃ u du, u ∈ visited ∧ old.lookup u = some du ∧
      InScan m₀ u.asPtr (u.asPtr + du.size) p := by
  rcases hmet with hhandled | ⟨u, hu, hfield⟩
  · exact Or.inl (h.traced.roots p hhandled)
  · obtain ⟨du, hold, hscan⟩ := (field_iff h.settled).mp hfield
    exact Or.inr ⟨u, du, hu, hold, hscan⟩

theorem slotApart (h : TraceInv cfg old toSpace m₀ roots handled stack visited s)
    (happart : SpacesApart cfg) (hroots : ∀ root ∈ roots, RootApart cfg root)
    (hmet : (objectGraph m₀ old roots).Met (· ∈ handled) (· ∈ visited) p) :
    SlotApart cfg toSpace p := by
  rcases h.of_met hmet with hroot | ⟨u, du, _, hold, hscan⟩
  · exact (hroots p hroot).slotApart toSpace
  · exact slotApart_of_inScan happart h.settled hold hscan

/-- A slot on the stack shares no byte with an object that is still to be copied. -/
theorem apart_white (h : TraceInv cfg old toSpace m₀ roots handled stack visited s)
    (hroots : ∀ root ∈ roots, RootApart cfg root) (hp : p ∈ stack)
    (hold : old.lookup w = some data) (hunvisited : visited.lookup w = none) :
    w.asPtr + data.size ≤ p ∨ p + 16 ≤ w.asPtr := by
  have hlo := h.settled.lo hold
  have hhi := h.settled.hi hold
  rcases h.of_met (h.traced.origin p hp) with hroot | ⟨u, du, hu, hold', hscan⟩
  · rcases (hroots p hroot).slotApart toSpace.flip with _ | _ <;> omega
  · have hne : u ≠ w := fun heq => by
      rw [heq] at hu
      exact AssocMap.notMem_of_lookup hunvisited hu
    obtain ⟨_, hge, hlt, _⟩ := hscan
    rcases h.settled.separated u du w data hold' hold hne with _ | _ <;> omega

/-- A scan of an object that is still to be copied finds the fields it had from the start. -/
theorem inScan_iff_field (h : TraceInv cfg old toSpace m₀ roots handled stack visited s)
    (hold : old.lookup v = some data) (hunvisited : visited.lookup v = none) {a : Nat} :
    InScan s.mem v.asPtr (v.asPtr + data.size) a ↔ (objectGraph m₀ old roots).field v a := by
  have hagree : AgreeOn s.mem m₀ v.asPtr (v.asPtr + data.size - v.asPtr) := by
    rw [Nat.add_sub_cancel_left]
    exact h.memory.white hold hunvisited
  rw [InScan.congr hagree, field_iff h.settled]
  constructor
  · intro hin
    exact ⟨data, hold, hin⟩
  · rintro ⟨data', hold', hin⟩
    rw [hold] at hold'
    cases hold'
    exact hin

/-- A slot that holds an old object has held it from the start. -/
theorem slot_initial (h : TraceInv cfg old toSpace m₀ roots handled stack visited s)
    (hp : SlotApart cfg toSpace p) (hslot : testPtr s.mem p = some v)
    (hold : old.lookup v = some data) : testPtr m₀ p = some v := by
  rcases h.memory.slots p hp with hsame | ⟨u, u', _, hvisited, hslot'⟩
  · rw [← hsame, hslot]
  · rw [hslot] at hslot'
    cases hslot'
    obtain ⟨_, _, _, _, hplaced⟩ := h.black hvisited
    exact absurd (h.settled.findSpace hold) (findSpace_ne_flip hplaced.findSpace)

/-- The popped slot is done, and what was done stays done. -/
theorem pop_settled {done done' : Nat → Prop} (hdone : ∀ k, k = p ∨ done k → done' k) :
    ∀ k, k ∈ p :: stack ∨ done k → k ∈ stack ∨ done' k := by
  rintro k (hk | hk)
  · rcases List.mem_cons.mp hk with rfl | hk
    · exact Or.inr (hdone k (Or.inl rfl))
    · exact Or.inl hk
  · exact Or.inr (hdone k (Or.inr hk))

theorem skip (h : TraceInv cfg old toSpace m₀ roots handled (p :: stack) visited s)
    (hp : SlotApart cfg toSpace p)
    (hslot : ∀ v, testPtr s.mem p = some v → visited.lookup v = none ∧
      (s.metadata.lookup v = none ∨ findSpace cfg v.asPtr = some toSpace)) :
    TraceInv cfg old toSpace m₀ roots handled stack visited s := by
  have hdone : Forwarded old m₀ visited s.mem p := by
    intro w hw hmem
    obtain ⟨data, hold⟩ := lookup_eq_some_of_mem hmem
    rcases h.memory.slots p hp with hsame | ⟨u, u', hu, hvisited, hslot'⟩
    · obtain ⟨hunvisited, hnothing⟩ := hslot w (by rw [hsame, hw])
      rcases hnothing with hnone | hspace
      · rw [h.white hold hunvisited] at hnone
        cases hnone
      · exact absurd (h.settled.findSpace hold) (findSpace_ne_flip hspace)
    · rw [hw] at hu
      cases hu
      exact ⟨u', hvisited, hslot'⟩
  exact
    { h.toEvacuating with
      memory := h.memory
      traced := h.traced.drop (fun k hk => List.mem_cons_of_mem p hk) fun k _ => pop_settled (fun j hj => by
        rcases hj with rfl | hj
        · exact hdone
        · exact hj) k }

/-- Retargeting a slot leaves the slots that were done as they are. -/
theorem forwarded_atomicUpdate {m : Memory} {v v' : FatPtr} (hslot : testPtr m p = some v)
    (hslot₀ : testPtr m₀ p = some v) (hvisited : visited.lookup v = some v') {k : Nat}
    (hk : k = p ∨ Forwarded old m₀ visited m k) :
    Forwarded old m₀ visited (atomicUpdate m p v') k := by
  by_cases heq : k = p
  · intro w hw _
    rw [heq, hslot₀] at hw
    cases hw
    rw [heq]
    exact ⟨v', hvisited, testPtr_atomicUpdate_self (maybePtr_of_testPtr hslot)⟩
  · intro w hw hmem
    rw [testPtr_atomicUpdate_of_ne (maybePtr_of_testPtr hslot) heq]
    exact hk.resolve_left heq w hw hmem

/-- A slot that holds an object with a copy is retargeted. -/
theorem update (h : TraceInv cfg old toSpace m₀ roots handled (p :: stack) visited s)
    (hroots : ∀ root ∈ roots, RootApart cfg root) (hp : SlotApart cfg toSpace p) {v v' : FatPtr}
    (hslot : testPtr s.mem p = some v) (hvisited : visited.lookup v = some v') :
    TraceInv cfg old toSpace m₀ roots handled stack visited
      { s with mem := atomicUpdate s.mem p v' } := by
  obtain ⟨data, hold, _, _, _⟩ := h.black hvisited
  have hslot₀ := h.slot_initial hp hslot hold
  refine { h.toEvacuating.with_mem _ with memory := ?_, traced := ?_ }
  · refine h.memory.retarget hslot hslot₀ hvisited hp (fun hw hwold => ?_)
      fun hwold hunvisited => h.apart_white hroots (by simp) hwold hunvisited
    have hplaced := h.placed hw hwold
    exact ⟨hplaced.lo, hplaced.inBlock⟩
  · exact h.traced.drop (fun k hk => List.mem_cons_of_mem p hk)
      fun k _ => pop_settled (fun _ hj => forwarded_atomicUpdate hslot hslot₀ hvisited hj) k

/-- An object is copied and the slot it was found in retargeted. -/
theorem forward (h : TraceInv cfg old toSpace m₀ roots handled (p :: stack) visited s)
    (happart : SpacesApart cfg) (hroots : ∀ root ∈ roots, RootApart cfg root) {slots : List Nat}
    {padding : Nat} (hslot : testPtr s.mem p = some v) (hvisited : visited.lookup v = none)
    (hdata : s.metadata.lookup v = some data) (hspace : findSpace cfg v.asPtr = some toSpace.flip)
    (hscan : ∀ a, a ∈ slots ↔ InScan s.mem v.asPtr (v.asPtr + data.size) a)
    (hpadding : calcAlignmentBytes (cfg.base toSpace + s.nexts toSpace) data.alignment
      = some padding)
    (hfit : data.size + (s.nexts toSpace + padding) < cfg.heapSize) :
    TraceInv cfg old toSpace m₀ roots handled (slots.reverse ++ stack)
      (AssocMap.emplace v (FatPtr.ofAddr (cfg.base toSpace + (s.nexts toSpace + padding))) visited)
      (s.copied cfg p toSpace (s.nexts toSpace + padding) v data) := by
  have hp := h.slotApart happart hroots (h.traced.origin p (by simp))
  have hnext := h.toEvacuating.forward p hvisited hdata hspace hpadding hfit
  have hold := h.old_of_findSpace hdata (findSpace_ne_of_flip hspace)
  have hslot₀ := h.slot_initial hp hslot hold
  have haddr : (FatPtr.ofAddr (cfg.base toSpace + (s.nexts toSpace + padding))).asPtr =
      cfg.base toSpace + (s.nexts toSpace + padding) := asPtr_ofAddr_base toSpace (by omega)
  have hfar : ∀ {w dw}, old.lookup w = some dw → w.asPtr + dw.size ≤ cfg.base toSpace ∨
      cfg.base toSpace + cfg.heapSize + 8 ≤ w.asPtr := fun hw => by
    have hlo := h.settled.lo hw
    have hhi := h.settled.hi hw
    have hflip := happart.flip toSpace
    omega
  -- what the copy changes lies in the space that is filled, so the slot is as it was
  have hsame : ∀ a, SlotApart cfg toSpace a → testPtr (seqCstCpy s.mem
      (FatPtr.ofAddr (cfg.base toSpace + (s.nexts toSpace + padding))).asPtr v.asPtr data.size) a
      = testPtr s.mem a := fun a ha => by
    unfold SlotApart at ha
    exact testPtr_congr (agreeOn_seqCstCpy (by omega))
  have hslot' := (hsame p hp).trans hslot
  have hcopied : (s.copied cfg p toSpace (s.nexts toSpace + padding) v data).mem = atomicUpdate
      (seqCstCpy s.mem (FatPtr.ofAddr (cfg.base toSpace + (s.nexts toSpace + padding))).asPtr
        v.asPtr data.size) p (FatPtr.ofAddr (cfg.base toSpace + (s.nexts toSpace + padding))) := by
    rw [State.copied_mem, compareExchange_of_testPtr hslot']
  have hvisited' := AssocMap.lookup_emplace_self
    (v := FatPtr.ofAddr (cfg.base toSpace + (s.nexts toSpace + padding))) hvisited
  have hcopy := h.memory.copy (FatPtr.ofAddr (cfg.base toSpace + (s.nexts toSpace + padding)))
    hvisited hold (by omega) (by omega) (fun hw hwold => by
      have hhi := (h.placed hw hwold).hi
      omega) hfar
  refine { hnext with memory := ?_, traced := ?_ }
  · rw [hcopied]
    refine hcopy.retarget hslot' hslot₀ hvisited' hp (fun hw hwold => ?_) fun hw hunvisited => ?_
    · have hplaced := hnext.placed hw hwold
      exact ⟨hplaced.lo, hplaced.inBlock⟩
    · refine h.apart_white hroots (by simp) hw ?_
      rw [AssocMap.lookup_emplace hvisited] at hunvisited
      split at hunvisited
      · cases hunvisited
      · exact hunvisited
  · have hfields : ∀ a, a ∈ slots ↔ (objectGraph m₀ old roots).field v a := fun a =>
      (hscan a).trans (h.inScan_iff_field hold hvisited)
    refine h.traced.mark (l := p) (y := v) (by simp) ⟨hslot₀, AssocMap.mem_of_lookup hold⟩
      (fun x => ?_) (fun k hk => ?_) (fun k hk => ?_) fun k hmet hk => ?_
    · rw [← AList.lookup_isSome, ← AList.lookup_isSome, AssocMap.lookup_emplace hvisited]
      split <;> simp_all
    · rcases List.mem_append.mp hk with hk | hk
      · exact Or.inr ((hfields k).mp (List.mem_reverse.mp hk))
      · exact Or.inl (List.mem_cons_of_mem p hk)
    · exact List.mem_append_left _ (List.mem_reverse.mpr ((hfields k).mpr hk))
    · rw [hcopied]
      refine (pop_settled (fun j hj => forwarded_atomicUpdate hslot' hslot₀ hvisited' hj) k
        (hk.imp id fun hdone w hw hmem => ?_)).imp (List.mem_append_right _) id
      obtain ⟨w', hw', hheld⟩ := hdone w hw hmem
      exact ⟨w', AssocMap.lookup_emplace_of_some hw',
        (hsame k (h.slotApart happart hroots hmet)).trans hheld⟩

/-- **One round keeps the invariant.** -/
theorem iter_ok (hcopies : policy.Copies) (happart : SpacesApart cfg)
    (hroots : ∀ root ∈ roots, RootApart cfg root)
    (h : TraceInv cfg old toSpace m₀ roots handled (p :: stack) visited s)
    {r : List Nat × Visited}
    (hrun : (forwardIter cfg policy toSpace p stack visited).run s = .ok r t) :
    TraceInv cfg old toSpace m₀ roots handled r.1 r.2 t := by
  have houtcome := forwardIter_outcome hcopies h.toEvacuating p stack
  have hp := h.slotApart happart hroots (h.traced.origin p (by simp))
  rw [hrun] at houtcome
  cases houtcome with
  | skip hslot => exact h.skip hp hslot
  | update v v' hslot hvisited => exact h.update hroots hp hslot hvisited
  | forward v data slots padding hslot hvisited hdata hspace hscan hlength hpadding hfit =>
      exact h.forward happart hroots hslot hvisited hdata hspace hscan hpadding hfit

theorem push (h : TraceInv cfg old toSpace m₀ roots handled [] visited s) {root : Nat}
    (hroot : root ∈ roots) :
    TraceInv cfg old toSpace m₀ roots (root :: handled) [root] visited s :=
  { h.toEvacuating with
    memory := h.memory
    traced := by
      refine h.traced.push (l := root) hroot (fun k => List.mem_cons) (fun k hk => ?_) fun k hk => ?_
      · exact Or.inl (List.mem_singleton.mp hk)
      · rcases hk with hk | hk | rfl
        · cases hk
        · exact Or.inr hk
        · exact Or.inl (List.mem_singleton_self k) }

theorem skip_root (h : TraceInv cfg old toSpace m₀ roots handled [] visited s) {root : Nat}
    (hroot : root ∈ roots) (hroots : ∀ root ∈ roots, RootApart cfg root)
    (hslot : ∀ ptr, testPtr s.mem root = some ptr → contains cfg ptr.asPtr = false) :
    TraceInv cfg old toSpace m₀ roots (root :: handled) [] visited s := by
  have hdone : Forwarded old m₀ visited s.mem root := by
    intro w hw hmem
    obtain ⟨data, hold⟩ := lookup_eq_some_of_mem hmem
    rcases h.memory.slots root ((hroots root hroot).slotApart toSpace) with
      hsame | ⟨u, u', hu, hvisited, hslot'⟩
    · have hoff := hslot w (by rw [hsame, hw])
      rw [← Bool.not_eq_true, contains_iff, h.settled.findSpace hold] at hoff
      exact absurd rfl hoff
    · rw [hw] at hu
      cases hu
      exact ⟨u', hvisited, hslot'⟩
  refine { h.toEvacuating with memory := h.memory, traced := ?_ }
  refine h.traced.push (l := root) hroot (fun k => List.mem_cons) (fun k hk => ?_) fun k hk => ?_
  · cases hk
  · rcases hk with hk | hk | rfl
    · cases hk
    · exact Or.inr hk
    · exact Or.inr hdone

theorem start (h : Settled cfg s.spaceNum s.metadata) (roots : List Nat) :
    TraceInv cfg s.metadata s.spaceNum.flip s.mem roots [] [] ∅ (flipSpaces s) :=
  { h.evacuating with
    memory :=
      { slots := fun _ _ => Or.inl rfl
        white := fun _ _ => AgreeOn.refl _ _ _
        copies := fun hvisited => by cases hvisited }
    traced := .start (by simp) (by simp) (by simp) }

end TraceInv

/-- **A traversal that completes** has met every root and emptied its stack. -/
theorem forwardRoots_trace (hcopies : policy.Copies) (happart : SpacesApart cfg)
    (hroots : ∀ root ∈ roots, RootApart cfg root) (h : Settled cfg s.spaceNum s.metadata)
    (hrun : (forwardRoots cfg policy s.spaceNum.flip roots ∅).run (flipSpaces s)
      = .ok visited t) :
    TraceInv cfg s.metadata s.spaceNum.flip s.mem roots (roots.reverse ++ []) [] visited t :=
  forwardRoots_ok (· ∈ roots)
    (fun handled stack visited t =>
      TraceInv cfg s.metadata s.spaceNum.flip s.mem roots handled stack visited t)
    (fun _ _ _ _ _ _ _ hinv hiter => hinv.iter_ok hcopies happart hroots hiter)
    (fun _ _ _ _ _ hinv hroot _ _ => hinv.push hroot)
    (fun _ _ _ _ hinv hroot hslot => hinv.skip_root hroot hroots hslot)
    roots [] ∅ (flipSpaces s) visited t (fun _ hroot => hroot) (TraceInv.start h roots) hrun

end Gcpp
