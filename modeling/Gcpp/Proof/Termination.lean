import Gcpp.Proof.Collection
import Mathlib.Data.List.ReduceOption

/-!
# The traversal ends

`forward_ptr` pops a slot in every round, and pushes slots only in a round that takes an object of
the from space which is not in the map of visited objects, and puts it there. Each object pays for
the slots that are found in it, so a bound on the rounds is known before the first one. The copies
change the map of objects under the loop, but what they add lies in the to space, and is never
taken.
-/

namespace Gcpp

open ByteMemory StateExcept AssocMap

/-! ### Runs of the loop -/

/-- The object that a round takes up, with the slots that the scan of its block reports. -/
def takenUp (cfg : Config) (toSpace : SpaceNum) (p : Nat) (visited : Visited) (s : State) :
    Option (FatPtr × List Nat) :=
  (testPtr s.mem p).bind fun ptrVal =>
    if visited.lookup ptrVal = none ∧ findSpace cfg ptrVal.asPtr = some toSpace.flip then
      (s.metadata.lookup ptrVal).bind fun metaData =>
        (scanMemory s.mem ptrVal.asPtr (ptrVal.asPtr + metaData.size)).map fun slots =>
          (ptrVal, slots)
    else none

/-- A run of the loop that ends, returning or throwing, with what each round has taken up. Nothing
bounds the number of rounds. -/
inductive LoopRun (cfg : Config) (policy : GenPolicy) (toSpace : SpaceNum) :
    List Nat → Visited → State → List (Option (FatPtr × List Nat)) →
      EStateM.Result Halt State Visited → Prop
  | finish (visited : Visited) (s : State) :
      LoopRun cfg policy toSpace [] visited s [] (.ok visited s)
  | throw (p : Nat) (stack : List Nat) (visited : Visited) (s : State) (e : Halt) (t : State)
      (hiter : (forwardIter cfg policy toSpace p stack visited).run s = .error e t) :
      LoopRun cfg policy toSpace (p :: stack) visited s [takenUp cfg toSpace p visited s]
        (.error e t)
  | round (p : Nat) (stack : List Nat) (visited : Visited) (s : State) (r : List Nat × Visited)
      (t : State) (log : List (Option (FatPtr × List Nat)))
      (result : EStateM.Result Halt State Visited)
      (hiter : (forwardIter cfg policy toSpace p stack visited).run s = .ok r t)
      (hrest : LoopRun cfg policy toSpace r.1 r.2 t log result) :
      LoopRun cfg policy toSpace (p :: stack) visited s
        (takenUp cfg toSpace p visited s :: log) result

/-- The objects that a run has taken up, in order. -/
def takenObjects (log : List (Option (FatPtr × List Nat))) : List FatPtr :=
  log.reduceOption.map Prod.fst

/-- The number of slots that were found in them. -/
def foundSlots (log : List (Option (FatPtr × List Nat))) : Nat :=
  (log.reduceOption.map fun taken => taken.2.length).sum

variable {cfg : Config} {policy : GenPolicy} {toSpace : SpaceNum} {old : AssocMap FatPtr MetaData}
  {visited : Visited} {s t : State} {ptr : FatPtr} {data : MetaData}

/-- A registered object is scanned to its end. -/
theorem Registered.scan (h : Registered cfg s.metadata) (hdata : s.metadata.lookup ptr = some data) :
    ∃ slots, scanMemory s.mem ptr.asPtr (ptr.asPtr + data.size) = some slots ∧
      slots.length ≤ data.size / 8 := by
  obtain ⟨space, _, hhi⟩ := h ptr data hdata
  have hblock := cfg.block_lt space
  obtain ⟨slots, hslots, _, hlength⟩ :=
    scanMemory_spec s.mem (Nat.le_add_right ptr.asPtr data.size) (by omega)
  exact ⟨slots, hslots, by omega⟩

/-! ### One round -/

/-- What the loop relies on: the entries of the from space are those the call started with. -/
structure Traversing (cfg : Config) (old : AssocMap FatPtr MetaData) (toSpace : SpaceNum)
    (s : State) : Prop where
  registered : Registered cfg s.metadata
  aligned : ∀ {ptr data}, s.metadata.lookup ptr = some data → SmallAlignment data.alignment
  original : ∀ {ptr data}, s.metadata.lookup ptr = some data →
    findSpace cfg ptr.asPtr = some toSpace.flip → old.lookup ptr = some data

theorem Traversing.with_mem (h : Traversing cfg old toSpace s) (mem : Memory) :
    Traversing cfg old toSpace { s with mem } := { h with }

theorem Traversing.relocate (h : Traversing cfg old toSpace s) {toUpdate next index : Nat}
    (hdata : s.metadata.lookup ptr = some data) (hfit : data.size + index < cfg.heapSize) :
    Traversing cfg old toSpace ((s.bump toSpace next).relocate toUpdate ptr
      (FatPtr.ofAddr (cfg.base toSpace + index)) data) := by
  have haddr : (FatPtr.ofAddr (cfg.base toSpace + index)).asPtr = cfg.base toSpace + index :=
    asPtr_ofAddr_base toSpace (by omega)
  have hto : findSpace cfg (FatPtr.ofAddr (cfg.base toSpace + index)).asPtr = some toSpace :=
    findSpace_ofAddr_base toSpace (by omega)
  have hentry : ∀ {v d}, ((s.bump toSpace next).relocate toUpdate ptr
      (FatPtr.ofAddr (cfg.base toSpace + index)) data).metadata.lookup v = some d →
      (v = FatPtr.ofAddr (cfg.base toSpace + index) ∧ d = data) ∨ s.metadata.lookup v = some d :=
    fun hlookup => of_lookup_emplace (of_lookup_erase hlookup).2
  refine { registered := fun v d hlookup => ?_, aligned := fun hlookup => ?_,
           original := fun hlookup hspace => ?_ }
  · rcases hentry hlookup with ⟨rfl, rfl⟩ | hbefore
    · refine ⟨toSpace, hto, ?_⟩
      omega
    · exact h.registered v d hbefore
  · rcases hentry hlookup with ⟨_, rfl⟩ | hbefore
    · exact h.aligned hdata
    · exact h.aligned hbefore
  · rcases hentry hlookup with ⟨rfl, _⟩ | hbefore
    · -- the copy lies in the to space
      exact absurd hto (findSpace_ne_of_flip hspace)
    · exact h.original hbefore hspace

/-- `copy` ends for every object of the from space, and leaves the others of its entries alone. -/
theorem Traversing.copy (h : Traversing cfg old toSpace s) (toUpdate : Nat)
    (hdata : s.metadata.lookup ptr = some data)
    (hspace : findSpace cfg ptr.asPtr = some toSpace.flip) :
    (∃ e t, (copy cfg toUpdate toSpace ptr).run s = .error e t ∧ e ≠ .hang) ∨
      ∃ newObj t, (copy cfg toUpdate toSpace ptr).run s = .ok newObj t ∧
        Traversing cfg old toSpace t := by
  obtain ⟨padding, _, hpadding, _⟩ :=
    calcAlignmentBytes_spec (h.aligned hdata) (cfg.base toSpace + s.nexts toSpace)
  rw [run_copy hspace (SpaceNum.flip_ne toSpace) hdata hpadding]
  by_cases hover : s.nexts toSpace + data.size + padding > cfg.heapSize
  · rw [if_pos hover]
    exact Or.inl ⟨_, _, rfl, by simp⟩
  · rw [if_neg hover]
    dsimp only
    by_cases hfree : NoOverlap s.metadata (cfg.base toSpace + (s.nexts toSpace + padding)) data.size
    · rw [if_neg (not_not.mpr hfree)]
      by_cases hroom : data.size + (s.nexts toSpace + padding) ≥ cfg.heapSize
      · rw [if_pos hroom]
        exact Or.inl ⟨_, _, rfl, by simp⟩
      · rw [if_neg hroom]
        exact Or.inr ⟨_, _, rfl, h.relocate hdata (by omega)⟩
    · rw [if_pos hfree]
      exact Or.inl ⟨_, _, rfl, by simp⟩

theorem of_takenUp {p : Nat} {v : FatPtr} {slots : List Nat}
    (h : takenUp cfg toSpace p visited s = some (v, slots)) :
    visited.lookup v = none ∧ findSpace cfg v.asPtr = some toSpace.flip ∧
      ∃ data, s.metadata.lookup v = some data := by
  obtain ⟨ptrVal, _, hnew⟩ := Option.bind_eq_some_iff.mp h
  split at hnew
  · rename_i hfrom
    obtain ⟨metaData, hdata, hscan⟩ := Option.bind_eq_some_iff.mp hnew
    obtain ⟨slots', _, heq⟩ := Option.map_eq_some_iff.mp hscan
    cases heq
    exact ⟨hfrom.1, hfrom.2, metaData, hdata⟩
  · cases hnew

theorem takenUp_of_empty {p : Nat} (h : testPtr s.mem p = none) :
    takenUp cfg toSpace p visited s = none := by
  rw [takenUp, h, Option.bind_none]

theorem takenUp_eq_none {p : Nat} {v : FatPtr} (hslot : testPtr s.mem p = some v)
    (h : visited.lookup v ≠ none ∨ s.metadata.lookup v = none ∨
      findSpace cfg v.asPtr = some toSpace) : takenUp cfg toSpace p visited s = none := by
  rw [takenUp, hslot, Option.bind_some]
  split
  · rename_i hnew
    rcases h with hseen | hgone | hto
    · exact absurd hnew.1 hseen
    · rw [hgone, Option.bind_none]
    · exact absurd hnew.2 (findSpace_ne_flip hto)
  · rfl

/-- What a round does: it pops its slot, or takes up an object of the from space and pushes what the
scan has found, or `copy` throws. -/
inductive RoundEnd (cfg : Config) (old : AssocMap FatPtr MetaData) (toSpace : SpaceNum) (p : Nat)
    (stack : List Nat) (visited : Visited) (s : State) :
    EStateM.Result Halt State (List Nat × Visited) → Prop
  | skip (t : State) (htaken : takenUp cfg toSpace p visited s = none)
      (hinv : Traversing cfg old toSpace t) :
      RoundEnd cfg old toSpace p stack visited s (.ok (stack, visited) t)
  | take (v v' : FatPtr) (data : MetaData) (slots : List Nat) (t : State)
      (htaken : takenUp cfg toSpace p visited s = some (v, slots))
      (hdata : s.metadata.lookup v = some data) (hlength : slots.length ≤ data.size / 8)
      (hinv : Traversing cfg old toSpace t) :
      RoundEnd cfg old toSpace p stack visited s
        (.ok (slots.reverse ++ stack, emplace v v' visited) t)
  | throw (v : FatPtr) (e : Halt) (t : State) (hne : e ≠ .hang)
      (hcopy : (copy cfg p toSpace v).run s = .error e t) :
      RoundEnd cfg old toSpace p stack visited s (.error e t)

theorem forwardIter_roundEnd (policy : GenPolicy) (h : Traversing cfg old toSpace s) (p : Nat)
    (stack : List Nat) (visited : Visited) :
    RoundEnd cfg old toSpace p stack visited s
      ((forwardIter cfg policy toSpace p stack visited).run s) := by
  cases forwardIter_round cfg policy toSpace p stack visited s with
  | empty hslot hresult =>
      rw [hresult]
      exact .skip s (takenUp_of_empty hslot) h
  | update v v' hslot hvisited hresult =>
      have hseen : visited.lookup v ≠ none := by
        rw [hvisited]
        exact Option.some_ne_none v'
      rw [hresult]
      exact .skip _ (takenUp_eq_none hslot (Or.inl hseen)) (h.with_mem _)
  | unmanaged v hslot hvisited hdata hresult =>
      rw [hresult]
      exact .skip s (takenUp_eq_none hslot (Or.inr (Or.inl hdata))) h
  | moved v data hslot hvisited hdata hspace hresult =>
      rw [hresult]
      exact .skip s (takenUp_eq_none hslot (Or.inr (Or.inr hspace))) h
  | outside v data e hdata hspace =>
      obtain ⟨space, hmanaged, _⟩ := h.registered v data hdata
      rw [hspace] at hmanaged
      cases hmanaged
  | endless v data hdata hscan =>
      obtain ⟨slots, hslots, _⟩ := h.registered.scan hdata
      rw [hscan] at hslots
      cases hslots
  | found v data space slots hslot hvisited hdata hspace hne hscan hresult =>
      have hfrom : findSpace cfg v.asPtr = some toSpace.flip :=
        hspace.trans (congrArg some (SpaceNum.eq_flip_of_ne hne))
      have htaken : takenUp cfg toSpace p visited s = some (v, slots) := by
        rw [takenUp, hslot, Option.bind_some, if_pos ⟨hvisited, hfrom⟩, hdata, Option.bind_some,
          hscan, Option.map_some]
      obtain ⟨slots', hslots', hlength⟩ := h.registered.scan hdata
      rw [hscan] at hslots'
      cases hslots'
      rw [hresult]
      cases hpromotion : policy.needPromotion v with
      | false =>
          rw [if_neg Bool.false_ne_true]
          exact .take v (policy.promote v data) data slots s htaken hdata hlength h
      | true =>
          rw [if_pos rfl]
          rcases h.copy p hdata hfrom with ⟨e, t, hrun, hne⟩ | ⟨newObj, t, hrun, hinv⟩
          · rw [run_bind_of_error hrun]
            exact .throw v e t hne hrun
          · rw [run_bind_of_ok hrun]
            exact .take v newObj data slots t htaken hdata hlength hinv

/-! ### All rounds -/

/-- The slots that an object may hold, and the one that leads to it. -/
def slotBound (data : MetaData) : Nat := data.size / 8 + 1

/-- **The loop ends**, within any number of rounds that covers the stack and the slots still due. -/
theorem loopRun_exists (policy : GenPolicy) (rounds : Nat) :
    ∀ stack visited s, Traversing cfg old toSpace s →
      stack.length + weightSum (pending visited slotBound) old ≤ rounds →
      ∃ log result, LoopRun cfg policy toSpace stack visited s log result ∧
        (forwardLoop cfg policy toSpace rounds stack visited).run s = result := by
  induction rounds with
  | zero =>
      intro stack visited s _ hrounds
      cases stack with
      | nil => exact ⟨_, _, .finish visited s, rfl⟩
      | cons p stack => simp at hrounds
  | succ rounds ih =>
      intro stack visited s hinv hrounds
      cases stack with
      | nil => exact ⟨_, _, .finish visited s, rfl⟩
      | cons p stack =>
          rw [List.length_cons] at hrounds
          have hround := forwardIter_roundEnd policy hinv p stack visited
          cases hiter : (forwardIter cfg policy toSpace p stack visited).run s with
          | error e t => exact ⟨_, _, .throw p stack visited s e t hiter, run_bind_of_error hiter⟩
          | ok r t =>
              have hnext : Traversing cfg old toSpace t ∧
                  r.1.length + weightSum (pending r.2 slotBound) old ≤ rounds := by
                rw [hiter] at hround
                cases hround with
                | skip t _ hnext => exact ⟨hnext, by dsimp only; omega⟩
                | take v v' data slots t htaken hdata hlength hnext =>
                    obtain ⟨hvisited, hspace, _⟩ := of_takenUp htaken
                    have hpaid := weightSum_pending_emplace slotBound v' (hinv.original hdata hspace)
                      hvisited
                    refine ⟨hnext, ?_⟩
                    rw [List.length_append, List.length_reverse]
                    rw [slotBound] at hpaid
                    dsimp only
                    omega
              obtain ⟨log, result, hrun, hloop⟩ := ih r.1 r.2 t hnext.1 hnext.2
              refine ⟨_, result, .round p stack visited s r t log result hiter hrun, ?_⟩
              rw [forwardLoop, run_bind_of_ok hiter, hloop]

namespace LoopRun

variable {stack : List Nat} {log : List (Option (FatPtr × List Nat))}
  {result : EStateM.Result Halt State Visited}

/-- What one run makes true of the objects that it takes up. -/
theorem objects (h : LoopRun cfg policy toSpace stack visited s log result)
    (hinv : Traversing cfg old toSpace s) :
    (takenObjects log).Nodup ∧ ∀ v ∈ takenObjects log, visited.lookup v = none ∧
      findSpace cfg v.asPtr = some toSpace.flip ∧ ∃ data, old.lookup v = some data := by
  induction h with
  | finish => exact ⟨List.nodup_nil, fun v hv => absurd hv List.not_mem_nil⟩
  | throw p stack visited s e t hiter =>
      cases htaken : takenUp cfg toSpace p visited s with
      | none => exact ⟨List.nodup_nil, fun v hv => absurd hv List.not_mem_nil⟩
      | some taken =>
          obtain ⟨hvisited, hspace, data, hdata⟩ := of_takenUp htaken
          refine ⟨List.nodup_singleton _, fun v hv => ?_⟩
          cases List.mem_singleton.mp hv
          exact ⟨hvisited, hspace, data, hinv.original hdata hspace⟩
  | round p stack visited s r t log result hiter hrest ih =>
      have hround := forwardIter_roundEnd policy hinv p stack visited
      rw [hiter] at hround
      cases hround with
      | skip t htaken hnext =>
          rw [htaken]
          exact ih hnext
      | take v v' data slots t htaken hdata hlength hnext =>
          obtain ⟨hnodup, hmem⟩ := ih hnext
          obtain ⟨hvisited, hspace, _⟩ := of_takenUp htaken
          have hobjects : takenObjects (takenUp cfg toSpace p visited s :: log) =
              v :: takenObjects log := by
            rw [htaken]
            rfl
          have hfresh : ∀ w ∈ takenObjects log, w ≠ v := by
            rintro w hw rfl
            have hseen := (hmem w hw).1
            rw [lookup_emplace_self hvisited] at hseen
            cases hseen
          rw [hobjects]
          refine ⟨List.nodup_cons.mpr ⟨fun hv => hfresh v hv rfl, hnodup⟩, fun w hw => ?_⟩
          rcases List.mem_cons.mp hw with rfl | hw
          · exact ⟨hvisited, hspace, data, hinv.original hdata hspace⟩
          · obtain ⟨hseen, hrest⟩ := hmem w hw
            rw [lookup_emplace_of_ne (hfresh w hw)] at hseen
            exact ⟨hseen, hrest⟩

/-- Every round pops a slot, and only the rounds that take up an object push any. -/
theorem length_le (h : LoopRun cfg policy toSpace stack visited s log result)
    (hinv : Traversing cfg old toSpace s) : log.length ≤ stack.length + foundSlots log := by
  induction h with
  | finish => exact Nat.zero_le _
  | throw p stack => exact Nat.le_add_right_of_le (Nat.le_add_left 1 stack.length)
  | round p stack visited s r t log result hiter hrest ih =>
      have hround := forwardIter_roundEnd policy hinv p stack visited
      rw [hiter] at hround
      cases hround with
      | skip t htaken hnext =>
          have hfound : foundSlots (takenUp cfg toSpace p visited s :: log) = foundSlots log := by
            rw [htaken]
            rfl
          calc (takenUp cfg toSpace p visited s :: log).length
            _ = log.length + 1 := List.length_cons
            _ ≤ stack.length + foundSlots log + 1 := Nat.succ_le_succ (ih hnext)
            _ = (p :: stack).length + foundSlots (takenUp cfg toSpace p visited s :: log) := by
                rw [hfound, List.length_cons]
                omega
      | take v v' data slots t htaken hdata hlength hnext =>
          have hfound : foundSlots (takenUp cfg toSpace p visited s :: log) =
              slots.length + foundSlots log := by
            rw [htaken]
            rfl
          calc (takenUp cfg toSpace p visited s :: log).length
            _ = log.length + 1 := List.length_cons
            _ ≤ (slots.reverse ++ stack).length + foundSlots log + 1 :=
                Nat.succ_le_succ (ih hnext)
            _ = (p :: stack).length + foundSlots (takenUp cfg toSpace p visited s :: log) := by
                rw [hfound, List.length_append, List.length_reverse, List.length_cons]
                omega

/-- An exception is one that `copy` has thrown. -/
theorem thrown_by_copy (h : LoopRun cfg policy toSpace stack visited s log result)
    (hinv : Traversing cfg old toSpace s) {e : Halt} (hresult : result = .error e t) :
    e ≠ .hang ∧ ∃ p v u, (copy cfg p toSpace v).run u = .error e t := by
  induction h with
  | finish => cases hresult
  | throw p stack visited s e' t' hiter =>
      have hround := forwardIter_roundEnd policy hinv p stack visited
      rw [hiter] at hround
      cases hround with
      | throw v _ _ hne hcopy =>
          cases hresult
          exact ⟨hne, p, v, s, hcopy⟩
  | round p stack visited s r t' log result hiter hrest ih =>
      have hround := forwardIter_roundEnd policy hinv p stack visited
      rw [hiter] at hround
      cases hround with
      | skip _ _ hnext => exact ih hnext hresult
      | take _ _ _ _ _ _ _ _ hnext => exact ih hnext hresult

end LoopRun

/-- What is known of a call of `forward_ptr` that ends: the rounds that it has made, that an exception
is one of `copy`, that no object of the from space is taken up twice, and that each round but the
first is for a slot found in one of these objects. -/
structure ForwardEnds (cfg : Config) (policy : GenPolicy) (toSpace : SpaceNum) (ptr : Nat)
    (visited : Visited) (s : State) (log : List (Option (FatPtr × List Nat)))
    (result : EStateM.Result Halt State Visited) : Prop where
  run : LoopRun cfg policy toSpace [ptr] visited s log result
  ends : (forwardPtr cfg policy toSpace ptr visited).run s = result
  thrown : ∀ e t, result = .error e t →
    e ≠ .hang ∧ ∃ p v u, (copy cfg p toSpace v).run u = .error e t
  once : (takenObjects log).Nodup
  fromSpace : ∀ v ∈ takenObjects log, findSpace cfg v.asPtr = some toSpace.flip ∧
    ∃ data, s.metadata.lookup v = some data
  rounds : log.length ≤ 1 + foundSlots log

/-- **`forward_ptr` terminates**, whatever the memory, the slot, the map of visited objects and the
answers of the generation policy are. -/
theorem forwardPtr_terminates (policy : GenPolicy) (toSpace : SpaceNum) {s : State}
    (hregistered : Registered cfg s.metadata)
    (haligned : ∀ v data, s.metadata.lookup v = some data → SmallAlignment data.alignment)
    (ptr : Nat) (visited : Visited) :
    ∃ log result, ForwardEnds cfg policy toSpace ptr visited s log result := by
  have hinv : Traversing cfg s.metadata toSpace s :=
    { registered := hregistered
      aligned := fun hdata => haligned _ _ hdata
      original := fun hdata _ => hdata }
  have hbound : 1 + weightSum (pending visited slotBound) s.metadata ≤ forwardRounds s.metadata :=
    Nat.add_le_add_left (weightSum_pending_le visited slotBound) 1
  obtain ⟨log, result, hrun, hloop⟩ := loopRun_exists policy (forwardRounds s.metadata) [ptr]
    visited s hinv hbound
  obtain ⟨hnodup, hmem⟩ := hrun.objects hinv
  refine ⟨log, result, ?_⟩
  exact
    { run := hrun
      ends := hloop
      thrown := fun e t hresult => hrun.thrown_by_copy hinv hresult
      once := hnodup
      fromSpace := fun v hv => (hmem v hv).2
      rounds := hrun.length_le hinv }

/-- The object in the root slot points to itself. -/
theorem forwardPtr_terminates_on_cycle :
    ∃ log result, ForwardEnds Config.sample GenPolicy.copying .one 1024 ∅
      { State.sample with mem := writeFatPtr State.sample.mem 65536 (FatPtr.ofAddr 65536) }
      log result := by
  have hcycle := State.sample_accounted.with_mem
    (writeFatPtr State.sample.mem 65536 (FatPtr.ofAddr 65536))
  exact forwardPtr_terminates GenPolicy.copying .one hcycle.registered
    (fun _ _ hdata => hcycle.small hdata) 1024 ∅

end Gcpp
