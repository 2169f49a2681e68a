import Gcpp.Proof.HeapLayout

/-!
# What one round of the traversal does

`forward_ptr` pops a slot and does one of a few things with it. They are listed once, as the
outcomes of a round; every invariant of the traversal is then a case analysis over them, and is
carried through the loops by the rules at the end.
-/

namespace Gcpp

open ByteMemory StateExcept

variable {cfg : Config} {policy : GenPolicy} {old : AssocMap FatPtr MetaData} {toSpace : SpaceNum}
  {visited : Visited}

/-- `forward_ptr` takes its copy branch for every object. -/
def GenPolicy.Copies (policy : GenPolicy) : Prop := ∀ ptr, policy.needPromotion ptr = true

/-- The state after an object has been copied to the block at offset `index` of `toSpace`. -/
def State.copied (cfg : Config) (s : State) (toUpdate : Nat) (toSpace : SpaceNum) (index : Nat)
    (ptr : FatPtr) (data : MetaData) : State :=
  (s.bump toSpace (index + data.size)).relocate toUpdate ptr
    (FatPtr.ofAddr (cfg.base toSpace + index)) data

section Copy

variable {s : State} {ptr : FatPtr} {data : MetaData} {padding : Nat}

/-- While a collection is under way, an object that fits is copied. -/
theorem run_copy_of_fit (h : Evacuating cfg old toSpace visited s) (toUpdate : Nat)
    (hspace : findSpace cfg ptr.asPtr = some toSpace.flip)
    (hdata : s.metadata.lookup ptr = some data)
    (hpadding : calcAlignmentBytes (cfg.base toSpace + s.nexts toSpace) data.alignment
      = some padding)
    (hfit : data.size + (s.nexts toSpace + padding) < cfg.heapSize) :
    (copy cfg toUpdate toSpace ptr).run s =
      .ok (FatPtr.ofAddr (cfg.base toSpace + (s.nexts toSpace + padding)))
        (s.copied cfg toUpdate toSpace (s.nexts toSpace + padding) ptr data) := by
  have hfree : NoOverlap s.metadata (cfg.base toSpace + (s.nexts toSpace + padding)) data.size :=
    h.noOverlap (h.pos hdata) (by omega)
  rw [run_copy hspace (SpaceNum.flip_ne toSpace) hdata hpadding, if_neg (by omega)]
  dsimp only
  rw [if_neg (not_not.mpr hfree), if_neg (by omega), State.copied,
    show s.nexts toSpace + data.size + padding = s.nexts toSpace + padding + data.size by omega]

/-- An object that does not fit is refused, before the map is touched. -/
theorem run_copy_of_full (h : Evacuating cfg old toSpace visited s) (toUpdate : Nat)
    (hspace : findSpace cfg ptr.asPtr = some toSpace.flip)
    (hdata : s.metadata.lookup ptr = some data)
    (hpadding : calcAlignmentBytes (cfg.base toSpace + s.nexts toSpace) data.alignment
      = some padding)
    (hfull : cfg.heapSize ≤ data.size + (s.nexts toSpace + padding)) :
    ∃ e t, (copy cfg toUpdate toSpace ptr).run s = .error e t ∧
      (e = .badOptionalAccess ∨ e = .badAlloc) ∧ t.metadata = s.metadata := by
  rw [run_copy hspace (SpaceNum.flip_ne toSpace) hdata hpadding]
  by_cases hover : s.nexts toSpace + data.size + padding > cfg.heapSize
  · rw [if_pos hover]
    exact ⟨_, _, rfl, Or.inl rfl, rfl⟩
  · -- the block ends exactly at the end of the space: it is reserved, then refused
    have hfree : NoOverlap s.metadata (cfg.base toSpace + (s.nexts toSpace + padding)) data.size :=
      h.noOverlap (h.pos hdata) (by omega)
    rw [if_neg hover]
    dsimp only
    rw [if_neg (not_not.mpr hfree), if_pos (by omega)]
    exact ⟨_, _, rfl, Or.inr rfl, rfl⟩

end Copy

/-- The branches of a round, by the tests that lead to them. -/
inductive Round (cfg : Config) (policy : GenPolicy) (toSpace : SpaceNum) (p : Nat)
    (stack : List Nat) (visited : Visited) (s : State)
    (result : EStateM.Result Halt State (List Nat × Visited)) : Prop
  | empty (hslot : testPtr s.mem p = none) (hresult : result = .ok (stack, visited) s)
  | update (v v' : FatPtr) (hslot : testPtr s.mem p = some v)
      (hvisited : visited.lookup v = some v') (hresult : result =
        .ok (stack, visited) { s with mem := (compareExchange s.mem p v v').2 })
  | unmanaged (v : FatPtr) (hslot : testPtr s.mem p = some v) (hvisited : visited.lookup v = none)
      (hdata : s.metadata.lookup v = none) (hresult : result = .ok (stack, visited) s)
  | outside (v : FatPtr) (data : MetaData) (e : Halt) (hdata : s.metadata.lookup v = some data)
      (hspace : findSpace cfg v.asPtr = none) (hresult : result = .error e s)
  | moved (v : FatPtr) (data : MetaData) (hslot : testPtr s.mem p = some v)
      (hvisited : visited.lookup v = none) (hdata : s.metadata.lookup v = some data)
      (hspace : findSpace cfg v.asPtr = some toSpace) (hresult : result = .ok (stack, visited) s)
  | endless (v : FatPtr) (data : MetaData) (hdata : s.metadata.lookup v = some data)
      (hscan : scanMemory s.mem v.asPtr (v.asPtr + data.size) = none)
      (hresult : result = .error .hang s)
  | found (v : FatPtr) (data : MetaData) (space : SpaceNum) (slots : List Nat)
      (hslot : testPtr s.mem p = some v) (hvisited : visited.lookup v = none)
      (hdata : s.metadata.lookup v = some data) (hspace : findSpace cfg v.asPtr = some space)
      (hne : space ≠ toSpace)
      (hscan : scanMemory s.mem v.asPtr (v.asPtr + data.size) = some slots)
      (hresult : result = ((if policy.needPromotion v then copy cfg p toSpace v
          else pure (policy.promote v data)) >>= fun newPtr =>
        pure (slots.reverse ++ stack, AssocMap.emplace v newPtr visited) : GcM _).run s)

theorem forwardIter_round (cfg : Config) (policy : GenPolicy) (toSpace : SpaceNum) (p : Nat)
    (stack : List Nat) (visited : Visited) (s : State) :
    Round cfg policy toSpace p stack visited s
      ((forwardIter cfg policy toSpace p stack visited).run s) := by
  simp only [forwardIter]
  rw [EStateM.run_bind, EStateM.run_get]
  dsimp only
  cases hslot : testPtr s.mem p with
  | none => exact .empty hslot rfl
  | some v =>
      dsimp only
      cases hvisited : visited.lookup v with
      | some v' => exact .update v v' hslot hvisited rfl
      | none =>
          dsimp only
          cases hdata : s.metadata.lookup v with
          | none => exact .unmanaged v hslot hvisited hdata rfl
          | some data =>
              dsimp only
              cases hspace : findSpace cfg v.asPtr with
              | none =>
                  refine .outside v data (.runtimeError "Collector does not manage given ptr") hdata
                    hspace (run_bind_of_error ?_)
                  rw [getSpaceNum, hspace]
                  rfl
              | some space =>
                  rw [run_bind_of_ok (run_getSpaceNum s hspace)]
                  by_cases hto : space = toSpace
                  · subst hto
                    rw [if_pos rfl]
                    exact .moved v data hslot hvisited hdata hspace rfl
                  · rw [if_neg hto]
                    cases hscan : scanMemory s.mem v.asPtr (v.asPtr + data.size) with
                    | none => exact .endless v data hdata hscan rfl
                    | some slots =>
                        refine .found v data space slots hslot hvisited hdata hspace hto hscan ?_
                        cases policy.needPromotion v <;> rfl

/-- What a round does with the slot `p`, while a collection into `toSpace` is under way: nothing is
to be moved, or an object was forwarded before, or it is forwarded now, or does not fit. -/
inductive IterOutcome (cfg : Config) (toSpace : SpaceNum) (p : Nat) (stack : List Nat)
    (visited : Visited) (s : State) : EStateM.Result Halt State (List Nat × Visited) → Prop
  | skip
      (hslot : ∀ v, testPtr s.mem p = some v → visited.lookup v = none ∧
        (s.metadata.lookup v = none ∨ findSpace cfg v.asPtr = some toSpace)) :
      IterOutcome cfg toSpace p stack visited s (.ok (stack, visited) s)
  | update (v v' : FatPtr) (hslot : testPtr s.mem p = some v) (hvisited : visited.lookup v = some v') :
      IterOutcome cfg toSpace p stack visited s
        (.ok (stack, visited) { s with mem := atomicUpdate s.mem p v' })
  | forward (v : FatPtr) (data : MetaData) (slots : List Nat) (padding : Nat)
      (hslot : testPtr s.mem p = some v) (hvisited : visited.lookup v = none)
      (hdata : s.metadata.lookup v = some data) (hspace : findSpace cfg v.asPtr = some toSpace.flip)
      (hscan : ∀ a, a ∈ slots ↔ InScan s.mem v.asPtr (v.asPtr + data.size) a)
      (hlength : slots.length ≤ data.size / 8)
      (hpadding : calcAlignmentBytes (cfg.base toSpace + s.nexts toSpace) data.alignment
        = some padding)
      (hfit : data.size + (s.nexts toSpace + padding) < cfg.heapSize) :
      IterOutcome cfg toSpace p stack visited s
        (.ok (slots.reverse ++ stack, AssocMap.emplace v
            (FatPtr.ofAddr (cfg.base toSpace + (s.nexts toSpace + padding))) visited)
          (s.copied cfg p toSpace (s.nexts toSpace + padding) v data))
  | fail (v : FatPtr) (data : MetaData) (e : Halt) (t : State)
      (hdata : s.metadata.lookup v = some data) (hspace : findSpace cfg v.asPtr = some toSpace.flip)
      (hpadding : ∀ padding, calcAlignmentBytes (cfg.base toSpace + s.nexts toSpace) data.alignment
        = some padding → cfg.heapSize ≤ data.size + (s.nexts toSpace + padding))
      (herror : e = .badOptionalAccess ∨ e = .badAlloc ∨ e = .hang)
      (hmetadata : t.metadata = s.metadata) :
      IterOutcome cfg toSpace p stack visited s (.error e t)

section Evacuating

variable {s : State} {ptr : FatPtr} {data : MetaData}

/-- A registered object is scanned to its end. -/
theorem Evacuating.scan (h : Evacuating cfg old toSpace visited s)
    (hdata : s.metadata.lookup ptr = some data) :
    ∃ slots, scanMemory s.mem ptr.asPtr (ptr.asPtr + data.size) = some slots ∧
      (∀ a, a ∈ slots ↔ InScan s.mem ptr.asPtr (ptr.asPtr + data.size) a) ∧
      slots.length ≤ data.size / 8 := by
  have hend := h.end_lt hdata
  obtain ⟨slots, hslots, hscan, hlength⟩ := scanMemory_spec s.mem
    (Nat.le_add_right ptr.asPtr data.size) (by omega)
  exact ⟨slots, hslots, hscan, by omega⟩

theorem Evacuating.findSpace_of_ne (h : Evacuating cfg old toSpace visited s) {space : SpaceNum}
    (hdata : s.metadata.lookup ptr = some data) (hspace : findSpace cfg ptr.asPtr = some space)
    (hne : space ≠ toSpace) : findSpace cfg ptr.asPtr = some toSpace.flip := by
  refine (h.exists_findSpace hdata).resolve_left fun hto => ?_
  rw [hspace] at hto
  exact hne (Option.some.inj hto)

end Evacuating

/-- A round does one of the listed things. -/
theorem forwardIter_outcome (hcopies : policy.Copies) {s : State}
    (h : Evacuating cfg old toSpace visited s) (p : Nat) (stack : List Nat) :
    IterOutcome cfg toSpace p stack visited s
      ((forwardIter cfg policy toSpace p stack visited).run s) := by
  cases forwardIter_round cfg policy toSpace p stack visited s with
  | empty hslot hresult =>
      rw [hresult]
      refine .skip fun v hv => ?_
      rw [hslot] at hv
      cases hv
  | update v v' hslot hvisited hresult =>
      rw [hresult, compareExchange_of_testPtr hslot]
      exact .update v v' hslot hvisited
  | unmanaged v hslot hvisited hdata hresult =>
      rw [hresult]
      refine .skip fun w hw => ?_
      rw [hslot] at hw
      cases hw
      exact ⟨hvisited, Or.inl hdata⟩
  | outside v data e hdata hspace =>
      have hmanaged := h.exists_findSpace hdata
      rw [hspace] at hmanaged
      simp at hmanaged
  | moved v data hslot hvisited hdata hspace hresult =>
      rw [hresult]
      refine .skip fun w hw => ?_
      rw [hslot] at hw
      cases hw
      exact ⟨hvisited, Or.inr hspace⟩
  | endless v data hdata hscan =>
      obtain ⟨slots, hslots, _⟩ := h.scan hdata
      rw [hscan] at hslots
      cases hslots
  | found v data space slots hslot hvisited hdata hspace hne hslots hresult =>
      have hfrom := h.findSpace_of_ne hdata hspace hne
      obtain ⟨slots', hslots', hscan, hlength⟩ := h.scan hdata
      rw [hslots] at hslots'
      cases hslots'
      rw [hresult, if_pos (hcopies v)]
      cases hpadding : calcAlignmentBytes (cfg.base toSpace + s.nexts toSpace) data.alignment with
      | none =>
          rw [run_bind_of_error (run_copy_hang hfrom (SpaceNum.flip_ne toSpace) hdata hpadding)]
          refine .fail v data _ _ hdata hfrom (fun padding hsome => ?_) (by simp) rfl
          rw [hpadding] at hsome
          cases hsome
      | some padding =>
          by_cases hfit : data.size + (s.nexts toSpace + padding) < cfg.heapSize
          · rw [run_bind_of_ok (run_copy_of_fit h p hfrom hdata hpadding hfit)]
            exact .forward v data slots padding hslot hvisited hdata hfrom hscan hlength hpadding
              hfit
          · obtain ⟨e, t, hrun, herror, hmetadata⟩ :=
              run_copy_of_full h p hfrom hdata hpadding (Nat.le_of_not_lt hfit)
            rw [run_bind_of_error hrun]
            refine .fail v data e t hdata hfrom (fun padding' hsome => ?_)
              (herror.imp id Or.inl) hmetadata
            rw [hpadding] at hsome
            cases hsome
            exact Nat.le_of_not_lt hfit

/-! ### Rules for the loops -/

/-- What every round keeps, the loop keeps. -/
theorem forwardLoop_ok (inv : List Nat → Visited → State → Prop)
    (hstep : ∀ p stack visited s r t, inv (p :: stack) visited s →
      (forwardIter cfg policy toSpace p stack visited).run s = .ok r t → inv r.1 r.2 t)
    (rounds : Nat) : ∀ stack visited s result t, inv stack visited s →
      (forwardLoop cfg policy toSpace rounds stack visited).run s = .ok result t →
      inv [] result t := by
  induction rounds with
  | zero =>
      intro stack visited s result t hinv hrun
      cases stack with
      | nil =>
          cases hrun
          exact hinv
      | cons p stack => cases hrun
  | succ rounds ih =>
      intro stack visited s result t hinv hrun
      cases stack with
      | nil =>
          cases hrun
          exact hinv
      | cons p stack =>
          rw [forwardLoop] at hrun
          obtain ⟨next, u, hiter, hrest⟩ := run_bind_eq_ok.mp hrun
          exact ih _ _ _ _ _ (hstep p stack visited s next u hinv hiter) hrest

theorem forwardLoop_error (inv : List Nat → Visited → State → Prop) (exn : Halt → State → Prop)
    (hstep : ∀ p stack visited s r t, inv (p :: stack) visited s →
      (forwardIter cfg policy toSpace p stack visited).run s = .ok r t → inv r.1 r.2 t)
    (hthrow : ∀ p stack visited s e t, inv (p :: stack) visited s →
      (forwardIter cfg policy toSpace p stack visited).run s = .error e t → exn e t)
    (hrounds : ∀ stack visited s, inv stack visited s → exn .hang s)
    (rounds : Nat) : ∀ stack visited s e t, inv stack visited s →
      (forwardLoop cfg policy toSpace rounds stack visited).run s = .error e t → exn e t := by
  induction rounds with
  | zero =>
      intro stack visited s e t hinv hrun
      cases stack with
      | nil => cases hrun
      | cons p stack =>
          cases hrun
          exact hrounds _ _ _ hinv
  | succ rounds ih =>
      intro stack visited s e t hinv hrun
      cases stack with
      | nil => cases hrun
      | cons p stack =>
          rw [forwardLoop] at hrun
          rcases run_bind_eq_error.mp hrun with hiter | ⟨next, u, hiter, hrest⟩
          · exact hthrow p stack visited s e t hinv hiter
          · exact ih _ _ _ _ _ (hstep p stack visited s next u hinv hiter) hrest

/-- When every round succeeds and lowers a measure that counts the stack, the loop ends. -/
theorem forwardLoop_total (inv : Visited → State → Prop) (fuel : Visited → Nat)
    (hstep : ∀ p stack visited s, inv visited s → ∃ r t,
      (forwardIter cfg policy toSpace p stack visited).run s = .ok r t ∧ inv r.2 t ∧
        r.1.length + fuel r.2 ≤ stack.length + fuel visited)
    (rounds : Nat) : ∀ stack visited s, inv visited s → stack.length + fuel visited ≤ rounds →
      ∃ result t, (forwardLoop cfg policy toSpace rounds stack visited).run s = .ok result t ∧
        inv result t := by
  induction rounds with
  | zero =>
      intro stack visited s hinv hrounds
      cases stack with
      | nil => exact ⟨_, _, rfl, hinv⟩
      | cons p stack => simp at hrounds
  | succ rounds ih =>
      intro stack visited s hinv hrounds
      cases stack with
      | nil => exact ⟨_, _, rfl, hinv⟩
      | cons p stack =>
          obtain ⟨r, t, hiter, hnext, hmeasure⟩ := hstep p stack visited s hinv
          rw [List.length_cons] at hrounds
          rw [forwardLoop, run_bind_of_ok hiter]
          exact ih _ _ _ hnext (by omega)

end Gcpp
