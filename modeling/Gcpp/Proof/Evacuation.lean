import Gcpp.Proof.Forward

/-!
# A collection from start to end

Every round keeps `Evacuating`, so the whole traversal does, and the sweep then leaves exactly the
copies in the map. What a collection does to the map can be read off the map `visited` that its task
builds.
-/

namespace Gcpp

open ByteMemory StateExcept

variable {cfg : Config} {policy : GenPolicy} {old : AssocMap FatPtr MetaData} {toSpace : SpaceNum}
  {visited : Visited} {s t : State} {ptr v : FatPtr} {data : MetaData} {padding index : Nat}

/-! ### The state after a copy -/

@[simp]
theorem State.copied_nexts_self (toUpdate : Nat) :
    (s.copied cfg toUpdate toSpace index ptr data).nexts toSpace = index + data.size :=
  Function.update_self _ _ _

@[simp]
theorem State.copied_nexts_flip (toUpdate : Nat) :
    (s.copied cfg toUpdate toSpace index ptr data).nexts toSpace.flip = s.nexts toSpace.flip :=
  Function.update_of_ne (SpaceNum.flip_ne toSpace) _ _

@[simp]
theorem State.copied_spaceNum (toUpdate : Nat) :
    (s.copied cfg toUpdate toSpace index ptr data).spaceNum = s.spaceNum := rfl

theorem State.copied_mem (toUpdate : Nat) :
    (s.copied cfg toUpdate toSpace index ptr data).mem =
      (compareExchange (seqCstCpy s.mem (FatPtr.ofAddr (cfg.base toSpace + index)).asPtr ptr.asPtr
        data.size) toUpdate ptr (FatPtr.ofAddr (cfg.base toSpace + index))).2 := by
  simp only [State.copied, State.relocate, State.bump_mem]

theorem State.copied_metadata (toUpdate : Nat) :
    (s.copied cfg toUpdate toSpace index ptr data).metadata =
      (AssocMap.emplace (FatPtr.ofAddr (cfg.base toSpace + index)) data s.metadata).erase ptr := by
  simp only [State.copied, State.relocate, State.bump_metadata]

theorem State.lookup_copied (ptr : FatPtr) (data : MetaData) (toUpdate : Nat) (q : FatPtr)
    (hfresh : s.metadata.lookup (FatPtr.ofAddr (cfg.base toSpace + index)) = none) :
    (s.copied cfg toUpdate toSpace index ptr data).metadata.lookup q =
      if q = ptr then none
      else if q = FatPtr.ofAddr (cfg.base toSpace + index) then some data
      else s.metadata.lookup q := by
  rw [copied_metadata, AssocMap.lookup_erase_eq, AssocMap.lookup_emplace hfresh]

/-! ### Every round keeps the invariant -/

namespace Evacuating

theorem with_mem (h : Evacuating cfg old toSpace visited s) (mem : Memory) :
    Evacuating cfg old toSpace visited { s with mem } :=
  { h with }

/-- What is not registered is no copy. -/
theorem visited_ne (h : Evacuating cfg old toSpace visited s) {newObj : FatPtr}
    (hfresh : s.metadata.lookup newObj = none) (w : FatPtr) : visited.lookup w ≠ some newObj := by
  intro hw
  obtain ⟨_, _, _, hcopy, _⟩ := h.black hw
  rw [hfresh] at hcopy
  cases hcopy

/-- The copy of an object is placed where nothing was. -/
theorem forward (h : Evacuating cfg old toSpace visited s) (toUpdate : Nat)
    (hvisited : visited.lookup v = none) (hdata : s.metadata.lookup v = some data)
    (hspace : findSpace cfg v.asPtr = some toSpace.flip)
    (hpadding : calcAlignmentBytes (cfg.base toSpace + s.nexts toSpace) data.alignment
      = some padding)
    (hfit : data.size + (s.nexts toSpace + padding) < cfg.heapSize) :
    Evacuating cfg old toSpace
      (AssocMap.emplace v (FatPtr.ofAddr (cfg.base toSpace + (s.nexts toSpace + padding))) visited)
      (s.copied cfg toUpdate toSpace (s.nexts toSpace + padding) v data) := by
  have hpos := h.pos hdata
  have hold := h.old_of_findSpace hdata (findSpace_ne_of_flip hspace)
  have hfresh := h.lookup_fresh padding (by omega)
  have haddr : (FatPtr.ofAddr (cfg.base toSpace + (s.nexts toSpace + padding))).asPtr =
      cfg.base toSpace + (s.nexts toSpace + padding) := asPtr_ofAddr_base toSpace (by omega)
  have hnewSpace : findSpace cfg
      (FatPtr.ofAddr (cfg.base toSpace + (s.nexts toSpace + padding))).asPtr = some toSpace :=
    findSpace_ofAddr_base toSpace (by omega)
  have hlookup := fun q => State.lookup_copied v data toUpdate q hfresh
  have hapart := fun p d (hp : s.metadata.lookup p = some d) =>
    h.apart hp padding data.size (by omega)
  have hplaced := Placed.of_padding hpos hpadding hfit
  generalize hnew : FatPtr.ofAddr (cfg.base toSpace + (s.nexts toSpace + padding)) = newObj at *
  have hne : newObj ≠ v := by
    rintro rfl
    exact findSpace_ne_flip hnewSpace hspace
  have holdNe : ∀ {w d}, old.lookup w = some d → w ≠ newObj := by
    rintro w d hw rfl
    exact findSpace_ne_flip hnewSpace (h.settled.findSpace hw)
  have hmono : s.nexts toSpace ≤ s.nexts toSpace + padding + data.size := by omega
  refine
    { current := h.current
      fromNext := by rw [State.copied_nexts_flip, h.fromNext]
      settled := h.settled
      white := ?_
      black := ?_
      entry := ?_
      injective := ?_
      separated := ?_ }
  · intro w d hw hunvisited
    rw [AssocMap.lookup_emplace hvisited] at hunvisited
    split at hunvisited
    · cases hunvisited
    · rename_i hwv
      rw [hlookup, if_neg hwv, if_neg (holdNe hw)]
      exact h.white hw hunvisited
  · intro w w' hw
    rw [AssocMap.lookup_emplace hvisited] at hw
    rw [State.copied_nexts_self]
    split at hw
    · rename_i hwv
      cases hw
      rw [hwv]
      exact ⟨data, hold, by rw [hlookup, if_pos rfl], by rw [hlookup, if_neg hne, if_pos rfl],
        hplaced⟩
    · rename_i hwv
      obtain ⟨d, hwold, hgone, hcopy, hcopyPlaced⟩ := h.black hw
      have hw'v : w' ≠ v := by
        rintro rfl
        exact findSpace_ne_flip hcopyPlaced.findSpace hspace
      have hw'new : w' ≠ newObj := by
        rintro rfl
        exact h.visited_ne hfresh w hw
      refine ⟨d, hwold, ?_, ?_, hcopyPlaced.mono hmono⟩
      · rw [hlookup, if_neg hwv, if_neg (holdNe hwold), hgone]
      · rw [hlookup, if_neg hw'v, if_neg hw'new, hcopy]
  · intro q d hq
    rw [State.copied_nexts_self]
    rw [hlookup] at hq
    split at hq
    · cases hq
    · split at hq
      · rename_i hqnew
        cases hq
        rw [hqnew]
        exact Or.inl ⟨hplaced, v, by rw [AssocMap.lookup_emplace hvisited, if_pos rfl]⟩
      · rename_i hqv _
        exact (h.entry hq).imp (fun ⟨hqplaced, w, hw⟩ =>
          ⟨hqplaced.mono hmono, w, AssocMap.lookup_emplace_of_some hw⟩) id
  · exact AssocMap.injective_emplace h.injective (h.visited_ne hfresh)
  · rw [State.copied_metadata]
    refine (h.separated.emplace (hnew ▸ hfresh) fun p d hp => ?_).erase
    rw [hnew, haddr]
    exact hapart p d hp

/-- **One round keeps the invariant**, whichever outcome it has. -/
theorem iter_ok (hcopies : policy.Copies) (h : Evacuating cfg old toSpace visited s) {p : Nat}
    {stack : List Nat} {r : List Nat × Visited}
    (hrun : (forwardIter cfg policy toSpace p stack visited).run s = .ok r t) :
    Evacuating cfg old toSpace r.2 t := by
  have houtcome := forwardIter_outcome hcopies h p stack
  rw [hrun] at houtcome
  cases houtcome with
  | skip => exact h
  | update => exact h.with_mem _
  | forward v data slots padding hslot hvisited hdata hspace hscan hlength hpadding hfit =>
      exact h.forward p hvisited hdata hspace hpadding hfit

end Evacuating

@[simp]
theorem flipSpaces_nexts_self : (flipSpaces s).nexts s.spaceNum = 0 := Function.update_self _ _ _

@[simp]
theorem flipSpaces_nexts_flip : (flipSpaces s).nexts s.spaceNum.flip = s.nexts s.spaceNum.flip :=
  Function.update_of_ne (SpaceNum.flip_ne _) _ _

theorem Settled.evacuating (h : Settled cfg s.spaceNum s.metadata) :
    Evacuating cfg s.metadata s.spaceNum.flip ∅ (flipSpaces s) where
  current := rfl
  fromNext := by
    rw [SpaceNum.flip_flip, flipSpaces_nexts_self]
  settled := by
    rw [SpaceNum.flip_flip]
    exact h
  white := fun hold _ => hold
  black := fun hvisited => by cases hvisited
  entry := Or.inr
  injective := fun hvisited => by cases hvisited
  separated := h.separated

/-! ### The loop over the roots -/

section Roots

variable {root : Nat} {roots : List Nat} {s : State}

theorem run_forwardRoots_of_held {ptr : FatPtr} (hslot : testPtr s.mem root = some ptr)
    (hcontains : contains cfg ptr.asPtr = true) :
    (forwardRoots cfg policy toSpace (root :: roots) visited).run s =
      (forwardPtr cfg policy toSpace root visited >>=
        forwardRoots cfg policy toSpace roots).run s := by
  simp only [forwardRoots]
  rw [EStateM.run_bind, EStateM.run_get]
  dsimp only
  rw [hslot]
  dsimp only
  rw [if_pos hcontains]

theorem run_forwardRoots_of_not_held
    (hslot : ∀ ptr, testPtr s.mem root = some ptr → contains cfg ptr.asPtr = false) :
    (forwardRoots cfg policy toSpace (root :: roots) visited).run s =
      (forwardRoots cfg policy toSpace roots visited).run s := by
  simp only [forwardRoots]
  rw [EStateM.run_bind, EStateM.run_get]
  dsimp only
  cases hptr : testPtr s.mem root with
  | none => rfl
  | some ptr =>
      dsimp only
      rw [if_neg (by simp [hslot ptr hptr])]

/-- A root slot refers into the heap, or nothing is done for it. -/
theorem held_or_not (cfg : Config) (m : Memory) (root : Nat) :
    (∃ ptr, testPtr m root = some ptr ∧ contains cfg ptr.asPtr = true) ∨
      ∀ ptr, testPtr m root = some ptr → contains cfg ptr.asPtr = false := by
  by_cases h : ∃ ptr, testPtr m root = some ptr ∧ contains cfg ptr.asPtr = true
  · exact Or.inl h
  · right
    intro ptr hptr
    exact Bool.eq_false_iff.mpr fun hcontains => h ⟨ptr, hptr, hcontains⟩

section Rules

variable (P : Nat → Prop) (inv : List Nat → List Nat → Visited → State → Prop)
  (hstep : ∀ handled p stack visited s r t, inv handled (p :: stack) visited s →
    (forwardIter cfg policy toSpace p stack visited).run s = .ok r t → inv handled r.1 r.2 t)
  (hpush : ∀ handled visited s root ptr, inv handled [] visited s → P root →
    testPtr s.mem root = some ptr → contains cfg ptr.asPtr = true →
    inv (root :: handled) [root] visited s)
  (hskip : ∀ handled visited s root, inv handled [] visited s → P root →
    (∀ ptr, testPtr s.mem root = some ptr → contains cfg ptr.asPtr = false) →
    inv (root :: handled) [] visited s)

include hstep hpush hskip

/-- What every round keeps, and every root on its turn, the loop over the roots keeps. The first
argument of the invariant lists the roots whose turn has come. -/
theorem forwardRoots_ok (roots : List Nat) : ∀ handled visited s result t,
    (∀ root ∈ roots, P root) → inv handled [] visited s →
    (forwardRoots cfg policy toSpace roots visited).run s = .ok result t →
    inv (roots.reverse ++ handled) [] result t := by
  induction roots with
  | nil =>
      intro handled visited s result t _ hinv hrun
      cases hrun
      exact hinv
  | cons root roots ih =>
      intro handled visited s result t hroots hinv hrun
      obtain ⟨hroot, hrest⟩ := List.forall_mem_cons.mp hroots
      rw [List.reverse_cons, List.append_assoc, List.singleton_append]
      rcases held_or_not cfg s.mem root with ⟨ptr, hslot, hcontains⟩ | hslot
      · rw [run_forwardRoots_of_held hslot hcontains] at hrun
        obtain ⟨visited', u, hforward, hrun⟩ := run_bind_eq_ok.mp hrun
        have hpushed := hpush _ _ _ _ _ hinv hroot hslot hcontains
        have hforwarded := forwardLoop_ok (inv (root :: handled)) (hstep (root :: handled))
          _ _ _ _ _ _ hpushed hforward
        exact ih _ _ _ _ _ hrest hforwarded hrun
      · rw [run_forwardRoots_of_not_held hslot] at hrun
        exact ih _ _ _ _ _ hrest (hskip _ _ _ _ hinv hroot hslot) hrun

theorem forwardRoots_error (exn : Halt → State → Prop)
    (hthrow : ∀ handled p stack visited s e t, inv handled (p :: stack) visited s →
      (forwardIter cfg policy toSpace p stack visited).run s = .error e t → exn e t)
    (hrounds : ∀ handled stack visited s, inv handled stack visited s → exn .hang s)
    (roots : List Nat) : ∀ handled visited s e t,
      (∀ root ∈ roots, P root) → inv handled [] visited s →
      (forwardRoots cfg policy toSpace roots visited).run s = .error e t → exn e t := by
  induction roots with
  | nil =>
      intro handled visited s e t _ hinv hrun
      cases hrun
  | cons root roots ih =>
      intro handled visited s e t hroots hinv hrun
      obtain ⟨hroot, hrest⟩ := List.forall_mem_cons.mp hroots
      rcases held_or_not cfg s.mem root with ⟨ptr, hslot, hcontains⟩ | hslot
      · rw [run_forwardRoots_of_held hslot hcontains] at hrun
        have hpushed := hpush _ _ _ _ _ hinv hroot hslot hcontains
        rcases run_bind_eq_error.mp hrun with hforward | ⟨visited', u, hforward, hrun⟩
        · exact forwardLoop_error (inv (root :: handled)) exn (hstep (root :: handled))
            (hthrow (root :: handled)) (hrounds (root :: handled)) _ _ _ _ _ _ hpushed hforward
        · have hforwarded := forwardLoop_ok (inv (root :: handled)) (hstep (root :: handled))
            _ _ _ _ _ _ hpushed hforward
          exact ih _ _ _ _ _ hrest hforwarded hrun
      · rw [run_forwardRoots_of_not_held hslot] at hrun
        exact ih _ _ _ _ _ hrest (hskip _ _ _ _ hinv hroot hslot) hrun

end Rules

section Invariant

variable (inv : Visited → State → Prop)
  (hstep : ∀ {p stack visited s r t}, inv visited s →
    (forwardIter cfg policy toSpace p stack visited).run s = .ok r t → inv r.2 t)

include hstep

/-- An invariant that does not speak of the slots. -/
theorem forwardRoots_invariant {result : Visited} {t : State} (hinv : inv visited s)
    (hrun : (forwardRoots cfg policy toSpace roots visited).run s = .ok result t) : inv result t :=
  forwardRoots_ok (fun _ => True) (fun _ _ => inv)
    (fun _ _ _ _ _ _ _ hinv hiter => hstep hinv hiter) (fun _ _ _ _ _ hinv _ _ _ => hinv)
    (fun _ _ _ _ hinv _ _ => hinv) roots [] _ _ _ _ (fun _ _ => trivial) hinv hrun

theorem forwardRoots_throws (exn : Halt → State → Prop)
    (hthrow : ∀ {p stack visited s e t}, inv visited s →
      (forwardIter cfg policy toSpace p stack visited).run s = .error e t → exn e t)
    (hrounds : ∀ {visited s}, inv visited s → exn .hang s) {e : Halt} {t : State}
    (hinv : inv visited s)
    (hrun : (forwardRoots cfg policy toSpace roots visited).run s = .error e t) : exn e t :=
  forwardRoots_error (fun _ => True) (fun _ _ => inv)
    (fun _ _ _ _ _ _ _ hinv hiter => hstep hinv hiter) (fun _ _ _ _ _ hinv _ _ _ => hinv)
    (fun _ _ _ _ hinv _ _ => hinv) exn (fun _ _ _ _ _ _ _ hinv hiter => hthrow hinv hiter)
    (fun _ _ _ _ hinv => hrounds hinv) roots [] _ _ _ _ (fun _ _ => trivial) hinv hrun

end Invariant

theorem forwardRoots_total (inv : Visited → State → Prop)
    (hforward : ∀ root visited s, inv visited s → ∃ result t,
      (forwardPtr cfg policy toSpace root visited).run s = .ok result t ∧ inv result t)
    (roots : List Nat) : ∀ visited s, inv visited s → ∃ result t,
      (forwardRoots cfg policy toSpace roots visited).run s = .ok result t ∧ inv result t := by
  induction roots with
  | nil =>
      intro visited s hinv
      exact ⟨_, _, rfl, hinv⟩
  | cons root roots ih =>
      intro visited s hinv
      rcases held_or_not cfg s.mem root with ⟨ptr, hslot, hcontains⟩ | hslot
      · obtain ⟨result, t, hrun, hnext⟩ := hforward root visited s hinv
        rw [run_forwardRoots_of_held hslot hcontains, run_bind_of_ok hrun]
        exact ih result t hnext
      · rw [run_forwardRoots_of_not_held hslot]
        exact ih visited s hinv

end Roots

/-! ### The sweep -/

theorem run_sweepKeys {keys : List FatPtr}
    (hkeys : ∀ ptr ∈ keys, (findSpace cfg ptr.asPtr).isSome) :
    (sweepKeys cfg toSpace visited keys).run s =
      .ok (keys.filter fun ptr => findSpace cfg ptr.asPtr ≠ some toSpace ∧ ptr ∉ visited) s := by
  induction keys with
  | nil => rfl
  | cons ptr keys ih =>
      obtain ⟨space, hspace⟩ := Option.isSome_iff_exists.mp (hkeys ptr (by simp))
      rw [sweepKeys, run_bind_of_ok (run_getSpaceNum s hspace),
        run_bind_of_ok (ih fun q hq => hkeys q (by simp [hq]))]
      simp only [EStateM.run_pure, List.filter_cons, hspace, ne_eq, Option.some.injEq,
        decide_eq_true_eq]

def State.swept (cfg : Config) (toSpace : SpaceNum) (visited : Visited) (s : State) : State :=
  { s with
    metadata := AssocMap.eraseAll (s.metadata.keys.filter fun ptr =>
      findSpace cfg ptr.asPtr ≠ some toSpace ∧ ptr ∉ visited) s.metadata }

@[simp]
theorem State.swept_nexts : (s.swept cfg toSpace visited).nexts = s.nexts := rfl

@[simp]
theorem State.swept_spaceNum : (s.swept cfg toSpace visited).spaceNum = s.spaceNum := rfl

@[simp]
theorem State.swept_mem : (s.swept cfg toSpace visited).mem = s.mem := rfl

theorem run_sweep (h : ∀ ptr data, s.metadata.lookup ptr = some data →
      (findSpace cfg ptr.asPtr).isSome) :
    (sweep cfg toSpace visited).run s = .ok () (s.swept cfg toSpace visited) := by
  simp only [sweep]
  rw [EStateM.run_bind, EStateM.run_get]
  dsimp only
  rw [run_bind_of_ok (run_sweepKeys fun ptr hptr => ?_)]
  · rfl
  · obtain ⟨data, hdata⟩ := Option.isSome_iff_exists.mp (AList.lookup_isSome.mpr hptr)
    exact h ptr data hdata

theorem State.lookup_swept :
    (s.swept cfg toSpace visited).metadata.lookup ptr =
      if findSpace cfg ptr.asPtr ≠ some toSpace ∧ ptr ∉ visited then none
      else s.metadata.lookup ptr := by
  rw [swept, AssocMap.lookup_eraseAll]
  by_cases hkey : ptr ∈ s.metadata
  · simp [AList.mem_keys.mp hkey]
  · rw [AList.lookup_eq_none.mpr hkey]
    simp

/-- **After the sweep the map holds the copies and nothing else.** -/
theorem Evacuating.lookup_swept (h : Evacuating cfg old toSpace visited s) :
    (s.swept cfg toSpace visited).metadata.lookup ptr = some data ↔
      ∃ v, visited.lookup v = some ptr ∧ old.lookup v = some data := by
  rw [State.lookup_swept]
  constructor
  · intro hlookup
    split at hlookup
    · cases hlookup
    · rename_i hkept
      rcases h.entry hlookup with ⟨_, v, hv⟩ | hold
      · obtain ⟨d, hvold, _, hcopy, _⟩ := h.black hv
        rw [hcopy] at hlookup
        cases hlookup
        exact ⟨v, hv, hvold⟩
      · -- an old entry that the sweep keeps would have been forwarded
        exact absurd ⟨findSpace_ne_of_flip (h.settled.findSpace hold),
          AssocMap.notMem_of_lookup (h.unvisited hlookup)⟩ hkept
  · rintro ⟨v, hv, hvold⟩
    obtain ⟨d, hvold', _, hcopy, hplaced⟩ := h.black hv
    rw [hvold] at hvold'
    cases hvold'
    rw [if_neg fun hleft => hleft.1 hplaced.findSpace]
    exact hcopy

theorem Evacuating.run_sweep (h : Evacuating cfg old toSpace visited s) :
    (sweep cfg toSpace visited).run s = .ok () (s.swept cfg toSpace visited) := by
  refine Gcpp.run_sweep fun ptr data hdata => ?_
  rcases h.exists_findSpace hdata with hspace | hspace <;> rw [hspace] <;> rfl

/-! ### The whole task -/

theorem run_asyncCollect {gcRoots extraRoots : List Nat} :
    (asyncCollect cfg policy gcRoots extraRoots).run s =
      (collectionTask cfg policy s.spaceNum.flip gcRoots extraRoots).run (flipSpaces s) := rfl

theorem collectionTask_ok {gcRoots extraRoots : List Nat} {r : Visited × List FatPtr}
    (hinv : ∀ visited t, (forwardRoots cfg policy toSpace (gcRoots ++ extraRoots) ∅).run s
      = .ok visited t → Evacuating cfg old toSpace visited t)
    (hrun : (collectionTask cfg policy toSpace gcRoots extraRoots).run s = .ok r t) :
    ∃ u, (forwardRoots cfg policy toSpace (gcRoots ++ extraRoots) ∅).run s = .ok r.1 u ∧
      t = u.swept cfg toSpace r.1 ∧ r.2 = [] := by
  rw [collectionTask] at hrun
  obtain ⟨visited, u, hforward, hrun⟩ := run_bind_eq_ok.mp hrun
  rw [run_bind_of_ok (hinv visited u hforward).run_sweep] at hrun
  cases hrun
  exact ⟨u, hforward, rfl, rfl⟩

theorem collectionTask_error {gcRoots extraRoots : List Nat} {e : Halt}
    (hinv : ∀ visited t, (forwardRoots cfg policy toSpace (gcRoots ++ extraRoots) ∅).run s
      = .ok visited t → Evacuating cfg old toSpace visited t)
    (hrun : (collectionTask cfg policy toSpace gcRoots extraRoots).run s = .error e t) :
    (forwardRoots cfg policy toSpace (gcRoots ++ extraRoots) ∅).run s = .error e t := by
  rw [collectionTask] at hrun
  rcases run_bind_eq_error.mp hrun with hforward | ⟨visited, u, hforward, hrun⟩
  · exact hforward
  · rw [run_bind_of_ok (hinv visited u hforward).run_sweep] at hrun
    cases hrun

end Gcpp
