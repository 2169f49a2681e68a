import Gcpp.Proof.Collection

/-!
# Promotion

A collection promises to hand over the objects that are due for promotion and to remove them from
the heap. `forward_ptr` asks the policy and then takes the wrong branch, and nothing is put into the
vector, so the promise is kept only when there is nothing to be traced.
-/

namespace Gcpp

open ByteMemory StateExcept Tracing

variable {cfg : Config} {policy : GenPolicy} {toSpace : SpaceNum} {visited : Visited} {s t : State}
  {gcRoots extraRoots : List Nat} {r : Visited × List FatPtr} {v q : FatPtr} {data : MetaData}

/-- What the collector interface promises about a collection from `s` in `t`, for a policy whose
`promote` returns the new address of the object. -/
structure PromotionContract (cfg : Config) (policy : GenPolicy) (roots : List Nat) (s t : State)
    (r : Visited × List FatPtr) : Prop where
  promoted_iff : ∀ v, v ∈ r.2 ↔
    Reachable s.mem s.metadata roots v ∧ policy.needPromotion v = true
  removed : ∀ v, Reachable s.mem s.metadata roots v → policy.needPromotion v = true →
    v ∉ t.metadata ∧ ∀ v', r.1.lookup v = some v' → v' ∉ t.metadata
  copied : ∀ v data, Reachable s.mem s.metadata roots v → policy.needPromotion v = false →
    s.metadata.lookup v = some data → ∃ v', r.1.lookup v = some v' ∧
      findSpace cfg v'.asPtr = some s.spaceNum.flip ∧ t.metadata.lookup v' = some data
  updated : ∀ root ∈ roots, ∀ v data, testPtr s.mem root = some v →
    s.metadata.lookup v = some data → policy.needPromotion v = true →
      testPtr t.mem root = some (policy.promote v data)

/-! ### The branch on `need_promotion` -/

/-- The object is copied if it is due for promotion, and handed to `promote` if it is not. -/
structure Inverted (policy : GenPolicy) (old : AssocMap FatPtr MetaData) (visited : Visited)
    (s : State) : Prop where
  answer : ∀ {v v'}, visited.lookup v = some v' → policy.needPromotion v = false →
    ∃ data, v' = policy.promote v data
  registered : ∀ {v data}, old.lookup v = some data → policy.needPromotion v = false →
    s.metadata.lookup v = some data

/-- A copy drops no other object. -/
theorem lookup_of_copy {toUpdate : Nat} {ptr newObj : FatPtr}
    (hrun : (copy cfg toUpdate toSpace ptr).run s = .ok newObj t) (hne : q ≠ ptr)
    (hq : s.metadata.lookup q = some data) : t.metadata.lookup q = some data := by
  rw [copy] at hrun
  obtain ⟨space, _, hspace, hmoved⟩ := run_bind_eq_ok.mp hrun
  obtain rfl := (state_of_getSpaceNum hspace).symm
  split at hmoved
  · cases hmoved
    exact hq
  · obtain ⟨oldData, _, hold, hreserved⟩ := run_bind_eq_ok.mp hmoved
    obtain rfl := (state_of_metadataAt hold).symm
    obtain ⟨index, u, hreserve, hchecked⟩ := run_bind_eq_ok.mp hreserved
    obtain ⟨_, _, hcheck, hplaced⟩ := run_bind_eq_ok.mp hchecked
    obtain rfl := (state_of_checkOverlappingAlloc hcheck).symm
    rw [← metadata_of_reserveSpace hreserve] at hq
    cases index with
    | none => cases hplaced
    | some index =>
        obtain ⟨_, w, halloc, hfinal⟩ := run_bind_eq_ok.mp hplaced
        cases hfinal
        change AList.lookup q (w.metadata.erase ptr) = some data
        rw [AList.lookup_erase_ne hne, metadata_of_allocNoConstraints halloc]
        exact AssocMap.lookup_emplace_of_some hq

/-- A round leaves the maps alone, or it has put an object into one of the two branches. -/
theorem forwardIter_cases {p : Nat} {stack : List Nat} {next : List Nat × Visited}
    (hrun : (forwardIter cfg policy toSpace p stack visited).run s = .ok next t) :
    (next.2 = visited ∧ t.metadata = s.metadata) ∨
      ∃ v data newPtr, visited.lookup v = none ∧ s.metadata.lookup v = some data ∧
        next.2 = AssocMap.emplace v newPtr visited ∧
        ((policy.needPromotion v = true ∧ (copy cfg p toSpace v).run s = .ok newPtr t) ∨
          (policy.needPromotion v = false ∧ newPtr = policy.promote v data ∧ t = s)) := by
  have hround := forwardIter_round cfg policy toSpace p stack visited s
  rw [hrun] at hround
  cases hround with
  | empty _ hresult =>
      cases hresult
      exact Or.inl ⟨rfl, rfl⟩
  | update _ _ _ _ hresult =>
      cases hresult
      exact Or.inl ⟨rfl, rfl⟩
  | unmanaged _ _ _ _ hresult =>
      cases hresult
      exact Or.inl ⟨rfl, rfl⟩
  | outside _ _ _ _ _ hresult => cases hresult
  | moved _ _ _ _ _ _ hresult =>
      cases hresult
      exact Or.inl ⟨rfl, rfl⟩
  | endless _ _ _ _ hresult => cases hresult
  | found v data space slots _ hvisited hdata _ _ _ hresult =>
      right
      obtain ⟨newPtr, _, hanswer, hfinal⟩ := run_bind_eq_ok.mp hresult.symm
      cases hfinal
      refine ⟨v, data, newPtr, hvisited, hdata, rfl, ?_⟩
      cases hneed : policy.needPromotion v with
      | true =>
          rw [hneed, if_pos rfl] at hanswer
          exact Or.inl ⟨rfl, hanswer⟩
      | false =>
          rw [hneed, if_neg Bool.false_ne_true] at hanswer
          cases hanswer
          exact Or.inr ⟨rfl, rfl, rfl⟩

namespace Inverted

variable {old : AssocMap FatPtr MetaData}

theorem start (s : State) : Inverted policy s.metadata ∅ (flipSpaces s) where
  answer := nofun
  registered := fun hdata _ => hdata

/-- **Every round takes the wrong branch.** -/
theorem iter (h : Inverted policy old visited s) {p : Nat} {stack : List Nat}
    {next : List Nat × Visited}
    (hrun : (forwardIter cfg policy toSpace p stack visited).run s = .ok next t) :
    Inverted policy old next.2 t := by
  rcases forwardIter_cases hrun with ⟨hnext, hmetadata⟩ |
    ⟨v, data, newPtr, hvisited, hdata, hnext, hbranch⟩
  · refine { answer := ?_, registered := ?_ }
    · rw [hnext]
      exact h.answer
    · rw [hmetadata]
      exact h.registered
  · rw [hnext]
    refine { answer := fun {w w'} hw hneed => ?_, registered := fun {w d} hw hneed => ?_ }
    · rw [AssocMap.lookup_emplace hvisited] at hw
      split at hw
      · rename_i heq
        subst heq
        cases hw
        rcases hbranch with ⟨hneeded, _⟩ | ⟨_, hanswer, _⟩
        · rw [hneeded] at hneed
          cases hneed
        · exact ⟨data, hanswer⟩
      · exact h.answer hw hneed
    · have hold := h.registered hw hneed
      rcases hbranch with ⟨hneeded, hcopy⟩ | ⟨_, _, rfl⟩
      · refine lookup_of_copy hcopy ?_ hold
        rintro rfl
        rw [hneeded] at hneed
        cases hneed
      · exact hold

/-- So does the whole task. -/
theorem task {roots : List Nat}
    (hrun : (forwardRoots cfg policy toSpace roots ∅).run (flipSpaces s) = .ok visited t) :
    Inverted policy s.metadata visited t :=
  forwardRoots_invariant (Inverted policy s.metadata) (fun h hiter => h.iter hiter) (start s) hrun

end Inverted

/-! ### The promise -/

theorem asyncCollect_ok (hrun : (asyncCollect cfg policy gcRoots extraRoots).run s = .ok r t) :
    ∃ u, (forwardRoots cfg policy s.spaceNum.flip (gcRoots ++ extraRoots) ∅).run (flipSpaces s) =
        .ok r.1 u ∧ (sweep cfg s.spaceNum.flip r.1).run u = .ok () t ∧ r.2 = [] := by
  rw [run_asyncCollect, collectionTask] at hrun
  obtain ⟨visited, u, hforward, hswept⟩ := run_bind_eq_ok.mp hrun
  obtain ⟨_, w, hsweep, hfinal⟩ := run_bind_eq_ok.mp hswept
  cases hfinal
  exact ⟨u, hforward, hsweep, rfl⟩

theorem keys_of_sweepKeys {keys removed : List FatPtr}
    (hrun : (sweepKeys cfg toSpace visited keys).run s = .ok removed t) :
    t = s ∧ ∀ ptr ∈ removed, ptr ∉ visited := by
  induction keys generalizing removed t with
  | nil =>
      cases hrun
      exact ⟨rfl, nofun⟩
  | cons ptr keys ih =>
      rw [sweepKeys] at hrun
      obtain ⟨space, _, hspace, hrest⟩ := run_bind_eq_ok.mp hrun
      obtain rfl := (state_of_getSpaceNum hspace).symm
      obtain ⟨others, w, hothers, hfinal⟩ := run_bind_eq_ok.mp hrest
      obtain ⟨rfl, hkept⟩ := ih hothers
      rw [EStateM.run_pure] at hfinal
      cases hfinal
      refine ⟨rfl, fun q hq => ?_⟩
      split at hq
      · rename_i hremove
        rcases List.mem_cons.mp hq with rfl | hq
        · exact hremove.2
        · exact hkept q hq
      · exact hkept q hq

/-- **What `promote` was called for stays registered** under its old address. -/
theorem promoted_stays (hrun : (asyncCollect cfg policy gcRoots extraRoots).run s = .ok r t)
    (hvisited : v ∈ r.1) (hneed : policy.needPromotion v = false)
    (hdata : s.metadata.lookup v = some data) :
    t.metadata.lookup v = some data ∧ ∃ d, r.1.lookup v = some (policy.promote v d) := by
  obtain ⟨u, hforward, hsweep, _⟩ := asyncCollect_ok hrun
  have hinverted := Inverted.task hforward
  obtain ⟨v', hv'⟩ := Option.isSome_iff_exists.mp (AList.lookup_isSome.mpr hvisited)
  obtain ⟨d, rfl⟩ := hinverted.answer hv' hneed
  refine ⟨?_, d, hv'⟩
  rw [sweep] at hsweep
  obtain ⟨w, _, hget, hremove⟩ := run_bind_eq_ok.mp hsweep
  rw [EStateM.run_get] at hget
  cases hget
  obtain ⟨removed, _, hkeys, hfinal⟩ := run_bind_eq_ok.mp hremove
  obtain ⟨rfl, hkept⟩ := keys_of_sweepKeys hkeys
  cases hfinal
  change (AssocMap.eraseAll removed _).lookup v = some data
  rw [AssocMap.lookup_eraseAll, if_neg fun hmem => hkept v hmem hvisited]
  exact hinverted.registered hdata hneed

theorem Reachable.exists_root {m : Memory} {metadata : AssocMap FatPtr MetaData} {roots : List Nat}
    (h : Reachable m metadata roots v) :
    ∃ root ∈ roots, ∃ w, testPtr m root = some w ∧ w ∈ metadata := by
  induction h with
  | root hroot htarget => exact ⟨_, hroot, _, htarget.1, htarget.2⟩
  | field _ _ _ ih => exact ih

/-- **The promise is kept only when nothing is reachable.** -/
theorem promotionContract_iff
    (houtside : ∀ v data, findSpace cfg (policy.promote v data).asPtr = none)
    (hrun : (asyncCollect cfg policy gcRoots extraRoots).run s = .ok r t) :
    PromotionContract cfg policy (gcRoots ++ extraRoots) s t r ↔
      ∀ root ∈ gcRoots ++ extraRoots, ∀ v, testPtr s.mem root = some v → v ∉ s.metadata := by
  obtain ⟨u, hforward, _, hpromoted⟩ := asyncCollect_ok hrun
  constructor
  · intro hcontract root hroot v hv hmem
    have hreach : Reachable s.mem s.metadata (gcRoots ++ extraRoots) v := .root hroot ⟨hv, hmem⟩
    cases hneed : policy.needPromotion v with
    | true =>
        have hlisted := (hcontract.promoted_iff v).mpr ⟨hreach, hneed⟩
        rw [hpromoted] at hlisted
        cases hlisted
    | false =>
        obtain ⟨data, hdata⟩ := Option.isSome_iff_exists.mp (AList.lookup_isSome.mpr hmem)
        obtain ⟨v', hvisited, hspace, _⟩ := hcontract.copied v data hreach hneed hdata
        obtain ⟨data', rfl⟩ := (Inverted.task hforward).answer hvisited hneed
        rw [houtside] at hspace
        cases hspace
  · intro hnone
    have hunreachable : ∀ v, ¬ Reachable s.mem s.metadata (gcRoots ++ extraRoots) v := by
      intro v hreach
      obtain ⟨root, hroot, w, hw, hmem⟩ := hreach.exists_root
      exact hnone root hroot w hw hmem
    exact
      { promoted_iff := fun v => by
          rw [hpromoted]
          exact iff_of_false List.not_mem_nil fun h => hunreachable v h.1
        removed := fun v hreach => absurd hreach (hunreachable v)
        copied := fun v data hreach => absurd hreach (hunreachable v)
        updated := fun root hroot v data hv hdata =>
          absurd (AssocMap.mem_of_lookup hdata) (hnone root hroot v hv) }

/-- Every object is due, and moves to an address outside of the spaces. -/
def GenPolicy.tenuring : GenPolicy where
  needPromotion := fun _ => true
  promote := fun _ _ => FatPtr.ofAddr 4096

theorem GenPolicy.tenuring_copies : GenPolicy.tenuring.Copies := fun _ => rfl

theorem GenPolicy.tenuring_outside (v : FatPtr) (data : MetaData) :
    findSpace Config.sample (GenPolicy.tenuring.promote v data).asPtr = none := by
  change findSpace Config.sample (FatPtr.ofAddr 4096).asPtr = none
  decide

theorem promotionContract_iff_sample :
    ∃ r t, (asyncCollect Config.sample GenPolicy.tenuring [1024] []).run State.sample = .ok r t ∧
      (PromotionContract Config.sample GenPolicy.tenuring [1024] State.sample t r ↔
        ∀ root ∈ [1024], ∀ v, testPtr State.sample.mem root = some v →
          v ∉ State.sample.metadata) := by
  obtain ⟨r, t, hrun, _⟩ :=
    State.sample_accounted.collect_total GenPolicy.tenuring_copies [1024] []
  exact ⟨r, t, hrun, promotionContract_iff GenPolicy.tenuring_outside hrun⟩

/-- **An object that is due for promotion is copied instead**, and not handed over. -/
theorem due_object_not_promoted :
    ¬ ∀ (cfg : Config) (policy : GenPolicy) (gcRoots extraRoots : List Nat) (s t : State)
      (r : Visited × List FatPtr),
      (∀ v data, findSpace cfg (policy.promote v data).asPtr = none) →
      (asyncCollect cfg policy gcRoots extraRoots).run s = .ok r t →
        PromotionContract cfg policy (gcRoots ++ extraRoots) s t r := by
  intro h
  obtain ⟨r, t, hrun, _⟩ :=
    State.sample_accounted.collect_total GenPolicy.tenuring_copies [1024] []
  have hcontract := h _ _ _ _ _ _ _ GenPolicy.tenuring_outside hrun
  have hroot : testPtr State.sample.mem 1024 = some (FatPtr.ofAddr 65536) :=
    testPtr_writeFatPtr_self
  have hdata : State.sample.metadata.lookup (FatPtr.ofAddr 65536) = some ⟨40, 8⟩ := by decide
  have hreach : Reachable State.sample.mem State.sample.metadata ([1024] ++ [])
      (FatPtr.ofAddr 65536) :=
    .root (List.mem_singleton_self 1024) ⟨hroot, AssocMap.mem_of_lookup hdata⟩
  have hlisted := (hcontract.promoted_iff _).mpr ⟨hreach, rfl⟩
  obtain ⟨_, _, _, hpromoted⟩ := asyncCollect_ok hrun
  rw [hpromoted] at hlisted
  cases hlisted

end Gcpp
