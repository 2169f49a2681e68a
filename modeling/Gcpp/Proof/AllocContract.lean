import Gcpp.Proof.HeapInvariant

/-!
# Allocation under pressure

The header documents that an allocation which fails collects and tries again. The overlap check
stands between the failed reservation and the retry, and unwraps the missing index as soon as there
is an object to compare with; and a space is never full without one.
-/

namespace Gcpp

open ByteMemory StateExcept

variable {cfg : Config} {policy : GenPolicy} {s : State} {gcRoots : List Nat}
  {size alignment : Nat}

/-- The documented behaviour of one call: it returns if the request is allowed and fits now or after
the collection, and throws `std::bad_alloc` otherwise. -/
structure AllocContract (cfg : Config) (policy : GenPolicy) (gcRoots : List Nat)
    (size alignment : Nat) (s : State) : Prop where
  returns : (∃ ptr t, (alloc cfg policy gcRoots size alignment).run s = .ok ptr t) ↔
    (1 ≤ size ∧ size ≤ cfg.maxAllocSize) ∧ (Fits cfg s size alignment ∨
      Fits cfg (finalState ((asyncCollect cfg policy gcRoots []).run s)) size alignment)
  throws : ¬ ((1 ≤ size ∧ size ≤ cfg.maxAllocSize) ∧ (Fits cfg s size alignment ∨
      Fits cfg (finalState ((asyncCollect cfg policy gcRoots []).run s)) size alignment)) →
    ∃ t, (alloc cfg policy gcRoots size alignment).run s = .error .badAlloc t

/-- A call that throws anything else breaks the contract. -/
theorem AllocContract.not_of_badOptionalAccess {t : State}
    (hrun : (alloc cfg policy gcRoots size alignment).run s = .error .badOptionalAccess t) :
    ¬ AllocContract cfg policy gcRoots size alignment s := by
  intro hcontract
  have hthrows : ¬ ∃ u, (alloc cfg policy gcRoots size alignment).run s = .error .badAlloc u := by
    rintro ⟨u, hbad⟩
    rw [hrun] at hbad
    cases hbad
  obtain ⟨ptr, u, hok⟩ := hcontract.returns.mpr (not_not.mp (mt hcontract.throws hthrows))
  rw [hrun] at hok
  cases hok

/-- **The contract holds of the calls that need no collection**, and of no other. -/
theorem allocContract_iff (hcopies : policy.Copies)
    (h : HeapReachable cfg policy (fun _ alignment => SmallAlignment alignment) s) (mem : Memory)
    (gcRoots : List Nat) (size : Nat) (hsmall : SmallAlignment alignment) :
    AllocContract cfg policy gcRoots size alignment { s with mem } ↔
      size = 0 ∨ size > cfg.maxAllocSize ∨ Fits cfg s size alignment := by
  have hinv := (h.heapInv hcopies fun _ _ hsmall => hsmall).with_mem mem
  rcases run_alloc_cases hinv policy gcRoots size hsmall with
    ⟨hrefused, hrun⟩ | ⟨hsize, hfull, hrun⟩ | ⟨hsize, padding, _, hdvd, hfit, hrun⟩
  · refine iff_of_true ⟨⟨?_, ?_⟩, fun _ => ⟨_, hrun⟩⟩ (by omega)
    · rintro ⟨ptr, t, hok⟩
      rw [hrun] at hok
      cases hok
    · rintro ⟨hsize, _⟩
      omega
  · refine iff_of_false (AllocContract.not_of_badOptionalAccess hrun) ?_
    rintro (hzero | hlarge | hfits)
    · omega
    · omega
    · exact hfull hfits
  · -- the call returns, and could not have returned without room
    have hfits : Fits cfg s size alignment := by
      by_contra hfull
      have hthrown := run_alloc_of_not_fits hinv policy gcRoots hsmall hsize.1 hsize.2 hfull
      rw [hrun] at hthrown
      cases hthrown
    exact iff_of_true
      ⟨⟨fun _ => ⟨⟨hsize.1, hsize.2⟩, Or.inl hfits⟩, fun _ => ⟨_, _, hrun⟩⟩,
        fun hnot => absurd ⟨⟨hsize.1, hsize.2⟩, Or.inl hfits⟩ hnot⟩
      (Or.inr (Or.inr hfits))

theorem allocContract_iff_one_object :
    AllocContract Config.sample GenPolicy.copying [1024] 64 8 State.oneObject ↔
      64 = 0 ∨ 64 > Config.sample.maxAllocSize ∨
        Fits Config.sample (finalState ((alloc Config.sample GenPolicy.copying [] 64 8).run
          (State.initial fun _ => 0))) 64 8 :=
  allocContract_iff GenPolicy.copying_copies
    ⟨fun _ => 0, .tail .refl (.alloc _ (fun _ => 0) [] 64 8 ⟨3, by decide, rfl⟩)⟩ _ [1024] 64
    ⟨3, by decide, rfl⟩

/-- Garbage fills the space: one object of the largest size, in no root. A collection makes room for
a single byte, but the call for it throws `std::bad_optional_access`. -/
theorem alloc_full_of_garbage :
    ∃ s, HeapReachable Config.sample GenPolicy.copying (fun _ a => SmallAlignment a) s ∧
      Fits Config.sample
        (finalState ((asyncCollect Config.sample GenPolicy.copying [] []).run s)) 1 1 ∧
      (alloc Config.sample GenPolicy.copying [] 1 1).run s = .error .badOptionalAccess s ∧
      ¬ AllocContract Config.sample GenPolicy.copying [] 1 1 s := by
  have hone : SmallAlignment 1 := ⟨0, by decide, rfl⟩
  have hfirst := run_alloc_of_fits (HeapInv.initial Config.sample fun _ => 0) .copying []
    (show 0 < 4096 by decide) (by decide) (calcAlignmentBytes_of_dvd hone (one_dvd _)) (by decide)
  have hreach : HeapReachable Config.sample GenPolicy.copying (fun _ a => SmallAlignment a)
      ((State.initial fun _ => 0).allocated Config.sample 4096 1 0) := by
    refine ⟨fun _ => 0, .tail .refl ?_⟩
    have hstep : HeapStep Config.sample .copying (fun _ a => SmallAlignment a) _ _ :=
      .alloc (State.initial fun _ => 0) (fun _ => 0) [] 4096 1 hone
    rwa [show ({ State.initial (fun _ => 0) with mem := fun _ => 0 } : State)
      = State.initial fun _ => 0 from rfl, hfirst] at hstep
  have hinv := hreach.heapInv GenPolicy.copying_copies fun _ _ hsmall => hsmall
  have hfull : ¬ Fits Config.sample
      ((State.initial fun _ => 0).allocated Config.sample 4096 1 0) 1 1 := by
    rintro ⟨padding, _, hfit⟩
    rw [State.allocated_spaceNum, State.allocated_nexts_self] at hfit
    change 0 + 4096 + 0 + 1 + padding ≤ 4096 at hfit
    omega
  have hrun := run_alloc_of_not_fits hinv .copying [] hone (by decide) (by decide) hfull
  refine ⟨_, hreach, ?_, hrun, AllocContract.not_of_badOptionalAccess hrun⟩
  have hcollect : (asyncCollect Config.sample GenPolicy.copying [] []).run
      ((State.initial fun _ => 0).allocated Config.sample 4096 1 0) = .ok _ _ :=
    run_bind_of_ok (f := fun _ => pure (∅, [])) hinv.settled.evacuating.run_sweep
  rw [hcollect]
  exact fits_of_empty hinv.otherNext hone (by decide)

end Gcpp
