import Gcpp.MemProt

/-!
# Move assignment of protections

The operator leaves its work to `std::swap`, which assigns by moving as well. Each call makes
another one before anything has been assigned, so the calls are nested without end.
-/

namespace Gcpp

variable {pageSize top this other : Nat} {s t : Regions}

/-! ### Nested calls -/

theorem object_eq {id : Nat} {o : RegionProtection} (h : s.objects id = some o) :
    s.object id = .ok o := by
  rw [Regions.object, h]

theorem except_bind_eq_ok {ε α β : Type} {x : Except ε α} {f : α → Except ε β} {b : β} :
    x >>= f = .ok b ↔ ∃ a, x = .ok a ∧ f a = .ok b := by
  cases x with
  | error e => simp [bind, Except.bind]
  | ok a => simp [bind, Except.bind]

theorem moveConstruct_alive {dst src id : Nat} {o : RegionProtection}
    (h : id = dst ∨ id = src ∨ s.objects id ≠ none) :
    (s.moveConstruct dst src o).objects id ≠ none := by
  rw [Regions.moveConstruct, Regions.setObject, Regions.setObject]
  by_cases hsrc : id = src
  · simp [hsrc]
  · dsimp only
    rw [Function.update_of_ne hsrc]
    by_cases hdst : id = dst
    · simp [hdst]
    · rw [Function.update_of_ne hdst]
      exact (h.resolve_left hdst).resolve_left hsrc

/-- A call for objects that are alive makes another such call, and does not get past it if it
fails. -/
theorem moveAssign_recurses (hthis : s.objects this ≠ none) (hother : s.objects other ≠ none) :
    ∃ s' : Regions, s'.objects this ≠ none ∧ s'.objects top ≠ none ∧
      ∀ depth e, s'.moveAssign pageSize depth (top + 2) this top = .error e →
        s.moveAssign pageSize (depth + 1) top this other = .error e := by
  obtain ⟨moved, hmoved⟩ := Option.ne_none_iff_exists'.mp hother
  have hkept : (s.moveConstruct top other moved).objects this ≠ none :=
    moveConstruct_alive (Or.inr (Or.inr hthis))
  obtain ⟨old, hold⟩ := Option.ne_none_iff_exists'.mp hkept
  refine ⟨(s.moveConstruct top other moved).moveConstruct (top + 1) this old,
    moveConstruct_alive (Or.inr (Or.inl rfl)),
    moveConstruct_alive (Or.inr (Or.inr (moveConstruct_alive (Or.inl rfl)))), ?_⟩
  intro depth e hnested
  rw [Regions.moveAssign, object_eq hmoved]
  simp only [bind, Except.bind, Regions.swap, object_eq hold]
  rw [hnested]

/-- However deep the calls may be nested, a move assignment of objects that are alive exceeds it. -/
theorem moveAssign_tooDeep (depth : Nat) : ∀ {top this other : Nat} {s : Regions},
    s.objects this ≠ none → s.objects other ≠ none →
      s.moveAssign pageSize depth top this other = .error .tooDeep := by
  induction depth with
  | zero =>
      intro top this other s _ _
      rfl
  | succ depth ih =>
      intro top this other s hthis hother
      obtain ⟨s', hthis', htop, hnested⟩ := moveAssign_recurses hthis hother
      exact hnested depth _ (ih hthis' htop)

/-- A move assignment never returns, whatever it is called for. -/
theorem moveAssign_ne_ok (depth : Nat) : ∀ (top this other : Nat) (s t : Regions),
    s.moveAssign pageSize depth top this other ≠ .ok t := by
  induction depth with
  | zero =>
      intro top this other s t h
      cases h
  | succ depth ih =>
      intro top this other s t h
      rw [Regions.moveAssign] at h
      obtain ⟨moved, _, h⟩ := except_bind_eq_ok.mp h
      obtain ⟨swapped, hswap, _⟩ := except_bind_eq_ok.mp h
      rw [Regions.swap] at hswap
      obtain ⟨old, _, hswap⟩ := except_bind_eq_ok.mp hswap
      obtain ⟨assigned, hnested, _⟩ := except_bind_eq_ok.mp hswap
      exact ih _ _ _ _ _ hnested

/-! ### What is promised -/

/-- What `this = std::move(other)` is for: `this` takes over all that `other` has been, `other` is
left empty and unlocked, and the only call of `mprotect` gives the old region of `this` back, if it
has been locked. -/
structure MoveAssigned (s t : Regions) (this other : Nat) : Prop where
  assigned : t.objects this = s.objects other
  emptied : t.objects other =
    (s.objects other).map fun o => { o with locked := false, regionStart := 0 }
  unlocked : ∀ o, s.objects this = some o → t.calls = s.calls ++
    if o.locked then [{ start := o.regionStart, size := o.regionSize, mode := o.oldProt }] else []

/-- **Move assignment never does what it is for.** -/
theorem moveAssign_fails (pageSize top this other : Nat) (s : Regions) :
    ¬ ∃ depth t, s.moveAssign pageSize depth top this other = .ok t ∧
      MoveAssigned s t this other := by
  rintro ⟨depth, t, hreturns, _⟩
  exact moveAssign_ne_ok depth top this other s t hreturns

/-- Two locked objects, of one page each. -/
def twoLocked : Regions :=
  (Regions.initial.regionReadonly 4096 0 4096 16).regionWriteonly 4096 1 8192 16

/-- Assigning the second object to the first does not return. -/
theorem moveAssign_hangs :
    ¬ ∀ (s : Regions) (top this other : Nat), this ≠ other → s.objects this ≠ none →
      s.objects other ≠ none → (∀ id, top ≤ id → s.objects id = none) →
        ∃ depth t, s.moveAssign 4096 depth top this other = .ok t ∧
          MoveAssigned s t this other := by
  intro h
  have hfree : ∀ id, 2 ≤ id → twoLocked.objects id = none := by
    intro id hid
    have hfirst : id ≠ 0 := by omega
    have hsecond : id ≠ 1 := by omega
    simp [twoLocked, Regions.regionReadonly, Regions.regionWriteonly, Regions.construct,
      Regions.lockObject, Regions.mprotect, Regions.setObject, Regions.initial, pageAlignedFloor,
      hfirst, hsecond]
  obtain ⟨depth, t, hreturns, _⟩ :=
    h twoLocked 2 0 1 (by decide) (by decide) (by decide) hfree
  exact moveAssign_ne_ok depth 2 0 1 twoLocked t hreturns

end Gcpp
