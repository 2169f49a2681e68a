import Gcpp.ThreadLife
import Gcpp.Proof.StackRanges

/-!
# The ranges of threads that have exited

As long as every thread that has a range stays alive, a scan goes over the stacks of living threads
only. Nothing removes a range, so one that is left behind is scanned from then on, and its start is
handed on to the next thread with the same id.
-/

namespace Gcpp

variable {s t : Registry} {id : ThreadId}

/-- A range that a thread has reported. -/
def LiveThread.Reports (thread : LiveThread) (stackStart stackEnd : Nat) : Prop :=
  thread.stack.lo + redZoneSize ≤ stackEnd ∧ stackStart < thread.stack.hi ∧
    stackStart ∈ thread.passed

/-- The ranges are sound, and a thread that is about to insert one has none. -/
structure LifeInv (s : Registry) : Prop where
  sound : s.RangesSound
  inserting : ∀ id thread basePtr sp roots, s.live id = some thread →
    thread.pc = .insert basePtr sp roots →
      s.ranges.lookup id = none ∧ thread.stack.Holds basePtr sp ∧ basePtr ∈ thread.passed

theorem LifeInv.empty : LifeInv .empty where
  sound := by
    intro id stackStart stackEnd hrange
    cases hrange
  inserting := by
    intro id thread basePtr sp roots hlive
    cases hlive

/-- A step of one thread, which touches no range but its own. -/
theorem LifeInv.setThread (h : LifeInv s) (ranges : StackRanges) {thread : Option LiveThread}
    (hother : ∀ other, other ≠ id → ranges.lookup other = s.ranges.lookup other)
    (hown : ∀ stackStart stackEnd, ranges.lookup id = some (stackStart, stackEnd) →
      ∃ th, thread = some th ∧ th.Reports stackStart stackEnd)
    (hinserting : ∀ th basePtr sp roots, thread = some th → th.pc = .insert basePtr sp roots →
      ranges.lookup id = none ∧ th.stack.Holds basePtr sp ∧ basePtr ∈ th.passed) :
    LifeInv ({ s with ranges }.setThread id thread) where
  sound := by
    intro other stackStart stackEnd hrange
    change ranges.lookup other = _ at hrange
    change ∃ th, Function.update s.live id thread other = some th ∧ _
    by_cases hid : other = id
    · subst hid
      rw [Function.update_self]
      exact hown stackStart stackEnd hrange
    · rw [Function.update_of_ne hid]
      exact h.sound other stackStart stackEnd ((hother other hid).symm.trans hrange)
  inserting := by
    intro other th basePtr sp roots hlive hpc
    change Function.update s.live id thread other = some th at hlive
    change ranges.lookup other = none ∧ _
    by_cases hid : other = id
    · subst hid
      rw [Function.update_self] at hlive
      exact hinserting th basePtr sp roots hlive hpc
    · rw [Function.update_of_ne hid] at hlive
      rw [hother other hid]
      exact h.inserting other th basePtr sp roots hlive hpc

theorem afterUpdate_ne_insert (roots : Bool) {basePtr sp : Nat} {roots' : Bool} :
    Registry.afterUpdate roots ≠ .insert basePtr sp roots' := by
  cases roots <;> exact nofun

theorem LifeInv.enter (h : LifeInv s) {thread : LiveThread} (hlive : s.live id = some thread)
    {basePtr sp : Nat} (hholds : thread.stack.Holds basePtr sp) (roots : Bool) :
    LifeInv (s.enter id thread basePtr sp roots) := by
  rw [Registry.enter]
  cases hrange : s.ranges.lookup id with
  | some range =>
      obtain ⟨stackStart, stackEnd⟩ := range
      obtain ⟨th, hth, hlo, hhi, hmem⟩ := h.sound id stackStart stackEnd hrange
      rw [hlive] at hth
      obtain rfl := Option.some.inj hth
      refine h.setThread _ (fun other hne => lookup_updateStackRange_of_ne hne _ _) ?_ ?_
      · intro start stop hnew
        rw [lookup_updateStackRange hrange] at hnew
        cases hnew
        refine ⟨_, rfl, hholds.1, max_lt hhi hholds.2.2, ?_⟩
        rcases max_choice stackStart basePtr with hmax | hmax
        · rw [hmax]
          exact List.mem_cons_of_mem _ hmem
        · rw [hmax]
          exact List.mem_cons_self
      · intro th' b sp' roots' hth' hpc
        obtain rfl := Option.some.inj hth'
        exact absurd hpc (afterUpdate_ne_insert roots)
  | none =>
      refine h.setThread s.ranges (fun _ _ => rfl) ?_ ?_
      · intro start stop hnew
        rw [hrange] at hnew
        cases hnew
      · intro th' b sp' roots' hth' hpc
        obtain rfl := Option.some.inj hth'
        cases hpc
        exact ⟨hrange, hholds, List.mem_cons_self⟩

theorem LifeInv.insertRange (h : LifeInv s) {thread : LiveThread}
    (hlive : s.live id = some thread) {basePtr sp : Nat} {roots : Bool}
    (hpc : thread.pc = .insert basePtr sp roots) :
    LifeInv (s.insertRange id thread basePtr sp roots) := by
  obtain ⟨hnone, hholds, hmem⟩ := h.inserting id thread basePtr sp roots hlive hpc
  refine h.setThread _ (fun other hne => AssocMap.lookup_emplace_of_ne hne) ?_ ?_
  · intro start stop hnew
    rw [AssocMap.lookup_emplace_self hnone] at hnew
    cases hnew
    exact ⟨_, rfl, hholds.1, hholds.2.2, hmem⟩
  · intro th' b sp' roots' hth' hpc'
    obtain rfl := Option.some.inj hth'
    exact absurd hpc' (afterUpdate_ne_insert roots)

/-- A thread that keeps its range, if it has one, and what it has passed. -/
theorem LifeInv.rest (h : LifeInv s) {thread : LiveThread} (hlive : s.live id = some thread) :
    LifeInv (s.setThread id (some { thread with pc := .idle })) := by
  refine h.setThread s.ranges (fun _ _ => rfl) ?_ ?_
  · intro start stop hrange
    obtain ⟨th, hth, hreports⟩ := h.sound id start stop hrange
    rw [hlive] at hth
    obtain rfl := Option.some.inj hth
    exact ⟨_, rfl, hreports⟩
  · intro th' b sp' roots' hth' hpc
    obtain rfl := Option.some.inj hth'
    cases hpc

/-- **Every step keeps the ranges sound** when a thread that exits leaves none behind. -/
theorem LifeInv.step (h : LifeInv s) {e : LifeEvent} (hclean : LeavesNothing s e)
    (hstep : lifeStep e s = some t) : LifeInv t := by
  cases e with
  | start id stack =>
      rw [lifeStep] at hstep
      split at hstep
      · rename_i hfresh
        obtain rfl := Option.some.inj hstep
        refine h.setThread s.ranges (fun _ _ => rfl) ?_ ?_
        · intro start stop hrange
          obtain ⟨th, hth, _⟩ := h.sound id start stop hrange
          rw [hfresh] at hth
          cases hth
        · intro th' b sp' roots' hth' hpc
          obtain rfl := Option.some.inj hth'
          cases hpc
      · cases hstep
  | call id basePtr sp roots =>
      obtain ⟨thread, hlive, hstep⟩ := Option.bind_eq_some_iff.mp hstep
      split at hstep
      · split at hstep
        · obtain rfl := Option.some.inj hstep
          exact h.enter hlive ‹_› roots
        · cases hstep
      · cases hstep
  | resume id =>
      obtain ⟨thread, hlive, hstep⟩ := Option.bind_eq_some_iff.mp hstep
      split at hstep
      · cases hstep
      · obtain rfl := Option.some.inj hstep
        exact h.insertRange hlive ‹_›
      · obtain rfl := Option.some.inj hstep
        exact h.rest hlive
  | exit id =>
      obtain ⟨thread, hlive, hstep⟩ := Option.bind_eq_some_iff.mp hstep
      split at hstep
      · obtain rfl := Option.some.inj hstep
        refine h.setThread s.ranges (fun _ _ => rfl) ?_ ?_
        · intro start stop hrange
          rw [hclean thread hlive ‹_›] at hrange
          cases hrange
        · intro th' b sp' roots' hth'
          cases hth'
      · cases hstep

/-- A thread that exits and leaves a range behind makes the ranges unsound. -/
theorem leavesNothing_of_sound {e : LifeEvent}
    (h : ∀ t, lifeStep e s = some t → t.RangesSound) : LeavesNothing s e := by
  cases e with
  | start | call | resume => trivial
  | exit id =>
      intro thread hlive hpc
      have hexit : lifeStep (.exit id) s = some (s.setThread id none) := by
        simp only [lifeStep, hlive, hpc, Option.bind_eq_bind, Option.bind_some]
      by_contra hrange
      obtain ⟨⟨start, stop⟩, hrange⟩ := Option.ne_none_iff_exists'.mp hrange
      obtain ⟨th, hth, _⟩ := h _ hexit id start stop hrange
      change Function.update s.live id none id = some th at hth
      rw [Function.update_self] at hth
      cases hth

/-- **The ranges stay sound as long as no thread that has reported its stack exits.** -/
theorem ranges_sound_iff (events : List LifeEvent) :
    Machine.Always lifeStep Registry.RangesSound events .empty ↔
      Machine.Meets lifeStep LeavesNothing events .empty :=
  Machine.always_iff_meets (fun _ _ _ h hclean hstep => h.step hclean hstep)
    (fun _ h => h.sound) (fun _ _ _ h => leavesNothing_of_sound h) LifeInv.empty

/-- A thread reports its stack and exits. Another one is given its id and a stack further down, and
asks for the roots. -/
def reusedId : List LifeEvent :=
  [.start 1 ⟨60000, 70000⟩, .call 1 69000 65000 false, .resume 1, .exit 1,
    .start 1 ⟨20000, 30000⟩, .call 1 29000 25000 true, .resume 1]

/-- **The stack of a dead thread is scanned**: the new thread has inherited where it starts. -/
theorem reusedId_scans_dead_stack :
    ¬ ∀ events, Machine.Always lifeStep Registry.RangesSound events .empty := by
  intro h
  obtain ⟨_, h⟩ := h reusedId
  obtain ⟨_, h⟩ := h _ rfl
  obtain ⟨_, h⟩ := h _ rfl
  obtain ⟨_, h⟩ := h _ rfl
  obtain ⟨_, h⟩ := h _ rfl
  obtain ⟨_, h⟩ := h _ rfl
  obtain ⟨hsound, _⟩ := h _ rfl
  obtain ⟨thread, hlive, _, hhi, _⟩ := hsound 1 69000 25000 rfl
  obtain rfl := Option.some.inj hlive
  exact absurd hhi (by decide)

end Gcpp
