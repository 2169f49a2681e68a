import Gcpp.RootsLock
import Gcpp.Proof.StackRanges

/-!
# The updates of `GCRoots` are atomic

An entry that a thread is in the middle of updating is seen by no other thread: a scan owns the mutex
alone, and between the two locked regions of an insertion nobody else adds the entry. So the updates
of any number of threads are events of `Process`, each in the order in which it takes effect.
-/

namespace Gcpp.RootsLock

open ByteMemory SharedMutex

variable {s s' : Sys} {t : ThreadId} {c : Call} {pc : Pc} {held kept : Option (Nat × Nat)}
  {ranges ranges' : StackRanges} {m : Memory} {maps : List (List Char)} {actions : List Action}

theorem Sys.setThread_self (s : Sys) (t : ThreadId) (pc : Pc) :
    (s.setThread t pc).threads t = pc := Function.update_self ..

theorem Sys.setThread_of_ne {u : ThreadId} (s : Sys) (hu : u ≠ t) (pc : Pc) :
    (s.setThread t pc).threads u = s.threads u := Function.update_of_ne hu ..

/-! ### The entry of a thread -/

/-- What the table holds for a thread, and what the events that have happened have left. In the
middle of an update they differ, and from the update to the scan the entry is up to date. -/
def RangeOk (pc : Pc) (held kept : Option (Nat × Nat)) : Prop :=
  match pc with
  | .storeStart c => held = kept ∧ ∃ stackStart stackEnd, kept = some (stackStart, stackEnd) ∧
      ¬ (c.basePtr ≤ stackStart ∧ c.sp = stackEnd)
  | .storeEnd c => ∃ stackStart stackEnd, kept = some (stackStart, stackEnd) ∧
      ¬ (c.basePtr ≤ stackStart ∧ c.sp = stackEnd) ∧
      held = some (max stackStart c.basePtr, stackEnd)
  | .unlockShared _ false | .lockInsert _ | .insert _ => held = kept ∧ kept = none
  | .unlockShared c true | .unlockInsert c | .lockScan c | .scan c _ => held = kept ∧
      ∃ stackStart, kept = some (stackStart, c.sp) ∧ c.basePtr ≤ stackStart
  | _ => held = kept

/-- Only a reader can be in the middle of an update. -/
theorem RangeOk.same (h : RangeOk pc held kept) (hmode : pc.mode ≠ .shared) : held = kept := by
  cases pc with
  | idle | lockShared | lockResult | unlockScan => exact h
  | lockInsert | insert | unlockInsert | lockScan | scan => exact h.1
  | test | storeStart | storeEnd | unlockShared | unlockResult => exact absurd rfl hmode

theorem RangeOk.afterUpdate (h : held = kept ∧
    ∃ stackStart, kept = some (stackStart, c.sp) ∧ c.basePtr ≤ stackStart) :
    RangeOk (afterUpdate c) held kept := by
  unfold RootsLock.afterUpdate
  split
  · exact h
  · exact h.1

theorem mode_afterUpdate (c : Call) : (afterUpdate c).mode = .none := by
  unfold afterUpdate
  split <;> rfl

/-- The entries that a scan is to read are there. -/
def EntriesThere (ranges : StackRanges) : Pc → Prop
  | .scan _ k => ∀ id ∈ k.rest, id ∈ ranges
  | _ => True

theorem entriesThere_afterUpdate (ranges : StackRanges) (c : Call) :
    EntriesThere ranges (afterUpdate c) := by
  unfold afterUpdate
  split <;> trivial

/-! ### The simulation -/

/-- The events have left this table. -/
structure Refines (s : Sys) (ranges : StackRanges) : Prop where
  owned : s.mutex.Owned fun t => (s.threads t).mode
  range : ∀ t, RangeOk (s.threads t) (s.roots.stackRanges.lookup t) (ranges.lookup t)
  there : ∀ t, EntriesThere s.roots.stackRanges (s.threads t)

/-- The process of the events. -/
def Sys.process (s : Sys) (ranges : StackRanges) : Process where
  mem := s.mem
  gInstance := some { globalRoots := s.roots.globalRoots, stackRanges := ranges }

/-- An event, without what it returns. -/
def execEvent (maps : List (List Char)) (e : ScanEvent) (p : Process) : Option Process :=
  (p.exec maps e).map Prod.fst

namespace Refines

theorem initial (globalRoots : List Nat) (m : Memory) :
    Refines (Sys.initial globalRoots m) ∅ where
  owned := .free fun _ => rfl
  range _ := rfl
  there _ := trivial

/-- A thread goes on: what it relies on holds of its new place, and nobody else is concerned. -/
theorem move (h : Refines s ranges) (hthreads : s'.threads = Function.update s.threads t pc)
    (howned : s'.mutex.Owned (Function.update (fun u => (s.threads u).mode) t pc.mode))
    (hheld : ∀ u, u ≠ t → s'.roots.stackRanges.lookup u = s.roots.stackRanges.lookup u)
    (hkept : ∀ u, u ≠ t → ranges'.lookup u = ranges.lookup u)
    (hgrows : ∀ u, u ∈ s.roots.stackRanges → u ∈ s'.roots.stackRanges)
    (hrange : RangeOk pc (s'.roots.stackRanges.lookup t) (ranges'.lookup t))
    (hthere : EntriesThere s'.roots.stackRanges pc) : Refines s' ranges' where
  owned := by
    rw [hthreads]
    convert howned using 2 with u
    by_cases hu : u = t
    · rw [hu, Function.update_self, Function.update_self]
    · rw [Function.update_of_ne hu, Function.update_of_ne hu]
  range u := by
    rw [hthreads]
    by_cases hu : u = t
    · rw [hu, Function.update_self]
      exact hrange
    · rw [Function.update_of_ne hu, hheld u hu, hkept u hu]
      exact h.range u
  there u := by
    rw [hthreads]
    by_cases hu : u = t
    · rw [hu, Function.update_self]
      exact hthere
    · rw [Function.update_of_ne hu]
      have hold := h.there u
      cases hthread : s.threads u with
      | scan c k =>
          rw [hthread] at hold
          exact fun id hid => hgrows id (hold id hid)
      | _ => trivial

/-- A step that only takes or releases the mutex. -/
theorem silent (h : Refines s ranges) {mutex : SharedMutex ThreadId}
    (hemits : emits (.step t) s = [])
    (howned : mutex.Owned (Function.update (fun u => (s.threads u).mode) t pc.mode))
    (hrange : RangeOk pc (s.roots.stackRanges.lookup t) (ranges.lookup t))
    (hthere : EntriesThere s.roots.stackRanges pc) :
    ∃ ranges', Machine.run (execEvent maps) (emits (.step t) s) (s.process ranges) =
        some (({ s with mutex }.setThread t pc).process ranges') ∧
      Refines ({ s with mutex }.setThread t pc) ranges' := by
  rw [hemits]
  exact ⟨ranges, rfl, h.move rfl howned (fun _ _ => rfl) (fun _ _ => rfl) (fun _ hu => hu) hrange
    hthere⟩

/-- A step in which the table becomes what one more update leaves. -/
theorem updated (h : Refines s ranges) (table : StackRanges) (basePtr sp : Nat)
    (hemits : emits (.step t) s = [.updateStackRange t basePtr sp])
    (howned : s.mutex.Owned (Function.update (fun u => (s.threads u).mode) t pc.mode))
    (hheld : ∀ u, u ≠ t → table.lookup u = s.roots.stackRanges.lookup u)
    (hgrows : ∀ u, u ∈ s.roots.stackRanges → u ∈ table)
    (hrange : RangeOk pc (table.lookup t) ((updateStackRange ranges t basePtr sp).lookup t))
    (hthere : EntriesThere table pc) :
    ∃ ranges', Machine.run (execEvent maps) (emits (.step t) s) (s.process ranges) =
        some (({ s with roots := { s.roots with stackRanges := table } }.setThread t pc).process
          ranges') ∧
      Refines ({ s with roots := { s.roots with stackRanges := table } }.setThread t pc)
        ranges' := by
  rw [hemits]
  exact ⟨updateStackRange ranges t basePtr sp, rfl, h.move rfl howned hheld
    (fun u hu => lookup_updateStackRange_of_ne hu _ _) hgrows hrange hthere⟩

end Refines

/-! ### The steps -/

theorem updateStackRange_of_covered {stackStart : Nat} {basePtr sp : Nat}
    (hkept : ranges.lookup t = some (stackStart, sp)) (hle : basePtr ≤ stackStart) :
    updateStackRange ranges t basePtr sp = ranges := by
  rw [updateStackRange, hkept]
  exact if_pos ⟨hle, rfl⟩

theorem mem_insert_of_mem {u : ThreadId} {range : Nat × Nat} (hu : u ∈ ranges) :
    u ∈ ranges.insert t range := (AList.mem_insert ranges).mpr (Or.inr hu)

/-- A read is one of a scan, and moves nothing else. -/
theorem readThread_moves (hstep : s.readThread t = some s') :
    ∃ c k k', s.threads t = .scan c k ∧ k.read s.mem s.roots.stackRanges = some k' ∧
      s' = s.setThread t (.scan c k') := by
  rw [Sys.readThread] at hstep
  cases hthread : s.threads t with
  | scan c k =>
      rw [hthread] at hstep
      obtain ⟨k', hread, rfl⟩ := Option.map_eq_some_iff.mp hstep
      exact ⟨c, k, k', rfl, hread, rfl⟩
  | _ =>
      rw [hthread] at hstep
      cases hstep

/-- A step of a scan looks at the entries that are still to come. -/
theorem rest_of_read {k k' : Scan} (hread : k.read m ranges = some k') :
    ∀ id ∈ k'.rest, id ∈ k.rest := by
  rw [Scan.read] at hread
  split at hread
  · split at hread
    · cases hread
    · rename_i id rest hrest
      obtain ⟨range, _, rfl⟩ := Option.map_eq_some_iff.mp hread
      rw [hrest]
      exact fun _ hid => List.mem_cons_of_mem id hid
  · dsimp only at hread
    split at hread
    · cases hread
      exact fun _ hid => hid
    · split at hread
      · split at hread <;> cases hread <;> exact fun _ hid => hid
      · cases hread
        exact fun _ hid => hid

namespace Refines

/-- **A step of a thread** is a run of events of the process: none, or the one in which its update
takes effect. -/
theorem stepThread (h : Refines s ranges) (hstep : s.stepThread t = some s') :
    ∃ ranges', Machine.run (execEvent maps) (emits (.step t) s) (s.process ranges) =
        some (s'.process ranges') ∧ Refines s' ranges' := by
  have howned := h.owned
  have hrange := h.range t
  have hmode : ∀ {own}, (s.threads t).mode = own →
      s.mutex.Owned (Function.update (fun u => (s.threads u).mode) t own) := fun hown =>
    howned.same hown
  cases hthread : s.threads t with
  | idle result =>
      rw [Sys.stepThread, hthread] at hstep
      cases hstep
  | lockShared c =>
      rw [Sys.stepThread, hthread] at hstep
      rw [hthread] at hrange
      obtain ⟨mutex, hlock, rfl⟩ := Option.map_eq_some_iff.mp hstep
      exact h.silent (by rw [emits, hthread]) (howned.lockShared hlock) hrange trivial
  | test c =>
      rw [Sys.stepThread, hthread] at hstep
      rw [hthread] at hrange hmode
      dsimp only at hstep
      cases hlookup : s.roots.stackRanges.lookup t with
      | none =>
          rw [hlookup] at hstep
          cases hstep
          refine h.silent (by rw [emits, hthread]; dsimp only; rw [hlookup]) (hmode rfl)
            ⟨hrange, ?_⟩ trivial
          rw [← hlookup]
          exact hrange.symm
      | some range =>
          obtain ⟨stackStart, stackEnd⟩ := range
          rw [hlookup] at hstep
          have hkept : ranges.lookup t = some (stackStart, stackEnd) := hrange.symm.trans hlookup
          dsimp only at hstep
          split at hstep
          · rename_i hcovered
            cases hstep
            obtain ⟨hle, rfl⟩ := hcovered
            have hsame := updateStackRange_of_covered hkept hle
            refine h.updated s.roots.stackRanges c.basePtr c.sp ?_ (hmode rfl) (fun _ _ => rfl)
              (fun _ hu => hu) ?_ trivial
            · rw [emits, hthread]
              dsimp only
              rw [hlookup]
              exact if_pos ⟨hle, rfl⟩
            · rw [hsame]
              exact ⟨hrange, stackStart, hkept, hle⟩
          · rename_i hnew
            cases hstep
            refine h.silent ?_ (hmode rfl) ⟨hrange, stackStart, stackEnd, hkept, hnew⟩ trivial
            rw [emits, hthread]
            dsimp only
            rw [hlookup]
            exact if_neg hnew
  | storeStart c =>
      rw [Sys.stepThread, hthread] at hstep
      rw [hthread] at hrange hmode
      obtain ⟨hsame, stackStart, stackEnd, hkept, hnew⟩ := hrange
      dsimp only at hstep
      rw [hsame, hkept] at hstep
      cases hstep
      exact ⟨ranges, by rw [emits, hthread]; rfl, h.move rfl (hmode rfl)
        (fun u hu => AList.lookup_insert_ne hu) (fun _ _ => rfl) (fun _ hu => mem_insert_of_mem hu)
        ⟨stackStart, stackEnd, hkept, hnew, AList.lookup_insert _⟩ trivial⟩
  | storeEnd c =>
      rw [Sys.stepThread, hthread] at hstep
      rw [hthread] at hrange hmode
      obtain ⟨stackStart, stackEnd, hkept, hnew, hheld⟩ := hrange
      dsimp only at hstep
      rw [hheld] at hstep
      cases hstep
      refine h.updated _ c.basePtr c.sp (by rw [emits, hthread]) (hmode rfl)
        (fun u hu => AList.lookup_insert_ne hu) (fun _ hu => mem_insert_of_mem hu) ?_ trivial
      rw [lookup_updateStackRange hkept]
      exact ⟨AList.lookup_insert _, _, rfl, le_max_right _ _⟩
  | unlockShared c existingRecord =>
      rw [Sys.stepThread, hthread] at hstep
      rw [hthread] at hrange
      have hreleased := howned.unlockShared (t := t) (by rw [hthread]; rfl)
      cases existingRecord with
      | false =>
          cases hstep
          exact h.silent (by rw [emits, hthread]) hreleased hrange trivial
      | true =>
          have hstep : some (({ s with mutex := s.mutex.unlockShared t }).setThread t
            (afterUpdate c)) = some s' := hstep
          cases hstep
          refine h.silent (by rw [emits, hthread]) ?_ (.afterUpdate hrange)
            (entriesThere_afterUpdate _ c)
          rw [mode_afterUpdate]
          exact hreleased
  | lockInsert c =>
      rw [Sys.stepThread, hthread] at hstep
      rw [hthread] at hrange
      obtain ⟨mutex, hlock, rfl⟩ := Option.map_eq_some_iff.mp hstep
      exact h.silent (by rw [emits, hthread]) (howned.lock hlock) hrange trivial
  | insert c =>
      rw [Sys.stepThread, hthread] at hstep
      rw [hthread] at hrange hmode
      cases hstep
      obtain ⟨hsame, hnone⟩ := hrange
      refine h.updated _ c.basePtr c.sp (by rw [emits, hthread]) (hmode rfl)
        (fun u hu => AssocMap.lookup_emplace_of_ne hu) (fun u hu => ?_) ?_ trivial
      · by_cases heq : u = t
        · rw [heq]
          exact AssocMap.mem_of_lookup (AssocMap.lookup_emplace_self (hsame.trans hnone))
        · rw [← AList.lookup_isSome, AssocMap.lookup_emplace_of_ne heq]
          exact AList.lookup_isSome.mpr hu
      rw [lookup_updateStackRange_new hnone]
      exact ⟨AssocMap.lookup_emplace_self (hsame.trans hnone), _, rfl, le_rfl⟩
  | unlockInsert c =>
      rw [Sys.stepThread, hthread] at hstep
      rw [hthread] at hrange
      cases hstep
      refine h.silent (by rw [emits, hthread]) ?_ (.afterUpdate hrange)
        (entriesThere_afterUpdate _ c)
      rw [mode_afterUpdate]
      exact howned.unlock (by rw [hthread]; rfl)
  | lockScan c =>
      rw [Sys.stepThread, hthread] at hstep
      rw [hthread] at hrange
      obtain ⟨mutex, hlock, rfl⟩ := Option.map_eq_some_iff.mp hstep
      exact h.silent (by rw [emits, hthread]) (howned.lock hlock) hrange fun _ hid => hid
  | scan c k =>
      rw [Sys.stepThread, hthread] at hstep
      rw [hthread] at hrange hmode
      obtain ⟨_, ⟨⟩⟩ := Option.ite_none_right_eq_some.mp hstep
      exact h.silent (by rw [emits, hthread]) (hmode rfl) hrange.1 trivial
  | unlockScan locals =>
      rw [Sys.stepThread, hthread] at hstep
      rw [hthread] at hrange
      cases hstep
      exact h.silent (by rw [emits, hthread]) (howned.unlock (by rw [hthread]; rfl)) hrange trivial
  | lockResult locals =>
      rw [Sys.stepThread, hthread] at hstep
      rw [hthread] at hrange
      obtain ⟨mutex, hlock, rfl⟩ := Option.map_eq_some_iff.mp hstep
      exact h.silent (by rw [emits, hthread]) (howned.lockShared hlock) hrange trivial
  | unlockResult locals =>
      rw [Sys.stepThread, hthread] at hstep
      rw [hthread] at hrange
      cases hstep
      exact h.silent (by rw [emits, hthread]) (howned.unlockShared (by rw [hthread]; rfl)) hrange
        trivial

theorem readThread (h : Refines s ranges) (hstep : s.readThread t = some s') :
    Refines s' ranges := by
  have hrange := h.range t
  have hthere := h.there t
  obtain ⟨c, k, k', hthread, hread, rfl⟩ := readThread_moves hstep
  rw [hthread] at hrange hthere
  have hmode : (s.threads t).mode = .exclusive := by rw [hthread]; rfl
  exact h.move rfl (h.owned.same hmode) (fun _ _ => rfl) (fun _ _ => rfl) (fun _ hu => hu)
    hrange fun id hid => hthere id (rest_of_read hread id hid)

/-- **An action** is a run of events of the process. -/
theorem step (h : Refines s ranges) {a : Action} (hstep : RootsLock.step a s = some s') :
    ∃ ranges', Machine.run (execEvent maps) (emits a s) (s.process ranges) =
        some (s'.process ranges') ∧ Refines s' ranges' := by
  cases a with
  | write m =>
      cases hstep
      exact ⟨ranges, rfl, h.owned, h.range, h.there⟩
  | call t c =>
      have hrange := h.range t
      have howned : ∀ {own}, (s.threads t).mode = own →
          s.mutex.Owned (Function.update (fun u => (s.threads u).mode) t own) := fun hown =>
        h.owned.same hown
      rw [RootsLock.step] at hstep
      cases hthread : s.threads t with
      | idle result =>
          rw [hthread] at hstep hrange howned
          cases hstep
          exact ⟨ranges, rfl, h.move rfl (howned rfl) (fun _ _ => rfl) (fun _ _ => rfl)
            (fun _ hu => hu) hrange trivial⟩
      | _ =>
          rw [hthread] at hstep
          cases hstep
  | step t => exact h.stepThread hstep
  | read t =>
      have hread := h.readThread hstep
      obtain ⟨c, k, k', _, _, rfl⟩ := readThread_moves hstep
      exact ⟨ranges, rfl, hread⟩

end Refines

/-- What the updates have done is what these events have done. -/
def Linearized (s : Sys) (p : Process) : Prop := ∃ ranges, p = s.process ranges ∧ Refines s ranges

theorem Linearized.initial (globalRoots : List Nat) (m : Memory) :
    Linearized (Sys.initial globalRoots m) (Process.mk m (some ⟨globalRoots, ∅⟩)) :=
  ⟨∅, rfl, .initial globalRoots m⟩

theorem Linearized.step {p : Process} {a : Action} (maps : List (List Char))
    (h : Linearized s p) (hstep : RootsLock.step a s = some s') :
    ∃ p', Machine.run (execEvent maps) (emits a s) p = some p' ∧ Linearized s' p' := by
  obtain ⟨ranges, rfl, hrefines⟩ := h
  obtain ⟨ranges', hexec, hrefines'⟩ := hrefines.step hstep
  exact ⟨_, hexec, ranges', rfl, hrefines'⟩

theorem Linearized.of_run (maps : List (List Char)) {globalRoots : List Nat}
    (hrun : Machine.run RootsLock.step actions (Sys.initial globalRoots m) = some s) :
    ∃ p, Machine.run (execEvent maps) (happened globalRoots m actions)
        (Process.mk m (some ⟨globalRoots, ∅⟩)) = some p ∧ Linearized s p :=
  Machine.run_simulates (fun _ s _ p (h : Linearized s p) hstep => h.step maps hstep)
    (.initial globalRoots m) hrun

theorem refines_of_run {globalRoots : List Nat}
    (hrun : Machine.run step actions (Sys.initial globalRoots m) = some s) :
    ∃ ranges, Refines s ranges := by
  obtain ⟨_, _, ranges, _, hrefines⟩ := Linearized.of_run [] hrun
  exact ⟨ranges, hrefines⟩

/-! ### The order of the events -/

/-- The event of a call that is still to happen. -/
def Pc.todo (t : ThreadId) : Pc → List ScanEvent
  | .lockShared c | .test c | .storeStart c | .storeEnd c | .unlockShared c false
  | .lockInsert c | .insert c => [.updateStackRange t c.basePtr c.sp]
  | _ => []

theorem todo_afterUpdate (c : Call) : (afterUpdate c).todo t = [] := by
  unfold afterUpdate
  split <;> rfl

theorem ofThread_of_todo {e : ScanEvent} (he : e ∈ pc.todo t) (u : ThreadId) :
    ofThread u e = (t == u) := by
  cases pc with
  | lockShared c | test c | storeStart c | storeEnd c | lockInsert c | insert c =>
      rw [List.mem_singleton.mp he, ofThread]
  | unlockShared c existingRecord =>
      cases existingRecord with
      | false => rw [List.mem_singleton.mp he, ofThread]
      | true => cases he
  | idle | unlockInsert | lockScan | scan | unlockScan | lockResult | unlockResult => cases he

/-- How many steps of a call are still to come, at most. -/
def Pc.stepsLeft : Pc → Nat
  | .idle _ => 0
  | .unlockResult _ => 1
  | .lockResult _ => 2
  | .unlockScan _ => 3
  | .scan _ _ => 4
  | .lockScan _ => 5
  | .unlockInsert _ | .unlockShared _ true => 6
  | .insert _ | .storeEnd _ => 7
  | .lockInsert _ | .storeStart _ => 8
  | .unlockShared _ false => 9
  | .test _ => 10
  | .lockShared _ => 11

theorem stepsLeft_afterUpdate_le (c : Call) : (afterUpdate c).stepsLeft ≤ 5 := by
  unfold afterUpdate
  split
  · exact le_rfl
  · exact Nat.zero_le 5

/-- What a step of a thread emits is the event of its call, and the others stay. -/
theorem stepThread_moves (hstep : s.stepThread t = some s') :
    ∃ pc, s'.threads = Function.update s.threads t pc ∧
      emits (.step t) s ++ pc.todo t = (s.threads t).todo t ∧
      pc.stepsLeft < (s.threads t).stepsLeft ∧
      s'.roots.globalRoots = s.roots.globalRoots := by
  rw [Sys.stepThread] at hstep
  rw [emits]
  cases hthread : s.threads t with
  | idle =>
      rw [hthread] at hstep
      cases hstep
  | lockShared | lockInsert | lockScan | lockResult =>
      rw [hthread] at hstep
      obtain ⟨_, _, rfl⟩ := Option.map_eq_some_iff.mp hstep
      exact ⟨_, rfl, rfl, Nat.lt_succ_self _, rfl⟩
  | insert | unlockScan | unlockResult =>
      rw [hthread] at hstep
      cases hstep
      exact ⟨_, rfl, rfl, Nat.lt_succ_self _, rfl⟩
  | scan =>
      rw [hthread] at hstep
      obtain ⟨_, ⟨⟩⟩ := Option.ite_none_right_eq_some.mp hstep
      exact ⟨_, rfl, rfl, Nat.lt_succ_self _, rfl⟩
  | test c =>
      rw [hthread] at hstep
      dsimp only at hstep ⊢
      cases hlookup : s.roots.stackRanges.lookup t with
      | none =>
          rw [hlookup] at hstep
          cases hstep
          exact ⟨_, rfl, rfl, Nat.lt_succ_self _, rfl⟩
      | some range =>
          rw [hlookup] at hstep
          dsimp only at hstep ⊢
          split at hstep
          · rename_i hcovered
            cases hstep
            refine ⟨_, rfl, ?_, show 6 < 10 by decide, rfl⟩
            rw [if_pos hcovered]
            rfl
          · rename_i hnew
            cases hstep
            refine ⟨_, rfl, ?_, show 8 < 10 by decide, rfl⟩
            rw [if_neg hnew]
            rfl
  | storeStart | storeEnd =>
      rw [hthread] at hstep
      obtain ⟨_, _, hstep⟩ := Option.bind_eq_some_iff.mp hstep
      cases hstep
      exact ⟨_, rfl, rfl, Nat.lt_succ_self _, rfl⟩
  | unlockShared c existingRecord =>
      rw [hthread] at hstep
      cases existingRecord with
      | false =>
          cases hstep
          exact ⟨_, rfl, rfl, Nat.lt_succ_self _, rfl⟩
      | true =>
          cases hstep
          exact ⟨_, rfl, todo_afterUpdate c, Nat.lt_succ_of_le (stepsLeft_afterUpdate_le c), rfl⟩
  | unlockInsert c =>
      rw [hthread] at hstep
      cases hstep
      exact ⟨_, rfl, todo_afterUpdate c, Nat.lt_succ_of_le (stepsLeft_afterUpdate_le c), rfl⟩

/-- An action emits the event of the thread, if it concerns it, and asks for that of a call. -/
theorem emits_todo {a : Action} (hstep : step a s = some s') :
    (emits a s).filter (ofThread t) ++ (s'.threads t).todo t =
      (s.threads t).todo t ++ a.events t := by
  cases a with
  | write m =>
      cases hstep
      exact (List.append_nil _).symm
  | call u c =>
      rw [step] at hstep
      split at hstep
      · rename_i result hidle
        cases hstep
        rw [Action.events]
        by_cases hu : u = t
        · subst hu
          rw [Sys.setThread_self, if_pos rfl, hidle]
          rfl
        · rw [Sys.setThread_of_ne _ (Ne.symm hu), if_neg hu, List.append_nil]
          rfl
      · cases hstep
  | read u =>
      obtain ⟨c, k, k', hthread, _, rfl⟩ := readThread_moves hstep
      by_cases hu : u = t
      · subst hu
        rw [Sys.setThread_self, hthread]
        rfl
      · rw [Sys.setThread_of_ne _ (Ne.symm hu)]
        exact (List.append_nil _).symm
  | step u =>
      obtain ⟨pc, hthreads, htodo, -, -⟩ := stepThread_moves hstep
      have hof : ∀ e ∈ emits (.step u) s, ofThread t e = (u == t) := fun e he =>
        ofThread_of_todo (htodo ▸ List.mem_append_left _ he) t
      have hevents : (Action.step u).events t = [] := rfl
      rw [hthreads, hevents, List.append_nil]
      by_cases hu : u = t
      · subst hu
        rw [Function.update_self,
          List.filter_eq_self.mpr fun e he => (hof e he).trans (beq_self_eq_true u)]
        exact htodo
      · rw [Function.update_of_ne (Ne.symm hu), List.filter_eq_nil_iff.mpr, List.nil_append]
        intro e he
        rw [hof e he, beq_false_of_ne hu]
        decide

theorem outputs_todo (hrun : Machine.run step actions s = some s') :
    (Machine.outputs step emits actions s).filter (ofThread t) ++ (s'.threads t).todo t =
      (s.threads t).todo t ++ actions.flatMap (Action.events t) := by
  have hstep : ∀ a (u v : Sys), step a u = some v →
      (emits a u).filter (ofThread t) ++ (v.threads t).todo t =
        (u.threads t).todo t ++ a.events t := fun _ _ _ => emits_todo
  exact Machine.outputs_filter hstep hrun

end Gcpp.RootsLock
