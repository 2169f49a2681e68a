import Gcpp.Proof.RootsLock

/-!
# What a scan finds

A scan owns the table and not the stacks: what it reads may change under way, so it is no snapshot.
It finds what is a pointer all the time, and nothing that was not one when it was read.
-/

namespace Gcpp.RootsLock

open ByteMemory

variable {s s' : Sys} {t : ThreadId} {c : Call} {ranges : StackRanges} {m : Memory}
  {actions : List Action}

/-! ### A scan -/

/-- The places of the loops of a scan that come about: below the top of the address space nothing
wraps. -/
structure ScanOk (k : Scan) : Prop where
  idle : k.cursor = none → k.header = false
  cursor : ∀ ptr stop, k.cursor = some (ptr, stop) →
    8 ∣ ptr ∧ ptr + 16 < 2 ^ 64 ∧ stop + 15 ≤ 2 ^ 64 ∧ (k.header = true → ptr + 16 < stop)

theorem ScanOk.start (ranges : StackRanges) : ScanOk (.start ranges) where
  idle _ := rfl
  cursor _ _ h := by cases h

/-- One case for every way in which a scan goes on. -/
inductive ScanMove (m : Memory) (ranges : StackRanges) (k : Scan) : Scan → Prop
  | enter (id : ThreadId) (rest : List ThreadId) (base sp first : Nat) (hcursor : k.cursor = none)
      (hrest : k.rest = id :: rest) (hrange : ranges.lookup id = some (base, sp))
      (hdvd : 8 ∣ first) (hle : sp - redZoneSize ≤ first)
      (hlt : first < sp - redZoneSize + 8) :
      ScanMove m ranges k { k with rest, cursor := some (first, base + 1) }
  | leave (ptr stop : Nat) (hcursor : k.cursor = some (ptr, stop)) (hheader : k.header = false)
      (hend : stop ≤ ptr + 16) : ScanMove m ranges k { k with cursor := none }
  | header (ptr stop : Nat) (hcursor : k.cursor = some (ptr, stop)) (hheader : k.header = false)
      (hin : ptr + 16 < stop) (hload : load64 m ptr = ptrHeader) :
      ScanMove m ranges k { k with header := true }
  | skip (ptr stop : Nat) (hcursor : k.cursor = some (ptr, stop)) (hheader : k.header = false)
      (hin : ptr + 16 < stop) (hload : load64 m ptr ≠ ptrHeader) :
      ScanMove m ranges k { k with cursor := some (ptr + 8, stop) }
  | take (ptr stop : Nat) (hcursor : k.cursor = some (ptr, stop)) (hheader : k.header = true)
      (hin : ptr + 16 < stop) (htag : (load64 m (ptr + 8) &&& ptrTagMask) = ptrTag) :
      ScanMove m ranges k
        { k with cursor := some (ptr + 8, stop), header := false, found := k.found ++ [ptr] }
  | pass (ptr stop : Nat) (hcursor : k.cursor = some (ptr, stop)) (hheader : k.header = true)
      (hin : ptr + 16 < stop) (htag : (load64 m (ptr + 8) &&& ptrTagMask) ≠ ptrTag) :
      ScanMove m ranges k { k with cursor := some (ptr + 8, stop), header := false }

theorem scanBegin_spec {start : Nat} (h : start + 16 ≤ 2 ^ 64) :
    8 ∣ scanBegin start ∧ start ≤ scanBegin start ∧ scanBegin start < start + 8 := by
  have hsize : gcPtrAlignment = 8 := rfl
  rw [scanBegin, hsize]
  split
  · omega
  · rw [Nat.mod_eq_of_lt (by omega)]
    omega

/-- No arithmetic of the next step wraps. -/
theorem scanMove {k k' : Scan} (hwithin : RangesWithin ranges) (hok : ScanOk k)
    (hread : k.read m ranges = some k') : ScanMove m ranges k k' ∧ ScanOk k' := by
  have hsize : gcPtrAlignment = 8 := rfl
  have hslot : gcPtrSize = 16 := rfl
  have hred : redZoneSize = 128 := rfl
  obtain ⟨rest, cursor, header, found⟩ := k
  rw [Scan.read] at hread
  cases cursor with
  | none =>
      have hidle := hok.idle rfl
      cases rest with
      | nil => cases hread
      | cons id rest =>
          obtain ⟨⟨base, sp⟩, hrange, rfl⟩ := Option.map_eq_some_iff.mp hread
          obtain ⟨hlow, hle, htop⟩ := hwithin id base sp hrange
          have hstart : (sp + 2 ^ 64 - redZoneSize) % 2 ^ 64 = sp - redZoneSize := by
            rw [Nat.sub_add_comm hlow, Nat.add_mod_right, Nat.mod_eq_of_lt]
            exact lt_of_le_of_lt (Nat.sub_le _ _) (by omega)
          have hstop : (base + 1) % 2 ^ 64 = base + 1 := Nat.mod_eq_of_lt (by omega)
          obtain ⟨hdvd, hge, hlt⟩ :=
            scanBegin_spec (show sp - redZoneSize + 16 ≤ 2 ^ 64 by omega)
          dsimp only
          rw [hstart, hstop]
          generalize scanBegin (sp - redZoneSize) = first at hdvd hge hlt ⊢
          refine ⟨.enter id rest base sp first rfl rfl hrange hdvd hge hlt,
            ⟨fun h => (by cases h), fun ptr stop hsome => ?_⟩⟩
          cases hsome
          exact ⟨hdvd, by omega, by omega, fun h => by cases hidle.symm.trans h⟩
  | some cursor =>
      obtain ⟨ptr, stop⟩ := cursor
      obtain ⟨hdvd, hptr, hstop, hin⟩ := hok.cursor ptr stop rfl
      have hslotEnd : (ptr + gcPtrSize) % 2 ^ 64 = ptr + 16 := Nat.mod_eq_of_lt (by omega)
      have hnext : (ptr + gcPtrAlignment) % 2 ^ 64 = ptr + 8 := Nat.mod_eq_of_lt (by omega)
      dsimp only at hread
      rw [hslotEnd, hnext] at hread
      have hgoes : ∀ {found : List Nat}, ptr + 16 < stop →
          ScanOk { rest, cursor := some (ptr + 8, stop), header := false, found } := by
        intro found hlt
        refine ⟨fun _ => rfl, fun ptr' stop' hsome => ?_⟩
        cases hsome
        exact ⟨by omega, by omega, hstop, fun h => by cases h⟩
      cases header with
      | true =>
          rw [if_pos rfl] at hread
          cases hread
          have hlt := hin rfl
          by_cases htag : (load64 m (ptr + 8) &&& ptrTagMask) = ptrTag
          · rw [if_pos htag]
            exact ⟨.take ptr stop rfl rfl hlt htag, hgoes hlt⟩
          · rw [if_neg htag]
            exact ⟨.pass ptr stop rfl rfl hlt htag, hgoes hlt⟩
      | false =>
          rw [if_neg Bool.false_ne_true] at hread
          split at hread
          · rename_i hlt
            split at hread
            · rename_i hload
              cases hread
              refine ⟨.header ptr stop rfl rfl hlt hload,
                ⟨fun h => (by cases h), fun ptr' stop' h => ?_⟩⟩
              cases h
              exact ⟨hdvd, hptr, hstop, fun _ => hlt⟩
            · rename_i hload
              cases hread
              exact ⟨.skip ptr stop rfl rfl hlt hload, hgoes hlt⟩
          · rename_i hend
            cases hread
            exact ⟨.leave ptr stop rfl rfl (Nat.le_of_not_lt hend),
              ⟨fun _ => rfl, fun ptr' stop' hsome => by cases hsome⟩⟩

/-! ### The table under a scan -/

/-- A thread that does not own the mutex leaves the table alone. -/
theorem roots_of_unowned (hstep : s.stepThread t = some s') (hmode : (s.threads t).mode = .none) :
    s'.roots = s.roots := by
  rw [Sys.stepThread] at hstep
  cases hthread : s.threads t with
  | idle =>
      rw [hthread] at hstep
      cases hstep
  | lockShared | lockInsert | lockScan | lockResult =>
      rw [hthread] at hstep
      obtain ⟨_, _, rfl⟩ := Option.map_eq_some_iff.mp hstep
      rfl
  | _ =>
      rw [hthread] at hmode
      cases hmode

/-- Nobody changes the table under a scan. -/
theorem Refines.roots_of_scan (h : Refines s ranges) {k : Scan} {a : Action}
    (hthread : s.threads t = .scan c k) (hstep : RootsLock.step a s = some s') :
    s'.roots = s.roots := by
  cases a with
  | write m =>
      cases hstep
      rfl
  | call u c' =>
      rw [RootsLock.step] at hstep
      split at hstep <;> cases hstep
      rfl
  | read u =>
      obtain ⟨_, _, _, _, _, rfl⟩ := readThread_moves hstep
      rfl
  | step u =>
      have hstep : s.stepThread u = some s' := hstep
      by_cases hmode : (s.threads u).mode = .none
      · exact roots_of_unowned hstep hmode
      · have hu : u = t := h.owned.alone (by rw [hthread]; rfl) hmode
        rw [hu, Sys.stepThread, hthread] at hstep
        obtain ⟨_, ⟨⟩⟩ := Option.ite_none_right_eq_some.mp hstep
        rfl

/-- Where a thread stands from its scan to its return, with what is known of the scan and of what it
has found. -/
def ScanPlace (globalRoots : List Nat) (P : Scan → Prop) (Q : List Nat → Prop) : Pc → Prop
  | .scan _ k => P k
  | .unlockScan found | .lockResult found | .unlockResult found => Q found
  | .idle (some result) => ∃ found, result = globalRoots ++ found ∧ Q found
  | _ => False

/-- One case for every way in which a thread goes on from there, or others do. -/
inductive PlaceMove (s : Sys) (reads : Bool) : Pc → Pc → Prop
  | stay (pc : Pc) (hreads : reads = false) : PlaceMove s reads pc pc
  | read (c : Call) (k k' : Scan) (hread : k.read s.mem s.roots.stackRanges = some k') :
      PlaceMove s reads (.scan c k) (.scan c k')
  | finish (c : Call) (k : Scan) (hreads : reads = false) (hrest : k.rest = [])
      (hcursor : k.cursor = none) : PlaceMove s reads (.scan c k) (.unlockScan k.found)
  | unlock (found : List Nat) (hreads : reads = false) :
      PlaceMove s reads (.unlockScan found) (.lockResult found)
  | lock (found : List Nat) (hreads : reads = false) :
      PlaceMove s reads (.lockResult found) (.unlockResult found)
  | result (found : List Nat) (hreads : reads = false) :
      PlaceMove s reads (.unlockResult found) (.idle (some (s.roots.globalRoots ++ found)))

section Place

variable {globalRoots : List Nat} {P : Scan → Prop} {Q : List Nat → Prop}

theorem placeMove_stepThread (hplace : ScanPlace globalRoots P Q (s.threads t))
    (hstep : s.stepThread t = some s') :
    PlaceMove s false (s.threads t) (s'.threads t) := by
  rw [Sys.stepThread] at hstep
  cases hthread : s.threads t with
  | idle =>
      rw [hthread] at hstep
      cases hstep
  | scan c k =>
      rw [hthread] at hstep
      obtain ⟨⟨hrest, hcursor⟩, ⟨⟩⟩ := Option.ite_none_right_eq_some.mp hstep
      rw [Sys.setThread_self]
      exact .finish c k rfl hrest hcursor
  | unlockScan found =>
      rw [hthread] at hstep
      cases hstep
      rw [Sys.setThread_self]
      exact .unlock found rfl
  | lockResult found =>
      rw [hthread] at hstep
      obtain ⟨mutex, _, rfl⟩ := Option.map_eq_some_iff.mp hstep
      rw [Sys.setThread_self]
      exact .lock found rfl
  | unlockResult found =>
      rw [hthread] at hstep
      cases hstep
      rw [Sys.setThread_self]
      exact .result found rfl
  | _ =>
      rw [hthread] at hplace
      exact hplace.elim

theorem placeMove {a : Action} (hplace : ScanPlace globalRoots P Q (s.threads t))
    (hcall : a.isCallOf t = false) (hstep : step a s = some s') :
    PlaceMove s (a.isReadOf t) (s.threads t) (s'.threads t) := by
  cases a with
  | write m =>
      cases hstep
      exact .stay _ rfl
  | call u c =>
      have hu : t ≠ u := fun h => by
        rw [h, Action.isCallOf, beq_self_eq_true] at hcall
        cases hcall
      rw [step] at hstep
      split at hstep <;> cases hstep
      rw [Sys.setThread_of_ne _ hu]
      exact .stay _ rfl
  | read u =>
      obtain ⟨c, k, k', hthread, hread, rfl⟩ := readThread_moves hstep
      by_cases hu : t = u
      · subst hu
        rw [Sys.setThread_self, hthread]
        exact .read c k k' hread
      · rw [Sys.setThread_of_ne _ hu]
        exact .stay _ (beq_false_of_ne (Ne.symm hu))
  | step u =>
      by_cases hu : t = u
      · subst hu
        exact placeMove_stepThread hplace hstep
      · obtain ⟨pc, hthreads, -⟩ := stepThread_moves hstep
        rw [hthreads, Function.update_of_ne hu]
        exact .stay _ rfl

theorem globalRoots_of_step {a : Action} (hstep : step a s = some s') :
    s'.roots.globalRoots = s.roots.globalRoots := by
  cases a with
  | write m =>
      cases hstep
      rfl
  | call u c =>
      rw [step] at hstep
      split at hstep <;> cases hstep
      rfl
  | read u =>
      obtain ⟨_, _, _, _, _, rfl⟩ := readThread_moves hstep
      rfl
  | step u =>
      obtain ⟨_, -, -, -, hglobal⟩ := stepThread_moves hstep
      exact hglobal

theorem globalRoots_of_run
    (hrun : Machine.run step actions (Sys.initial globalRoots m) = some s) :
    s.roots.globalRoots = globalRoots := by
  have hstep : ∀ (a : Action) (u v : Sys), u.roots.globalRoots = globalRoots →
      step a u = some v → v.roots.globalRoots = globalRoots := fun _ _ _ hold hstep =>
    (globalRoots_of_step hstep).trans hold
  have hinitial : (Sys.initial globalRoots m).roots.globalRoots = globalRoots := rfl
  have hkept := Machine.run_invariant hstep hinitial hrun
  exact hkept

/-- The thread has begun to scan this table, and has not called again. -/
structure Scanning (t : ThreadId) (table : StackRanges) (globalRoots : List Nat) (P : Scan → Prop)
    (Q : List Nat → Prop) (s : Sys) : Prop where
  refines : ∃ ranges, Refines s ranges
  global : s.roots.globalRoots = globalRoots
  table : ∀ c k, s.threads t = .scan c k → s.roots.stackRanges = table
  ok : ∀ c k, s.threads t = .scan c k → ScanOk k
  place : ScanPlace globalRoots P Q (s.threads t)

theorem Scanning.step {table : StackRanges} {a : Action} (hwithin : RangesWithin table)
    (hmove : ∀ k k', ScanOk k → ScanMove s.mem table k k' → P k → P k')
    (hend : ∀ k, k.rest = [] → k.cursor = none → P k → Q k.found)
    (h : Scanning t table globalRoots P Q s) (hcall : a.isCallOf t = false)
    (hstep : RootsLock.step a s = some s') : Scanning t table globalRoots P Q s' := by
  have hplace := h.place
  have htable := h.table
  have hok := h.ok
  obtain ⟨ranges, hrefines⟩ := h.refines
  have hroots := fun c k hthread => hrefines.roots_of_scan (t := t) (c := c) (k := k) hthread hstep
  have hnext : ∃ ranges', Machine.run (execEvent []) (emits a s) (s.process ranges) =
      some (s'.process ranges') ∧ Refines s' ranges' := hrefines.step hstep
  obtain ⟨ranges', -, hrefines'⟩ := hnext
  have hglobal := (globalRoots_of_step hstep).trans h.global
  have hmoves := placeMove h.place hcall hstep
  generalize hafter : s'.threads t = after at hmoves
  generalize s.threads t = before at hplace htable hok hroots hmoves
  refine ⟨⟨ranges', hrefines'⟩, hglobal, ?_, ?_, ?_⟩ <;> rw [hafter]
  · intro c k hscan
    cases hmoves with
    | stay =>
        rw [hroots c k hscan]
        exact htable c k hscan
    | read c₀ k₀ k' hread =>
        rw [hroots c₀ k₀ rfl]
        exact htable c₀ k₀ rfl
    | _ => cases hscan
  · intro c k hscan
    cases hmoves with
    | stay => exact hok c k hscan
    | read c₀ k₀ k' hread =>
        cases hscan
        rw [htable c k₀ rfl] at hread
        exact (scanMove hwithin (hok c k₀ rfl) hread).2
    | _ => cases hscan
  · cases hmoves with
    | stay => exact hplace
    | read c₀ k₀ k' hread =>
        rw [htable c₀ k₀ rfl] at hread
        have hscan := hok c₀ k₀ rfl
        exact hmove k₀ k' hscan (scanMove hwithin hscan hread).1 hplace
    | finish c₀ k₀ _ hrest hcursor => exact hend k₀ hrest hcursor hplace
    | unlock | lock => exact hplace
    | result found => exact ⟨found, by rw [h.global], hplace⟩

theorem Scanning.initial (hrefines : ∃ ranges, Refines s ranges)
    (hthread : s.threads t = .scan c (.start s.roots.stackRanges))
    (hstart : P (.start s.roots.stackRanges)) :
    Scanning t s.roots.stackRanges s.roots.globalRoots P Q s := by
  refine ⟨hrefines, rfl, fun _ _ _ => rfl, fun c' k hscan => ?_, ?_⟩
  · rw [hthread] at hscan
    cases hscan
    exact .start _
  · rw [hthread]
    exact hstart

/-- **The rule for scans.** What holds of a scan at its beginning and is kept by each of its steps,
as long as the memory meets a condition, holds at its end. -/
theorem scan_result {C : Memory → Prop} {result : List Nat}
    (hrefines : ∃ ranges, Refines s ranges) (hwithin : RangesWithin s.roots.stackRanges)
    (hmove : ∀ m k k', C m → ScanOk k → ScanMove m s.roots.stackRanges k k' → P k → P k')
    (hend : ∀ k, k.rest = [] → k.cursor = none → P k → Q k.found)
    (hthread : s.threads t = .scan c (.start s.roots.stackRanges))
    (hstart : P (.start s.roots.stackRanges))
    (hmeets : Machine.Meets step (fun v _ => C v.mem) actions s)
    (hcalls : ∀ a ∈ actions, a.isCallOf t = false)
    (hrun : Machine.run step actions s = some s') (hidle : s'.threads t = .idle (some result)) :
    ∃ found, result = s.roots.globalRoots ++ found ∧ Q found := by
  have hstep : ∀ (a : Action) (u v : Sys),
      Scanning t s.roots.stackRanges s.roots.globalRoots P Q u →
      C u.mem ∧ a.isCallOf t = false → step a u = some v →
      Scanning t s.roots.stackRanges s.roots.globalRoots P Q v := fun a u v h hcond hstep =>
    h.step hwithin (fun k k' hok hmv hP => hmove u.mem k k' hcond.1 hok hmv hP) hend hcond.2 hstep
  have hplace := (Machine.run_induction hstep (.initial hrefines hthread hstart)
    (hmeets.and (.of_forall fun a ha _ => hcalls a ha)) hrun).place
  rw [hidle] at hplace
  exact hplace

end Place

/-! ### What a scan finds -/

section Finds

variable {a : Nat} {k k' : Scan}

/-- The slot is still to come. -/
def Ahead (ranges : StackRanges) (a : Nat) (k : Scan) : Prop :=
  (∃ id ∈ k.rest, ∃ base sp, ranges.lookup id = some (base, sp) ∧ sp - redZoneSize ≤ a ∧
    a + 16 ≤ base) ∨ ∃ ptr stop, k.cursor = some (ptr, stop) ∧ ptr ≤ a ∧ a + 16 < stop

/-- A slot that is a pointer when its words are read is not missed. -/
theorem ScanMove.finds (h : ScanMove m ranges k k') (hok : ScanOk k) (hdvd : 8 ∣ a)
    (hptr : maybePtr m a = true) (hfinds : a ∈ k.found ∨ Ahead ranges a k) :
    a ∈ k'.found ∨ Ahead ranges a k' := by
  rw [maybePtr, Bool.and_eq_true, beq_iff_eq, beq_iff_eq] at hptr
  rcases hfinds with hfound | ⟨id, hid, base, sp, hrange, hlow, hhigh⟩ | ⟨ptr, stop, hcursor, hle, hlt⟩
  · left
    cases h with
    | take => exact List.mem_append_left _ hfound
    | _ => exact hfound
  · right
    cases h with
    | enter id' rest base' sp' first _ hrest hrange' hfirst hge hbefore =>
        rw [hrest] at hid
        rcases List.mem_cons.mp hid with rfl | hlater
        · rw [hrange] at hrange'
          cases hrange'
          exact Or.inr ⟨first, base + 1, rfl, by omega, by omega⟩
        · exact Or.inl ⟨id, hlater, base, sp, hrange, hlow, hhigh⟩
    | _ => exact Or.inl ⟨id, hid, base, sp, hrange, hlow, hhigh⟩
  · obtain ⟨hptrDvd, _, _, _⟩ := hok.cursor ptr stop hcursor
    cases h with
    | enter _ _ _ _ _ hnone =>
        rw [hcursor] at hnone
        cases hnone
    | leave ptr' stop' hcursor' _ hend =>
        rw [hcursor] at hcursor'
        cases hcursor'
        omega
    | header ptr' stop' hcursor' =>
        exact Or.inr (Or.inr ⟨ptr, stop, hcursor, hle, hlt⟩)
    | skip ptr' stop' hcursor' _ _ hload =>
        rw [hcursor] at hcursor'
        cases hcursor'
        have hne : ptr ≠ a := by
          rintro rfl
          exact hload hptr.1
        exact Or.inr (Or.inr ⟨ptr + 8, stop, rfl, by omega, hlt⟩)
    | take ptr' stop' hcursor' =>
        rw [hcursor] at hcursor'
        cases hcursor'
        by_cases heq : a = ptr
        · exact Or.inl (List.mem_append_right _ (List.mem_singleton.mpr heq))
        · exact Or.inr (Or.inr ⟨ptr + 8, stop, rfl, by omega, hlt⟩)
    | pass ptr' stop' hcursor' _ _ htag =>
        rw [hcursor] at hcursor'
        cases hcursor'
        have hne : ptr ≠ a := by
          rintro rfl
          exact htag hptr.2
        exact Or.inr (Or.inr ⟨ptr + 8, stop, rfl, by omega, hlt⟩)

theorem found_of_end (hrest : k.rest = []) (hcursor : k.cursor = none)
    (hfinds : a ∈ k.found ∨ Ahead ranges a k) : a ∈ k.found := by
  rcases hfinds with hfound | ⟨id, hid, -⟩ | ⟨ptr, stop, hsome, -⟩
  · exact hfound
  · rw [hrest] at hid
    cases hid
  · rw [hcursor] at hsome
    cases hsome

/-- What is found lies in a stack of the table. -/
def FoundInStacks (ranges : StackRanges) (k : Scan) : Prop :=
  (∀ a ∈ k.found, Swept ranges a) ∧ ∀ ptr stop, k.cursor = some (ptr, stop) →
    ∃ id base sp, ranges.lookup id = some (base, sp) ∧ stop = base + 1 ∧ sp - redZoneSize ≤ ptr

theorem ScanMove.foundInStacks (h : ScanMove m ranges k k') (hok : ScanOk k)
    (hfound : FoundInStacks ranges k) : FoundInStacks ranges k' := by
  obtain ⟨hswept, hstack⟩ := hfound
  cases h with
  | enter id rest base sp first _ _ hrange _ hle =>
      refine ⟨hswept, fun ptr stop hcursor => ?_⟩
      cases hcursor
      exact ⟨id, base, sp, hrange, rfl, hle⟩
  | leave => exact ⟨hswept, fun ptr stop hcursor => by cases hcursor⟩
  | header => exact ⟨hswept, hstack⟩
  | skip ptr stop hcursor | pass ptr stop hcursor =>
      obtain ⟨id, base, sp, hrange, hstop, hle⟩ := hstack ptr stop hcursor
      refine ⟨hswept, fun ptr' stop' hcursor' => ?_⟩
      cases hcursor'
      exact ⟨id, base, sp, hrange, hstop, by omega⟩
  | take ptr stop hcursor _ hin =>
      obtain ⟨id, base, sp, hrange, hstop, hle⟩ := hstack ptr stop hcursor
      have hslot : gcPtrSize = 16 := rfl
      refine ⟨fun a ha => ?_, fun ptr' stop' hcursor' => ?_⟩
      · rcases List.mem_append.mp ha with hold | hnew
        · exact hswept a hold
        · rw [List.mem_singleton.mp hnew]
          exact ⟨id, base, sp, hrange, (hok.cursor ptr stop hcursor).1, hle, by omega⟩
      · cases hcursor'
        exact ⟨id, base, sp, hrange, hstop, by omega⟩

/-- A slot whose first word is no header when it is read is not found. -/
theorem ScanMove.notFound_of_header (h : ScanMove m ranges k k') (hok : ScanOk k)
    (hload : load64 m a ≠ ptrHeader)
    (hnot : a ∉ k.found ∧ ∀ stop, k.cursor = some (a, stop) → k.header = false) :
    a ∉ k'.found ∧ ∀ stop, k'.cursor = some (a, stop) → k'.header = false := by
  obtain ⟨hnot, hcursor⟩ := hnot
  cases h with
  | enter _ _ _ _ _ hnone => exact ⟨hnot, fun _ _ => hok.idle hnone⟩
  | leave => exact ⟨hnot, fun stop hsome => by cases hsome⟩
  | header ptr stop hsome _ _ hheader =>
      refine ⟨hnot, fun stop' hsome' => ?_⟩
      cases hsome.symm.trans hsome'
      exact absurd hheader hload
  | skip _ _ _ hheader => exact ⟨hnot, fun _ _ => hheader⟩
  | pass => exact ⟨hnot, fun _ _ => rfl⟩
  | take ptr stop hsome hheader =>
      refine ⟨fun hfound => ?_, fun _ _ => rfl⟩
      rcases List.mem_append.mp hfound with hold | hnew
      · exact hnot hold
      · rw [List.mem_singleton.mp hnew] at hcursor
        cases hheader.symm.trans (hcursor stop hsome)

/-- Nor is one whose second word has no tag. -/
theorem ScanMove.notFound_of_tag (h : ScanMove m ranges k k')
    (hload : (load64 m (a + 8) &&& ptrTagMask) ≠ ptrTag) (hnot : a ∉ k.found) : a ∉ k'.found := by
  cases h with
  | take ptr stop _ _ _ htag =>
      intro hfound
      rcases List.mem_append.mp hfound with hold | hnew
      · exact hnot hold
      · rw [List.mem_singleton.mp hnew] at hload
        exact hload htag
  | _ => exact hnot

/-- How many reads the scan still takes, at most. -/
def Scan.readsLeft (ranges : StackRanges) (k : Scan) : Nat :=
  (k.rest.map (stackReads ranges)).sum +
    match k.cursor with
    | none => 0
    | some (ptr, stop) => (stop - ptr) / 4 + 1 - if k.header then 1 else 0

theorem ScanMove.readsLeft_lt (h : ScanMove m ranges k k') (hok : ScanOk k) :
    k'.readsLeft ranges < k.readsLeft ranges := by
  rw [Scan.readsLeft, Scan.readsLeft]
  cases h with
  | enter id rest base sp first hcursor hrest hrange _ hle =>
      have hreads : stackReads ranges id = (base + 1 - (sp - redZoneSize)) / 4 + 2 := by
        rw [stackReads, hrange]
      rw [hcursor, hrest, List.map_cons, List.sum_cons, hreads, hok.idle hcursor]
      dsimp only
      rw [if_neg Bool.false_ne_true]
      omega
  | leave ptr stop hcursor hheader =>
      rw [hcursor, hheader]
      dsimp only
      rw [if_neg Bool.false_ne_true]
      omega
  | header ptr stop hcursor hheader =>
      rw [hcursor, hheader]
      dsimp only
      rw [if_neg Bool.false_ne_true, if_pos rfl]
      omega
  | skip ptr stop hcursor hheader =>
      rw [hcursor, hheader]
      dsimp only
      rw [if_neg Bool.false_ne_true]
      omega
  | take ptr stop hcursor hheader | pass ptr stop hcursor hheader =>
      rw [hcursor, hheader]
      dsimp only
      rw [if_neg Bool.false_ne_true, if_pos rfl]
      omega

end Finds

/-- **What a scan returns** while other threads write to the stacks: every slot that is a pointer all
the time, and no slot whose words were never those of one. -/
theorem scan_finds {result : List Nat} (hrefines : ∃ ranges, Refines s ranges)
    (hwithin : RangesWithin s.roots.stackRanges)
    (hthread : s.threads t = .scan c (.start s.roots.stackRanges))
    (hcalls : ∀ a ∈ actions, a.isCallOf t = false)
    (hrun : Machine.run step actions s = some s') (hidle : s'.threads t = .idle (some result)) :
    ∃ locals, result = s.roots.globalRoots ++ locals ∧ ∀ a,
      (Swept s.roots.stackRanges a →
        Machine.Meets step (fun v _ => maybePtr v.mem a = true) actions s → a ∈ locals) ∧
      (a ∈ locals → Swept s.roots.stackRanges a ∧
        ¬ Machine.Meets step (fun v _ => load64 v.mem a ≠ ptrHeader) actions s ∧
        ¬ Machine.Meets step (fun v _ => (load64 v.mem (a + 8) &&& ptrTagMask) ≠ ptrTag)
          actions s) := by
  have hslot : gcPtrSize = 16 := rfl
  have halways : Machine.Meets step (fun _ _ => True) actions s :=
    .of_forall fun _ _ _ => trivial
  obtain ⟨locals, hresult, hswept⟩ := scan_result (C := fun _ => True)
    (P := FoundInStacks s.roots.stackRanges)
    (Q := fun found => ∀ a ∈ found, Swept s.roots.stackRanges a) hrefines hwithin
    (fun m k k' _ hok hmove hfound => hmove.foundInStacks hok hfound)
    (fun k _ _ hfound => hfound.1) hthread
    ⟨fun a ha => absurd ha List.not_mem_nil, fun _ _ h => by cases h⟩ halways hcalls hrun hidle
  refine ⟨locals, hresult, fun a => ⟨fun hstack hptr => ?_, fun ha => ⟨hswept a ha, ?_, ?_⟩⟩⟩
  · obtain ⟨id, base, sp, hrange, hdvd, hlow, hhigh⟩ := hstack
    obtain ⟨found, hfound, ha⟩ := scan_result (C := fun m => maybePtr m a = true)
      (P := fun k => a ∈ k.found ∨ Ahead s.roots.stackRanges a k) (Q := fun found => a ∈ found)
      hrefines hwithin (fun m k k' hptr hok hmove hfinds => hmove.finds hok hdvd hptr hfinds)
      (fun k hrest hcursor hfinds => found_of_end hrest hcursor hfinds) hthread
      (Or.inr (Or.inl ⟨id, AssocMap.mem_of_lookup hrange, base, sp, hrange, hlow, by omega⟩))
      hptr hcalls hrun hidle
    rwa [List.append_cancel_left (hresult.symm.trans hfound)]
  · intro hnever
    obtain ⟨found, hfound, hnot⟩ := scan_result (C := fun m => load64 m a ≠ ptrHeader)
      (P := fun k => a ∉ k.found ∧ ∀ stop, k.cursor = some (a, stop) → k.header = false)
      (Q := fun found => a ∉ found) hrefines hwithin
      (fun m k k' hload hok hmove hnot => hmove.notFound_of_header hok hload hnot)
      (fun k _ _ hnot => hnot.1) hthread
      ⟨List.not_mem_nil, fun _ h => by cases h⟩ hnever hcalls hrun hidle
    rw [← List.append_cancel_left (hresult.symm.trans hfound)] at hnot
    exact hnot ha
  · intro hnever
    obtain ⟨found, hfound, hnot⟩ := scan_result
      (C := fun m => (load64 m (a + 8) &&& ptrTagMask) ≠ ptrTag)
      (P := fun k => a ∉ k.found) (Q := fun found => a ∉ found) hrefines hwithin
      (fun m k k' hload _ hmove hnot => hmove.notFound_of_tag hload hnot)
      (fun k _ _ hnot => hnot) hthread List.not_mem_nil hnever hcalls hrun hidle
    rw [← List.append_cancel_left (hresult.symm.trans hfound)] at hnot
    exact hnot ha

end Gcpp.RootsLock
