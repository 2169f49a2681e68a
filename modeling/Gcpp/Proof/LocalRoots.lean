import Gcpp.SafePtr
import Mathlib.Order.Lattice
import Mathlib.Order.Nat

/-!
# The roots on the stack

The recorded range reaches from the stack pointer of the last report up to the largest base that was
ever reported. Of the functions that create a safe pointer, `make_safe` and the constructor for
arrays report the base of their caller, and the others only bases of frames below it, so a frame can
hold safe pointers above everything that was reported.
-/

namespace Gcpp

variable {frames frames' : List Frame} {id : ThreadId} {s t : ThreadStack} {op : StackOp}

/-! ### Frames are nested -/

/-- Bases decrease inwards, and what a frame holds lies above the base of the next frame. -/
def Nested : List Frame → Prop
  | [] => True
  | [_] => True
  | inner :: outer :: frames =>
      inner.base < outer.base ∧ (∀ slot ∈ outer.held, inner.base ≤ slot) ∧ Nested (outer :: frames)

theorem Nested.tail {frame : Frame} (h : Nested (frame :: frames)) : Nested frames := by
  cases frames with
  | nil => trivial
  | cons outer frames => exact h.2.2

/-- Everything that the outer frames hold lies above the base of the innermost one. -/
theorem Nested.base_le {frame : Frame} (h : Nested (frame :: frames)) :
    ∀ outer ∈ frames, ∀ slot ∈ outer.held, frame.base ≤ slot := by
  induction frames generalizing frame with
  | nil =>
      intro outer houter
      cases houter
  | cons next frames ih =>
      obtain ⟨hbase, hheld, hrest⟩ := h
      intro outer houter slot hslot
      rcases List.mem_cons.mp houter with rfl | houter
      · exact hheld slot hslot
      · exact (Nat.le_of_lt hbase).trans (ih hrest outer houter slot hslot)

theorem spBelow_iff {sp : Nat} : spBelow sp frames = true ↔
    ∃ frame rest, frames = frame :: rest ∧ sp ≤ frame.base ∧ ∀ slot ∈ frame.held, sp ≤ slot := by
  cases frames with
  | nil => simp [spBelow]
  | cons frame rest => simp [spBelow]

theorem Nested.sp_le {sp : Nat} (h : Nested frames) (hsp : spBelow sp frames = true) :
    ∀ frame ∈ frames, ∀ slot ∈ frame.held, sp ≤ slot := by
  obtain ⟨top, rest, rfl, hbase, hheld⟩ := spBelow_iff.mp hsp
  intro frame hframe slot hslot
  rcases List.mem_cons.mp hframe with rfl | hframe
  · exact hheld slot hslot
  · exact hbase.trans (h.base_le frame hframe slot hslot)

theorem Nested.holdAt {depth slot : Nat} (h : Nested frames) : ∀ {lower : Nat},
    holdAt lower frames depth slot = some frames' → Nested frames' ∧
      ∀ frame ∈ frames'.head?, (∃ old ∈ frames.head?, frame.base = old.base ∧
        ∀ q ∈ frame.held, q ∈ old.held ∨ lower ≤ q) := by
  induction depth generalizing frames frames' with
  | zero =>
      intro lower hhold
      cases frames with
      | nil => cases hhold
      | cons frame rest =>
          rw [Gcpp.holdAt] at hhold
          split at hhold
          · rename_i hslot
            cases hhold
            refine ⟨?_, fun f hf => ?_⟩
            · cases rest with
              | nil => trivial
              | cons outer rest => exact h
            · cases hf
              refine ⟨frame, rfl, rfl, fun q hq => ?_⟩
              rcases List.mem_cons.mp hq with rfl | hq
              · exact Or.inr hslot.1
              · exact Or.inl hq
          · cases hhold
  | succ depth ih =>
      intro lower hhold
      cases frames with
      | nil => cases hhold
      | cons frame rest =>
          rw [Gcpp.holdAt] at hhold
          obtain ⟨rest', hrest, rfl⟩ := Option.map_eq_some_iff.mp hhold
          obtain ⟨hnested, hhead⟩ := ih h.tail hrest
          refine ⟨?_, fun f hf => ?_⟩
          · cases rest' with
            | nil => trivial
            | cons outer' rest' =>
                obtain ⟨outer, houter, hbase, hheld⟩ := hhead outer' rfl
                cases rest with
                | nil => cases houter
                | cons outer₀ rest =>
                    cases houter
                    refine ⟨by rw [hbase]; exact h.1, fun q hq => ?_, hnested⟩
                    rcases hheld q hq with hq | hq
                    · exact h.2.1 q hq
                    · exact hq
          · cases hf
            exact ⟨frame, rfl, rfl, fun q hq => Or.inl hq⟩

/-- **Every operation keeps the frames nested.** -/
theorem Nested.next (h : Nested frames) (hnext : nextFrames frames op = some frames') :
    Nested frames' := by
  cases op with
  | call base =>
      cases frames with
      | nil =>
          cases hnext
          trivial
      | cons frame frames =>
          rw [nextFrames] at hnext
          split at hnext
          · rename_i hcall
            cases hnext
            refine ⟨hcall.1, fun slot hslot => ?_, h⟩
            exact of_decide_eq_true (List.all_eq_true.mp hcall.2 slot hslot)
          · cases hnext
  | ret =>
      cases frames with
      | nil => cases hnext
      | cons frame frames =>
          cases hnext
          exact h.tail
  | hold depth slot => exact (h.holdAt hnext).1
  | update sp =>
      rw [nextFrames] at hnext
      split at hnext
      · cases hnext
        exact h
      · cases hnext
  | updateNested1 sp =>
      rw [nextFrames] at hnext
      split at hnext
      · cases hnext
        exact h
      · cases hnext
  | getRoots sp =>
      rw [nextFrames] at hnext
      split at hnext
      · cases hnext
        exact h
      · cases hnext

/-! ### What is recorded -/

def reportedBases : List Frame → List StackOp → List Nat
  | _, [] => []
  | frames, op :: ops =>
      (reported frames op).elim [] (fun (basePtr, _) => [basePtr]) ++
        (nextFrames frames op).elim [] fun frames => reportedBases frames ops

def framesAfter (frames : List Frame) (ops : List StackOp) : Option (List Frame) :=
  Machine.run (fun op frames => nextFrames frames op) ops frames

theorem framesAfter_cons {ops : List StackOp} (h : framesAfter frames (op :: ops) = some frames') :
    ∃ next, nextFrames frames op = some next ∧ framesAfter next ops = some frames' :=
  Option.bind_eq_some_iff.mp h

theorem reportedBases_append (first second : List StackOp) : ∀ {frames frames' : List Frame},
    framesAfter frames first = some frames' →
      reportedBases frames (first ++ second) =
        reportedBases frames first ++ reportedBases frames' second := by
  induction first with
  | nil =>
      intro frames frames' hframes
      cases hframes
      rfl
  | cons op first ih =>
      intro frames frames' hframes
      obtain ⟨next, hnext, hrest⟩ := framesAfter_cons hframes
      rw [List.cons_append, reportedBases, reportedBases, hnext, Option.elim_some, Option.elim_some,
        ih hrest, List.append_assoc]

theorem framesAfter_append {first second : List StackOp} :
    framesAfter frames (first ++ second) =
      (framesAfter frames first).bind fun next => framesAfter next second :=
  Machine.run_append first second

/-- The recorded range: its start is the largest base reported so far. -/
structure Recorded (id : ThreadId) (bases : List Nat) (ranges : StackRanges) : Prop where
  absent : bases = [] → ranges.lookup id = none
  range : bases ≠ [] → ∃ stackStart stackEnd, ranges.lookup id = some (stackStart, stackEnd) ∧
    stackStart ∈ bases ∧ ∀ base ∈ bases, base ≤ stackStart

/-- **One report**: whichever way it takes, the range is what it should be. -/
theorem Recorded.update {bases : List Nat} {ranges : StackRanges} (h : Recorded id bases ranges)
    (basePtr sp : Nat) :
    Recorded id (bases ++ [basePtr]) (updateStackRange ranges id basePtr sp) ∧
      ∃ stackStart, (updateStackRange ranges id basePtr sp).lookup id = some (stackStart, sp) := by
  rw [updateStackRange]
  by_cases hbases : bases = []
  · rw [h.absent hbases, hbases]
    refine ⟨{ absent := fun hnil => by simp at hnil, range := fun _ => ?_ }, basePtr, ?_⟩
    · exact ⟨basePtr, sp, AList.lookup_insert _, by simp⟩
    · exact AList.lookup_insert _
  · obtain ⟨stackStart, stackEnd, hlookup, hmem, hmax⟩ := h.range hbases
    rw [hlookup]
    dsimp only
    split
    · -- the early return: nothing new is reported
      rename_i hsame
      refine ⟨{ absent := fun hnil => by simp at hnil, range := fun _ => ?_ }, stackStart, ?_⟩
      · refine ⟨stackStart, stackEnd, hlookup, List.mem_append_left _ hmem, fun base hbase => ?_⟩
        rcases List.mem_append.mp hbase with hbase | hbase
        · exact hmax base hbase
        · rw [List.mem_singleton.mp hbase]
          exact hsame.1
      · rw [hsame.2, hlookup]
    · refine ⟨{ absent := fun hnil => by simp at hnil, range := fun _ => ?_ },
        max stackStart basePtr, AList.lookup_insert _⟩
      refine ⟨max stackStart basePtr, sp, AList.lookup_insert _, ?_, fun base hbase => ?_⟩
      · rcases max_choice stackStart basePtr with heq | heq <;> rw [heq]
        · exact List.mem_append_left _ hmem
        · exact List.mem_append_right _ (List.mem_singleton_self _)
      · rcases List.mem_append.mp hbase with hbase | hbase
        · exact (hmax base hbase).trans (le_max_left _ _)
        · rw [List.mem_singleton.mp hbase]
          exact le_max_right _ _

/-- The stack of a thread after operations that reported `bases`. -/
structure ThreadInv (id : ThreadId) (bases : List Nat) (s : ThreadStack) : Prop where
  nested : Nested s.frames
  recorded : Recorded id bases s.ranges

theorem ThreadInv.empty : ThreadInv id [] ThreadStack.empty where
  nested := trivial
  recorded := { absent := fun _ => rfl, range := fun hne => absurd rfl hne }

theorem nextFrames_of_exec (hexec : s.exec id op = some t) :
    nextFrames s.frames op = some t.frames := by
  rw [ThreadStack.exec] at hexec
  obtain ⟨frames, hframes, rfl⟩ := Option.map_eq_some_iff.mp hexec
  exact hframes

theorem ThreadInv.exec {bases : List Nat} (h : ThreadInv id bases s)
    (hexec : s.exec id op = some t) :
    ThreadInv id (bases ++ (reported s.frames op).elim [] fun (basePtr, _) => [basePtr]) t := by
  rw [ThreadStack.exec] at hexec
  obtain ⟨frames, hframes, rfl⟩ := Option.map_eq_some_iff.mp hexec
  refine { nested := h.nested.next hframes, recorded := ?_ }
  dsimp only
  cases hreported : reported s.frames op with
  | none =>
      rw [Option.elim_none, List.append_nil]
      exact h.recorded
  | some report =>
      obtain ⟨basePtr, sp⟩ := report
      exact (h.recorded.update basePtr sp).1

theorem ThreadInv.run (ops : List StackOp) : ∀ {bases s t}, ThreadInv id bases s →
    s.run id ops = some t → ThreadInv id (bases ++ reportedBases s.frames ops) t := by
  induction ops with
  | nil =>
      intro bases s t h hrun
      cases hrun
      rw [reportedBases, List.append_nil]
      exact h
  | cons op ops ih =>
      intro bases s t h hrun
      obtain ⟨next, hexec, hrest⟩ := Option.bind_eq_some_iff.mp hrun
      have hnext := ih (h.exec hexec) hrest
      rw [reportedBases, nextFrames_of_exec hexec, Option.elim_some, ← List.append_assoc]
      exact hnext

theorem framesAfter_of_run {ops : List StackOp} (hrun : s.run id ops = some t) :
    framesAfter s.frames ops = some t.frames := by
  induction ops generalizing s with
  | nil =>
      cases hrun
      rfl
  | cons op ops ih =>
      obtain ⟨next, hexec, hrest⟩ := Option.bind_eq_some_iff.mp hrun
      exact Option.bind_eq_some_iff.mpr ⟨next.frames, nextFrames_of_exec hexec, ih hrest⟩

/-! ### Who reports which base -/

/-- The bases that `GC::alloc` reports: the one of `GC::collect`, and its own through
`CopyingCollector::alloc`. -/
def AllocCall.reports (c : AllocCall) : List Nat :=
  c.collect.elim [] (fun (base, _) => [base]) ++ c.alloc.elim [] fun _ => [c.base]

/-- The bases that a creation reports before the object is constructed. The base of the calling
frame is `caller`. -/
def Creation.enterReports (caller : Option Nat) : Creation → List Nat
  | .constructor _ c => c.reports
  | .make _ c => c.reports
  | .clone _ c => c.reports
  | .arrayConstructor _ c _ => c.reports
  | .arrayMake _ _ c _ => c.reports
  | .arrayClone _ c => c.reports
  | .makeSafe _ _ _ c => caller.toList ++ c.reports
  | .arrayMakeSafe _ _ _ _ c _ => caller.toList ++ c.reports

/-- The bases that it reports afterwards. The frame outside its innermost one has the base
`caller`. -/
def Creation.leaveReports (caller : Option Nat) : Creation → List Nat
  | .arrayConstructor _ _ _ => caller.toList
  | .arrayMake _ _ _ _ => caller.toList
  | .arrayMakeSafe _ _ _ _ _ _ => caller.toList
  | _ => []

def StackEvent.reports (frames : List Frame) : StackEvent → List Nat
  | .enter c => c.enterReports (frames.head?.map Frame.base)
  | .leave c => c.leaveReports (frames.tail.head?.map Frame.base)
  | .getRoots _ => (frames.head?.map Frame.base).toList
  | _ => []

def historyReports : List Frame → List StackEvent → List Nat
  | _, [] => []
  | frames, e :: events =>
      e.reports frames ++ (framesAfter frames e.ops).elim [] fun frames => historyReports frames events

theorem nextFrames_call {base : Nat} (h : nextFrames frames (.call base) = some frames') :
    frames' = { base, held := [] } :: frames := by
  cases frames with
  | nil =>
      cases h
      rfl
  | cons frame frames =>
      rw [nextFrames] at h
      split at h
      · cases h
        rfl
      · cases h

theorem nextFrames_update {sp : Nat} (h : nextFrames frames (.update sp) = some frames') :
    frames' = frames := by
  rw [nextFrames] at h
  split at h
  · cases h
    rfl
  · cases h

theorem nextFrames_updateNested1 {sp : Nat}
    (h : nextFrames frames (.updateNested1 sp) = some frames') : frames' = frames := by
  rw [nextFrames] at h
  split at h
  · cases h
    rfl
  · cases h

theorem reportedBases_cons {ops : List StackOp} (h : nextFrames frames op = some frames') :
    reportedBases frames (op :: ops) =
      (reported frames op).elim [] (fun (basePtr, _) => [basePtr]) ++ reportedBases frames' ops := by
  rw [reportedBases, h, Option.elim_some]

theorem reports_gcCollect {base sp : Nat}
    (h : framesAfter frames (gcCollect base sp) = some frames') :
    frames' = frames ∧ reportedBases frames (gcCollect base sp) = [base] := by
  obtain ⟨inner, hcall, h⟩ := framesAfter_cons h
  obtain ⟨next, hupdate, h⟩ := framesAfter_cons h
  obtain rfl := nextFrames_call hcall
  obtain rfl := nextFrames_update hupdate
  cases h
  refine ⟨rfl, ?_⟩
  rw [gcCollect, reportedBases_cons hcall, reportedBases_cons hupdate]
  rfl

theorem reports_collectorAlloc {frame : Frame} {base sp : Nat}
    (h : framesAfter (frame :: frames) (collectorAlloc base sp) = some frames') :
    frames' = frame :: frames ∧
      reportedBases (frame :: frames) (collectorAlloc base sp) = [frame.base] := by
  obtain ⟨inner, hcall, h⟩ := framesAfter_cons h
  obtain ⟨next, hupdate, h⟩ := framesAfter_cons h
  obtain rfl := nextFrames_call hcall
  obtain rfl := nextFrames_updateNested1 hupdate
  cases h
  refine ⟨rfl, ?_⟩
  rw [collectorAlloc, reportedBases_cons hcall, reportedBases_cons hupdate]
  rfl

/-- **`GC::alloc`** leaves the frames as they are. -/
theorem reports_gcAlloc {c : AllocCall} (h : framesAfter frames (gcAlloc c) = some frames') :
    frames' = frames ∧ reportedBases frames (gcAlloc c) = c.reports := by
  obtain ⟨inner, hcall, h⟩ := framesAfter_cons h
  obtain rfl := nextFrames_call hcall
  rw [framesAfter_append] at h
  obtain ⟨beforeRet, hbefore, hret⟩ := Option.bind_eq_some_iff.mp h
  obtain ⟨afterCollect, hcollect, halloc⟩ :=
    Option.bind_eq_some_iff.mp (framesAfter_append ▸ hbefore)
  have hcollected : afterCollect = { base := c.base, held := [] } :: frames ∧
      reportedBases ({ base := c.base, held := [] } :: frames)
        (c.collect.elim [] fun (base, sp) => gcCollect base sp) =
        c.collect.elim [] (fun (base, _) => [base]) := by
    cases hc : c.collect with
    | none =>
        rw [hc] at hcollect
        cases hcollect
        exact ⟨rfl, rfl⟩
    | some pair =>
        rw [hc] at hcollect
        exact reports_gcCollect hcollect
  obtain ⟨rfl, hcollectReports⟩ := hcollected
  have hallocated : beforeRet = { base := c.base, held := [] } :: frames ∧
      reportedBases ({ base := c.base, held := [] } :: frames)
        (c.alloc.elim [] fun (base, sp) => collectorAlloc base sp) =
        c.alloc.elim [] fun _ => [c.base] := by
    cases ha : c.alloc with
    | none =>
        rw [ha] at halloc
        cases halloc
        exact ⟨rfl, rfl⟩
    | some pair =>
        rw [ha] at halloc
        exact reports_collectorAlloc halloc
  obtain ⟨rfl, hallocReports⟩ := hallocated
  cases hret
  refine ⟨rfl, ?_⟩
  rw [gcAlloc, reportedBases_cons hcall, reportedBases_append _ _ hbefore,
    reportedBases_append _ _ hcollect, hcollectReports, hallocReports]
  exact List.append_nil _

theorem reports_call_gcAlloc {base : Nat} {c : AllocCall}
    (h : framesAfter frames (.call base :: gcAlloc c) = some frames') :
    reportedBases frames (.call base :: gcAlloc c) = c.reports := by
  obtain ⟨inner, hcall, h⟩ := framesAfter_cons h
  rw [reportedBases_cons hcall, (reports_gcAlloc h).2]
  rfl

theorem reports_enter {c : Creation} (h : framesAfter frames c.enter = some frames') :
    reportedBases frames c.enter = c.enterReports (frames.head?.map Frame.base) := by
  cases c with
  | constructor base c => exact reports_call_gcAlloc h
  | make base c => exact reports_call_gcAlloc h
  | clone base c => exact reports_call_gcAlloc h
  | arrayConstructor base c sp => exact reports_call_gcAlloc h
  | arrayMake base constructorBase c sp =>
      obtain ⟨inner, hcall, h⟩ := framesAfter_cons h
      rw [Creation.enter, reportedBases_cons hcall, reports_call_gcAlloc h]
      rfl
  | arrayClone base c => exact reports_call_gcAlloc h
  | makeSafe base sp makeBase c =>
      obtain ⟨inner, hcall, h⟩ := framesAfter_cons h
      obtain ⟨next, hupdate, h⟩ := framesAfter_cons h
      obtain rfl := nextFrames_call hcall
      obtain rfl := nextFrames_updateNested1 hupdate
      rw [Creation.enter, reportedBases_cons hcall, reportedBases_cons hupdate,
        reports_call_gcAlloc h]
      cases frames <;> rfl
  | arrayMakeSafe base sp makeBase constructorBase c constructorSp =>
      obtain ⟨inner, hcall, h⟩ := framesAfter_cons h
      obtain ⟨next, hupdate, h⟩ := framesAfter_cons h
      obtain ⟨made, hmake, hconstructor⟩ := framesAfter_cons h
      obtain rfl := nextFrames_call hcall
      obtain rfl := nextFrames_updateNested1 hupdate
      rw [Creation.enter, reportedBases_cons hcall, reportedBases_cons hupdate,
        reportedBases_cons hmake, reports_call_gcAlloc hconstructor]
      cases frames <;> rfl

theorem reports_ret {ops : List StackOp} (h : framesAfter frames (.ret :: ops) = some frames') :
    framesAfter frames.tail ops = some frames' ∧
      reportedBases frames (.ret :: ops) = reportedBases frames.tail ops := by
  obtain ⟨next, hnext, hrest⟩ := framesAfter_cons h
  rw [reportedBases_cons hnext]
  cases frames with
  | nil => cases hnext
  | cons frame frames =>
      cases hnext
      exact ⟨hrest, rfl⟩

/-- The base of the frame outside the innermost one is what `GC_UPDATE_STACK_RANGE_NESTED_1`
reports. -/
theorem reports_updateNested1 {sp : Nat} {ops : List StackOp}
    (h : framesAfter frames (.updateNested1 sp :: ops) = some frames') :
    framesAfter frames ops = some frames' ∧
      reportedBases frames (.updateNested1 sp :: ops) =
        (frames.tail.head?.map Frame.base).toList ++ reportedBases frames ops := by
  obtain ⟨next, hupdate, hrest⟩ := framesAfter_cons h
  obtain rfl := nextFrames_updateNested1 hupdate
  refine ⟨hrest, ?_⟩
  rw [reportedBases_cons hupdate, reported]
  cases next.tail.head? <;> rfl

theorem reports_leave {c : Creation} (h : framesAfter frames c.leave = some frames') :
    reportedBases frames c.leave = c.leaveReports (frames.tail.head?.map Frame.base) := by
  cases c with
  | constructor base c => exact (reports_ret h).2
  | make base c => exact (reports_ret h).2
  | clone base c => exact (reports_ret h).2
  | arrayConstructor base c sp =>
      obtain ⟨hret, hreports⟩ := reports_updateNested1 h
      rw [Creation.leave, hreports, (reports_ret hret).2]
      exact List.append_nil _
  | arrayMake base constructorBase c sp =>
      obtain ⟨hret, hreports⟩ := reports_updateNested1 h
      obtain ⟨hlast, hreports'⟩ := reports_ret hret
      rw [Creation.leave, hreports, hreports', (reports_ret hlast).2]
      exact List.append_nil _
  | arrayClone base c => exact (reports_ret h).2
  | makeSafe base sp makeBase c =>
      obtain ⟨hlast, hreports⟩ := reports_ret h
      rw [Creation.leave, hreports, (reports_ret hlast).2]
      rfl
  | arrayMakeSafe base sp makeBase constructorBase c constructorSp =>
      obtain ⟨hret, hreports⟩ := reports_updateNested1 h
      obtain ⟨hmade, hreports'⟩ := reports_ret hret
      obtain ⟨hlast, hreports''⟩ := reports_ret hmade
      rw [Creation.leave, hreports, hreports', hreports'', (reports_ret hlast).2]
      exact List.append_nil _

theorem reports_event {e : StackEvent} (h : framesAfter frames e.ops = some frames') :
    reportedBases frames e.ops = e.reports frames := by
  cases e with
  | enter c => exact reports_enter h
  | leave c => exact reports_leave h
  | call base =>
      obtain ⟨next, hcall, _⟩ := framesAfter_cons h
      exact reportedBases_cons hcall
  | ret => exact (reports_ret h).2
  | hold depth slot =>
      obtain ⟨next, hhold, _⟩ := framesAfter_cons h
      exact reportedBases_cons hhold
  | getRoots sp =>
      obtain ⟨next, hroots, _⟩ := framesAfter_cons h
      rw [StackEvent.ops, reportedBases_cons hroots, reported, StackEvent.reports]
      cases frames.head? <;> rfl

/-- **What a history reports**, event by event. -/
theorem reports_history (events : List StackEvent) : ∀ {frames frames' : List Frame},
    framesAfter frames (stackOps events) = some frames' →
      reportedBases frames (stackOps events) = historyReports frames events := by
  induction events with
  | nil =>
      intro frames frames' _
      rfl
  | cons e events ih =>
      intro frames frames' h
      rw [stackOps, List.flatMap_cons] at h ⊢
      rw [framesAfter_append] at h
      obtain ⟨next, hevent, hrest⟩ := Option.bind_eq_some_iff.mp h
      rw [reportedBases_append _ _ hevent, reports_event hevent, historyReports, hevent,
        Option.elim_some]
      exact congrArg _ (ih hrest)

/-! ### Completeness -/

/-- Every safe pointer that an active frame holds lies in the recorded range, with the red zone. -/
def LocalsInRange (id : ThreadId) (s : ThreadStack) : Prop :=
  ∀ frame ∈ s.frames, ∀ slot ∈ frame.held, ∃ stackStart stackEnd,
    s.ranges.lookup id = some (stackStart, stackEnd) ∧ stackEnd - redZoneSize ≤ slot ∧
      slot + gcPtrSize ≤ stackStart

def LocalsReported (frames : List Frame) (bases : List Nat) : Prop :=
  ∀ frame ∈ frames, ∀ slot ∈ frame.held, ∃ base ∈ bases, slot + gcPtrSize ≤ base

/-- The thread after a call of `get_roots` in a history: what came before it, and the stack pointer
of the call. -/
def CallsGetRoots (id : ThreadId) (events before : List StackEvent) (sp : Nat) (s : ThreadStack) :
    Prop :=
  (∃ after, events = before ++ .getRoots sp :: after) ∧
    ThreadStack.empty.run id (stackOps (before ++ [.getRoots sp])) = some s

theorem ThreadInv.getRoots {bases : List Nat} {sp : Nat} (h : ThreadInv id bases s)
    (hexec : s.exec id (.getRoots sp) = some t) :
    t.frames = s.frames ∧ spBelow sp s.frames = true ∧
      ∃ stackStart, t.ranges.lookup id = some (stackStart, sp) := by
  rw [ThreadStack.exec] at hexec
  obtain ⟨frames, hframes, rfl⟩ := Option.map_eq_some_iff.mp hexec
  rw [nextFrames] at hframes
  split at hframes
  · rename_i hsp
    cases hframes
    obtain ⟨top, rest, hstack, _⟩ := spBelow_iff.mp hsp
    refine ⟨rfl, hsp, ?_⟩
    have hreported : reported s.frames (.getRoots sp) = some (top.base, sp) := by
      rw [hstack]
      rfl
    rw [hreported]
    exact (h.recorded.update top.base sp).2
  · cases hframes

/-- **The range covers what was reported.** In a history of calls, returns and creations of safe
pointers, every call of `get_roots` finds all safe pointers of the active frames in the recorded
range exactly if at every call each of them lies below a base that an event has reported. -/
theorem locals_in_range_iff (id : ThreadId) (events : List StackEvent) :
    (∀ before sp s, CallsGetRoots id events before sp s → LocalsInRange id s) ↔
      ∀ before sp s, CallsGetRoots id events before sp s →
        LocalsReported s.frames (historyReports [] (before ++ [.getRoots sp])) := by
  have hcall : ∀ {before sp s}, CallsGetRoots id events before sp s →
      (LocalsInRange id s ↔
        LocalsReported s.frames (historyReports [] (before ++ [.getRoots sp]))) := by
    rintro before sp s ⟨_, hrun⟩
    have hreports : reportedBases [] (stackOps (before ++ [.getRoots sp])) =
        historyReports [] (before ++ [.getRoots sp]) :=
      reports_history _ (framesAfter_of_run hrun)
    rw [← hreports]
    have hinv := ThreadInv.empty.run _ hrun
    rw [List.nil_append] at hinv
    have hsplit : stackOps (before ++ [.getRoots sp]) = stackOps before ++ [.getRoots sp] := by
      rw [stackOps, List.flatMap_append]
      rfl
    rw [hsplit, ThreadStack.run, Machine.run_append] at hrun
    obtain ⟨prev, hprev, hlast⟩ := Option.bind_eq_some_iff.mp hrun
    obtain ⟨next, hexec, hdone⟩ := Option.bind_eq_some_iff.mp hlast
    obtain rfl : next = s := Option.some.inj hdone
    have hprevInv := ThreadInv.empty.run _ hprev
    obtain ⟨hframes, hsp, stackStart, hlookup⟩ := hprevInv.getRoots hexec
    -- a call has been made, so a base has been reported
    have hne : reportedBases [] (stackOps (before ++ [.getRoots sp])) ≠ [] := fun hnil => by
      have hnone := hinv.recorded.absent hnil
      rw [hlookup] at hnone
      cases hnone
    obtain ⟨_, _, hlookup', hmem, hmax⟩ := hinv.recorded.range hne
    rw [hlookup] at hlookup'
    cases hlookup'
    have hlow : ∀ frame ∈ next.frames, ∀ slot ∈ frame.held, sp ≤ slot := by
      rw [hframes]
      exact hprevInv.nested.sp_le hsp
    constructor
    · intro hrange frame hframe slot hslot
      obtain ⟨start, stop, hlookup', _, hhi⟩ := hrange frame hframe slot hslot
      rw [hlookup] at hlookup'
      cases hlookup'
      exact ⟨stackStart, hmem, hhi⟩
    · intro hreported frame hframe slot hslot
      obtain ⟨base, hbase, hhi⟩ := hreported frame hframe slot hslot
      exact ⟨stackStart, sp, hlookup, (Nat.sub_le _ _).trans (hlow frame hframe slot hslot),
        hhi.trans (hmax base hbase)⟩
  constructor
  · intro h before sp s hcalls
    exact (hcall hcalls).mp (h before sp s hcalls)
  · intro h before sp s hcalls
    exact (hcall hcalls).mpr (h before sp s hcalls)

/-! ### A safe pointer that no report covers -/

/-- A frame constructs a safe pointer, holds it, and calls a function that asks for the roots. -/
def constructorHistory : List StackEvent :=
  let c := Creation.constructor 30000 { base := 20000, collect := none, alloc := some (10000, 9000) }
  [.call 40000, .enter c, .leave c, .hold 0 35000, .call 25000]

/-- **What a constructor returns is not covered**: the base that is reported is the one of the
innermost frame, and the caller of the constructor holds the safe pointer above it. -/
theorem constructed_local_missed : ¬ ∀ before sp s,
    CallsGetRoots 1 (constructorHistory ++ [.getRoots 8000]) before sp s → LocalsInRange 1 s := by
  intro h
  have hcalls : ∃ s, CallsGetRoots 1 (constructorHistory ++ [.getRoots 8000]) constructorHistory
      8000 s ∧ (∃ frame ∈ s.frames, 35000 ∈ frame.held) ∧
        s.ranges.lookup 1 = some (25000, 8000) :=
    ⟨_, ⟨⟨[], rfl⟩, rfl⟩, by decide, by decide⟩
  obtain ⟨s, hcalls, ⟨frame, hframe, hheld⟩, hlookup⟩ := hcalls
  obtain ⟨stackStart, stackEnd, hlookup', _, hhi⟩ := h _ _ s hcalls frame hframe 35000 hheld
  rw [hlookup] at hlookup'
  cases hlookup'
  exact absurd hhi (by decide)

end Gcpp
