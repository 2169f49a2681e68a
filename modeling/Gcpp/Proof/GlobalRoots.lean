import Gcpp.Proof.MapsText

/-!
# The roots in the data segment

The slots of the data segment are looked for once, in the memory that the first call finds. Later
calls return the slots of that time, whatever has become of the memory since, and what lies on the
stacks.
-/

namespace Gcpp

open ByteMemory

variable {m m₀ : Memory} {maps : List MapsLine} {a : Nat}

theorem mem_appendAll {α β : Type} {f : α → Option (List β)} {xs : List α} {all : List β} {b : β}
    (h : appendAll f xs = some all) :
    b ∈ all ↔ ∃ x ∈ xs, ∃ found, f x = some found ∧ b ∈ found := by
  induction xs generalizing all with
  | nil =>
      cases h
      simp
  | cons x xs ih =>
      rw [appendAll] at h
      split at h
      · rename_i found rest hfound hrest
        cases h
        rw [List.mem_append, ih hrest]
        simp [hfound]
      · cases h

theorem appendAll_returns {α β : Type} {f : α → Option (List β)} {xs : List α}
    (h : ∀ x ∈ xs, ∃ found, f x = some found) : ∃ all, appendAll f xs = some all := by
  induction xs with
  | nil => exact ⟨[], rfl⟩
  | cons x xs ih =>
      obtain ⟨found, hfound⟩ := h x List.mem_cons_self
      obtain ⟨rest, hrest⟩ := ih fun y hy => h y (List.mem_cons_of_mem x hy)
      exact ⟨found ++ rest, by rw [appendAll, hfound, hrest]⟩

def InData (m : Memory) (maps : List MapsLine) (a : Nat) : Prop :=
  ∃ l ∈ maps, l.IsData ∧ InScan m l.start l.stop a

/-- **The scan of the globals is exact**, up to the last slot of a region. -/
theorem scanGlobals_spec (m : Memory) (maps : List MapsLine) :
    ∃ found, scanGlobals m (maps.map MapsLine.text) = some found ∧
      ∀ a, a ∈ found ↔ InData m maps a := by
  have hline : ∀ l : MapsLine, ∃ found, scanGlobalsLine m l.text = some found ∧
      ∀ a, a ∈ found ↔ l.IsData ∧ InScan m l.start l.stop a := by
    intro l
    rw [l.scanGlobalsLine_text]
    have hstop : l.stop ≤ 2 ^ 56 := l.stop_le
    have hle : l.start ≤ l.stop := l.start_le
    obtain ⟨found, hfound, hmem, _⟩ := scanMemory_spec m hle (by omega)
    by_cases hdata : l.IsData
    · exact ⟨found, (if_pos hdata).trans hfound, fun a => by rw [hmem a, and_iff_right hdata]⟩
    · exact ⟨[], if_neg hdata, fun a => by simp [hdata]⟩
  have hlines : ∀ x ∈ maps.map MapsLine.text, ∃ found, scanGlobalsLine m x = some found := by
    intro x hx
    obtain ⟨l, _, rfl⟩ := List.mem_map.mp hx
    obtain ⟨found, hfound, _⟩ := hline l
    exact ⟨found, hfound⟩
  obtain ⟨all, hall⟩ := appendAll_returns hlines
  refine ⟨all, hall, fun a => ?_⟩
  rw [mem_appendAll hall]
  constructor
  · rintro ⟨x, hx, found, hfound, ha⟩
    obtain ⟨l, hl, rfl⟩ := List.mem_map.mp hx
    obtain ⟨found', hfound', hmem⟩ := hline l
    rw [hfound] at hfound'
    cases hfound'
    exact ⟨l, hl, (hmem a).mp ha⟩
  · rintro ⟨l, hl, ha⟩
    obtain ⟨found, hfound, hmem⟩ := hline l
    exact ⟨l.text, List.mem_map_of_mem hl, found, hfound, (hmem a).mpr ha⟩

/-- The scan of a stack is exact, up to its first slot. -/
theorem scanLocals_spec (m : Memory) {ranges : StackRanges} {id stackStart stackEnd : Nat}
    (hrange : ranges.lookup id = some (stackStart, stackEnd)) (hlo : redZoneSize ≤ stackEnd)
    (hle : stackEnd ≤ stackStart) (hhi : stackStart ≤ 2 ^ 56) :
    ∃ found, scanLocals m ranges id = some found ∧
      ∀ a, a ∈ found ↔ InScan m (stackEnd - redZoneSize) (stackStart + 1) a := by
  have hzone : redZoneSize = 128 := rfl
  have hfrom : (stackEnd + 2 ^ 64 - redZoneSize) % 2 ^ 64 = stackEnd - redZoneSize := by
    rw [show stackEnd + 2 ^ 64 - redZoneSize = stackEnd - redZoneSize + 2 ^ 64 by omega,
      Nat.add_mod_right, Nat.mod_eq_of_lt (by omega)]
  have hto : (stackStart + 1) % 2 ^ 64 = stackStart + 1 := Nat.mod_eq_of_lt (by omega)
  rw [scanLocals, hrange]
  dsimp only
  rw [hfrom, hto]
  obtain ⟨found, hfound, hmem, _⟩ := scanMemory_spec m
    (show stackEnd - redZoneSize ≤ stackStart + 1 by omega) (by omega)
  exact ⟨found, hfound, hmem⟩

/-! ### Histories -/

/-- What a history says by itself: the memory that the first call found, the memory now, and the
ranges that were reported. -/
structure Trail where
  built : Option Memory
  current : Memory
  ranges : StackRanges

namespace Trail

def start (m₀ : Memory) : Trail := { built := none, current := m₀, ranges := ∅ }

def source (t : Trail) : Memory := t.built.getD t.current

def next (t : Trail) : ScanEvent → Trail
  | .write m => { t with current := m }
  | .updateStackRange id basePtr sp =>
      { t with built := some t.source, ranges := updateStackRange t.ranges id basePtr sp }
  | .getRoots id basePtr sp =>
      { t with built := some t.source, ranges := updateStackRange t.ranges id basePtr sp }

def after (m₀ : Memory) (events : List ScanEvent) : Trail := events.foldl next (start m₀)

end Trail

/-- The singleton holds the slots that the data segment had in a memory, and the ranges. -/
def Holds (maps : List MapsLine) (m : Memory) (ranges : StackRanges) (roots : GCRoots) : Prop :=
  roots.stackRanges = ranges ∧ ∀ a, a ∈ roots.globalRoots ↔ InData m maps a

structure Follows (maps : List MapsLine) (t : Trail) (p : Process) : Prop where
  mem : p.mem = t.current
  fresh : t.built = none → p.gInstance = none ∧ t.ranges = ∅
  built : ∀ m, t.built = some m → ∃ roots, p.gInstance = some roots ∧ Holds maps m t.ranges roots

namespace Follows

variable {t : Trail} {p q : Process} {result : List Nat}

theorem start (maps : List MapsLine) (m₀ : Memory) :
    Follows maps (.start m₀) { mem := m₀, gInstance := none } where
  mem := rfl
  fresh := fun _ => ⟨rfl, rfl⟩
  built := fun _ hbuilt => by cases hbuilt

theorem getInstance (h : Follows maps t p) :
    ∃ roots, getInstance p.gInstance p.mem (maps.map MapsLine.text) = some roots ∧
      Holds maps t.source t.ranges roots := by
  cases hbuilt : t.built with
  | none =>
      obtain ⟨hnone, hranges⟩ := h.fresh hbuilt
      obtain ⟨found, hfound, hmem⟩ := scanGlobals_spec p.mem maps
      refine ⟨{ globalRoots := found, stackRanges := ∅ }, ?_, hranges.symm, fun a => ?_⟩
      · rw [hnone, Gcpp.getInstance, GCRoots.build, hfound, Option.map_some]
      · rw [Trail.source, hbuilt, Option.getD_none, ← h.mem]
        exact hmem a
  | some m =>
      obtain ⟨roots, hsome, hholds⟩ := h.built m hbuilt
      refine ⟨roots, by rw [hsome, Gcpp.getInstance], ?_⟩
      rwa [Trail.source, hbuilt, Option.getD_some]

/-- What a call of `get_roots` that returns leaves and reports. -/
theorem of_getRoots (h : Follows maps t p) {id basePtr sp : Nat}
    (hexec : p.exec (maps.map MapsLine.text) (.getRoots id basePtr sp) = some (q, result)) :
    ∃ roots locals, Holds maps t.source (updateStackRange t.ranges id basePtr sp) roots ∧
      appendAll (scanLocals t.current (updateStackRange t.ranges id basePtr sp))
        (updateStackRange t.ranges id basePtr sp).keys = some locals ∧
      q = { p with gInstance := some roots } ∧ result = roots.globalRoots ++ locals := by
  obtain ⟨roots, hroots, hranges, hmem⟩ := h.getInstance
  rw [Process.exec, hroots] at hexec
  simp only [Option.bind_eq_bind, Option.bind_some, getRoots, hranges, h.mem] at hexec
  cases hlocals : appendAll (scanLocals t.current (updateStackRange t.ranges id basePtr sp))
      (updateStackRange t.ranges id basePtr sp).keys with
  | none =>
      rw [hlocals] at hexec
      cases hexec
  | some locals =>
      rw [hlocals] at hexec
      cases hexec
      exact ⟨{ roots with stackRanges := updateStackRange t.ranges id basePtr sp }, locals,
        ⟨rfl, hmem⟩, rfl, by rw [h.mem], rfl⟩

/-- **One event**: the process goes on following the history. -/
theorem step (h : Follows maps t p) {e : ScanEvent}
    (hexec : p.exec (maps.map MapsLine.text) e = some (q, result)) : Follows maps (t.next e) q := by
  cases e with
  | write mem =>
      cases hexec
      exact { mem := rfl, fresh := h.fresh, built := h.built }
  | updateStackRange id basePtr sp =>
      obtain ⟨roots, hroots, hranges, hmem⟩ := h.getInstance
      rw [Process.exec, hroots] at hexec
      cases hexec
      refine { mem := h.mem, fresh := fun hnone => (by cases hnone), built := fun m hm => ?_ }
      cases hm
      exact ⟨_, rfl, congrArg (Gcpp.updateStackRange · id basePtr sp) hranges, hmem⟩
  | getRoots id basePtr sp =>
      obtain ⟨roots, locals, hholds, _, rfl, _⟩ := h.of_getRoots hexec
      refine { mem := h.mem, fresh := fun hnone => (by cases hnone), built := fun m hm => ?_ }
      cases hm
      exact ⟨roots, rfl, hholds⟩

theorem getRoots_returns (h : Follows maps t p) (id basePtr sp : Nat)
    (hlocals : ∀ other ∈ (Gcpp.updateStackRange t.ranges id basePtr sp).keys, ∃ found,
      scanLocals t.current (Gcpp.updateStackRange t.ranges id basePtr sp) other = some found) :
    ∃ q result, p.exec (maps.map MapsLine.text) (.getRoots id basePtr sp) = some (q, result) := by
  obtain ⟨roots, hroots, hranges, _⟩ := h.getInstance
  obtain ⟨locals, hall⟩ := appendAll_returns hlocals
  rw [Process.exec, hroots]
  simp only [Option.bind_eq_bind, Option.bind_some, getRoots, hranges, h.mem, hall]
  exact ⟨_, _, rfl⟩

theorem mem_getRoots (h : Follows maps t p) {id basePtr sp : Nat}
    (hexec : p.exec (maps.map MapsLine.text) (.getRoots id basePtr sp) = some (q, result)) :
    a ∈ result ↔ InData t.source maps a ∨
      ∃ other ∈ (updateStackRange t.ranges id basePtr sp).keys, ∃ found,
        scanLocals t.current (updateStackRange t.ranges id basePtr sp) other = some found ∧
          a ∈ found := by
  obtain ⟨roots, locals, ⟨_, hmem⟩, hlocals, _, rfl⟩ := h.of_getRoots hexec
  rw [List.mem_append, hmem a, mem_appendAll hlocals]

theorem run (h : Follows maps t p) {events : List ScanEvent}
    (hrun : p.run (maps.map MapsLine.text) events = some q) :
    Follows maps (events.foldl Trail.next t) q := by
  refine Machine.run_history (fun e t p next hfollows hnext => ?_) h hrun
  obtain ⟨⟨_, result⟩, hexec, rfl⟩ := Option.map_eq_some_iff.mp hnext
  exact hfollows.step hexec

end Follows

/-! ### Completeness -/

/-- The result has every slot of the data segment. -/
def Complete (maps : List MapsLine) (m : Memory) (result : List Nat) : Prop :=
  ∀ l ∈ maps, l.IsData → ∀ a, 8 ∣ a → l.start ≤ a → a + gcPtrSize ≤ l.stop → maybePtr m a = true →
    a ∈ result

/-- Every slot of the data segment was one when the singleton was built, and not the last of its
region, or lies on a stack that is scanned. -/
def Covered (maps : List MapsLine) (t : Trail) (id basePtr sp : Nat) : Prop :=
  ∀ l ∈ maps, l.IsData → ∀ a, 8 ∣ a → l.start ≤ a → a + gcPtrSize ≤ l.stop →
    maybePtr t.current a = true →
    InData t.source maps a ∨ ∃ other ∈ (updateStackRange t.ranges id basePtr sp).keys, ∃ found,
      scanLocals t.current (updateStackRange t.ranges id basePtr sp) other = some found ∧ a ∈ found

/-- A call that returns in a history: what came before it, and its result. -/
def ReturnsAfter (maps : List MapsLine) (m₀ : Memory) (events before : List ScanEvent)
    (id basePtr sp : Nat) (p : Process) (result : List Nat) : Prop :=
  (∃ after, events = before ++ .getRoots id basePtr sp :: after) ∧
    Process.run (maps.map MapsLine.text) { mem := m₀, gInstance := none } before = some p ∧
    ∃ q, p.exec (maps.map MapsLine.text) (.getRoots id basePtr sp) = some (q, result)

/-- **The global roots are complete as long as the slots are those of the first call.** In a
history, every call of `get_roots` returns all slots of the data segment exactly if at every call
these are covered. -/
theorem getRoots_complete_iff (maps : List MapsLine) (m₀ : Memory) (events : List ScanEvent) :
    (∀ before id basePtr sp p result, ReturnsAfter maps m₀ events before id basePtr sp p result →
        Complete maps p.mem result) ↔
      ∀ before id basePtr sp p result, ReturnsAfter maps m₀ events before id basePtr sp p result →
        Covered maps (Trail.after m₀ before) id basePtr sp := by
  have hcall : ∀ {before id basePtr sp p result},
      ReturnsAfter maps m₀ events before id basePtr sp p result →
        (Complete maps p.mem result ↔ Covered maps (Trail.after m₀ before) id basePtr sp) := by
    rintro before id basePtr sp p result ⟨_, hrun, q, hexec⟩
    have h := (Follows.start maps m₀).run hrun
    rw [h.mem]
    constructor
    · intro hcomplete l hl hdata a hdvd hlo hhi hslot
      exact (h.mem_getRoots hexec).mp (hcomplete l hl hdata a hdvd hlo hhi hslot)
    · intro hcovered l hl hdata a hdvd hlo hhi hslot
      exact (h.mem_getRoots hexec).mpr (hcovered l hl hdata a hdvd hlo hhi hslot)
  constructor
  · intro h before id basePtr sp p result hreturns
    exact (hcall hreturns).mp (h before id basePtr sp p result hreturns)
  · intro h before id basePtr sp p result hreturns
    exact (hcall hreturns).mpr (h before id basePtr sp p result hreturns)

/-! ### A static that is initialised by an allocation -/

/-- A writable region of a program file, from `10000` to `20000`. -/
def MapsLine.sample : MapsLine where
  startText := ['1', '0', '0', '0', '0']
  endText := ['2', '0', '0', '0', '0']
  access := ['r', 'w', '-', 'p']
  rest := ['0', '0', blank, '/', 'a', 'p', 'p']
  start_ne_nil := by decide
  end_ne_nil := by decide
  start_hex := by simp [hexDigit]
  end_hex := by simp [hexDigit]
  access_length := rfl
  access_plain := by simp
  length_lt := by decide
  start_le := by decide
  stop_le := by decide

/-- The allocation for a static builds the singleton, before the static is written. No later call
returns the static. -/
theorem static_root_missed :
    ∃ p result, ReturnsAfter [MapsLine.sample] (fun _ => 0)
      [.updateStackRange 1 28672 28416, .write (writeFatPtr (fun _ => 0) 65552 (FatPtr.ofAddr 4096)),
        .getRoots 1 28672 28416]
      [.updateStackRange 1 28672 28416, .write (writeFatPtr (fun _ => 0) 65552 (FatPtr.ofAddr 4096))]
      1 28672 28416 p result ∧ ¬ Complete [MapsLine.sample] p.mem result := by
  generalize hm : writeFatPtr (fun _ => 0) 65552 (FatPtr.ofAddr 4096) = m
  have hslot : maybePtr m 65552 = true := by
    rw [← hm]
    exact maybePtr_of_testPtr testPtr_writeFatPtr_self
  have hstart := Follows.start [MapsLine.sample] fun _ => 0
  obtain ⟨roots, hroots, _⟩ := hstart.getInstance
  have hrun : ∃ p, Process.run ([MapsLine.sample].map MapsLine.text)
      { mem := fun _ => 0, gInstance := none }
      [.updateStackRange 1 28672 28416, .write m] = some p := by
    simp only [Process.run, Machine.run, Process.exec, hroots, Option.bind_eq_bind,
      Option.bind_some, Option.map_some]
    exact ⟨_, rfl⟩
  obtain ⟨p, hrun⟩ := hrun
  have h := hstart.run hrun
  have hkeys : (updateStackRange (Trail.after (fun _ => 0)
      [.updateStackRange 1 28672 28416, .write m]).ranges 1 28672 28416).keys = [1] := rfl
  have honly : ∀ other ∈ (updateStackRange (Trail.after (fun _ => 0)
      [.updateStackRange 1 28672 28416, .write m]).ranges 1 28672 28416).keys, other = 1 := by
    intro other hother
    rw [hkeys] at hother
    exact List.mem_singleton.mp hother
  obtain ⟨found, hfound, hmem⟩ := scanLocals_spec m
    (show (updateStackRange (Trail.after (fun _ => 0)
      [.updateStackRange 1 28672 28416, .write m]).ranges 1 28672 28416).lookup 1
        = some (28672, 28416) from rfl) (by decide) (by decide) (by decide)
  obtain ⟨q, result, hexec⟩ := h.getRoots_returns 1 28672 28416 fun other hother => by
    rw [honly other hother]
    exact ⟨found, hfound⟩
  refine ⟨p, result, ⟨⟨[], rfl⟩, hrun, q, hexec⟩, fun hcomplete => ?_⟩
  have hin : 65552 ∈ result := by
    refine hcomplete MapsLine.sample (by simp) (by decide) 65552 (by decide) (by decide) (by decide) ?_
    rw [h.mem]
    exact hslot
  rcases (h.mem_getRoots hexec).mp hin with ⟨l, _, _, _, _, _, hzero⟩ | ⟨other, hother, found', hf, ha⟩
  · -- the memory of the first call had no slot there
    change maybePtr (fun _ => 0) 65552 = true at hzero
    revert hzero
    decide
  · rw [honly other hother] at hf
    have hsame := hf.symm.trans hfound
    cases hsame
    obtain ⟨_, _, hhi, _⟩ := (hmem 65552).mp ha
    omega

end Gcpp
