import Gcpp.Reservation
import Gcpp.HeapRun
import Gcpp.Proof.Allocation

/-!
# The blocks of concurrent reservations

The padding depends on the index that was read, so every failed compare-exchange computes it anew,
and the one that succeeds has computed it for the index that it replaces. Every block then starts at
or behind the end of all blocks before it.
-/

namespace Gcpp

open CasLoop StateExcept

variable {cfg : Config} {toSpace : SpaceNum} {first next index : Nat} {req : Reservation cfg}

/-! ### One round -/

/-- **A round is `reserve_space`** on the index that was read. -/
theorem run_reserveSpace_eq_round (s : State) (req : Reservation cfg) :
    (reserveSpace cfg req.size toSpace req.alignment req.maxAllocSize).run s =
      match reserveRound toSpace req (s.nexts toSpace) with
      | .diverge => .error .hang s
      | .giveUp => .ok none s
      | .replace next index => .ok (some index) (s.bump toSpace next) := by
  obtain ⟨padding, _, hpadding, _⟩ :=
    calcAlignmentBytes_spec req.aligned (cfg.base toSpace + s.nexts toSpace)
  rw [run_reserveSpace _ _ hpadding, reserveRound, hpadding]
  dsimp only
  split <;> rfl

theorem round_giveUp {read : Nat} (h : reserveRound toSpace req read = .giveUp) :
    ∃ padding, calcAlignmentBytes (cfg.base toSpace + read) req.alignment = some padding ∧
      read + req.size + padding > req.maxAllocSize := by
  rw [reserveRound] at h
  split at h
  · cases h
  · rename_i padding hpadding
    split at h
    · exact ⟨padding, hpadding, ‹_›⟩
    · cases h

/-- What a round that succeeds gives out. -/
structure Granted (toSpace : SpaceNum) (req : Reservation cfg) (read next index : Nat) : Prop where
  start : read ≤ index
  stop : index + req.size = next
  limit : index + req.size ≤ req.maxAllocSize
  aligned : req.alignment ∣ cfg.base toSpace + index

theorem round_replace {read : Nat} (h : reserveRound toSpace req read = .replace next index) :
    Granted toSpace req read next index := by
  rw [reserveRound] at h
  split at h
  · cases h
  · rename_i padding hpadding
    split at h
    · cases h
    · rename_i hfits
      cases h
      obtain ⟨padding', _, hpadding', hdvd⟩ :=
        calcAlignmentBytes_spec req.aligned (cfg.base toSpace + read)
      rw [hpadding] at hpadding'
      cases hpadding'
      rw [Nat.add_assoc] at hdvd
      exact { start := Nat.le_add_right _ _, stop := by omega, limit := by omega, aligned := hdvd }

/-! ### All calls -/

section Chain

variable {finished : List (Finished (Reservation cfg) Nat Nat)} {value : Nat}
  {e : Finished (Reservation cfg) Nat Nat}

/-- What is known of a call that has returned, when the index has come to `value`. -/
theorem granted_of_chain (h : Chain (reserveRound toSpace) first finished value) (he : e ∈ finished)
    (hresult : e.result = some index) :
    e.req.alignment ∣ cfg.base toSpace + index ∧ index + e.req.size ≤ e.req.maxAllocSize ∧
      index + e.req.size ≤ value := by
  induction h with
  | start => cases he
  | giveUp e' rest value hnone hdecision hrest ih =>
      rcases List.mem_cons.mp he with rfl | he
      · rw [hnone] at hresult
        cases hresult
      · exact ih he
  | succeed e' rest next index' hsome hdecision hrest ih =>
      have hgranted := round_replace hdecision
      rcases List.mem_cons.mp he with rfl | he
      · rw [hsome] at hresult
        cases hresult
        exact ⟨hgranted.aligned, hgranted.limit, hgranted.stop.le⟩
      · obtain ⟨haligned, hlimit, hle⟩ := ih he
        exact ⟨haligned, hlimit, (hle.trans hgranted.start).trans
          ((Nat.le_add_right _ _).trans hgranted.stop.le)⟩

/-- A later block starts where all earlier ones have ended. -/
theorem ordered_of_chain (h : Chain (reserveRound toSpace) first finished value) :
    (finished.filterMap returnedBlock).Pairwise fun later earlier =>
      earlier.1 + earlier.2 ≤ later.1 := by
  induction h with
  | start => exact List.Pairwise.nil
  | giveUp e rest value hnone hdecision hrest ih =>
      rw [List.filterMap_cons_none (by rw [returnedBlock, hnone]; rfl)]
      exact ih
  | succeed e rest next index hsome hdecision hrest ih =>
      have hgranted := round_replace hdecision
      rw [List.filterMap_cons_some (b := (index, e.req.size)) (by rw [returnedBlock, hsome]; rfl)]
      refine List.pairwise_cons.mpr ⟨fun block hblock => ?_, ih⟩
      obtain ⟨earlier, hearlier, hreturned⟩ := List.mem_filterMap.mp hblock
      obtain ⟨index', hindex', rfl⟩ := Option.map_eq_some_iff.mp hreturned
      obtain ⟨_, _, hle⟩ := granted_of_chain hrest hearlier hindex'
      exact hle.trans hgranted.start

end Chain

/-- What holds after any interleaving of the calls. -/
structure ReservationsSafe (toSpace : SpaceNum) (first : Nat) (actions : List (ReserveAction cfg))
    (s : Reserving cfg) : Prop where
  disjoint : (s.finished.filterMap returnedBlock).Pairwise fun a b =>
    a.1 + a.2 ≤ b.1 ∨ b.1 + b.2 ≤ a.1
  granted : ∀ e ∈ s.finished, ∀ index, e.result = some index →
    e.req.alignment ∣ cfg.base toSpace + index ∧ index + e.req.size ≤ e.req.maxAllocSize ∧
      index + e.req.size ≤ s.value
  refused : ∀ e ∈ s.finished, e.result = none →
    ∃ (before after : List (ReserveAction cfg)) (u : Reserving cfg) (padding : Nat),
      actions = before ++ after ∧ runReserving toSpace first before = some u ∧
      u.threads e.thread = .loaded e.req u.value ∧ e.read = u.value ∧
      calcAlignmentBytes (cfg.base toSpace + u.value) e.req.alignment = some padding ∧
      u.value + e.req.size + padding > e.req.maxAllocSize

/-- **Reservations are safe without a lock.** Under every interleaving, the blocks that are returned
lie apart, are aligned, and end below their limits and the bump index; a call is refused only if its
block did not fit when it last read the index. -/
theorem reservations_safe {actions : List (ReserveAction cfg)} {s : Reserving cfg}
    (hrun : runReserving toSpace first actions = some s) :
    ReservationsSafe toSpace first actions s := by
  have hchain := chain_of_run hrun
  have htraced := traced_of_run hrun
  refine
    { disjoint := (ordered_of_chain hchain).imp fun hle => Or.inr hle
      granted := fun e he index hresult => granted_of_chain hchain he hresult
      refused := fun e he hresult => ?_ }
  obtain ⟨padding, hpadding, hover⟩ := round_giveUp (hchain.refused he hresult)
  obtain ⟨before, after, u, hactions, hbefore, hvalue, hpc⟩ := htraced.finished e he
  rw [← hvalue] at hpadding hover hpc
  exact ⟨before, after, u, padding, hactions, hbefore, hpc, hvalue.symm, hpadding, hover⟩

/-- Two calls, by an allocation and by a copy. -/
def Reservation.allocation : Reservation Config.sample where
  size := 40
  alignment := 8
  maxAllocSize := Config.sample.maxAllocSize
  size_pos := by decide
  size_le := by decide
  aligned := ⟨3, by decide, rfl⟩
  limit := Or.inl rfl

def Reservation.copying : Reservation Config.sample where
  size := 100
  alignment := 64
  maxAllocSize := Config.sample.heapSize
  size_pos := by decide
  size_le := by decide
  aligned := ⟨6, by decide, rfl⟩
  limit := Or.inr rfl

/-- Both read the index 1, and the copy has to read it again. -/
theorem reservations_safe_contended :
    ∃ s, runReserving .zero 1 [.call 0 .allocation, .call 1 .copying, .exchange 0, .exchange 1,
        .exchange 1] = some s ∧
      ReservationsSafe .zero 1 [.call 0 .allocation, .call 1 .copying, .exchange 0, .exchange 1,
        .exchange 1] s := by
  have hruns : (runReserving .zero 1 [.call 0 .allocation, .call 1 .copying, .exchange 0,
      .exchange 1, .exchange 1]).isSome = true := by decide
  obtain ⟨s, hrun⟩ := Option.isSome_iff_exists.mp hruns
  exact ⟨s, hrun, reservations_safe hrun⟩

/-! ### One after the other -/

/-- The calls, the latest first, when each runs to its end before the next one begins; those that
are refused are left out. -/
inductive Serial (toSpace : SpaceNum) (heap : State) :
    List (Finished (Reservation cfg) Nat Nat) → State → Prop
  | start : Serial toSpace heap [] heap
  | refused (e : Finished (Reservation cfg) Nat Nat) (rest : List (Finished (Reservation cfg) Nat Nat))
      (s : State) (hresult : e.result = none) (hrest : Serial toSpace heap rest s) :
      Serial toSpace heap (e :: rest) s
  | granted (e : Finished (Reservation cfg) Nat Nat) (rest : List (Finished (Reservation cfg) Nat Nat))
      (s t : State) (index : Nat) (hresult : e.result = some index)
      (hrun : (reserveSpace cfg e.req.size toSpace e.req.alignment e.req.maxAllocSize).run s =
        .ok (some index) t)
      (hrest : Serial toSpace heap rest s) : Serial toSpace heap (e :: rest) t

/-- **The calls that succeed are atomic**: they return what `reserve_space` returns when they run
one after the other, and leave the same index. -/
theorem serial_of_run {actions : List (ReserveAction cfg)} {s : Reserving cfg} {heap : State}
    (hfirst : heap.nexts toSpace = first) (hrun : runReserving toSpace first actions = some s) :
    ∃ t, Serial toSpace heap s.finished t ∧ t.nexts toSpace = s.value := by
  have hchain := chain_of_run hrun
  generalize s.finished = finished at hchain ⊢
  generalize s.value = value at hchain ⊢
  induction hchain with
  | start => exact ⟨heap, .start, hfirst⟩
  | giveUp e rest value hresult hdecision hrest ih =>
      obtain ⟨t, hserial, hvalue⟩ := ih
      exact ⟨t, .refused e rest t hresult hserial, hvalue⟩
  | succeed e rest next index hresult hdecision hrest ih =>
      obtain ⟨t, hserial, hvalue⟩ := ih
      have hatomic : (reserveSpace cfg e.req.size toSpace e.req.alignment e.req.maxAllocSize).run t
          = _ := run_reserveSpace_eq_round t e.req
      rw [hvalue, hdecision] at hatomic
      exact ⟨_, .granted e rest t _ index hresult hatomic hserial, State.bump_nexts_self _ _ _⟩

end Gcpp
