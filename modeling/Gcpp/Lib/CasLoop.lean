import Gcpp.Lib.Machine
import Mathlib.Logic.Function.Basic

/-!
# Loops around a compare-exchange

Any number of threads share one value. A call reads it, decides what to do from what it has read,
and replaces it if nothing has changed in between; otherwise the failed compare-exchange is the next
read. The calls that succeed are therefore a chain, each on the value that the one before has left,
and a call that gives up has seen a value that told it so.
-/

namespace CasLoop

variable {ρ σ β : Type} [DecidableEq σ]

/-- What a call decides from a value: it stays in its own computation, returns nothing, or wants to
replace the value and return a result. -/
inductive Decision (σ β : Type) where
  | diverge
  | giveUp
  | replace (next : σ) (result : β)

inductive Pc (ρ σ : Type) where
  | idle
  | loaded (req : ρ) (read : σ)

/-- A call that has returned, with the value that it read last. -/
structure Finished (ρ σ β : Type) where
  thread : Nat
  req : ρ
  read : σ
  result : Option β

/-- The shared value, where the threads stand, and the calls that have returned, the latest
first. -/
structure State (ρ σ β : Type) where
  value : σ
  threads : Nat → Pc ρ σ
  finished : List (Finished ρ σ β)

/-- A thread begins a call with its first read, or goes on to its next compare-exchange or to its
return. -/
inductive Action (ρ : Type) where
  | call (t : Nat) (req : ρ)
  | exchange (t : Nat)

def State.initial (value : σ) : State ρ σ β :=
  { value, threads := fun _ => .idle, finished := [] }

def State.setThread (s : State ρ σ β) (t : Nat) (pc : Pc ρ σ) : State ρ σ β :=
  { s with threads := Function.update s.threads t pc }

def State.return (s : State ρ σ β) (t : Nat) (req : ρ) (read : σ) (result : Option β) :
    State ρ σ β :=
  { s.setThread t .idle with finished := { thread := t, req, read, result } :: s.finished }

section Threads

variable (s : State ρ σ β) (t : Nat)

omit [DecidableEq σ]

@[simp]
theorem State.setThread_self (pc : Pc ρ σ) : (s.setThread t pc).threads t = pc :=
  Function.update_self _ _ _

theorem State.setThread_of_ne {t' : Nat} (hne : t' ≠ t) (pc : Pc ρ σ) :
    (s.setThread t pc).threads t' = s.threads t' := Function.update_of_ne hne _ _

@[simp]
theorem State.return_threads (req : ρ) (read : σ) (result : Option β) :
    (s.return t req read result).threads = (s.setThread t .idle).threads := rfl

end Threads

variable (decision : ρ → σ → Decision σ β)

def step : Action ρ → State ρ σ β → Option (State ρ σ β)
  | .call t req, s =>
      match s.threads t with
      | .idle => some (s.setThread t (.loaded req s.value))
      | .loaded _ _ => none
  | .exchange t, s =>
      match s.threads t with
      | .idle => none
      | .loaded req read =>
          match decision req read with
          | .diverge => none
          | .giveUp => some (s.return t req read none)
          | .replace next result =>
              if s.value = read then
                some { s.return t req read (some result) with value := next }
              else some (s.setThread t (.loaded req s.value))

/-- All that a step can do. -/
inductive Step (s : State ρ σ β) : Action ρ → State ρ σ β → Prop
  | call (t : Nat) (req : ρ) (hidle : s.threads t = .idle) :
      Step s (.call t req) (s.setThread t (.loaded req s.value))
  | giveUp (t : Nat) (req : ρ) (read : σ) (hloaded : s.threads t = .loaded req read)
      (hdecision : decision req read = .giveUp) :
      Step s (.exchange t) (s.return t req read none)
  | succeed (t : Nat) (req : ρ) (next : σ) (result : β)
      (hloaded : s.threads t = .loaded req s.value)
      (hdecision : decision req s.value = .replace next result) :
      Step s (.exchange t) { s.return t req s.value (some result) with value := next }
  | retry (t : Nat) (req : ρ) (read : σ) (hloaded : s.threads t = .loaded req read)
      (hchanged : s.value ≠ read) :
      Step s (.exchange t) (s.setThread t (.loaded req s.value))

variable {decision} {s s' : State ρ σ β} {a : Action ρ}

theorem step_cases (h : step decision a s = some s') : Step decision s a s' := by
  cases a with
  | call t req =>
      rw [step] at h
      cases hpc : s.threads t with
      | idle =>
          rw [hpc] at h
          cases h
          exact .call t req hpc
      | loaded req' read =>
          rw [hpc] at h
          cases h
  | exchange t =>
      rw [step] at h
      cases hpc : s.threads t with
      | idle =>
          rw [hpc] at h
          cases h
      | loaded req read =>
          rw [hpc] at h
          dsimp only at h
          cases hdecision : decision req read with
          | diverge =>
              rw [hdecision] at h
              cases h
          | giveUp =>
              rw [hdecision] at h
              cases h
              exact .giveUp t req read hpc hdecision
          | replace next result =>
              rw [hdecision] at h
              dsimp only at h
              split at h
              · rename_i heq
                subst heq
                cases h
                exact .succeed t req next result hpc hdecision
              · rename_i hchanged
                cases h
                exact .retry t req read hpc hchanged

/-! ### The calls that have returned -/

/-- Each call has returned what it has decided. Those that succeeded, the latest first, lead from
the first value to the given one. -/
inductive Chain (decision : ρ → σ → Decision σ β) (first : σ) : List (Finished ρ σ β) → σ → Prop
  | start : Chain decision first [] first
  | giveUp (e : Finished ρ σ β) (rest : List (Finished ρ σ β)) (value : σ)
      (hresult : e.result = none) (hdecision : decision e.req e.read = .giveUp)
      (hrest : Chain decision first rest value) : Chain decision first (e :: rest) value
  | succeed (e : Finished ρ σ β) (rest : List (Finished ρ σ β)) (next : σ) (result : β)
      (hresult : e.result = some result) (hdecision : decision e.req e.read = .replace next result)
      (hrest : Chain decision first rest e.read) : Chain decision first (e :: rest) next

omit [DecidableEq σ] in
theorem Chain.step {first : σ} (h : Chain decision first s.finished s.value)
    (hstep : Step decision s a s') : Chain decision first s'.finished s'.value := by
  cases hstep with
  | call => exact h
  | giveUp t req read hloaded hdecision => exact .giveUp _ _ _ rfl hdecision h
  | succeed t req next result hloaded hdecision => exact .succeed _ _ _ _ rfl hdecision h
  | retry => exact h

/-- **The calls that succeed are a chain.** -/
theorem chain_of_run {first : σ} {actions : List (Action ρ)}
    (hrun : Machine.run (step decision) actions (State.initial first) = some s) :
    Chain decision first s.finished s.value := by
  have hkept : ∀ a u v, Chain decision first u.finished u.value → step decision a u = some v →
      Chain decision first v.finished v.value :=
    fun a u v hinv hstep => hinv.step (step_cases hstep)
  exact Machine.run_invariant (t := s) hkept .start hrun

omit [DecidableEq σ] in
/-- A call that has returned nothing has given up. -/
theorem Chain.refused {first value : σ} {finished : List (Finished ρ σ β)} {e : Finished ρ σ β}
    (h : Chain decision first finished value) (he : e ∈ finished) (hresult : e.result = none) :
    decision e.req e.read = .giveUp := by
  induction h with
  | start => cases he
  | giveUp e' rest value hnone hdecision hrest ih =>
      rcases List.mem_cons.mp he with rfl | he
      · exact hdecision
      · exact ih he
  | succeed e' rest next result hsome hdecision hrest ih =>
      rcases List.mem_cons.mp he with rfl | he
      · rw [hsome] at hresult
        cases hresult
      · exact ih he

/-! ### The last read -/

/-- On the run there is a moment at which the thread has just read this value: it is the shared
value then. -/
def JustRead (decision : ρ → σ → Decision σ β) (first : σ) (actions : List (Action ρ)) (t : Nat)
    (req : ρ) (read : σ) : Prop :=
  ∃ (before after : List (Action ρ)) (u : State ρ σ β), actions = before ++ after ∧
    Machine.run (step decision) before (State.initial first) = some u ∧ u.value = read ∧
    u.threads t = .loaded req read

theorem JustRead.mono {first : σ} {actions : List (Action ρ)} {t : Nat} {req : ρ} {read : σ}
    (h : JustRead decision first actions t req read) (a : Action ρ) :
    JustRead decision first (actions ++ [a]) t req read := by
  obtain ⟨before, after, u, rfl, hrun, hvalue, hpc⟩ := h
  exact ⟨before, after ++ [a], u, List.append_assoc _ _ _, hrun, hvalue, hpc⟩

/-- Where the values come from that the threads have in hand, or have returned with. -/
structure Traced (decision : ρ → σ → Decision σ β) (first : σ) (actions : List (Action ρ))
    (s : State ρ σ β) : Prop where
  run : Machine.run (step decision) actions (State.initial first) = some s
  loaded : ∀ t req read, s.threads t = .loaded req read → JustRead decision first actions t req read
  finished : ∀ e ∈ s.finished, JustRead decision first actions e.thread e.req e.read

theorem Traced.step {first : σ} {actions : List (Action ρ)}
    (h : Traced decision first actions s) (hstep : step decision a s = some s') :
    Traced decision first (actions ++ [a]) s' := by
  have hrun : Machine.run (CasLoop.step decision) (actions ++ [a]) (State.initial first) = some s' := by
    rw [Machine.run_append, h.run, Option.bind_some, Machine.run, hstep]
    rfl
  have hother : ∀ t pc t' req read, t' ≠ t → (s.setThread t pc).threads t' = .loaded req read →
      JustRead decision first (actions ++ [a]) t' req read := by
    intro t pc t' req read hne hpc
    rw [State.setThread_of_ne s t hne] at hpc
    exact (h.loaded t' req read hpc).mono a
  -- a read of the value that is shared now
  have hread : ∀ t req, s' = s.setThread t (.loaded req s.value) →
      ∀ t' req' read, s'.threads t' = .loaded req' read →
        JustRead decision first (actions ++ [a]) t' req' read := by
    rintro t req rfl t' req' read hpc
    by_cases ht : t' = t
    · subst ht
      have hself := hpc
      rw [State.setThread_self] at hself
      cases hself
      exact ⟨actions ++ [a], [], _, (List.append_nil _).symm, hrun, rfl, hpc⟩
    · exact hother t _ t' req' read ht hpc
  -- a return of what was in hand
  have hreturned : ∀ t req read result, s.threads t = .loaded req read →
      (∀ t' req' read', (s.return t req read result).threads t' = .loaded req' read' →
        JustRead decision first (actions ++ [a]) t' req' read') ∧
      ∀ e ∈ (s.return t req read result).finished,
        JustRead decision first (actions ++ [a]) e.thread e.req e.read := by
    intro t req read result hpc
    refine ⟨fun t' req' read' hpc' => ?_, fun e he => ?_⟩
    · by_cases ht : t' = t
      · subst ht
        rw [State.return_threads, State.setThread_self] at hpc'
        cases hpc'
      · exact hother t _ t' req' read' ht hpc'
    · rcases List.mem_cons.mp he with rfl | he
      · exact (h.loaded t req read hpc).mono a
      · exact (h.finished e he).mono a
  cases step_cases hstep with
  | call t req hidle =>
      exact
        { run := hrun
          loaded := hread t req rfl
          finished := fun e he => (h.finished e he).mono _ }
  | retry t req read hloaded hchanged =>
      exact
        { run := hrun
          loaded := hread t req rfl
          finished := fun e he => (h.finished e he).mono _ }
  | giveUp t req read hloaded hdecision =>
      obtain ⟨hthreads, hfinished⟩ := hreturned t req read none hloaded
      exact { run := hrun, loaded := hthreads, finished := hfinished }
  | succeed t req next result hloaded hdecision =>
      obtain ⟨hthreads, hfinished⟩ := hreturned t req s.value (some result) hloaded
      exact { run := hrun, loaded := hthreads, finished := hfinished }

/-- **A call returns with a value that it has seen.** -/
theorem traced_of_run {first : σ} {actions : List (Action ρ)}
    (hrun : Machine.run (step decision) actions (State.initial first) = some s) :
    Traced decision first actions s := by
  refine Machine.run_trace (fun a taken s t h hstep => h.step hstep) ?_ hrun
  exact
    { run := rfl
      loaded := fun t req read hpc => by cases hpc
      finished := fun e he => by cases he }

end CasLoop
