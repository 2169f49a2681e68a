import Mathlib.Data.Option.Basic

/-!
# Runs of a machine

A machine takes one atomic step at a time, and an interleaving of its parts is a list of the actions
that are taken. An action that is not possible stops the run. What is proved about all runs is
proved of one step; it may depend on a condition that every step of the run meets in the state it is
taken from.
-/

namespace Machine

variable {σ α : Type} (step : α → σ → Option σ)

/-- The state after the actions, one after the other. -/
def run : List α → σ → Option σ
  | [], s => some s
  | a :: actions, s => (step a s).bind (run actions)

/-- Every action that is taken meets the condition in the state it is taken from. -/
def Meets (cond : σ → α → Prop) : List α → σ → Prop
  | [], _ => True
  | a :: actions, s => cond s a ∧
      match step a s with
      | none => True
      | some t => Meets cond actions t

instance Meets.decidable {cond : σ → α → Prop} [∀ s a, Decidable (cond s a)] :
    ∀ actions s, Decidable (Meets step cond actions s)
  | [], _ => isTrue trivial
  | a :: actions, s =>
      have : Decidable (match step a s with
          | none => True
          | some t => Meets step cond actions t) :=
        match step a s with
        | none => isTrue trivial
        | some t => Meets.decidable actions t
      inferInstanceAs (Decidable (_ ∧ _))

/-- The property holds in every state that the actions lead through. -/
def Always (prop : σ → Prop) : List α → σ → Prop
  | [], s => prop s
  | a :: actions, s => prop s ∧ ∀ t, step a s = some t → Always prop actions t

variable {step} {cond : σ → α → Prop} {inv prop : σ → Prop} {actions : List α} {s t : σ}

/-- **The rule for runs.** -/
theorem run_induction
    (hstep : ∀ a s t, inv s → cond s a → step a s = some t → inv t) :
    ∀ {actions s t}, inv s → Meets step cond actions s → run step actions s = some t → inv t := by
  intro actions
  induction actions with
  | nil =>
      intro s t hinv _ hrun
      cases hrun
      exact hinv
  | cons a actions ih =>
      rintro s t hinv ⟨hcond, hrest⟩ hrun
      obtain ⟨u, hu, hrun⟩ := Option.bind_eq_some_iff.mp hrun
      rw [hu] at hrest
      exact ih (hstep a s u hinv hcond hu) hrest hrun

/-- **The rule for invariants.** -/
theorem always_of_step (hstep : ∀ a s t, inv s → step a s = some t → inv t)
    (hprop : ∀ s, inv s → prop s) : ∀ {actions s}, inv s → Always step prop actions s := by
  intro actions
  induction actions with
  | nil => exact fun hinv => hprop _ hinv
  | cons a actions ih =>
      intro s hinv
      exact ⟨hprop s hinv, fun t ht => ih (hstep a s t hinv ht)⟩

theorem Always.of_run : ∀ {actions s t}, Always step prop actions s → run step actions s = some t →
    prop t := by
  intro actions
  induction actions with
  | nil =>
      intro s t h hrun
      cases hrun
      exact h
  | cons a actions ih =>
      rintro s t ⟨_, hrest⟩ hrun
      obtain ⟨u, hu, hrun⟩ := Option.bind_eq_some_iff.mp hrun
      exact ih (hrest u hu) hrun

/-- **The rule for exact conditions.** The condition on steps keeps the invariant, and a step that
leads to a state with the property only has met it. -/
theorem always_iff_meets
    (hstep : ∀ a s t, inv s → cond s a → step a s = some t → inv t)
    (hprop : ∀ s, inv s → prop s)
    (hneeded : ∀ a s, inv s → (∀ t, step a s = some t → prop t) → cond s a) :
    ∀ {actions s}, inv s → (Always step prop actions s ↔ Meets step cond actions s) := by
  intro actions
  induction actions with
  | nil => exact fun hinv => iff_of_true (hprop _ hinv) trivial
  | cons a actions ih =>
      intro s hinv
      constructor
      · rintro ⟨_, hrest⟩
        have hcond : cond s a := hneeded a s hinv fun t ht => by
          cases actions with
          | nil => exact hrest t ht
          | cons b actions => exact (hrest t ht).1
        refine ⟨hcond, ?_⟩
        cases hstepped : step a s with
        | none => trivial
        | some t => exact (ih (hstep a s t hinv hcond hstepped)).mp (hrest t hstepped)
      · rintro ⟨hcond, hrest⟩
        refine ⟨hprop s hinv, fun t ht => ?_⟩
        rw [ht] at hrest
        exact (ih (hstep a s t hinv hcond ht)).mpr hrest

/-- **The rule for runs with a history.** What is kept may speak about all that has happened. -/
theorem run_history {τ : Type} {next : τ → α → τ} {follows : τ → σ → Prop}
    (hstep : ∀ a h s t, follows h s → step a s = some t → follows (next h a) t) :
    ∀ {actions h s t}, follows h s → run step actions s = some t →
      follows (actions.foldl next h) t := by
  intro actions
  induction actions with
  | nil =>
      intro h s t hfollows hrun
      cases hrun
      exact hfollows
  | cons a actions ih =>
      intro h s t hfollows hrun
      obtain ⟨u, hu, hrun⟩ := Option.bind_eq_some_iff.mp hrun
      exact ih (hstep a h s u hfollows hu) hrun

/-- What every step keeps, a run keeps. -/
theorem run_invariant (hstep : ∀ a s t, inv s → step a s = some t → inv t) (hinv : inv s)
    (hrun : run step actions s = some t) : inv t :=
  (always_of_step hstep (fun _ hinv => hinv) hinv).of_run hrun

/-- What a run keeps may speak about the actions it has taken. -/
theorem run_trace {follows : List α → σ → Prop}
    (hstep : ∀ a taken s t, follows taken s → step a s = some t → follows (taken ++ [a]) t)
    (hinv : follows [] s) (hrun : run step actions s = some t) : follows actions t := by
  have htrace : follows (actions.foldl (fun taken a => taken ++ [a]) []) t :=
    run_history hstep hinv hrun
  have hfold : ∀ (rest taken : List α),
      rest.foldl (fun taken a => taken ++ [a]) taken = taken ++ rest := by
    intro rest
    induction rest with
    | nil => exact fun taken => (List.append_nil taken).symm
    | cons a rest ih =>
        intro taken
        rw [List.foldl_cons, ih, List.append_assoc, List.singleton_append]
  rwa [hfold, List.nil_append] at htrace

/-- **The rule for counting steps.** A step that counts is paid for by the potential it takes away,
or by what the other measure gains. -/
theorem run_potential {counts : α → Bool} {potential paid : σ → Nat}
    (hinv : ∀ a s t, inv s → cond s a → step a s = some t → inv t)
    (hstep : ∀ a s t, inv s → cond s a → step a s = some t →
      (if counts a then 1 else 0) + potential t + paid s ≤ potential s + paid t) :
    ∀ {actions s t}, inv s → Meets step cond actions s → run step actions s = some t →
      actions.countP counts + potential t + paid s ≤ potential s + paid t := by
  intro actions
  induction actions with
  | nil =>
      intro s t _ _ hrun
      cases hrun
      simp only [List.countP_nil, Nat.zero_add, Nat.le_refl]
  | cons a actions ih =>
      rintro s t hs ⟨hcond, hmeets⟩ hrun
      obtain ⟨u, hu, hrun⟩ := Option.bind_eq_some_iff.mp hrun
      rw [hu] at hmeets
      have hfirst := hstep a s u hs hcond hu
      have hrest := ih (hinv a s u hs hcond hu) hmeets hrun
      rw [List.countP_cons]
      omega

/-- The same where actions pay in advance: what one of them pays for is not more than the credit. -/
theorem run_credit {counts pays : α → Bool} {potential : σ → Nat} {credit : Nat}
    (hstep : ∀ a s t, step a s = some t → (if counts a then 1 else 0) + potential t ≤
      potential s + if pays a then credit else 0) :
    ∀ {actions s t}, run step actions s = some t →
      actions.countP counts + potential t ≤ potential s + credit * actions.countP pays := by
  intro actions
  induction actions with
  | nil =>
      intro s t hrun
      cases hrun
      simp only [List.countP_nil, Nat.zero_add, Nat.mul_zero, Nat.add_zero, Nat.le_refl]
  | cons a actions ih =>
      intro s t hrun
      obtain ⟨u, hu, hrun⟩ := Option.bind_eq_some_iff.mp hrun
      have hfirst := hstep a s u hu
      have hrest := ih hrun
      have hpaid : credit * (if pays a then 1 else 0) = if pays a then credit else 0 := by
        split
        · exact Nat.mul_one credit
        · exact Nat.mul_zero credit
      rw [List.countP_cons, List.countP_cons, Nat.mul_add, hpaid]
      omega

theorem Meets.of_forall (h : ∀ a ∈ actions, ∀ s, cond s a) : Meets step cond actions s := by
  induction actions generalizing s with
  | nil => trivial
  | cons a actions ih =>
      obtain ⟨hfirst, hrest⟩ := List.forall_mem_cons.mp h
      refine ⟨hfirst s, ?_⟩
      cases step a s with
      | none => trivial
      | some t => exact ih hrest

theorem Meets.and {cond' : σ → α → Prop} (h : Meets step cond actions s)
    (h' : Meets step cond' actions s) :
    Meets step (fun s a => cond s a ∧ cond' s a) actions s := by
  induction actions generalizing s with
  | nil => trivial
  | cons a actions ih =>
      obtain ⟨hcond, hrest⟩ := h
      obtain ⟨hcond', hrest'⟩ := h'
      refine ⟨⟨hcond, hcond'⟩, ?_⟩
      cases hnext : step a s with
      | none => trivial
      | some t =>
          rw [hnext] at hrest hrest'
          exact ih hrest hrest'

/-- A condition that the actions meet, and those that follow them, is met by all of them. -/
theorem Meets.append {first second : List α} :
    ∀ {s}, Meets step cond first s → run step first s = some t → Meets step cond second t →
      Meets step cond (first ++ second) s := by
  induction first with
  | nil =>
      intro s _ hrun hsecond
      cases hrun
      exact hsecond
  | cons a first ih =>
      rintro s ⟨hcond, hfirst⟩ hrun hsecond
      obtain ⟨u, hu, hrun⟩ := Option.bind_eq_some_iff.mp hrun
      refine ⟨hcond, ?_⟩
      rw [hu] at hfirst ⊢
      exact ih hfirst hrun hsecond

theorem run_append (first second : List α) :
    run step (first ++ second) s = (run step first s).bind (run step second) := by
  induction first generalizing s with
  | nil => rfl
  | cons a first ih =>
      rw [List.cons_append, run, run, Option.bind_assoc]
      congr 1
      funext u
      exact ih

/-! ### Simulation -/

/-- What the actions emit, one after the other. -/
def outputs {β : Type} (step : α → σ → Option σ) (emits : α → σ → List β) : List α → σ → List β
  | [], _ => []
  | a :: actions, s => emits a s ++
      match step a s with
      | none => []
      | some t => outputs step emits actions t

/-- **The rule for simulations.** If what a step emits is a run of another machine between related
states, then so is what a run emits. -/
theorem run_simulates {τ β : Type} {step' : β → τ → Option τ} {emits : α → σ → List β}
    {rel : σ → τ → Prop}
    (hstep : ∀ a s t u, rel s u → step a s = some t →
      ∃ v, run step' (emits a s) u = some v ∧ rel t v) :
    ∀ {actions s t u}, rel s u → run step actions s = some t →
      ∃ v, run step' (outputs step emits actions s) u = some v ∧ rel t v := by
  intro actions
  induction actions with
  | nil =>
      intro s t u hrel hrun
      cases hrun
      exact ⟨u, rfl, hrel⟩
  | cons a actions ih =>
      intro s t u hrel hrun
      obtain ⟨s', hs', hrun⟩ := Option.bind_eq_some_iff.mp hrun
      obtain ⟨u', hu', hrel'⟩ := hstep a s s' u hrel hs'
      obtain ⟨v, hv, hlast⟩ := ih hrel' hrun
      refine ⟨v, ?_, hlast⟩
      rw [outputs, run_append, hu', Option.bind_some, hs']
      exact hv

/-- **The rule for obligations.** If a step emits what was to come, first what has been asked for
first, then a run has emitted all that has been asked for but what is still to come. -/
theorem outputs_filter {β : Type} {emits : α → σ → List β} {concerns : β → Bool}
    {todo : σ → List β} {asks : α → List β}
    (hstep : ∀ a s t, step a s = some t →
      (emits a s).filter concerns ++ todo t = todo s ++ asks a) :
    ∀ {actions s t}, run step actions s = some t →
      (outputs step emits actions s).filter concerns ++ todo t =
        todo s ++ actions.flatMap asks := by
  intro actions
  induction actions with
  | nil =>
      intro s t hrun
      cases hrun
      exact (List.append_nil _).symm
  | cons a actions ih =>
      intro s t hrun
      obtain ⟨u, hu, hrun⟩ := Option.bind_eq_some_iff.mp hrun
      rw [outputs, hu, List.filter_append, List.append_assoc, ih hrun, ← List.append_assoc,
        hstep a s u hu, List.append_assoc, List.flatMap_cons]

/-- **The rule for outputs.** What holds of an output once it is emitted, and is kept by every step,
holds of all outputs in the end. -/
theorem holds_of_mem_outputs {β : Type} {emits : α → σ → List β} {holds : β → σ → Prop}
    (hinv : ∀ a s t, inv s → step a s = some t → inv t)
    (hemit : ∀ a s t b, inv s → step a s = some t → b ∈ emits a s → holds b t)
    (hkeep : ∀ a s t b, inv s → step a s = some t → holds b s → holds b t) :
    ∀ {actions s t}, inv s → run step actions s = some t →
      ∀ b, b ∈ outputs step emits actions s ∨ holds b s → holds b t := by
  intro actions
  induction actions with
  | nil =>
      rintro s t - hrun b (hmem | hholds)
      · cases hmem
      · cases hrun
        exact hholds
  | cons a actions ih =>
      rintro s t hs hrun b hb
      obtain ⟨u, hu, hrun⟩ := Option.bind_eq_some_iff.mp hrun
      refine ih (hinv a s u hs hu) hrun b ?_
      rw [outputs, hu] at hb
      rcases hb with hmem | hholds
      · rcases List.mem_append.mp hmem with hfirst | hrest
        · exact Or.inr (hemit a s u b hs hu hfirst)
        · exact Or.inl hrest
      · exact Or.inr (hkeep a s u b hs hu hholds)

end Machine
