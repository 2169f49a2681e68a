import Mathlib.Data.Finset.Insert
import Mathlib.Data.Finset.Erase
import Mathlib.Logic.Function.Basic

/-!
# A mutex with shared owners

A mutex is owned by any number of readers or by one writer. Who owns it and in which mode can be read
off the states of the threads, when each step of a thread that takes or releases it moves the thread
to a state of the right mode; then what an owner relies on is that the others are not there.
-/

/-- The owners. A writer has no readers beside it. -/
structure SharedMutex (τ : Type) where
  readers : Finset τ
  writer : Option τ
  exclusive : writer = none ∨ readers = ∅

namespace SharedMutex

variable {τ : Type} [DecidableEq τ]

def free : SharedMutex τ := ⟨∅, none, Or.inl rfl⟩

/-- Taken as a reader, unless there is a writer. -/
def lockShared (m : SharedMutex τ) (t : τ) : Option (SharedMutex τ) :=
  if m.writer = none then some ⟨insert t m.readers, none, Or.inl rfl⟩ else none

def unlockShared (m : SharedMutex τ) (t : τ) : SharedMutex τ :=
  ⟨m.readers.erase t, m.writer, m.exclusive.imp_right fun h => by simp [h]⟩

/-- Taken as the writer, unless there is another owner. -/
def lock (m : SharedMutex τ) (t : τ) : Option (SharedMutex τ) :=
  if m.writer = none ∧ m.readers = ∅ then some ⟨∅, some t, Or.inr rfl⟩ else none

def unlock (m : SharedMutex τ) : SharedMutex τ := ⟨m.readers, none, Or.inl rfl⟩

/-- How a thread owns the mutex. -/
inductive Mode where
  | none
  | shared
  | exclusive
deriving DecidableEq

/-- The owners are the threads in these modes. -/
structure Owned (m : SharedMutex τ) (mode : τ → Mode) : Prop where
  readers : ∀ t, t ∈ m.readers ↔ mode t = .shared
  writer : ∀ t, m.writer = some t ↔ mode t = .exclusive

namespace Owned

variable {m m' : SharedMutex τ} {mode : τ → Mode} {t u : τ}

omit [DecidableEq τ] in
theorem free (h : ∀ t, mode t = .none) : Owned SharedMutex.free mode where
  readers t := by simp [SharedMutex.free, h t]
  writer t := by simp [SharedMutex.free, h t]

/-- A thread that moves within its mode. -/
theorem same (h : Owned m mode) {own : Mode} (hmode : mode t = own) :
    Owned m (Function.update mode t own) := by
  rwa [← hmode, Function.update_eq_self]

theorem lockShared (h : Owned m mode) (hlock : m.lockShared t = some m') :
    Owned m' (Function.update mode t .shared) := by
  rw [SharedMutex.lockShared] at hlock
  split at hlock
  · rename_i hwriter
    cases hlock
    refine ⟨fun u => ?_, fun u => ?_⟩
    · rw [Finset.mem_insert, h.readers u]
      by_cases hu : u = t
      · simp [hu]
      · simp [hu]
    · by_cases hu : u = t
      · simp [hu]
      · rw [Function.update_of_ne hu, ← h.writer u, hwriter]
  · cases hlock

theorem unlockShared (h : Owned m mode) (hmode : mode t = .shared) :
    Owned (m.unlockShared t) (Function.update mode t .none) := by
  refine ⟨fun u => ?_, fun u => ?_⟩
  · rw [SharedMutex.unlockShared, Finset.mem_erase, h.readers u]
    by_cases hu : u = t
    · simp [hu]
    · simp [hu]
  · rw [SharedMutex.unlockShared, h.writer u]
    by_cases hu : u = t
    · simp [hu, hmode]
    · simp [hu]

theorem lock (h : Owned m mode) (hlock : m.lock t = some m') :
    Owned m' (Function.update mode t .exclusive) := by
  rw [SharedMutex.lock] at hlock
  split at hlock
  · rename_i hfree
    cases hlock
    refine ⟨fun u => ?_, fun u => ?_⟩
    · by_cases hu : u = t
      · simp [hu]
      · rw [Function.update_of_ne hu, ← h.readers u, hfree.2]
    · by_cases hu : u = t
      · simp [hu]
      · rw [Function.update_of_ne hu, ← h.writer u, hfree.1]
        simp [Ne.symm hu]
  · cases hlock

omit [DecidableEq τ] in
/-- The writer owns the mutex alone. -/
theorem alone (h : Owned m mode) (hmode : mode t = .exclusive) (hu : mode u ≠ .none) : u = t := by
  have hwriter := (h.writer t).mpr hmode
  cases hown : mode u with
  | none => exact absurd hown hu
  | shared =>
      have hreader := (h.readers u).mpr hown
      rcases m.exclusive with hnone | hempty
      · rw [hwriter] at hnone
        cases hnone
      · rw [hempty] at hreader
        exact absurd hreader (Finset.notMem_empty u)
  | exclusive =>
      rw [(h.writer u).mpr hown, Option.some_inj] at hwriter
      exact hwriter

theorem unlock (h : Owned m mode) (hmode : mode t = .exclusive) :
    Owned m.unlock (Function.update mode t .none) := by
  refine ⟨fun u => ?_, fun u => ?_⟩
  · rw [SharedMutex.unlock, h.readers u]
    by_cases hu : u = t
    · simp [hu, hmode]
    · rw [Function.update_of_ne hu]
  · by_cases hu : u = t
    · simp [SharedMutex.unlock, hu]
    · have hother : mode u ≠ .exclusive := fun hexclusive =>
        hu (h.alone hmode (by rw [hexclusive]; decide))
      simp [SharedMutex.unlock, hu, hother]

/-- A mutex that cannot be taken has an owner. -/
theorem owner_of_lock (h : Owned m mode) (hlock : m.lock t = none) : ∃ u, mode u ≠ .none := by
  rw [SharedMutex.lock] at hlock
  split at hlock
  · cases hlock
  · rename_i hbusy
    by_contra hnone
    refine hbusy ⟨Option.eq_none_iff_forall_ne_some.mpr fun u hu => hnone ⟨u, ?_⟩,
      Finset.eq_empty_of_forall_notMem fun u hu => hnone ⟨u, ?_⟩⟩
    · rw [(h.writer u).mp hu]
      decide
    · rw [(h.readers u).mp hu]
      decide

theorem owner_of_lockShared (h : Owned m mode) (hlock : m.lockShared t = none) :
    ∃ u, mode u ≠ .none := by
  rw [SharedMutex.lockShared] at hlock
  split at hlock
  · cases hlock
  · rename_i hwriter
    obtain ⟨u, hu⟩ := Option.ne_none_iff_exists'.mp hwriter
    refine ⟨u, ?_⟩
    rw [(h.writer u).mp hu]
    decide

end Owned

end SharedMutex
