import Gcpp.SafeArray
import Mathlib.Order.Nat

/-!
# What pointer and length agree on

All that trusts the length of a safe pointer is right as long as the length is that of the array.
Null pointers are the exception: two operations leave a wrong length with them, and even with the
right one they cannot be cloned, as the collector does not give out 0 bytes.
-/

namespace Gcpp

variable {α : Type} {env : ArrayEnv α} {s t : ArrayStore α} {v : SafeArray}

/-! ### What is promised of a safe pointer -/

/-- The elements, of which a null pointer has none. -/
def ArrayStore.elements (s : ArrayStore α) (v : SafeArray) : Option (List α) :=
  match v.ptr with
  | none => some []
  | some p => s.arrays[p]?

/-- A null pointer has length 0, and another one points to an array of its length. -/
structure Represented (s : ArrayStore α) (v : SafeArray) : Prop where
  null : v.ptr = none → v.size = 0
  points : ∀ p, v.ptr = some p → ∃ elems, s.arrays[p]? = some elems ∧ elems.length = v.size

/-- The range from `begin` to `end` lies in one array. -/
def ValidRange (s : ArrayStore α) (v : SafeArray) : Prop :=
  ∃ elems, s.elements v = some elems ∧ v.size ≤ elems.length

/-- The safe pointer is represented well, and everything that trusts its length works. -/
structure ArraySound (env : ArrayEnv α) (s : ArrayStore α) (v : SafeArray) : Prop where
  represented : Represented s v
  at_safe : ∀ i, s.atIndex v i = .error .outOfRange ∨ ∃ a, s.atIndex v i = .ok a
  range : ValidRange s v
  clone : env.elemSize * v.size ≤ env.maxAllocSize →
    ∃ res t, s.clone env v true = .ok (res, t) ∧ res.size = v.size ∧
      t.elements res = s.elements v

/-! ### Arrays of the right length -/

/-- A pointer to an array that `new` has given out. -/
structure PointsTo (env : ArrayEnv α) (s : ArrayStore α) (v : SafeArray) (p : Nat)
    (elems : List α) : Prop where
  ptr : v.ptr = some p
  array : s.arrays[p]? = some elems
  length : elems.length = v.size
  size_pos : 0 < v.size
  fits : env.elemSize * v.size < 2 ^ 64

variable {p : Nat} {elems : List α}

theorem PointsTo.represented (h : PointsTo env s v p elems) : Represented s v where
  null := fun hnull => by cases h.ptr.symm.trans hnull
  points := fun q hq => by
    cases h.ptr.symm.trans hq
    exact ⟨elems, h.array, h.length⟩

theorem PointsTo.elements_eq (h : PointsTo env s v p elems) : s.elements v = some elems := by
  rw [ArrayStore.elements, h.ptr]
  exact h.array

theorem PointsTo.index_eq (h : PointsTo env s v p elems) {i : Nat} (hi : i < elems.length) :
    s.index v i = .ok elems[i] := by
  rw [ArrayStore.index, h.ptr, Option.bind_some, h.array, Option.bind_some,
    List.getElem?_eq_getElem hi]

theorem PointsTo.allocBytes_eq (h : PointsTo env s v p elems) :
    ArrayStore.allocBytes env v.size = env.elemSize * v.size :=
  Nat.mod_eq_of_lt h.fits

theorem PointsTo.allocBytes_pos (h : PointsTo env s v p elems) :
    0 < ArrayStore.allocBytes env v.size := by
  rw [h.allocBytes_eq]
  exact Nat.mul_pos env.elemSize_pos h.size_pos

theorem PointsTo.append (h : PointsTo env s v p elems) (new : List α) :
    PointsTo env { s with arrays := s.arrays ++ [new] } v p elems where
  ptr := h.ptr
  array := by
    obtain ⟨hp, _⟩ := List.getElem?_eq_some_iff.mp h.array
    exact (List.getElem?_append_left hp).trans h.array
  length := h.length
  size_pos := h.size_pos
  fits := h.fits

/-! ### The loop of `clone` -/

theorem getElem?_last (arrays : List (List α)) (new : List α) :
    (arrays ++ [new])[arrays.length]? = some new := by
  rw [List.getElem?_append_right le_rfl, Nat.sub_self, List.getElem?_cons_zero]

theorem setIndex_last {dst : SafeArray} {new : List α} {i : Nat}
    (hdst : dst.ptr = some s.arrays.length) (hi : i < new.length) (a : α) :
    ArrayStore.setIndex { s with arrays := s.arrays ++ [new] } dst i a =
      .ok { s with arrays := s.arrays ++ [new.set i a] } := by
  rw [ArrayStore.setIndex, hdst]
  dsimp only
  rw [getElem?_last]
  dsimp only
  rw [if_pos hi, List.set_append_right _ _ le_rfl, Nat.sub_self, List.set_cons_zero]

/-- The elements before `i` have been copied, and the rounds that are left copy the others. -/
theorem copyElements_eq {dst : SafeArray} (h : PointsTo env s v p elems)
    (hdst : dst.ptr = some s.arrays.length) (rounds : Nat) :
    ∀ (i : Nat) (new : List α), i + rounds = elems.length → new.length = elems.length →
      new.take i = elems.take i →
        ArrayStore.copyElements dst v rounds i { s with arrays := s.arrays ++ [new] } =
          .ok { s with arrays := s.arrays ++ [elems] } := by
  induction rounds with
  | zero =>
      intro i new hi hlength htake
      have hnew : new = elems := by
        rwa [List.take_of_length_le (by omega), List.take_of_length_le (by omega)] at htake
      rw [hnew]
      rfl
  | succ rounds ih =>
      intro i new hi hlength htake
      have hlt : i < elems.length := by omega
      have hread := (h.append new).index_eq hlt
      have hwritten := setIndex_last (s := s) hdst (hlength ▸ hlt) elems[i]
      have htake' : (new.set i elems[i]).take (i + 1) = elems.take (i + 1) := by
        rw [List.take_set, List.take_succ_eq_append_getElem (hlength ▸ hlt),
          List.set_append_right _ _ (by rw [List.length_take]; exact Nat.min_le_left _ _), htake,
          List.take_succ_eq_append_getElem hlt]
        simp [Nat.min_eq_left hlt.le]
      rw [ArrayStore.copyElements, hread]
      simp only [bind, Except.bind]
      rw [hwritten]
      exact ih (i + 1) _ (by omega) (by rw [List.length_set, hlength]) htake'

/-- `clone` of an array makes an equal one, unless the collector has no room for it. -/
theorem clone_eq (h : PointsTo env s v p elems) (enough : Bool) :
    s.clone env v enough =
      if ArrayStore.AllocThrows env v.size enough then .error .badAlloc
      else .ok ({ ptr := some s.arrays.length, size := v.size },
        { s with arrays := s.arrays ++ [elems] }) := by
  have hcopied : ArrayStore.copyElements { ptr := some s.arrays.length, size := v.size } v v.size 0
      { s with arrays := s.arrays ++ [List.replicate v.size env.fill] } =
        .ok { s with arrays := s.arrays ++ [elems] } :=
    copyElements_eq h rfl v.size 0 _ (by rw [Nat.zero_add, h.length])
      (by rw [List.length_replicate, h.length]) rfl
  rw [ArrayStore.clone, ArrayStore.newArray]
  split
  · rfl
  · rw [if_pos h.fits]
    simp only [bind, Except.bind, ArrayStore.push]
    rw [hcopied]
    rfl

theorem PointsTo.sound (h : PointsTo env s v p elems) : ArraySound env s v where
  represented := h.represented
  at_safe := fun i => by
    rw [ArrayStore.atIndex]
    split
    · exact Or.inl rfl
    · rename_i hi
      exact Or.inr ⟨_, h.index_eq (by rw [h.length]; omega)⟩
  range := ⟨elems, h.elements_eq, h.length.ge⟩
  clone := fun hmemory => by
    have hbytes := h.allocBytes_eq
    have hpos := h.allocBytes_pos
    have hroom : ¬ ArrayStore.AllocThrows env v.size true := by
      rintro (hzero | hlarge | hnot)
      · omega
      · omega
      · cases hnot
    refine ⟨_, _, (clone_eq h true).trans (if_neg hroom), rfl, ?_⟩
    rw [h.elements_eq]
    exact getElem?_last s.arrays elems

/-- A null pointer is never sound: it has the wrong length, or it cannot be cloned. -/
theorem null_not_sound (size : Nat) : ¬ ArraySound env s { ptr := none, size } := by
  intro h
  have hsize : size = 0 := h.represented.null rfl
  subst hsize
  obtain ⟨res, t, hclone, _⟩ := h.clone (Nat.zero_le _)
  have hthrows : ArrayStore.AllocThrows env 0 true := Or.inl (by simp [ArrayStore.allocBytes])
  rw [ArrayStore.clone, ArrayStore.newArray, if_pos hthrows] at hclone
  cases hclone

/-! ### Allocation -/

/-- Unless the collector throws, the elements fit into the address space, or the compiler throws. -/
def SizeFits (env : ArrayEnv α) (size : Nat) (enough : Bool) : Prop :=
  ArrayStore.AllocThrows env size enough ∨ env.elemSize * size < 2 ^ 64 ∨ env.oversized = .throws

variable {size : Nat} {enough : Bool}

/-- What fits is either refused with an exception or gets an array of its size. -/
theorem newArray_of_sizeFits (h : SizeFits env size enough) :
    (∃ e, s.newArray env size enough = .error e ∧ e ≠ .undefined) ∨
      (s.newArray env size enough = .ok (s.push (List.replicate size env.fill)) ∧
        0 < size ∧ env.elemSize * size < 2 ^ 64) := by
  rw [ArrayStore.newArray]
  by_cases hthrows : ArrayStore.AllocThrows env size enough
  · rw [if_pos hthrows]
    exact Or.inl ⟨_, rfl, by decide⟩
  · rw [if_neg hthrows]
    by_cases hsmall : env.elemSize * size < 2 ^ 64
    · rw [if_pos hsmall]
      have hsize : size ≠ 0 := by
        rintro rfl
        exact hthrows (Or.inl (by simp [ArrayStore.allocBytes]))
      exact Or.inr ⟨rfl, Nat.pos_of_ne_zero hsize, hsmall⟩
    · rw [if_neg hsmall, (h.resolve_left hthrows).resolve_left hsmall]
      exact Or.inl ⟨_, rfl, by decide⟩

/-- What does not fit gets a pointer that its length is wrong for. -/
theorem newArray_of_not_sizeFits (h : ¬ SizeFits env size enough) :
    ∃ ptr t, s.newArray env size enough = .ok (ptr, t) ∧ ¬ Represented t { ptr, size } := by
  obtain ⟨hthrows, hrest⟩ := not_or.mp h
  obtain ⟨hlarge, hcompiler⟩ := not_or.mp hrest
  rw [ArrayStore.newArray, if_neg hthrows, if_neg hlarge]
  cases hoversized : env.oversized with
  | throws => exact absurd hoversized hcompiler
  | null =>
      refine ⟨_, _, rfl, fun hrepresented => ?_⟩
      have hsize : size = 0 := hrepresented.null rfl
      rw [hsize, Nat.mul_zero] at hlarge
      omega
  | unchecked =>
      refine ⟨some s.arrays.length, _, rfl, fun hrepresented => ?_⟩
      obtain ⟨elems, harray, hlength⟩ := hrepresented.points _ rfl
      cases (getElem?_last s.arrays _).symm.trans harray
      rw [List.length_replicate] at hlength
      have hshort : ArrayStore.allocBytes env size / env.elemSize * env.elemSize < 2 ^ 64 :=
        (Nat.div_mul_le_self _ _).trans_lt (Nat.mod_lt _ (by decide))
      rw [hlength, Nat.mul_comm] at hshort
      exact hlarge hshort

/-! ### Runs -/

/-- A safe pointer to an array of its length or, where null pointers are wanted, one that says that
it has no elements. -/
def Allowed (nulls : Prop) (env : ArrayEnv α) (s : ArrayStore α) (v : SafeArray) : Prop :=
  (nulls ∧ v = { ptr := none, size := 0 }) ∨ ∃ p elems, PointsTo env s v p elems

def AllAllowed (nulls : Prop) (env : ArrayEnv α) (s : ArrayStore α) : Prop :=
  ∀ x v, s.vars x = some v → Allowed nulls env s v

variable {nulls : Prop}

theorem Allowed.append (h : Allowed nulls env s v) (new : List α) :
    Allowed nulls env { s with arrays := s.arrays ++ [new] } v := by
  rcases h with hnull | ⟨p, elems, hpoints⟩
  · exact Or.inl hnull
  · exact Or.inr ⟨p, elems, hpoints.append new⟩

theorem Allowed.congr (h : Allowed nulls env s v) (harrays : t.arrays = s.arrays) :
    Allowed nulls env t v := by
  rcases h with hnull | ⟨p, elems, hpoints⟩
  · exact Or.inl hnull
  · exact Or.inr ⟨p, elems, hpoints.ptr, harrays ▸ hpoints.array, hpoints.length,
      hpoints.size_pos, hpoints.fits⟩

theorem Allowed.set (h : Allowed nulls env s v) {p i : Nat} {elems : List α}
    (hold : s.arrays[p]? = some elems) (a : α) :
    Allowed nulls env { s with arrays := s.arrays.set p (elems.set i a) } v := by
  rcases h with hnull | ⟨q, elems', hpoints⟩
  · exact Or.inl hnull
  · refine Or.inr ⟨q, ?_⟩
    by_cases heq : p = q
    · subst heq
      cases hold.symm.trans hpoints.array
      obtain ⟨hp, _⟩ := List.getElem?_eq_some_iff.mp hold
      exact ⟨elems.set i a, hpoints.ptr, List.getElem?_set_self hp,
        (List.length_set ..).trans hpoints.length, hpoints.size_pos, hpoints.fits⟩
    · exact ⟨elems', hpoints.ptr, (List.getElem?_set_ne heq).trans hpoints.array, hpoints.length,
        hpoints.size_pos, hpoints.fits⟩

theorem setVar_same (s : ArrayStore α) (x : Nat) (v : SafeArray) :
    (s.setVar x v).vars x = some v :=
  Function.update_self ..

theorem setVar_other (s : ArrayStore α) (v : SafeArray) {x y : Nat} (h : y ≠ x) :
    (s.setVar x v).vars y = s.vars y :=
  Function.update_of_ne h ..

theorem AllAllowed.setVar (h : AllAllowed nulls env s) {x : Nat} (hv : Allowed nulls env s v) :
    AllAllowed nulls env (s.setVar x v) := by
  intro y w hw
  by_cases heq : y = x
  · rw [heq, setVar_same] at hw
    cases hw
    exact hv.congr rfl
  · rw [setVar_other s v heq] at hw
    exact (h y w hw).congr rfl

theorem AllAllowed.push (h : AllAllowed nulls env s) (x : Nat) {new : List α}
    (hlength : new.length = size) (hsize : 0 < size) (hfits : env.elemSize * size < 2 ^ 64) :
    AllAllowed nulls env (ArrayStore.setVar { s with arrays := s.arrays ++ [new] } x
      { ptr := some s.arrays.length, size }) := by
  apply AllAllowed.setVar
  · exact fun y w hw => (h y w hw).append new
  · exact Or.inr ⟨_, new, rfl, getElem?_last s.arrays new, hlength, hsize, hfits⟩

/-- Null pointers appear only where they are wanted, and without elements, and what is allocated
fits. -/
def AllowedStep (nulls : Prop) (env : ArrayEnv α) (s : ArrayStore α) : ArrayAction α → Prop
  | .construct _ => nulls
  | .constructNull _ found => nulls ∧ found = 0
  | .constructSize _ size enough => SizeFits env size enough
  | .assignNull x => ∀ v, s.vars x = some v → nulls ∧ v.size = 0
  | _ => True

theorem ended_error {e : ArrayError} (h : e ≠ .undefined) : s.ended (.error e) = some s := by
  cases e with
  | undefined => exact absurd rfl h
  | _ => rfl

theorem AllAllowed.constructSize (h : AllAllowed nulls env s) {x : Nat}
    (hfits : SizeFits env size enough)
    (hstep : ArrayStore.step env (.constructSize x size enough) s = some t) :
    AllAllowed nulls env t := by
  rw [ArrayStore.step] at hstep
  rcases newArray_of_sizeFits (s := s) hfits with ⟨e, hthrown, he⟩ | ⟨hnew, hsize, hsmall⟩
  · rw [hthrown] at hstep
    cases (ended_error he).symm.trans hstep
    exact h
  · rw [hnew] at hstep
    cases hstep
    exact h.push x (List.length_replicate ..) hsize hsmall

theorem AllAllowed.clone (h : AllAllowed nulls env s) {x y : Nat} (hv : s.vars y = some v)
    (hstep : (s.ended do
      let (res, s) ← s.clone env v enough
      return s.setVar x res) = some t) : AllAllowed nulls env t := by
  rcases h y v hv with ⟨_, rfl⟩ | ⟨p, elems, hpoints⟩
  · have hthrows : ArrayStore.AllocThrows env 0 enough :=
      Or.inl (by simp [ArrayStore.allocBytes])
    rw [ArrayStore.clone, ArrayStore.newArray, if_pos hthrows] at hstep
    cases hstep
    exact h
  · rw [clone_eq hpoints] at hstep
    split at hstep
    · cases hstep
      exact h
    · cases hstep
      exact h.push x hpoints.length hpoints.size_pos hpoints.fits

theorem AllAllowed.setAtIndex (h : AllAllowed nulls env s) {x i : Nat} {a : α}
    (hv : s.vars x = some v) (hstep : s.ended (s.setAtIndex v i a) = some t) :
    AllAllowed nulls env t := by
  rw [ArrayStore.setAtIndex] at hstep
  split at hstep
  · cases hstep
    exact h
  · rename_i hi
    rcases h x v hv with ⟨_, rfl⟩ | ⟨p, elems, hpoints⟩
    · exact absurd (Nat.zero_le i) hi
    · have hlt : i < elems.length := by
        rw [hpoints.length]
        omega
      rw [ArrayStore.setIndex, hpoints.ptr] at hstep
      dsimp only at hstep
      rw [hpoints.array] at hstep
      dsimp only at hstep
      rw [if_pos hlt] at hstep
      cases hstep
      exact fun y w hw => (h y w hw).set hpoints.array a

theorem AllAllowed.step (h : AllAllowed nulls env s) {action : ArrayAction α}
    (hallowed : AllowedStep nulls env s action) (hstep : ArrayStore.step env action s = some t) :
    AllAllowed nulls env t := by
  cases action with
  | construct x =>
      cases hstep
      exact h.setVar (Or.inl ⟨hallowed, rfl⟩)
  | constructNull x found =>
      obtain ⟨hnulls, rfl⟩ := hallowed
      cases hstep
      exact h.setVar (Or.inl ⟨hnulls, rfl⟩)
  | constructSize x size enough => exact h.constructSize hallowed hstep
  | copy x y =>
      obtain ⟨v, hv, rfl⟩ := Option.map_eq_some_iff.mp hstep
      exact h.setVar (h y v hv)
  | assign x y =>
      obtain ⟨_, _, hassigned⟩ := Option.bind_eq_some_iff.mp hstep
      obtain ⟨v, hv, rfl⟩ := Option.map_eq_some_iff.mp hassigned
      exact h.setVar (h y v hv)
  | assignNull x =>
      obtain ⟨v, hv, rfl⟩ := Option.map_eq_some_iff.mp hstep
      obtain ⟨hnulls, hsize⟩ := hallowed v hv
      apply h.setVar
      rw [hsize]
      exact Or.inl ⟨hnulls, rfl⟩
  | clone x y enough =>
      obtain ⟨v, hv, hcloned⟩ := Option.bind_eq_some_iff.mp hstep
      exact h.clone hv hcloned
  | setAtIndex x i a =>
      obtain ⟨v, hv, hset⟩ := Option.bind_eq_some_iff.mp hstep
      exact h.setAtIndex hv hset

/-- **Exact conditions for safe pointers.** A promise that arrays of the right length keep, that
says no less than the representation, and that null pointers keep if they have no elements and are
wanted at all, holds throughout if and only if every step is an allowed one. -/
theorem always_allowed_iff {promise : ArrayStore α → SafeArray → Prop}
    (harray : ∀ s v p elems, PointsTo env s v p elems → promise s v)
    (hrepresented : ∀ s v, promise s v → Represented s v)
    (hnull : ∀ s size, promise s { ptr := none, size } ↔ nulls ∧ size = 0)
    (actions : List (ArrayAction α)) :
    Machine.Always (ArrayStore.step env) (fun s => ∀ x v, s.vars x = some v → promise s v)
        actions .initial ↔
      Machine.Meets (ArrayStore.step env) (AllowedStep nulls env) actions .initial := by
  have hstep : ∀ action s t, AllAllowed nulls env s → AllowedStep nulls env s action →
      ArrayStore.step env action s = some t → AllAllowed nulls env t :=
    fun action s t hinv hallowed hstep => hinv.step hallowed hstep
  have hprop : ∀ s, AllAllowed nulls env s → ∀ x v, s.vars x = some v → promise s v := by
    intro s hinv x v hv
    rcases hinv x v hv with ⟨hnulls, rfl⟩ | ⟨p, elems, hpoints⟩
    · exact (hnull s 0).mpr ⟨hnulls, rfl⟩
    · exact harray s v p elems hpoints
  have hneeded : ∀ action s, AllAllowed nulls env s →
      (∀ t, ArrayStore.step env action s = some t → ∀ x v, t.vars x = some v → promise t v) →
      AllowedStep nulls env s action := by
    intro action s _ hnext
    cases action with
    | construct x => exact ((hnull _ 0).mp (hnext _ rfl x _ (setVar_same s x _))).1
    | constructNull x found => exact (hnull _ found).mp (hnext _ rfl x _ (setVar_same s x _))
    | constructSize x size enough =>
        by_contra hnot
        obtain ⟨ptr, t, hnew, hwrong⟩ := newArray_of_not_sizeFits (s := s) hnot
        have hafter : ArrayStore.step env (.constructSize x size enough) s =
            some (t.setVar x { ptr, size }) := by
          rw [ArrayStore.step, hnew]
          rfl
        have hright := hrepresented _ _ (hnext _ hafter x _ (setVar_same t x _))
        exact hwrong ⟨hright.null, hright.points⟩
    | assignNull x =>
        intro v hv
        have hafter : ArrayStore.step env (.assignNull x) s =
            some (s.setVar x { v with ptr := none }) := by
          rw [ArrayStore.step, hv]
          rfl
        exact (hnull _ v.size).mp (hnext _ hafter x _ (setVar_same s x _))
    | _ => trivial
  have hinitial : AllAllowed nulls env .initial := fun x v hv => by cases hv
  exact Machine.always_iff_meets hstep hprop hneeded hinitial

/-- **When pointers and lengths agree.** Every null pointer has length 0 and every other one points
to an array of its length, if and only if no step gives a null pointer another length, and no size
is wrapped round. -/
theorem arrays_represented_iff (env : ArrayEnv α) (actions : List (ArrayAction α)) :
    Machine.Always (ArrayStore.step env) (fun s => ∀ x v, s.vars x = some v → Represented s v)
        actions .initial ↔
      Machine.Meets (ArrayStore.step env) (AllowedStep True env) actions .initial := by
  apply always_allowed_iff
  · exact fun s v p elems h => h.represented
  · exact fun s v h => h
  · intro s size
    rw [true_and]
    exact ⟨fun h => h.null rfl, fun hsize => ⟨fun _ => hsize, fun p hp => by cases hp⟩⟩

/-- **When safe pointers are sound.** They are represented well, and all that trusts their length
works, if and only if no step makes a null pointer, and no size is wrapped round. -/
theorem arrays_sound_iff (env : ArrayEnv α) (actions : List (ArrayAction α)) :
    Machine.Always (ArrayStore.step env) (fun s => ∀ x v, s.vars x = some v → ArraySound env s v)
        actions .initial ↔
      Machine.Meets (ArrayStore.step env) (AllowedStep False env) actions .initial := by
  apply always_allowed_iff
  · exact fun s v p elems h => h.sound
  · exact fun s v h => h.represented
  · intro s size
    rw [false_and, iff_false]
    exact null_not_sound size

/-- Bytes in a heap of 1024. -/
def byteEnv : ArrayEnv UInt8 where
  elemSize := 1
  elemSize_pos := Nat.one_pos
  fill := 0
  oversized := .null
  maxAllocSize := 1024

/-- Eight elements, and then none, but the length is still 8. -/
def forgottenSize : List (ArrayAction UInt8) := [.constructSize 0 8 true, .assignNull 0]

/-- The pointer is null, and its length is 8. -/
theorem arrays_unsound :
    ¬ ∀ actions, Machine.Always (ArrayStore.step byteEnv)
      (fun s => ∀ x v, s.vars x = some v → ArraySound byteEnv s v) actions .initial := by
  intro h
  obtain ⟨s, hrun, hvar⟩ : ∃ s, Machine.run (ArrayStore.step byteEnv) forgottenSize .initial =
      some s ∧ s.vars 0 = some { ptr := none, size := 8 } := ⟨_, rfl, rfl⟩
  exact null_not_sound 8 ((h forgottenSize).of_run hrun 0 _ hvar)

end Gcpp
