import Mathlib.Data.List.AList
import Mathlib.Algebra.BigOperators.Ring.List
import Mathlib.Algebra.Ring.Nat
import Mathlib.Algebra.Order.BigOperators.Group.List
import Mathlib.Algebra.Order.Group.Nat

/-!
# Finite maps

Association lists with distinct keys stand for unordered maps: nothing below depends on the order
of the entries. Mathlib has lookup, insertion and erasure; here are insertion that keeps an existing
entry, erasure of a list of keys, and sums over the entries.
-/

abbrev AssocMap (κ α : Type) : Type := AList (fun _ : κ => α)

namespace AssocMap

variable {κ α : Type} [DecidableEq κ] {m : AssocMap κ α} {k k' : κ} {v v' : α}

theorem mem_of_lookup (h : m.lookup k = some v) : k ∈ m :=
  AList.lookup_isSome.mp (by rw [h]; rfl)

theorem notMem_of_lookup (h : m.lookup k = none) : k ∉ m := AList.lookup_eq_none.mp h

theorem entries_ne_nil_of_lookup (h : m.lookup k = some v) : m.entries ≠ [] := by
  intro hnil
  have hmem := AList.mem_lookup_iff.mp (show v ∈ m.lookup k from h)
  rw [hnil] at hmem
  cases hmem

/-! ### Insertion that keeps an existing entry -/

/-- Insert unless the key is already present. -/
def emplace (k : κ) (v : α) (m : AssocMap κ α) : AssocMap κ α :=
  if k ∈ m then m else m.insert k v

theorem emplace_of_notMem (h : k ∉ m) : emplace k v m = m.insert k v := if_neg h

theorem lookup_emplace_self (h : m.lookup k = none) : (emplace k v m).lookup k = some v := by
  rw [emplace_of_notMem (notMem_of_lookup h), AList.lookup_insert]

theorem lookup_emplace_of_ne (hne : k' ≠ k) : (emplace k v m).lookup k' = m.lookup k' := by
  rw [emplace]
  split
  · rfl
  · exact AList.lookup_insert_ne hne

theorem lookup_emplace_of_some (h : m.lookup k' = some v') :
    (emplace k v m).lookup k' = some v' := by
  by_cases heq : k' = k
  · subst heq
    rw [emplace, if_pos (mem_of_lookup h), h]
  · rw [lookup_emplace_of_ne heq, h]

theorem lookup_emplace (h : m.lookup k = none) :
    (emplace k v m).lookup k' = if k' = k then some v else m.lookup k' := by
  split
  · rename_i heq
    rw [heq, lookup_emplace_self h]
  · rename_i hne
    exact lookup_emplace_of_ne hne

/-- What is found after an insertion is the new entry, or was there before. -/
theorem of_lookup_emplace (h : (emplace k v m).lookup k' = some v') :
    (k' = k ∧ v' = v) ∨ m.lookup k' = some v' := by
  by_cases heq : k' = k
  · subst heq
    cases hold : m.lookup k' with
    | none =>
        rw [lookup_emplace_self hold] at h
        exact Or.inl ⟨rfl, (Option.some.inj h).symm⟩
    | some w =>
        rw [lookup_emplace_of_some hold] at h
        exact Or.inr h
  · rw [lookup_emplace_of_ne heq] at h
    exact Or.inr h

/-- An entry for a new value keeps the values distinct. -/
theorem injective_emplace {k₁ k₂ : κ}
    (hinjective : ∀ {k₁ k₂ a}, m.lookup k₁ = some a → m.lookup k₂ = some a → k₁ = k₂)
    (hnew : ∀ k, m.lookup k ≠ some v) (h₁ : (emplace k v m).lookup k₁ = some v')
    (h₂ : (emplace k v m).lookup k₂ = some v') : k₁ = k₂ := by
  rcases of_lookup_emplace h₁ with ⟨rfl, rfl⟩ | hold₁
  · rcases of_lookup_emplace h₂ with ⟨rfl, _⟩ | hold₂
    · rfl
    · exact absurd hold₂ (hnew k₂)
  · rcases of_lookup_emplace h₂ with ⟨_, rfl⟩ | hold₂
    · exact absurd hold₁ (hnew k₁)
    · exact hinjective hold₁ hold₂

theorem lookup_erase_eq :
    AList.lookup k' (m.erase k) = if k' = k then none else m.lookup k' := by
  split
  · rename_i heq
    rw [heq, AList.lookup_erase]
  · rename_i hne
    exact AList.lookup_erase_ne hne

theorem of_lookup_erase (h : AList.lookup k' (m.erase k) = some v) :
    k' ≠ k ∧ m.lookup k' = some v := by
  rw [lookup_erase_eq] at h
  split at h
  · cases h
  · rename_i hne
    exact ⟨hne, h⟩

/-! ### Erasing a list of keys -/

def eraseAll (ks : List κ) (m : AssocMap κ α) : AssocMap κ α := ks.foldl (fun m k => m.erase k) m

theorem lookup_eraseAll (ks : List κ) (m : AssocMap κ α) :
    (eraseAll ks m).lookup k = if k ∈ ks then none else m.lookup k := by
  induction ks generalizing m with
  | nil => simp [eraseAll]
  | cons head ks ih =>
      change (eraseAll ks (m.erase head)).lookup k = _
      rw [ih, lookup_erase_eq]
      by_cases hhead : k = head <;> by_cases hks : k ∈ ks <;> simp [hhead, hks]

/-! ### Sums over the entries -/

/-- The sum of a weight over all entries. -/
def weightSum (w : κ → α → Nat) (m : AssocMap κ α) : Nat := (m.entries.map fun e => w e.1 e.2).sum

omit [DecidableEq κ] in
@[simp]
theorem weightSum_empty (w : κ → α → Nat) : weightSum w (∅ : AssocMap κ α) = 0 := rfl

theorem weightSum_insert (w : κ → α → Nat) (h : k ∉ m) :
    weightSum w (m.insert k v) = w k v + weightSum w m := by
  rw [weightSum, AList.entries_insert_of_notMem h, List.map_cons, List.sum_cons, weightSum]

theorem weightSum_erase (w : κ → α → Nat) (h : m.lookup k = some v) :
    weightSum w (m.erase k) + w k v = weightSum w m := by
  obtain ⟨v', before, after, hbefore, hentries, herase⟩ :=
    List.exists_of_kerase (AList.mem_keys.mp (mem_of_lookup h))
  have hv : v' = v := by
    have hlookup : m.entries.dlookup k = some v := h
    rw [hentries, List.dlookup_append, List.dlookup_eq_none.mpr hbefore, Option.none_or,
      List.dlookup_cons_eq] at hlookup
    exact Option.some.inj hlookup
  subst hv
  change ((m.entries.kerase k).map _).sum + _ = _
  rw [herase, weightSum, hentries]
  simp only [List.map_append, List.map_cons, List.sum_append, List.sum_cons]
  omega

theorem weightSum_congr {w w' : κ → α → Nat}
    (h : ∀ k v, m.lookup k = some v → w k v = w' k v) : weightSum w m = weightSum w' m := by
  rw [weightSum, weightSum]
  congr 1
  refine List.map_congr_left fun e he => ?_
  exact h e.1 e.2 (AList.mem_lookup_iff.mpr he)

theorem weightSum_emplace (w : κ → α → Nat) (h : m.lookup k = none) :
    weightSum w (emplace k v m) = w k v + weightSum w m := by
  rw [emplace_of_notMem (notMem_of_lookup h), weightSum_insert w (notMem_of_lookup h)]

/-- Two weights that agree on all other entries have sums that differ by that one entry. -/
theorem weightSum_congr_except (w w' : κ → α → Nat) (h : m.lookup k = some v)
    (hw : ∀ k' v', k' ≠ k → m.lookup k' = some v' → w k' v' = w' k' v') :
    weightSum w m + w' k v = weightSum w' m + w k v := by
  have hrest : weightSum w (m.erase k) = weightSum w' (m.erase k) := by
    refine weightSum_congr fun k' v' hlookup => ?_
    rw [lookup_erase_eq] at hlookup
    split at hlookup
    · cases hlookup
    · rename_i hne
      exact hw k' v' hne hlookup
  rw [← weightSum_erase w h, ← weightSum_erase w' h, hrest]
  omega

theorem weightSum_le {w w' : κ → α → Nat}
    (h : ∀ k v, m.lookup k = some v → w k v ≤ w' k v) : weightSum w m ≤ weightSum w' m :=
  List.sum_le_sum fun e he => h e.1 e.2 (AList.mem_lookup_iff.mpr he)

omit [DecidableEq κ] in
theorem weightSum_add (w w' : κ → α → Nat) :
    weightSum (fun k v => w k v + w' k v) m = weightSum w m + weightSum w' m :=
  List.sum_map_add

omit [DecidableEq κ] in
theorem weightSum_mul (c : Nat) (w : κ → α → Nat) :
    weightSum (fun k v => c * w k v) m = c * weightSum w m :=
  List.sum_map_mul_left m.entries (fun e => w e.1 e.2) c

theorem le_weightSum {w : κ → α → Nat} (h : m.lookup k = some v) : w k v ≤ weightSum w m := by
  rw [← weightSum_erase w h]
  exact Nat.le_add_left _ _

theorem weightSum_erase_le (w : κ → α → Nat) : weightSum w (m.erase k) ≤ weightSum w m := by
  cases h : m.lookup k with
  | none => rw [show m.erase k = m from AList.ext (List.kerase_of_notMem_keys (notMem_of_lookup h))]
  | some v => exact Nat.le.intro (weightSum_erase w h)

theorem weightSum_erase_of_zero {w : κ → α → Nat} (h : ∀ v, m.lookup k = some v → w k v = 0) :
    weightSum w (m.erase k) = weightSum w m := by
  cases hk : m.lookup k with
  | none =>
      rw [show m.erase k = m from AList.ext (List.kerase_of_notMem_keys (notMem_of_lookup hk))]
  | some v =>
      rw [← weightSum_erase w hk, h v hk]
      rfl

/-- Entries of weight 0 do not count. -/
theorem weightSum_eraseAll_of_zero {w : κ → α → Nat} (ks : List κ) (m : AssocMap κ α)
    (h : ∀ k ∈ ks, ∀ v, m.lookup k = some v → w k v = 0) :
    weightSum w (eraseAll ks m) = weightSum w m := by
  induction ks generalizing m with
  | nil => rfl
  | cons k ks ih =>
      rw [← weightSum_erase_of_zero (h k List.mem_cons_self)]
      refine ih (m.erase k) fun k' hk' v hv => ?_
      rw [lookup_erase_eq] at hv
      split at hv
      · cases hv
      · exact h k' (List.mem_cons_of_mem _ hk') v hv

theorem weightSum_zero {w : κ → α → Nat} (h : ∀ k v, m.lookup k = some v → w k v = 0) :
    weightSum w m = 0 := by
  have hzero : weightSum w m = weightSum (fun _ _ => 0) m := weightSum_congr h
  rw [hzero]
  exact List.sum_eq_zero fun x hx => by
    obtain ⟨e, _, rfl⟩ := List.mem_map.mp hx
    rfl

theorem weightSum_eraseAll_le (w : κ → α → Nat) (ks : List κ) (m : AssocMap κ α) :
    weightSum w (eraseAll ks m) ≤ weightSum w m := by
  induction ks generalizing m with
  | nil => rfl
  | cons k ks ih => exact Nat.le_trans (ih (m.erase k)) (weightSum_erase_le w)

end AssocMap
