import Gcpp.Lib.StateFrame
import Gcpp.Proof.Allocation

/-!
# What the parts of the collector leave alone

The parts that an allocation and a collection are put together from, each with the frames that it
keeps, whether it returns or throws.
-/

namespace Gcpp

open StateExcept

variable {cfg : Config} {space : SpaceNum}

/-- At most the bump index of `space` moves, and only up. -/
structure OnlyBumps (space : SpaceNum) (s t : State) : Prop where
  spaceNum : t.spaceNum = s.spaceNum
  others : ∀ other, other ≠ space → t.nexts other = s.nexts other
  grows : s.nexts space ≤ t.nexts space

theorem OnlyBumps.of_eq {s t : State} (hspace : t.spaceNum = s.spaceNum)
    (hnexts : t.nexts = s.nexts) : OnlyBumps space s t where
  spaceNum := hspace
  others := fun other _ => congrFun hnexts other
  grows := (congrFun hnexts space).ge

instance : Std.Refl (OnlyBumps space) where
  refl _ := .of_eq rfl rfl

instance : IsTrans State (OnlyBumps space) where
  trans _ _ _ hfirst hsecond :=
    { spaceNum := hsecond.spaceNum.trans hfirst.spaceNum
      others := fun other hother => (hsecond.others other hother).trans (hfirst.others other hother)
      grows := hfirst.grows.trans hsecond.grows }

/-- The entries of the table stay as they are. -/
def KeepsEntries (s t : State) : Prop :=
  ∀ ptr data, s.metadata.lookup ptr = some data → t.metadata.lookup ptr = some data

/-- The table is the same. -/
def SameEntries (s t : State) : Prop := t.metadata = s.metadata

instance : Std.Refl SameEntries where
  refl _ := rfl

instance : IsTrans State SameEntries where
  trans _ _ _ hfirst hsecond := Eq.trans hsecond hfirst

section Parts

variable {rel : State → State → Prop} [Std.Refl rel]

theorem frames_getSpaceNum (ptr : FatPtr) : Frames rel (getSpaceNum cfg ptr) := by
  rw [getSpaceNum]
  split
  · exact Frames.pure _
  · exact Frames.throw _

theorem frames_metadataAt (ptr : FatPtr) : Frames rel (metadataAt ptr) := by
  apply Frames.get_bind
  intro s
  split <;> exact refl_of rel s

theorem frames_checkOverlappingAlloc (index : Option Nat) (toSpace : SpaceNum) (size : Nat) :
    Frames rel (checkOverlappingAlloc cfg index toSpace size) := by
  apply Frames.get_bind
  intro s
  split
  · exact refl_of rel s
  · cases index with
    | none => exact refl_of rel s
    | some index =>
        dsimp only
        split <;> exact refl_of rel s

theorem frames_reserveSpace {toSpace : SpaceNum}
    (hbump : ∀ (s : State) (next : Nat), s.nexts toSpace ≤ next → rel s (s.bump toSpace next))
    (size alignment limit : Nat) :
    Frames rel (reserveSpace cfg size toSpace alignment limit) := by
  apply Frames.get_bind
  intro s
  dsimp only
  split
  · exact refl_of rel s
  · split
    · exact refl_of rel s
    · exact hbump s _ (by omega)

theorem frames_allocNoConstraints
    (hregister : ∀ (s : State) (ptr : FatPtr) (data : MetaData),
      rel s { s with metadata := AssocMap.emplace ptr data s.metadata })
    (toSpace : SpaceNum) (data : MetaData) (index : Nat) :
    Frames rel (allocNoConstraints cfg toSpace data index) := by
  intro s
  rw [allocNoConstraints]
  split
  · exact refl_of rel s
  · exact hregister s _ data

theorem frames_reserveAttempt [IsTrans State rel] {s : State}
    (hbump : ∀ (t : State) (next : Nat), t.nexts s.spaceNum ≤ next →
      rel t (t.bump s.spaceNum next)) (size alignment : Nat) :
    rel s (finalState ((reserveAttempt cfg size alignment).run s)) :=
  Frames.bind (frames_reserveSpace hbump size alignment cfg.maxAllocSize)
    (fun index => Frames.bind (frames_checkOverlappingAlloc index s.spaceNum size)
      fun _ => Frames.pure _) s

end Parts

theorem OnlyBumps.bump (s : State) {next : Nat} (h : s.nexts space ≤ next) :
    OnlyBumps space s (s.bump space next) where
  spaceNum := rfl
  others := fun _ hother => Function.update_of_ne hother _ _
  grows := by rwa [State.bump_nexts_self]

theorem frames_sweepKeys {rel : State → State → Prop} [Std.Refl rel] [IsTrans State rel]
    (toSpace : SpaceNum) (visited : Visited) (keys : List FatPtr) :
    Frames rel (sweepKeys cfg toSpace visited keys) := by
  induction keys with
  | nil => exact Frames.pure _
  | cons ptr keys ih =>
      exact Frames.bind (frames_getSpaceNum ptr) fun _ => Frames.bind ih fun _ => Frames.pure _

end Gcpp
