import Gcpp.MemProt
import Mathlib.Data.Set.Insert

/-!
# Protected pages over whole runs

Every locked region asks for its mode on the pages that it has bytes on. As long as nothing else asks
for a page, locking and unlocking do what the page needs. The unlock of one object restores a page
for all, so it is wrong where the others still agree on a mode. And the pages that an object protects
are not those of its region when that is empty or starts on page 0.
-/

namespace Gcpp

/-! ### What a page needs -/

/-- A page on which all that ask agree has the mode that they ask for, and one that nothing asks for
can be read and written. -/
structure PageFits (asked : Set ProtectionMode) (mode : ProtectionMode) : Prop where
  restricted : ∀ m ∈ asked, (∀ m' ∈ asked, m' = m) → mode = m
  restored : asked = ∅ → mode = .readWrite

theorem PageFits.insert (m : ProtectionMode) (asked : Set ProtectionMode) :
    PageFits (insert m asked) m where
  restricted := fun _ _ hagree => hagree m (Set.mem_insert m asked)
  restored := fun hempty => absurd hempty (Set.insert_nonempty m asked).ne_empty

/-- A page that is given back fits those that are left if and only if they do not agree. -/
theorem pageFits_readWrite_iff {asked : Set ProtectionMode} (h : .readWrite ∉ asked) :
    PageFits asked .readWrite ↔ ∀ m, asked ≠ {m} := by
  constructor
  · rintro hfits m rfl
    have hmode := hfits.restricted m rfl fun m' hm' => hm'
    exact h hmode
  · intro hagree
    refine ⟨fun m hm hall => ?_, fun _ => rfl⟩
    have hsingle : asked = {m} := Set.eq_singleton_iff_unique_mem.mpr ⟨hm, hall⟩
    exact absurd hsingle (hagree m)

/-- A page that one more asks for fits as it is if and only if others ask for it already. -/
theorem pageFits_insert_iff {asked : Set ProtectionMode} {m mode : ProtectionMode}
    (h : PageFits asked mode) (hm : m ≠ .readWrite) :
    PageFits (insert m asked) mode ↔ asked.Nonempty := by
  constructor
  · intro hfits
    by_contra hempty
    rw [Set.not_nonempty_iff_eq_empty] at hempty
    have hmode := hfits.restricted m (Set.mem_insert m asked) fun m' hm' => by
      rw [hempty] at hm'
      simpa using hm'
    exact hm (hmode.symm.trans (h.restored hempty))
  · rintro ⟨m', hm'⟩
    refine ⟨fun m₀ hm₀ hagree => ?_, fun hempty => absurd hempty (Set.insert_nonempty _ _).ne_empty⟩
    have hsame := hagree m' (Set.mem_insert_of_mem m hm')
    rw [← hsame]
    refine h.restricted m' hm' fun m₁ hm₁ => ?_
    rw [hsame]
    exact hagree m₁ (Set.mem_insert_of_mem m hm₁)

/-- A page that is set to a mode without being asked for. -/
theorem pageFits_iff_of_ne {asked : Set ProtectionMode} {m : ProtectionMode} (hm : m ≠ .readWrite) :
    PageFits asked m ↔ asked.Nonempty ∧ ∀ m', asked = {m'} → m' = m := by
  constructor
  · intro hfits
    refine ⟨?_, ?_⟩
    · by_contra hempty
      exact hm (hfits.restored (Set.not_nonempty_iff_eq_empty.mp hempty))
    · rintro m' rfl
      exact (hfits.restricted m' rfl fun _ h => h).symm
  · rintro ⟨hnonempty, hagree⟩
    refine ⟨fun m' hm' hall => ?_, fun hempty => absurd hempty hnonempty.ne_empty⟩
    exact (hagree m' (Set.eq_singleton_iff_unique_mem.mpr ⟨hm', hall⟩)).symm

variable (pageSize : Nat)

/-- The mode that a region asks for on a page, while it is locked. -/
def asks (given : Option Region) (page : Nat) : Set ProtectionMode :=
  {mode | ∃ r, given = some r ∧ r.locked = true ∧ r.Touches pageSize page ∧ r.mode = mode}

theorem asks_none (page : Nat) : asks pageSize none page = ∅ := by
  ext mode
  simp [asks]

theorem asks_unlocked {r : Region} (h : r.locked = false) (page : Nat) :
    asks pageSize (some r) page = ∅ := by
  ext mode
  simp [asks, h]

theorem asks_of_touches {r : Region} {page : Nat} (hlocked : r.locked = true)
    (h : r.Touches pageSize page) : asks pageSize (some r) page = {r.mode} := by
  ext mode
  constructor
  · rintro ⟨r', hr', _, _, hmode⟩
    cases hr'
    exact hmode.symm
  · rintro rfl
    exact ⟨r, rfl, hlocked, h, rfl⟩

theorem asks_of_not_touches {r : Region} {page : Nat} (h : ¬ r.Touches pageSize page) :
    asks pageSize (some r) page = ∅ := by
  ext mode
  simp [asks, h]

namespace RegionsRun

/-- The modes that are asked for on a page. -/
def asked (w : RegionsRun) (page : Nat) : Set ProtectionMode :=
  {mode | ∃ id, mode ∈ asks pageSize (w.given id) page}

/-- The modes that are asked for by objects other than this one. -/
def askedByOthers (w : RegionsRun) (id page : Nat) : Set ProtectionMode :=
  {mode | ∃ other, other ≠ id ∧ mode ∈ asks pageSize (w.given other) page}

variable {w v : RegionsRun}

theorem asked_eq (w : RegionsRun) (id page : Nat) :
    w.asked pageSize page =
      asks pageSize (w.given id) page ∪ w.askedByOthers pageSize id page := by
  ext mode
  constructor
  · rintro ⟨other, hmode⟩
    by_cases heq : other = id
    · exact Or.inl (heq ▸ hmode)
    · exact Or.inr ⟨other, heq, hmode⟩
  · rintro (hmode | ⟨other, _, hmode⟩)
    · exact ⟨id, hmode⟩
    · exact ⟨other, hmode⟩

theorem askedByOthers_congr {id page : Nat}
    (h : ∀ other, other ≠ id → v.given other = w.given other) :
    v.askedByOthers pageSize id page = w.askedByOthers pageSize id page := by
  ext mode
  constructor
  · rintro ⟨other, hother, hmode⟩
    exact ⟨other, hother, h other hother ▸ hmode⟩
  · rintro ⟨other, hother, hmode⟩
    exact ⟨other, hother, (h other hother).symm ▸ hmode⟩

/-- What the runs lead through: every page fits what is asked for on it. -/
def Protected (w : RegionsRun) : Prop :=
  ∀ page, PageFits (w.asked pageSize page) (w.regions.pages page)

/-- A region is locked without harm, next to the others: a page of it that the object leaves alone is
asked for already, and what others agree on, on a page that is not one of its own, is the same mode. -/
def LocksWell (w : RegionsRun) (id : Nat) (r : Region) : Prop :=
  ∀ page,
    (r.Touches pageSize page → ¬ r.Covers pageSize page →
      (w.askedByOthers pageSize id page).Nonempty) ∧
    (r.Covers pageSize page → ¬ r.Touches pageSize page →
      (w.askedByOthers pageSize id page).Nonempty ∧
        ∀ mode, w.askedByOthers pageSize id page = {mode} → mode = r.mode)

/-- A region is unlocked without harm: no page that is given back is left to others that agree on a
mode, and a page of it that the object leaves alone has what the others need. -/
def UnlocksWell (w : RegionsRun) (id : Nat) (r : Region) : Prop :=
  ∀ page,
    (r.Covers pageSize page → ∀ mode, w.askedByOthers pageSize id page ≠ {mode}) ∧
    (r.Touches pageSize page → ¬ r.Covers pageSize page →
      PageFits (w.askedByOthers pageSize id page) (w.regions.pages page))

/-- The condition on every step. -/
def Harmless (w : RegionsRun) : RegionAction → Prop
  | .regionReadonly id start len => w.regions.objects id = none →
      w.LocksWell pageSize id { start, len, mode := .readOnly, locked := true }
  | .regionWriteonly id start len => w.regions.objects id = none →
      w.LocksWell pageSize id { start, len, mode := .writeOnly, locked := true }
  | .move _ _ => True
  | .lock id => ∀ r, w.given id = some r → r.locked = false → w.LocksWell pageSize id r
  | .unlock id | .destroy id =>
      ∀ r, w.given id = some r → r.locked = true → w.UnlocksWell pageSize id r

end RegionsRun

/-! ### The objects and their regions -/

variable {pageSize} {s : Regions} {w v : RegionsRun} {id : Nat} {o : RegionProtection} {r : Region}

/-- What the fields of an object have to do with its region. -/
structure StandsFor (pageSize : Nat) (o : RegionProtection) (r : Region) : Prop where
  start : o.regionStart = pageAlignedFloor pageSize r.start
  size : o.regionSize = r.start + r.len - pageAlignedFloor pageSize r.start
  oldProt : o.oldProt = .readWrite
  newProt : o.newProt = r.mode
  restricts : r.mode ≠ .readWrite
  locked : o.regionStart ≠ 0 → o.locked = r.locked

/-- An object that has been moved from stands for nothing. -/
def Agrees (pageSize : Nat) : Option RegionProtection → Option Region → Prop
  | none, none => True
  | none, some _ => False
  | some o, none => o.regionStart = 0
  | some o, some r => StandsFor pageSize o r

theorem floor_le (addr : Nat) : pageAlignedFloor pageSize addr ≤ addr := Nat.div_mul_le_self _ _

theorem floor_ne_zero_iff {addr : Nat} :
    pageAlignedFloor pageSize addr ≠ 0 ↔ addr / pageSize ≠ 0 := by
  rw [pageAlignedFloor, Nat.mul_ne_zero_iff]
  refine ⟨And.left, fun h => ⟨h, ?_⟩⟩
  rintro rfl
  exact h (Nat.div_zero addr)

/-- **What the object protects**, in terms of its region. -/
theorem StandsFor.covers_iff (h : StandsFor pageSize o r) (page : Nat) :
    r.Covers pageSize page ↔
      o.regionStart ≠ 0 ∧ Overlaps pageSize o.regionStart o.regionSize page := by
  rw [h.start, h.size, floor_ne_zero_iff, Region.Covers, Overlaps,
    Nat.add_sub_of_le ((floor_le r.start).trans (Nat.le_add_right _ _))]
  constructor
  · rintro ⟨hstart, hle, hlt⟩
    have hpos : 0 < pageSize := Nat.pos_of_ne_zero fun hzero => hstart (by rw [hzero, Nat.div_zero])
    exact ⟨hstart, hlt, Nat.mul_lt_mul_of_pos_right (Nat.lt_succ_of_le hle) hpos⟩
  · rintro ⟨hstart, hlt, hfloor⟩
    exact ⟨hstart, Nat.le_of_lt_succ (Nat.lt_of_mul_lt_mul_right hfloor), hlt⟩

theorem setObject_same (s : Regions) (id : Nat) (object : Option RegionProtection) :
    (s.setObject id object).objects id = object :=
  Function.update_self ..

theorem setObject_other (s : Regions) (object : Option RegionProtection) {other : Nat}
    (h : other ≠ id) : (s.setObject id object).objects other = s.objects other :=
  Function.update_of_ne h ..

/-- Locking an object restricts the pages that it covers. -/
theorem StandsFor.lock_pages (h : StandsFor pageSize o r) (hunlocked : r.locked = false)
    (s : Regions) (id page : Nat) :
    (r.Covers pageSize page → (s.lockObject pageSize id o).pages page = r.mode) ∧
      (¬ r.Covers pageSize page → (s.lockObject pageSize id o).pages page = s.pages page) := by
  rw [h.covers_iff, Regions.lockObject]
  split
  · rename_i hstart
    rw [h.locked hstart, hunlocked]
    refine ⟨fun hcovers => ?_, fun hcovers => ?_⟩
    · rw [← h.newProt]
      exact if_pos hcovers.2
    · exact if_neg fun hover => hcovers ⟨hstart, hover⟩
  · rename_i hstart
    exact ⟨fun hcovers => absurd hcovers.1 hstart, fun _ => rfl⟩

theorem StandsFor.unlock_pages (h : StandsFor pageSize o r) (hlocked : r.locked = true)
    (s : Regions) (id page : Nat) :
    (r.Covers pageSize page → (s.unlockObject pageSize id o).pages page = .readWrite) ∧
      (¬ r.Covers pageSize page → (s.unlockObject pageSize id o).pages page = s.pages page) := by
  rw [h.covers_iff, Regions.unlockObject]
  split
  · rename_i hstart
    rw [h.locked hstart, hlocked]
    refine ⟨fun hcovers => ?_, fun hcovers => ?_⟩
    · rw [← h.oldProt]
      exact if_pos hcovers.2
    · exact if_neg fun hover => hcovers ⟨hstart, hover⟩
  · rename_i hstart
    exact ⟨fun hcovers => absurd hcovers.1 hstart, fun _ => rfl⟩

/-- What is locked or unlocked already stays as it is. -/
theorem StandsFor.lock_locked (h : StandsFor pageSize o r) (hlocked : r.locked = true)
    (s : Regions) (id : Nat) : (s.lockObject pageSize id o).pages = s.pages := by
  rw [Regions.lockObject]
  split
  · rename_i hstart
    rw [h.locked hstart, hlocked]
    rfl
  · rfl

theorem StandsFor.unlock_unlocked (h : StandsFor pageSize o r) (hunlocked : r.locked = false)
    (s : Regions) (id : Nat) : (s.unlockObject pageSize id o).pages = s.pages := by
  rw [Regions.unlockObject]
  split
  · rename_i hstart
    rw [h.locked hstart, hunlocked]
    rfl
  · rfl

theorem StandsFor.with_flag (h : StandsFor pageSize o r) (flag : Bool) :
    StandsFor pageSize { o with locked := flag } { r with locked := flag } where
  start := h.start
  size := h.size
  oldProt := h.oldProt
  newProt := h.newProt
  restricts := h.restricts
  locked := fun _ => rfl

/-- An object on page 0 has its flag left alone. -/
theorem StandsFor.of_start_eq_zero (h : StandsFor pageSize o r) (hstart : o.regionStart = 0)
    (flag : Bool) : StandsFor pageSize o { r with locked := flag } where
  start := h.start
  size := h.size
  oldProt := h.oldProt
  newProt := h.newProt
  restricts := h.restricts
  locked := fun hne => absurd hstart hne

theorem lockObject_other {other : Nat} (h : other ≠ id) :
    (s.lockObject pageSize id o).objects other = s.objects other := by
  rw [Regions.lockObject]
  split
  · rw [setObject_other _ _ h]
    split <;> rfl
  · rfl

theorem unlockObject_other {other : Nat} (h : other ≠ id) :
    (s.unlockObject pageSize id o).objects other = s.objects other := by
  rw [Regions.unlockObject]
  split
  · rw [setObject_other _ _ h]
    split <;> rfl
  · rfl

theorem Agrees.lock {given : Option Region} (h : Agrees pageSize (some o) given)
    (ho : s.objects id = some o) :
    Agrees pageSize ((s.lockObject pageSize id o).objects id)
      (given.map fun r => { r with locked := true }) := by
  rw [Regions.lockObject]
  split
  · rename_i hstart
    rw [setObject_same]
    cases given with
    | none => exact h
    | some r => exact StandsFor.with_flag h true
  · rename_i hstart
    rw [ho]
    cases given with
    | none => exact h
    | some r => exact StandsFor.of_start_eq_zero h (not_not.mp hstart) true

theorem Agrees.unlock {given : Option Region} (h : Agrees pageSize (some o) given)
    (ho : s.objects id = some o) :
    Agrees pageSize ((s.unlockObject pageSize id o).objects id)
      (given.map fun r => { r with locked := false }) := by
  rw [Regions.unlockObject]
  split
  · rename_i hstart
    rw [setObject_same]
    cases given with
    | none => exact h
    | some r => exact StandsFor.with_flag h false
  · rename_i hstart
    rw [ho]
    cases given with
    | none => exact h
    | some r => exact StandsFor.of_start_eq_zero h (not_not.mp hstart) false

structure RegionsInv (pageSize : Nat) (w : RegionsRun) : Prop where
  fits : w.Protected pageSize
  agrees : ∀ id, Agrees pageSize (w.regions.objects id) (w.given id)

theorem RegionsInv.initial : RegionsInv pageSize .initial where
  fits := fun page => by
    have hempty : RegionsRun.initial.asked pageSize page = ∅ := by
      ext mode
      simp [RegionsRun.asked, RegionsRun.initial, asks_none]
    rw [hempty]
    exact ⟨fun m hm => absurd hm (Set.notMem_empty m), fun _ => rfl⟩
  agrees := fun _ => trivial

theorem RegionsInv.standsFor (h : RegionsInv pageSize w) (ho : w.regions.objects id = some o)
    (hr : w.given id = some r) : StandsFor pageSize o r := by
  have hagrees := h.agrees id
  rwa [ho, hr] at hagrees

theorem RegionsInv.object_of_given (h : RegionsInv pageSize w) (hr : w.given id = some r) :
    ∃ o, w.regions.objects id = some o ∧ StandsFor pageSize o r := by
  have hagrees := h.agrees id
  cases ho : w.regions.objects id with
  | none =>
      rw [ho, hr] at hagrees
      exact hagrees.elim
  | some o => exact ⟨o, rfl, h.standsFor ho hr⟩

theorem RegionsInv.given_of_free (h : RegionsInv pageSize w) (hfree : w.regions.objects id = none) :
    w.given id = none := by
  cases hr : w.given id with
  | none => rfl
  | some r =>
      obtain ⟨o, ho, _⟩ := h.object_of_given hr
      rw [hfree] at ho
      cases ho

theorem RegionsInv.readWrite_notMem (h : RegionsInv pageSize w) (id page : Nat) :
    .readWrite ∉ w.askedByOthers pageSize id page := by
  rintro ⟨other, _, r, hr, _, _, hmode⟩
  obtain ⟨o, _, hstands⟩ := h.object_of_given hr
  exact hstands.restricts hmode

/-- A page on which the object asks for nothing is fit for the others alone. -/
theorem RegionsInv.fits_others (h : RegionsInv pageSize w) {page : Nat}
    (hasks : asks pageSize (w.given id) page = ∅) :
    PageFits (w.askedByOthers pageSize id page) (w.regions.pages page) := by
  have hfits := h.fits page
  rwa [RegionsRun.asked_eq pageSize w id, hasks, Set.empty_union] at hfits

/-! ### What a step does to the pages -/

/-- The region of one object changes, and the pages with it. -/
theorem protected_iff_of_others (hothers : ∀ other, other ≠ id → v.given other = w.given other) :
    v.Protected pageSize ↔ ∀ page, PageFits
      (asks pageSize (v.given id) page ∪ w.askedByOthers pageSize id page)
      (v.regions.pages page) := by
  refine forall_congr' fun page => ?_
  rw [RegionsRun.asked_eq pageSize v id, RegionsRun.askedByOthers_congr pageSize hothers]

/-- Nothing changes that counts. -/
theorem RegionsInv.protected_of_same (h : RegionsInv pageSize w)
    (hothers : ∀ other, other ≠ id → v.given other = w.given other)
    (hasks : ∀ page, asks pageSize (v.given id) page = asks pageSize (w.given id) page)
    (hpages : v.regions.pages = w.regions.pages) : v.Protected pageSize := by
  rw [protected_iff_of_others hothers]
  intro page
  rw [hasks, hpages, ← RegionsRun.asked_eq]
  exact h.fits page

/-- **Locking is right** just where it does no harm. -/
theorem RegionsInv.locked_iff (h : RegionsInv pageSize w) (hrestricts : r.mode ≠ .readWrite)
    (hothers : ∀ other, other ≠ id → v.given other = w.given other)
    (hgiven : v.given id = some { r with locked := true })
    (hbefore : ∀ page, asks pageSize (w.given id) page = ∅)
    (hpages : ∀ page, (r.Covers pageSize page → v.regions.pages page = r.mode) ∧
      (¬ r.Covers pageSize page → v.regions.pages page = w.regions.pages page)) :
    v.Protected pageSize ↔ w.LocksWell pageSize id r := by
  rw [protected_iff_of_others hothers, hgiven]
  refine forall_congr' fun page => ?_
  have hfits := h.fits_others (hbefore page)
  obtain ⟨hcovered, hleft⟩ := hpages page
  by_cases hcovers : r.Covers pageSize page
  · rw [hcovered hcovers]
    by_cases htouches : r.Touches pageSize page
    · rw [asks_of_touches pageSize (r := { r with locked := true }) rfl htouches,
        Set.singleton_union]
      exact iff_of_true (PageFits.insert r.mode _)
        ⟨fun _ hnot => absurd hcovers hnot, fun _ hnot => absurd htouches hnot⟩
    · rw [asks_of_not_touches pageSize (r := { r with locked := true }) htouches, Set.empty_union,
        pageFits_iff_of_ne hrestricts]
      exact ⟨fun hothers => ⟨fun htouches' => absurd htouches' htouches, fun _ _ => hothers⟩,
        fun hboth => hboth.2 hcovers htouches⟩
  · rw [hleft hcovers]
    by_cases htouches : r.Touches pageSize page
    · rw [asks_of_touches pageSize (r := { r with locked := true }) rfl htouches,
        Set.singleton_union, pageFits_insert_iff hfits hrestricts]
      exact ⟨fun hothers => ⟨fun _ _ => hothers, fun hcovers' => absurd hcovers' hcovers⟩,
        fun hboth => hboth.1 htouches hcovers⟩
    · rw [asks_of_not_touches pageSize (r := { r with locked := true }) htouches, Set.empty_union]
      exact iff_of_true hfits
        ⟨fun htouches' => absurd htouches' htouches, fun hcovers' => absurd hcovers' hcovers⟩

/-- **Unlocking is right** just where it does no harm. -/
theorem RegionsInv.unlocked_iff (h : RegionsInv pageSize w) (hr : w.given id = some r)
    (hothers : ∀ other, other ≠ id → v.given other = w.given other)
    (hafter : ∀ page, asks pageSize (v.given id) page = ∅)
    (hpages : ∀ page, (r.Covers pageSize page → v.regions.pages page = .readWrite) ∧
      (¬ r.Covers pageSize page → v.regions.pages page = w.regions.pages page)) :
    v.Protected pageSize ↔ w.UnlocksWell pageSize id r := by
  rw [protected_iff_of_others hothers]
  refine forall_congr' fun page => ?_
  rw [hafter, Set.empty_union]
  obtain ⟨hcovered, hleft⟩ := hpages page
  by_cases hcovers : r.Covers pageSize page
  · rw [hcovered hcovers, pageFits_readWrite_iff (h.readWrite_notMem id page)]
    exact ⟨fun hagree => ⟨fun _ => hagree, fun _ hnot => absurd hcovers hnot⟩,
      fun hboth => hboth.1 hcovers⟩
  · rw [hleft hcovers]
    by_cases htouches : r.Touches pageSize page
    · exact ⟨fun hfits => ⟨fun hcovers' => absurd hcovers' hcovers, fun _ _ => hfits⟩,
        fun hboth => hboth.2 htouches hcovers⟩
    · have hfits : PageFits (w.askedByOthers pageSize id page) (w.regions.pages page) :=
        h.fits_others (by rw [hr]; exact asks_of_not_touches pageSize htouches)
      exact iff_of_true hfits
        ⟨fun hcovers' => absurd hcovers' hcovers, fun htouches' => absurd htouches' htouches⟩

/-! ### The steps -/

theorem standsFor_new {mode : ProtectionMode} (hmode : mode ≠ .readWrite) (start len : Nat) :
    StandsFor pageSize
      { regionStart := pageAlignedFloor pageSize start
        regionSize := start + len - pageAlignedFloor pageSize start
        oldProt := .readWrite
        newProt := mode
        locked := false }
      { start, len, mode, locked := false } where
  start := rfl
  size := rfl
  oldProt := rfl
  newProt := rfl
  restricts := hmode
  locked := fun _ => rfl

theorem update_other {α : Type} (given : Nat → α) (a : α) {other : Nat} (h : other ≠ id) :
    Function.update given id a other = given other := Function.update_of_ne h _ _

theorem RegionsInv.agrees_construct (h : RegionsInv pageSize w) {mode : ProtectionMode}
    (hmode : mode ≠ .readWrite) (id start len other : Nat) :
    Agrees pageSize ((w.regions.construct pageSize id start (start + len) mode).objects other)
      (Function.update w.given id (some { start, len, mode, locked := true }) other) := by
  rw [Regions.construct]
  by_cases heq : other = id
  · subst heq
    rw [Function.update_self]
    have hagrees : Agrees pageSize (some _) (some _) := standsFor_new hmode start len
    exact hagrees.lock (setObject_same _ _ _)
  · rw [update_other _ _ heq, lockObject_other heq, setObject_other _ _ heq]
    exact h.agrees other

theorem RegionsInv.construct_iff (h : RegionsInv pageSize w) (hfree : w.regions.objects id = none)
    {mode : ProtectionMode} (hmode : mode ≠ .readWrite) (start len : Nat) :
    RegionsRun.Protected pageSize
        { regions := w.regions.construct pageSize id start (start + len) mode
          given := Function.update w.given id (some { start, len, mode, locked := true }) } ↔
      w.LocksWell pageSize id { start, len, mode, locked := true } := by
  refine h.locked_iff hmode (fun other hother => update_other _ _ hother) ?_ ?_ fun page => ?_
  · exact Function.update_self _ _ _
  · rw [h.given_of_free hfree]
    exact asks_none pageSize
  · exact (standsFor_new hmode start len).lock_pages rfl (w.regions.setObject id _) id page

theorem RegionsInv.agrees_update (h : RegionsInv pageSize w) {given : Option Region} {t : Regions}
    (hobject : Agrees pageSize (t.objects id) given)
    (hothers : ∀ other, other ≠ id → t.objects other = w.regions.objects other) (other : Nat) :
    Agrees pageSize (t.objects other) (Function.update w.given id given other) := by
  by_cases heq : other = id
  · rw [heq, Function.update_self]
    exact hobject
  · rw [update_other _ _ heq, hothers other heq]
    exact h.agrees other

theorem lockObject_moved (h : o.regionStart = 0) : s.lockObject pageSize id o = s :=
  if_neg (not_not.mpr h)

theorem unlockObject_moved (h : o.regionStart = 0) : s.unlockObject pageSize id o = s :=
  if_neg (not_not.mpr h)

/-- The call of `lock` on an object. -/
theorem RegionsInv.lock_iff (h : RegionsInv pageSize w) (ho : w.regions.objects id = some o) :
    RegionsRun.Protected pageSize
        { regions := w.regions.lockObject pageSize id o
          given := Function.update w.given id
            ((w.given id).map fun r => { r with locked := true }) } ↔
      ∀ r, w.given id = some r → r.locked = false → w.LocksWell pageSize id r := by
  have hagrees := h.agrees id
  rw [ho] at hagrees
  cases hr : w.given id with
  | none =>
      rw [hr] at hagrees
      refine iff_of_true ?_ fun r hsome => by cases hsome
      refine h.protected_of_same (fun other hother => update_other _ _ hother) (fun page => ?_) ?_
      · dsimp only
        rw [Function.update_self, hr]
        rfl
      · dsimp only
        rw [lockObject_moved hagrees]
  | some r =>
      have hstands := h.standsFor ho hr
      cases hlocked : r.locked with
      | true =>
          refine iff_of_true ?_ fun r' hsome hunlocked => ?_
          · refine h.protected_of_same (fun other hother => update_other _ _ hother)
              (fun page => ?_) (hstands.lock_locked hlocked _ id)
            dsimp only
            rw [Function.update_self, hr, Option.map_some, ← hlocked]
          · cases hsome
            rw [hlocked] at hunlocked
            cases hunlocked
      | false =>
          rw [h.locked_iff hstands.restricts (fun other hother => update_other _ _ hother)
            (Function.update_self _ _ _) (fun page => ?_)
            (hstands.lock_pages hlocked w.regions id)]
          · exact ⟨fun hwell r' hsome _ => by cases hsome; exact hwell,
              fun hall => hall r rfl hlocked⟩
          · rw [hr]
            exact asks_unlocked pageSize hlocked page

/-- The call of `unlock` on an object, which may be the end of it. -/
theorem RegionsInv.unlock_iff (h : RegionsInv pageSize w) (ho : w.regions.objects id = some o)
    (hothers : ∀ other, other ≠ id → v.given other = w.given other)
    (hafter : ∀ page, asks pageSize (v.given id) page = ∅)
    (hpages : v.regions.pages = (w.regions.unlockObject pageSize id o).pages) :
    v.Protected pageSize ↔
      ∀ r, w.given id = some r → r.locked = true → w.UnlocksWell pageSize id r := by
  have hagrees := h.agrees id
  rw [ho] at hagrees
  cases hr : w.given id with
  | none =>
      rw [hr] at hagrees
      refine iff_of_true ?_ fun r hsome => by cases hsome
      refine h.protected_of_same hothers (fun page => ?_) ?_
      · rw [hafter, hr, asks_none]
      · rw [hpages, unlockObject_moved hagrees]
  | some r =>
      have hstands := h.standsFor ho hr
      cases hlocked : r.locked with
      | false =>
          refine iff_of_true ?_ fun r' hsome hlocked' => ?_
          · refine h.protected_of_same hothers (fun page => ?_) ?_
            · rw [hafter, hr, asks_unlocked pageSize hlocked]
            · rw [hpages, hstands.unlock_unlocked hlocked]
          · cases hsome
            rw [hlocked] at hlocked'
            cases hlocked'
      | true =>
          rw [h.unlocked_iff hr hothers hafter (fun page => ?_)]
          · exact ⟨fun hwell r' hsome _ => by cases hsome; exact hwell,
              fun hall => hall r rfl hlocked⟩
          · rw [hpages]
            exact hstands.unlock_pages hlocked w.regions id page

/-- A move hands the region over, and nothing else changes. -/
theorem RegionsInv.move_protected (h : RegionsInv pageSize w) {dst src : Nat}
    (hfree : w.regions.objects dst = none) (ho : w.regions.objects src = some o) :
    RegionsRun.Protected pageSize
      { regions := w.regions.moveConstruct dst src o
        given := Function.update (Function.update w.given dst (w.given src)) src none } := by
  have hne : dst ≠ src := by
    rintro rfl
    cases hfree.symm.trans ho
  have hdst : w.given dst = none := h.given_of_free hfree
  intro page
  suffices hasked : RegionsRun.asked pageSize _ page = w.asked pageSize page by
    rw [hasked]
    exact h.fits page
  ext mode
  constructor
  · rintro ⟨other, hmode⟩
    dsimp only at hmode
    by_cases heqSrc : other = src
    · rw [heqSrc, Function.update_self, asks_none] at hmode
      exact absurd hmode (Set.notMem_empty mode)
    · rw [update_other _ _ heqSrc] at hmode
      by_cases heqDst : other = dst
      · rw [heqDst, Function.update_self] at hmode
        exact ⟨src, hmode⟩
      · rw [update_other _ _ heqDst] at hmode
        exact ⟨other, hmode⟩
  · rintro ⟨other, hmode⟩
    by_cases heqSrc : other = src
    · refine ⟨dst, ?_⟩
      dsimp only
      rw [update_other _ _ hne, Function.update_self, ← heqSrc]
      exact hmode
    · by_cases heqDst : other = dst
      · rw [heqDst, hdst, asks_none] at hmode
        exact absurd hmode (Set.notMem_empty mode)
      · refine ⟨other, ?_⟩
        dsimp only
        rw [update_other _ _ heqSrc, update_other _ _ heqDst]
        exact hmode

theorem RegionsInv.agrees_move (h : RegionsInv pageSize w) {dst src : Nat}
    (ho : w.regions.objects src = some o) (other : Nat) :
    Agrees pageSize ((w.regions.moveConstruct dst src o).objects other)
      (Function.update (Function.update w.given dst (w.given src)) src none other) := by
  rw [Regions.moveConstruct]
  by_cases heqSrc : other = src
  · rw [heqSrc, setObject_same, Function.update_self]
    rfl
  · rw [setObject_other _ _ heqSrc, update_other _ _ heqSrc]
    by_cases heqDst : other = dst
    · rw [heqDst, setObject_same, Function.update_self, ← ho]
      exact h.agrees src
    · rw [setObject_other _ _ heqDst, update_other _ _ heqDst]
      exact h.agrees other

/-- What a step does to the objects, their regions and the pages: the rest of a run relies on this
alone. -/
theorem RegionsInv.step (h : RegionsInv pageSize w) {action : RegionAction}
    (hstep : RegionsRun.step pageSize action w = some v) :
    (v.Protected pageSize ↔ w.Harmless pageSize action) ∧
      ∀ id, Agrees pageSize (v.regions.objects id) (v.given id) := by
  obtain ⟨t, hobjects, rfl⟩ := Option.map_eq_some_iff.mp hstep
  cases action with
  | regionReadonly id start len =>
      rw [Regions.step] at hobjects
      split at hobjects <;> cases hobjects
      rename_i hfree
      have hmode : ProtectionMode.readOnly ≠ .readWrite := by rintro ⟨⟩
      refine ⟨(h.construct_iff hfree hmode start len).trans ?_, h.agrees_construct hmode id start len⟩
      exact ⟨fun hwell _ => hwell, fun hwell => hwell hfree⟩
  | regionWriteonly id start len =>
      rw [Regions.step] at hobjects
      split at hobjects <;> cases hobjects
      rename_i hfree
      have hmode : ProtectionMode.writeOnly ≠ .readWrite := by rintro ⟨⟩
      refine ⟨(h.construct_iff hfree hmode start len).trans ?_, h.agrees_construct hmode id start len⟩
      exact ⟨fun hwell _ => hwell, fun hwell => hwell hfree⟩
  | move dst src =>
      rw [Regions.step] at hobjects
      split at hobjects <;> cases hobjects
      rename_i hfree ho
      exact ⟨iff_of_true (h.move_protected hfree ho) trivial, h.agrees_move ho⟩
  | lock id =>
      obtain ⟨o, ho, rfl⟩ := Option.map_eq_some_iff.mp hobjects
      have hagrees := h.agrees id
      rw [ho] at hagrees
      exact ⟨h.lock_iff ho, h.agrees_update (hagrees.lock ho) fun _ hne => lockObject_other hne⟩
  | unlock id =>
      obtain ⟨o, ho, rfl⟩ := Option.map_eq_some_iff.mp hobjects
      have hagrees := h.agrees id
      rw [ho] at hagrees
      refine ⟨h.unlock_iff ho (fun _ hne => update_other _ _ hne) (fun page => ?_) rfl,
        h.agrees_update (hagrees.unlock ho) fun _ hne => unlockObject_other hne⟩
      change asks pageSize (Function.update w.given id _ id) page = ∅
      rw [Function.update_self]
      cases w.given id with
      | none => exact asks_none pageSize page
      | some r => exact asks_unlocked pageSize rfl page
  | destroy id =>
      obtain ⟨o, ho, rfl⟩ := Option.map_eq_some_iff.mp hobjects
      refine ⟨h.unlock_iff ho (fun _ hne => update_other _ _ hne) (fun page => ?_) rfl,
        h.agrees_update ?_ fun _ hne => ?_⟩
      · change asks pageSize (Function.update w.given id none id) page = ∅
        rw [Function.update_self, asks_none]
      · rw [Regions.destroy, setObject_same]
        trivial
      · rw [Regions.destroy, setObject_other _ _ hne, unlockObject_other hne]

/-- A step that is not possible does no harm. -/
theorem RegionsInv.harmless_of_none (h : RegionsInv pageSize w) {action : RegionAction}
    (hnone : RegionsRun.step pageSize action w = none) : w.Harmless pageSize action := by
  rw [RegionsRun.step, Option.map_eq_none_iff] at hnone
  cases action with
  | regionReadonly id start len | regionWriteonly id start len =>
      intro hfree
      rw [Regions.step, hfree] at hnone
      cases hnone
  | move => trivial
  | lock id | unlock id | destroy id =>
      intro r hr
      obtain ⟨o, ho, _⟩ := h.object_of_given hr
      rw [Regions.step, ho] at hnone
      cases hnone

/-- **When the pages are protected.** In every state that the actions lead through, every page fits
the regions that are locked, if and only if every action does no harm. -/
theorem regions_protected_iff (pageSize : Nat) (actions : List RegionAction) :
    Machine.Always (RegionsRun.step pageSize) (RegionsRun.Protected pageSize) actions .initial ↔
      Machine.Meets (RegionsRun.step pageSize) (RegionsRun.Harmless pageSize) actions .initial := by
  have hstep : ∀ action w v, RegionsInv pageSize w → w.Harmless pageSize action →
      RegionsRun.step pageSize action w = some v → RegionsInv pageSize v := by
    intro action w v hinv hharmless hstep
    obtain ⟨hprotected, hagrees⟩ := hinv.step hstep
    exact ⟨hprotected.mpr hharmless, hagrees⟩
  have hneeded : ∀ action w, RegionsInv pageSize w →
      (∀ v, RegionsRun.step pageSize action w = some v → v.Protected pageSize) →
      w.Harmless pageSize action := by
    intro action w hinv hnext
    cases hstep : RegionsRun.step pageSize action w with
    | none => exact hinv.harmless_of_none hstep
    | some v => exact (hinv.step hstep).1.mp (hnext v hstep)
  exact Machine.always_iff_meets hstep (fun w hinv => hinv.fits) hneeded RegionsInv.initial

/-- Two objects of one page, the second of which is destroyed. -/
def sharedPage : List RegionAction :=
  [.regionReadonly 0 4096 16, .regionReadonly 1 4112 16, .destroy 1]

/-- The first region is still locked, and its page can be written. -/
theorem regions_unprotected :
    ¬ ∀ actions,
      Machine.Always (RegionsRun.step 4096) (RegionsRun.Protected 4096) actions .initial := by
  intro h
  obtain ⟨w, hrun, hpage, hfirst, hother⟩ : ∃ w,
      Machine.run (RegionsRun.step 4096) sharedPage .initial = some w ∧
      w.regions.pages 1 = .readWrite ∧ w.given 0 = some ⟨4096, 16, .readOnly, true⟩ ∧
      ∀ id, id ≠ 0 → w.given id = none := by
    refine ⟨_, rfl, by decide, rfl, fun id hid => ?_⟩
    by_cases hsecond : id = 1
    · rw [hsecond]
      rfl
    · simp [RegionAction.grant, RegionsRun.initial, hid, hsecond]
  have hfits := (h sharedPage).of_run hrun 1
  have hasked : w.asked 4096 1 = {.readOnly} := by
    rw [RegionsRun.asked_eq 4096 w 0, hfirst, asks_of_touches 4096 rfl ⟨4096, by decide⟩]
    apply Set.union_eq_left.mpr
    rintro mode ⟨other, hne, hmode⟩
    rw [hother other hne, asks_none] at hmode
    exact absurd hmode (Set.notMem_empty mode)
  have hreadOnly := hfits.restricted .readOnly (hasked ▸ rfl) fun m hm => by
    rw [hasked] at hm
    exact hm
  rw [hpage] at hreadOnly
  cases hreadOnly

end Gcpp
