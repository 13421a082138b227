import Mathlib.Tactic.Common
import OrderedLog.SnapshotCache.Basic
import OrderedLog.SortedMap.Lemmas

/-
  This file proves which values a snapshot cache has after each
  of its operations. Only storing a snapshot brings a value in.
  All else leaves values as they are or takes some away.

  Key definitions include:
    * `SnapshotCache.valueAt?`
    * `SnapshotCache.Within`

  Key lemmas include:
    * `SnapshotCache.valueAt?_of_leases`
    * `SnapshotCache.get_cases`
    * `SnapshotCache.floor_cases`
    * `SnapshotCache.valueAt?_insertSnapshot`
    * `SnapshotCache.within_dropSnapshot`
    * `SnapshotCache.within_evictThrough`
-/

namespace OrderedLog

namespace SnapshotCache

variable {σ ρ : Type}

------------------------------------------------------------
-- Values
------------------------------------------------------------

/- The value of the live snapshot at a version. -/
def valueAt?
    (c : SnapshotCache σ ρ)
    (id : VersionedId) : Option σ :=
  (c.live.get? id).map (fun entry => entry.snapshot.value)

/- A cache that has no other values than a given one. -/
def Within (c d : SnapshotCache σ ρ) : Prop :=
  ∀ id value, c.valueAt? id = some value → d.valueAt? id = some value

theorem within_refl (c : SnapshotCache σ ρ) : c.Within c :=
  fun _ _ h => h

theorem Within.trans
    {c d e : SnapshotCache σ ρ}
    (h : c.Within d)
    (h' : d.Within e) : c.Within e :=
  fun id value hValue => h' id value (h id value hValue)

theorem within_of_live_eq
    {c d : SnapshotCache σ ρ}
    (h : c.live = d.live) : c.Within d := by
  intro id value hValue
  unfold valueAt? at hValue ⊢
  rw [← h]
  exact hValue

/- The registration of a lease leaves the values alone. -/
theorem valueAt?_of_leases
    {c d : SnapshotCache σ ρ}
    {id : VersionedId}
    {entry : SnapshotEntry σ}
    (hEntry : d.live.get? id = some entry)
    (leases : List Nat)
    (hLive : c.live = d.live.insert id { entry with leases })
    (other : VersionedId) : c.valueAt? other = d.valueAt? other := by
  unfold valueAt?
  rw [hLive, SortedMap.get?_insert]
  by_cases hSame : other = id
  · rw [if_pos hSame, hSame, hEntry]
    rfl
  · rw [if_neg hSame]

theorem within_of_leases
    {c d : SnapshotCache σ ρ}
    {id : VersionedId}
    {entry : SnapshotEntry σ}
    (hEntry : d.live.get? id = some entry)
    (leases : List Nat)
    (hLive : c.live = d.live.insert id { entry with leases }) :
    c.Within d := by
  intro other value hValue
  rw [← valueAt?_of_leases hEntry leases hLive]
  exact hValue

------------------------------------------------------------
-- Lookups
------------------------------------------------------------

/- An exact lookup finds the value there is, and leaves it. -/
theorem get_cases
    (c : SnapshotCache σ ρ)
    (id : VersionedId) :
    (∃ handle next value,
        c.get id .reference = (some handle, next) ∧
        c.valueAt? id = some value ∧
        handle.proxy.value = value ∧
        next.Within c) ∨
      (∃ next, c.get id .reference = (none, next) ∧ next.Within c) := by
  unfold get
  cases hEntry : c.live.get? id with
  | none => exact Or.inr ⟨_, rfl, within_refl c⟩
  | some entry =>
    left
    refine ⟨_, _, entry.snapshot.value, rfl, ?_, rfl, ?_⟩
    · unfold valueAt?
      rw [hEntry]
      rfl
    · exact within_of_leases hEntry _ rfl

/-
  A floor lookup finds the value at the highest indexed version
  up to a bound, and leaves it.
-/
theorem floor_cases
    (c : SnapshotCache σ ρ)
    (id : VersionedId) :
    (∃ handle next version value,
        c.floor id .reference = (some handle, next) ∧
        version ≤ id.version ∧
        c.valueAt? ⟨id.object, version⟩ = some value ∧
        handle.proxy.id.version = version ∧
        handle.proxy.value = value ∧
        next.Within c) ∨
      (∃ next, c.floor id .reference = (none, next) ∧
        next.Within c) := by
  unfold floor
  simp only
  cases hFloor : c.floorVersion? id with
  | none => exact Or.inr ⟨_, rfl, within_refl c⟩
  | some version =>
    have hBelow : version ≤ id.version := by
      unfold floorVersion? at hFloor
      have hMem := List.mem_of_getLast? hFloor
      exact of_decide_eq_true (List.mem_filter.mp hMem).2
    cases hEntry : c.live.get? (id.withVersion version) with
    | none =>
      simp only [hEntry]
      exact Or.inr ⟨_, rfl, within_refl c⟩
    | some entry =>
      simp only [hEntry]
      left
      refine ⟨_, _, version, entry.snapshot.value, rfl, hBelow, ?_,
        rfl, rfl, ?_⟩
      · have hSame : id.withVersion version = ⟨id.object, version⟩ := rfl
        unfold valueAt?
        rw [← hSame, hEntry]
        rfl
      · exact within_of_leases hEntry _ rfl

/- The release of a lease leaves the values alone. -/
theorem within_release
    (c : SnapshotCache σ ρ)
    (lease : Nat) : (c.release lease).Within c :=
  within_refl c

------------------------------------------------------------
-- Storing and losing
------------------------------------------------------------

/- A stored snapshot has its value at its version. -/
theorem valueAt?_insertSnapshot
    (c : SnapshotCache σ ρ)
    (id other : VersionedId)
    (value : σ) :
    (c.insertSnapshot id value).valueAt? other =
      if other = id then some value else c.valueAt? other := by
  unfold insertSnapshot valueAt?
  simp only [SortedMap.get?_insert]
  by_cases hSame : other = id
  · simp [hSame]
  · simp [hSame]

theorem within_dropSnapshot
    (c : SnapshotCache σ ρ)
    (id : VersionedId) : (c.dropSnapshot id).Within c := by
  intro other value hValue
  unfold valueAt? dropSnapshot at hValue
  simp only [SortedMap.get?_erase] at hValue
  unfold valueAt?
  by_cases hSame : other = id
  · rw [if_pos hSame] at hValue
    cases hValue
  · rw [if_neg hSame] at hValue
    exact hValue

theorem within_evictThrough
    (c : SnapshotCache σ ρ)
    (id : VersionedId) : (c.evictThrough id).2.Within c := by
  unfold evictThrough
  split
  · exact within_refl c
  · intro other value hValue
    unfold valueAt? at hValue
    simp only [SortedMap.get?_eraseAll] at hValue
    unfold valueAt?
    split at hValue
    · cases hValue
    · exact hValue

end SnapshotCache

end OrderedLog
