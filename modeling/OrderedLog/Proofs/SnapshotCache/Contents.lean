import Mathlib.Tactic.Common
import OrderedLog.Proofs.Eviction.Coverage
import OrderedLog.SnapshotCache.Basic

/-
  This file proves what the parts of a put, an eviction and a
  loss do to the live snapshots of a cache and to its index of
  versions.

  Key definitions include:
    * `SnapshotCache.Indexes`
    * `SnapshotCache.liveVersions`

  Key lemmas include:
    * `SnapshotCache.isLive_insertSnapshot_iff`
    * `SnapshotCache.indexes_indexVersion_iff`
    * `SnapshotCache.indexes_evictThrough_iff`
    * `SnapshotCache.get?_index_evictThrough`
    * `SnapshotCache.get?_live_evictThrough`
    * `SnapshotCache.count_evictThrough`
    * `SnapshotCache.versionList_eq_liveVersions`
-/

namespace OrderedLog

namespace SnapshotCache

variable {σ ρ : Type}

/- The index has a version of an object. -/
def Indexes
    (c : SnapshotCache σ ρ)
    (id : VersionedId) : Prop :=
  id.version ∈ c.versionList id.object

/- The versions of an object with a live snapshot, ascending. -/
def liveVersions
    (c : SnapshotCache σ ρ)
    (object : StreamId) : List Address :=
  (c.keys.filter (fun id => id.object = object)).map
    VersionedId.version

theorem indexes_iff
    {c : SnapshotCache σ ρ}
    {id : VersionedId} :
    c.Indexes id ↔ id.version ∈ c.versions id.object := by
  unfold Indexes versionList
  exact SortedSet.mem_toList_iff

theorem isLive_iff
    {c : SnapshotCache σ ρ}
    {id : VersionedId} : c.isLive id = true ↔ id ∈ c.live :=
  Iff.rfl

theorem not_indexes_of_get?
    {c : SnapshotCache σ ρ}
    {id : VersionedId}
    (h : c.index.get? id.object = none) : ¬ c.Indexes id := by
  rw [indexes_iff]
  unfold versions
  rw [h]
  exact SortedMap.not_mem_empty id.version

------------------------------------------------------------
-- Storing
------------------------------------------------------------

/- A stored snapshot is live at its version. -/
theorem isLive_insertSnapshot_iff
    {c : SnapshotCache σ ρ}
    {id other : VersionedId}
    {value : σ} :
    (c.insertSnapshot id value).isLive other = true ↔
      other = id ∨ c.isLive other = true :=
  SortedMap.mem_insert_iff

/- An indexed version joins those of its object. -/
theorem indexes_indexVersion_iff
    {c : SnapshotCache σ ρ}
    {id other : VersionedId} :
    (c.indexVersion id).Indexes other ↔
      other = id ∨ c.Indexes other := by
  rw [indexes_iff, indexes_iff]
  unfold indexVersion versions
  simp only [SortedMap.get?_insert]
  by_cases hObject : other.object = id.object
  · rw [if_pos hObject, Option.getD_some, SortedSet.mem_add_iff,
      hObject]
    constructor
    · intro hEither
      rcases hEither with hVersion | hOld
      · exact Or.inl (VersionedId.eq_of_parts_eq hObject hVersion)
      · exact Or.inr hOld
    · intro hEither
      rcases hEither with hSame | hOld
      · exact Or.inl (congrArg VersionedId.version hSame)
      · exact Or.inr hOld
  · rw [if_neg hObject]
    constructor
    · intro hOld
      exact Or.inr hOld
    · intro hEither
      rcases hEither with hSame | hOld
      · exact absurd (congrArg VersionedId.object hSame) hObject
      · exact hOld

------------------------------------------------------------
-- Eviction and loss
------------------------------------------------------------

/- A lost snapshot is live no more. -/
theorem isLive_dropSnapshot_iff
    {c : SnapshotCache σ ρ}
    {id other : VersionedId} :
    (c.dropSnapshot id).isLive other = true ↔
      other ≠ id ∧ c.isLive other = true :=
  SortedMap.mem_erase_iff

/- An eviction takes the versions it covers out of the index. -/
theorem indexes_evictThrough_iff
    {c : SnapshotCache σ ρ}
    {id other : VersionedId} :
    (c.evictThrough id).2.Indexes other ↔
      c.Indexes other ∧ ¬ id.Covers other := by
  unfold evictThrough
  cases hIndex : c.index.get? id.object with
  | none =>
    constructor
    · intro hOld
      refine ⟨hOld, ?_⟩
      rintro ⟨hObject, _⟩
      rw [hObject] at hIndex
      exact not_indexes_of_get? hIndex hOld
    · exact And.left
  | some indexed =>
    rw [indexes_iff, indexes_iff]
    simp only [versions, SortedMap.get?_insert]
    by_cases hObject : other.object = id.object
    · rw [if_pos hObject, Option.getD_some, hObject, hIndex,
        Option.getD_some, SortedMap.mem_filterKeys_iff,
        decide_eq_true_eq]
      refine and_congr_right (fun _ => ?_)
      constructor
      · rintro hAbove ⟨_, hBelow⟩
        exact Address.not_le.mpr hAbove hBelow
      · intro hNot
        apply Address.not_le.mp
        intro hBelow
        exact hNot ⟨hObject.symm, hBelow⟩
    · rw [if_neg hObject]
      constructor
      · intro hOld
        exact ⟨hOld, fun hCovers => hObject hCovers.1.symm⟩
      · exact And.left

/- An eviction leaves the index of other objects as it is. -/
theorem get?_index_evictThrough
    (c : SnapshotCache σ ρ)
    (id : VersionedId)
    (object : StreamId) :
    (c.evictThrough id).2.index.get? object =
      (c.index.get? object).map
        (fun versions =>
          versions.filterKeys (fun v => ¬ id.Covers ⟨object, v⟩)) := by
  have hOther : object ≠ id.object →
      (c.index.get? object).map
          (fun versions =>
            versions.filterKeys (fun v => ¬ id.Covers ⟨object, v⟩)) =
        c.index.get? object := by
    intro hNe
    have hKept : ∀ v, decide (¬ id.Covers ⟨object, v⟩) = true := by
      intro v
      exact decide_eq_true (fun hCovers => hNe hCovers.1.symm)
    simp only [SortedMap.filterKeys_eq_self hKept, Option.map_id']
  unfold evictThrough
  cases hIndex : c.index.get? id.object with
  | none =>
    by_cases hObject : object = id.object
    · simp [hObject, hIndex]
    · exact (hOther hObject).symm
  | some indexed =>
    simp only [SortedMap.get?_insert]
    by_cases hObject : object = id.object
    · subst hObject
      simp [hIndex, VersionedId.Covers, ← Address.not_le]
    · rw [if_neg hObject]
      exact (hOther hObject).symm

/-
  An eviction takes the snapshots away that it covers, if their
  versions are in the index. The others stay as they are.
-/
theorem get?_live_evictThrough
    {c : SnapshotCache σ ρ}
    {id other : VersionedId}
    {entry : SnapshotEntry σ} :
    (c.evictThrough id).2.live.get? other = some entry ↔
      c.live.get? other = some entry ∧
        ¬ (id.Covers other ∧ c.Indexes other) := by
  unfold evictThrough
  cases hIndex : c.index.get? id.object with
  | none =>
    constructor
    · intro hOld
      refine ⟨hOld, ?_⟩
      rintro ⟨⟨hObject, _⟩, hIndexed⟩
      rw [hObject] at hIndex
      exact not_indexes_of_get? hIndex hIndexed
    · exact And.left
  | some indexed =>
    have hGone :
        other ∈ (c.versionsUpTo id).toList.map id.withVersion ↔
          id.Covers other ∧ c.Indexes other := by
      rw [List.mem_map]
      unfold versionsUpTo
      simp only [SortedSet.mem_toList_iff, SortedMap.mem_filterKeys_iff,
        decide_eq_true_eq]
      rw [indexes_iff]
      constructor
      · rintro ⟨version, ⟨hMem, hBelow⟩, rfl⟩
        exact ⟨⟨rfl, hBelow⟩, hMem⟩
      · intro hBoth
        rcases hBoth with ⟨⟨hObject, hBelow⟩, hMem⟩
        rw [← hObject] at hMem
        exact ⟨other.version, ⟨hMem, hBelow⟩,
          VersionedId.eq_of_parts_eq hObject rfl⟩
    simp only
    rw [SortedMap.get?_eraseAll, ← hGone]
    split
    · next hMem => simp [hMem]
    · next hNot => simp [hNot]

theorem isLive_evictThrough_iff
    {c : SnapshotCache σ ρ}
    {id other : VersionedId} :
    (c.evictThrough id).2.isLive other = true ↔
      c.isLive other = true ∧ ¬ (id.Covers other ∧ c.Indexes other) := by
  rw [isLive_iff, isLive_iff, SortedMap.mem_iff_exists,
    SortedMap.mem_iff_exists]
  simp only [get?_live_evictThrough, exists_and_right]

/- An eviction counts the indexed versions up to its bound. -/
theorem count_evictThrough
    (c : SnapshotCache σ ρ)
    (id : VersionedId) :
    (c.evictThrough id).1 =
      ((c.versionList id.object).filter
        (fun v => v ≤ id.version)).length := by
  have hUpTo : (c.versionsUpTo id).size =
      ((c.versionList id.object).filter
        (fun v => v ≤ id.version)).length := by
    unfold versionsUpTo versionList SortedSet.toList
    rw [← SortedMap.keys_filterKeys, SortedMap.size_eq_length,
      SortedMap.keys, List.length_map]
  unfold evictThrough
  split
  · next hIndex =>
    have hNone : c.versionList id.object = [] := by
      unfold versionList versions
      rw [hIndex]
      rfl
    rw [hNone]
    rfl
  · exact hUpTo

------------------------------------------------------------
-- Live versions
------------------------------------------------------------

theorem mem_liveVersions_iff
    {c : SnapshotCache σ ρ}
    {object : StreamId}
    {version : Address} :
    version ∈ c.liveVersions object ↔
      c.isLive ⟨object, version⟩ = true := by
  unfold liveVersions keys
  rw [List.mem_map, isLive_iff, ← SortedMap.mem_keys_iff]
  constructor
  · rintro ⟨⟨o, v⟩, hMem, rfl⟩
    rw [List.mem_filter, decide_eq_true_eq] at hMem
    rcases hMem with ⟨hKey, rfl⟩
    exact hKey
  · intro hKey
    refine ⟨⟨object, version⟩, ?_, rfl⟩
    rw [List.mem_filter, decide_eq_true_eq]
    exact ⟨hKey, rfl⟩

/- The live versions of an object are in ascending order. -/
theorem liveVersions_sorted
    (c : SnapshotCache σ ρ)
    (object : StreamId) :
    (c.liveVersions object).Pairwise (fun a b => a < b) := by
  unfold liveVersions
  rw [List.pairwise_map]
  have hKeys : (c.keys.filter (fun id => id.object = object)).Pairwise
      (fun a b => a < b) :=
    c.live.keys_sorted.filter _
  refine hKeys.imp_of_mem ?_
  intro a b hA hB hLt
  have hObjectA : a.object = object :=
    of_decide_eq_true (List.mem_filter.mp hA).2
  have hObjectB : b.object = object :=
    of_decide_eq_true (List.mem_filter.mp hB).2
  rcases hLt with hObject | ⟨_, hVersion⟩
  · rw [hObjectA, hObjectB] at hObject
    exact absurd hObject (KeyOrder.irrefl object)
  · exact hVersion

/- An ascending list of just the indexed versions is their list. -/
theorem versionList_eq_of_mem_iff
    {c : SnapshotCache σ ρ}
    {object : StreamId}
    {ascending : List Address}
    (hSorted : ascending.Pairwise (fun a b => a < b))
    (h : ∀ version,
      c.Indexes ⟨object, version⟩ ↔ version ∈ ascending) :
    c.versionList object = ascending := by
  unfold versionList
  apply SortedSet.toList_eq_of_sorted hSorted
  intro version
  have hIndexes :
      c.Indexes ⟨object, version⟩ ↔ version ∈ c.versions object :=
    indexes_iff
  rw [← hIndexes]
  exact h version

/-
  When exactly the versions with a live snapshot are indexed,
  the index lists just these.
-/
theorem versionList_eq_liveVersions
    {c : SnapshotCache σ ρ}
    {object : StreamId}
    (h : ∀ version,
      c.Indexes ⟨object, version⟩ ↔
        c.isLive ⟨object, version⟩ = true) :
    c.versionList object = c.liveVersions object := by
  apply versionList_eq_of_mem_iff (c.liveVersions_sorted object)
  intro version
  rw [mem_liveVersions_iff]
  exact h version

end SnapshotCache

end OrderedLog
