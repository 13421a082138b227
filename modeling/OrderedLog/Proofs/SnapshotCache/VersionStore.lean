import Mathlib.Data.List.Basic
import Mathlib.Tactic.Common
import OrderedLog.Proofs.Eviction.Coverage

/-
  This file defines a plain store of values at versions: for
  each object a map from its versions to the values that were
  last put there. An eviction removes every version of an
  object up to a bound, and nothing else is ever removed.

  Key definitions include:
    * `VersionStore`
    * `VersionStore.put`
    * `VersionStore.evictThrough`
    * `VersionStore.versionList`
    * `VersionStore.snapshot?`
    * `VersionStore.floorSnapshot?`

  Key lemmas include:
    * `VersionStore.valueAt?_put`
    * `VersionStore.valueAt?_evictThrough`
    * `VersionStore.length_versionList_evictThrough`
    * `VersionStore.floorSnapshot?_eq_some_iff`
-/

namespace OrderedLog

/- For each object the values at its versions. -/
structure VersionStore (σ : Type) where
  valuesOf : StreamId → SortedMap Address σ

namespace VersionStore

variable {σ : Type}

/- A store without versions. -/
def empty : VersionStore σ where
  valuesOf := fun _ => ∅

/- The store with other values of one object. -/
def withValues
    (store : VersionStore σ)
    (object : StreamId)
    (values : SortedMap Address σ) : VersionStore σ where
  valuesOf := fun other =>
    if other = object then values else store.valuesOf other

/- Put a value at a version, in place of any value there. -/
def put
    (store : VersionStore σ)
    (id : VersionedId)
    (value : σ) : VersionStore σ :=
  store.withValues id.object
    ((store.valuesOf id.object).insert id.version value)

/- Remove every version of an object up to a bound. -/
def evictThrough
    (store : VersionStore σ)
    (id : VersionedId) : VersionStore σ :=
  store.withValues id.object
    ((store.valuesOf id.object).filterKeys (fun v => id.version < v))

/- The versions of an object in ascending order. -/
def versionList
    (store : VersionStore σ)
    (object : StreamId) : List Address :=
  (store.valuesOf object).keys

/- The value at a version. -/
def valueAt?
    (store : VersionStore σ)
    (id : VersionedId) : Option σ :=
  (store.valuesOf id.object).get? id.version

/- The value at a version, together with that version. -/
def snapshot?
    (store : VersionStore σ)
    (id : VersionedId) : Option (VersionedId × σ) :=
  (store.valueAt? id).map (fun value => (id, value))

/-
  The highest version of an object up to a bound, together with
  the value there.
-/
def floorSnapshot?
    (store : VersionStore σ)
    (id : VersionedId) : Option (VersionedId × σ) :=
  let upTo :=
    (store.valuesOf id.object).entries.filter
      (fun e => e.1 ≤ id.version)
  upTo.getLast?.map (fun e => (id.withVersion e.1, e.2))

------------------------------------------------------------
-- Values
------------------------------------------------------------

@[simp]
theorem valueAt?_empty
    (id : VersionedId) : (empty : VersionStore σ).valueAt? id = none :=
  rfl

/- A put changes the value at its version alone. -/
theorem valueAt?_put
    (store : VersionStore σ)
    (id other : VersionedId)
    (value : σ) :
    (store.put id value).valueAt? other =
      if other = id then some value else store.valueAt? other := by
  unfold put withValues valueAt?
  by_cases hObject : other.object = id.object
  · simp only [hObject, if_true, SortedMap.get?_insert]
    by_cases hVersion : other.version = id.version
    · rw [if_pos hVersion,
        if_pos (VersionedId.eq_of_parts_eq hObject hVersion)]
    · rw [if_neg hVersion,
        if_neg (fun hSame => hVersion (congrArg _ hSame))]
  · simp only [hObject, if_false]
    rw [if_neg (fun hSame => hObject (congrArg _ hSame))]

/- An eviction removes the values that it covers. -/
theorem valueAt?_evictThrough
    {store : VersionStore σ}
    {id other : VersionedId}
    {value : σ} :
    (store.evictThrough id).valueAt? other = some value ↔
      store.valueAt? other = some value ∧ ¬ id.Covers other := by
  unfold evictThrough withValues valueAt? VersionedId.Covers
  by_cases hObject : other.object = id.object
  · simp only [hObject, if_true, SortedMap.get?_filterKeys,
      decide_eq_true_eq, true_and, Address.not_le]
    by_cases hAbove : id.version < other.version
    · simp [hAbove]
    · simp [hAbove]
  · simp only [hObject, if_false]
    constructor
    · intro hValue
      exact ⟨hValue, fun hCovers => hObject hCovers.1.symm⟩
    · exact And.left

------------------------------------------------------------
-- Versions
------------------------------------------------------------

theorem mem_versionList_iff
    {store : VersionStore σ}
    {object : StreamId}
    {version : Address} :
    version ∈ store.versionList object ↔
      ∃ value, store.valueAt? ⟨object, version⟩ = some value := by
  unfold versionList valueAt?
  rw [SortedMap.mem_keys_iff, SortedMap.mem_iff_exists]

theorem versionList_sorted
    (store : VersionStore σ)
    (object : StreamId) :
    (store.versionList object).Pairwise (fun a b => a < b) :=
  (store.valuesOf object).keys_sorted

/- The versions up to a bound, and those that an eviction leaves. -/
theorem length_versionList_evictThrough
    (store : VersionStore σ)
    (id : VersionedId) :
    ((store.versionList id.object).filter
        (fun v => v ≤ id.version)).length +
      ((store.evictThrough id).versionList id.object).length =
        (store.versionList id.object).length := by
  have hKept : (store.evictThrough id).versionList id.object =
      (store.versionList id.object).filter
        (fun v => !decide (v ≤ id.version)) := by
    unfold evictThrough withValues versionList
    simp only [if_true]
    rw [SortedMap.keys_filterKeys]
    apply List.filter_congr
    intro version _
    simp [← Address.not_le]
  rw [hKept]
  exact (List.length_eq_length_filter_add _).symm

------------------------------------------------------------
-- Floors
------------------------------------------------------------

/- The last entry of an ascending list has the highest key. -/
theorem getLast?_eq_some_iff_of_sorted
    {entries : List (Address × σ)}
    (hSorted : entries.Pairwise (fun a b => a.1 < b.1))
    {e : Address × σ} :
    entries.getLast? = some e ↔
      e ∈ entries ∧ ∀ other ∈ entries, other.1 ≤ e.1 := by
  rcases entries.eq_nil_or_concat' with rfl | ⟨front, last, rfl⟩
  · simp
  · rw [List.getLast?_append, List.getLast?_singleton, Option.some_or,
      Option.some_inj]
    have hBelow : ∀ other ∈ front, other.1 < last.1 := fun other hOther =>
      (List.pairwise_append.mp hSorted).2.2 other hOther last
        (List.mem_singleton_self last)
    constructor
    · rintro rfl
      refine ⟨List.mem_append_right _ (List.mem_singleton_self last), ?_⟩
      intro other hOther
      rcases List.mem_append.mp hOther with hFront | hLast
      · exact Nat.le_of_lt (hBelow other hFront)
      · rw [List.mem_singleton.mp hLast]
        exact Address.le_refl last.1
    · rintro ⟨hMem, hHighest⟩
      rcases List.mem_append.mp hMem with hFront | hLast
      · have hLe := hHighest last
          (List.mem_append_right _ (List.mem_singleton_self last))
        exact absurd hLe (Address.not_le.mpr (hBelow e hFront))
      · exact (List.mem_singleton.mp hLast).symm

/-
  The floor of a bound is the one version up to it that covers
  all the others.
-/
theorem floorSnapshot?_eq_some_iff
    {store : VersionStore σ}
    {id found : VersionedId}
    {value : σ} :
    store.floorSnapshot? id = some (found, value) ↔
      id.Covers found ∧ store.valueAt? found = some value ∧
        ∀ other, id.Covers other → store.valueAt? other ≠ none →
          found.Covers other := by
  have hSorted :=
    (store.valuesOf id.object).entries_sorted.filter
      (fun e => e.1 ≤ id.version)
  have hUpTo : ∀ e : Address × σ,
      e ∈ (store.valuesOf id.object).entries.filter
          (fun e => e.1 ≤ id.version) ↔
        e.1 ≤ id.version ∧
          store.valueAt? (id.withVersion e.1) = some e.2 := by
    rintro ⟨version, there⟩
    rw [List.mem_filter, decide_eq_true_eq, and_comm,
      ← SortedMap.get?_eq_some_iff]
    rfl
  unfold floorSnapshot?
  rw [Option.map_eq_some_iff]
  simp only [getLast?_eq_some_iff_of_sorted hSorted, hUpTo]
  constructor
  · rintro ⟨⟨version, there⟩, ⟨⟨hBelow, hValue⟩, hHighest⟩, hFound⟩
    rw [Prod.mk.injEq] at hFound
    rcases hFound with ⟨rfl, rfl⟩
    refine ⟨⟨rfl, hBelow⟩, hValue, ?_⟩
    intro other hCovers hOther
    rcases Option.ne_none_iff_exists'.mp hOther with ⟨another, hAnother⟩
    have hSame : id.withVersion other.version = other :=
      VersionedId.eq_of_parts_eq hCovers.1 rfl
    refine ⟨hCovers.1, hHighest ⟨other.version, another⟩ ⟨hCovers.2, ?_⟩⟩
    rw [hSame]
    exact hAnother
  · rintro ⟨hCovers, hValue, hHighest⟩
    have hFound : id.withVersion found.version = found :=
      VersionedId.eq_of_parts_eq hCovers.1 rfl
    refine ⟨⟨found.version, value⟩, ⟨⟨hCovers.2, ?_⟩, ?_⟩, ?_⟩
    · rw [hFound]
      exact hValue
    · rintro ⟨version, there⟩ ⟨hBelow, hThere⟩
      refine (hHighest (id.withVersion version) ⟨rfl, hBelow⟩ ?_).2
      rw [hThere]
      exact Option.some_ne_none there
    · rw [hFound]

end VersionStore

end OrderedLog
