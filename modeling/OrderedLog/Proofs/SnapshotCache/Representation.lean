import OrderedLog.Proofs.SnapshotCache.Lookups
import OrderedLog.Proofs.SnapshotCache.VersionStore

/-
  This file proves how a snapshot cache can stand for a plain
  store of versions of which it has lost some snapshots, and
  that it then answers as the store does, or has no answer.

  What carries the proof is that the index alone decides which
  versions there are: a loss leaves it as it is, and evictions
  count and remove by it. So a lost snapshot is never taken for
  a version that was not put, nor replaced by an older one.

  Key definitions include:
    * `SnapshotCache.Represents`
    * `SnapshotCache.AnswersAs`

  Key lemmas include:
    * `SnapshotCache.Represents.put`
    * `SnapshotCache.Represents.evictThrough`
    * `SnapshotCache.Represents.dropSnapshot`
    * `SnapshotCache.Represents.floor_iff`
    * `SnapshotCache.Represents.answersAs`
-/

namespace OrderedLog

variable {σ ρ : Type}

------------------------------------------------------------
-- Representation
------------------------------------------------------------

namespace SnapshotCache

/-
  The index has the versions of a store, and a version has the
  value of the store unless its snapshot was lost.
-/
structure Represents
    (c : SnapshotCache σ ρ)
    (store : VersionStore σ)
    (Lost : VersionedId → Prop) : Prop where
  indexed : ∀ object, c.versionList object = store.versionList object
  valued :
    ∀ id value, c.valueAt? id = some value ↔
      store.valueAt? id = some value ∧ ¬ Lost id

theorem represents_empty :
    (empty : SnapshotCache σ ρ).Represents .empty (fun _ => False) where
  indexed := fun _ => rfl
  valued := by
    intro id value
    rw [VersionStore.valueAt?_empty]
    exact ⟨nofun, nofun⟩

theorem Represents.of_lost_iff
    {c : SnapshotCache σ ρ}
    {store : VersionStore σ}
    {Lost Gone : VersionedId → Prop}
    (h : c.Represents store Lost)
    (hSame : ∀ id, Gone id ↔ Lost id) : c.Represents store Gone where
  indexed := h.indexed
  valued := by
    intro id value
    rw [hSame]
    exact h.valued id value

theorem Represents.of_sameContents
    {c d : SnapshotCache σ ρ}
    {store : VersionStore σ}
    {Lost : VersionedId → Prop}
    (h : c.Represents store Lost)
    (hSame : d.SameContents c) : d.Represents store Lost where
  indexed := by
    intro object
    rw [hSame.versionList]
    exact h.indexed object
  valued := by
    intro id value
    rw [hSame.values]
    exact h.valued id value

/- The index has a version if the store has a value there. -/
theorem Represents.indexes_iff
    {c : SnapshotCache σ ρ}
    {store : VersionStore σ}
    {Lost : VersionedId → Prop}
    (h : c.Represents store Lost)
    {id : VersionedId} :
    c.Indexes id ↔ ∃ value, store.valueAt? id = some value := by
  unfold Indexes
  rw [h.indexed]
  exact VersionStore.mem_versionList_iff

/- A put brings back a snapshot that was lost. -/
theorem Represents.put
    {c : SnapshotCache σ ρ}
    {store : VersionStore σ}
    {Lost Gone : VersionedId → Prop}
    (h : c.Represents store Lost)
    (id : VersionedId)
    (value : σ)
    (hGone : ∀ other, Gone other ↔ Lost other ∧ other ≠ id) :
    (c.put id value).Represents (store.put id value) Gone where
  indexed := by
    intro object
    apply versionList_eq_of_mem_iff
      ((store.put id value).versionList_sorted object)
    intro version
    have hIndexes :
        (c.put id value).Indexes ⟨object, version⟩ ↔
          ⟨object, version⟩ = id ∨ c.Indexes ⟨object, version⟩ :=
      indexes_indexVersion_iff
    rw [hIndexes, h.indexes_iff, VersionStore.mem_versionList_iff,
      VersionStore.valueAt?_put]
    by_cases hSame : (⟨object, version⟩ : VersionedId) = id
    · simp [hSame]
    · simp [hSame]
  valued := by
    intro other there
    have hValue : (c.put id value).valueAt? other =
        if other = id then some value else c.valueAt? other :=
      c.valueAt?_insertSnapshot id other value
    rw [hValue, VersionStore.valueAt?_put, hGone]
    by_cases hSame : other = id
    · simp [hSame]
    · rw [if_neg hSame, if_neg hSame, h.valued]
      simp [hSame]

/- An eviction removes by the index, lost snapshots included. -/
theorem Represents.evictThrough
    {c : SnapshotCache σ ρ}
    {store : VersionStore σ}
    {Lost : VersionedId → Prop}
    (h : c.Represents store Lost)
    (id : VersionedId) :
    (c.evictThrough id).2.Represents (store.evictThrough id) Lost where
  indexed := by
    intro object
    apply versionList_eq_of_mem_iff
      ((store.evictThrough id).versionList_sorted object)
    intro version
    rw [indexes_evictThrough_iff, h.indexes_iff,
      VersionStore.mem_versionList_iff]
    simp only [VersionStore.valueAt?_evictThrough, exists_and_right]
  valued := by
    intro other value
    have hValue : (c.evictThrough id).2.valueAt? other = some value ↔
        c.valueAt? other = some value ∧
          ¬ (id.Covers other ∧ c.Indexes other) := by
      unfold valueAt?
      simp only [Option.map_eq_some_iff, get?_live_evictThrough]
      constructor
      · rintro ⟨entry, ⟨hEntry, hNot⟩, hThere⟩
        exact ⟨⟨entry, hEntry, hThere⟩, hNot⟩
      · rintro ⟨⟨entry, hEntry, hThere⟩, hNot⟩
        exact ⟨entry, ⟨hEntry, hNot⟩, hThere⟩
    rw [hValue, h.valued, h.indexes_iff, VersionStore.valueAt?_evictThrough]
    constructor
    · rintro ⟨⟨hThere, hLost⟩, hNot⟩
      exact ⟨⟨hThere, fun hCovers => hNot ⟨hCovers, value, hThere⟩⟩, hLost⟩
    · rintro ⟨⟨hThere, hNot⟩, hLost⟩
      exact ⟨⟨hThere, hLost⟩, fun hBoth => hNot hBoth.1⟩

/- A loss leaves the index as it is. -/
theorem Represents.dropSnapshot
    {c : SnapshotCache σ ρ}
    {store : VersionStore σ}
    {Lost Gone : VersionedId → Prop}
    (h : c.Represents store Lost)
    (id : VersionedId)
    (hGone : ∀ other, Gone other ↔ Lost other ∨ other = id) :
    (c.dropSnapshot id).Represents store Gone where
  indexed := h.indexed
  valued := by
    intro other value
    have hValue : (c.dropSnapshot id).valueAt? other =
        if other = id then none else c.valueAt? other := by
      unfold valueAt? SnapshotCache.dropSnapshot
      simp only [SortedMap.get?_erase]
      split <;> rfl
    rw [hValue, hGone]
    by_cases hSame : other = id
    · simp [hSame]
    · simp [hSame, h.valued]

------------------------------------------------------------
-- Answers
------------------------------------------------------------

/-
  A cache that answers as a store does, except that it has no
  answer where the snapshot was lost.
-/
structure AnswersAs
    (c : SnapshotCache σ ρ)
    (store : VersionStore σ)
    (Lost : VersionedId → Prop) : Prop where
  versions : ∀ object, c.versionList object = store.versionList object
  get_iff :
    ∀ id kind seen, (c.get id kind).1.map Handle.seen = some seen ↔
      store.snapshot? id = some seen ∧ ¬ Lost seen.1
  floor_iff :
    ∀ id kind seen, (c.floor id kind).1.map Handle.seen = some seen ↔
      store.floorSnapshot? id = some seen ∧ ¬ Lost seen.1
  isLive_iff :
    ∀ id, c.isLive id = true ↔
      (store.snapshot? id).isSome = true ∧ ¬ Lost id
  /- An eviction counts just what it removes from the store. -/
  evicted :
    ∀ id, (c.evictThrough id).1 +
        ((store.evictThrough id).versionList id.object).length =
      (store.versionList id.object).length
  /- Other objects and higher versions are left alone. -/
  untouched :
    ∀ id other, ¬ id.Covers other →
      (c.evictThrough id).2.live.get? other = c.live.get? other ∧
        ((c.evictThrough id).2.Indexes other ↔ c.Indexes other)

/- The indexed floor is the floor of the store. -/
theorem Represents.floorVersion?_eq
    {c : SnapshotCache σ ρ}
    {store : VersionStore σ}
    {Lost : VersionedId → Prop}
    (h : c.Represents store Lost)
    (id : VersionedId) :
    c.floorVersion? id =
      (store.floorSnapshot? id).map (fun seen => seen.1.version) := by
  unfold floorVersion? VersionStore.floorSnapshot?
  rw [h.indexed]
  unfold VersionStore.versionList SortedMap.keys
  rw [List.filter_map, List.getLast?_map, Option.map_map]
  rfl

theorem Represents.floor_iff
    {c : SnapshotCache σ ρ}
    {store : VersionStore σ}
    {Lost : VersionedId → Prop}
    (h : c.Represents store Lost)
    (id : VersionedId)
    (kind : ProxyKind)
    (seen : VersionedId × σ) :
    (c.floor id kind).1.map Handle.seen = some seen ↔
      store.floorSnapshot? id = some seen ∧ ¬ Lost seen.1 := by
  rw [seen_floor, h.floorVersion?_eq]
  cases hFloor : store.floorSnapshot? id with
  | none => simp
  | some floor =>
    rcases VersionStore.floorSnapshot?_eq_some_iff.mp hFloor with
      ⟨hCovers, hThere, _⟩
    have hSame : id.withVersion floor.1.version = floor.1 :=
      VersionedId.eq_of_parts_eq hCovers.1 rfl
    rw [Option.map_some, Option.bind_some, hSame, Option.map_eq_some_iff,
      Option.some_inj]
    simp only [h.valued, hThere, Option.some_inj]
    constructor
    · rintro ⟨value, ⟨rfl, hLost⟩, rfl⟩
      exact ⟨rfl, hLost⟩
    · rintro ⟨rfl, hLost⟩
      exact ⟨floor.2, ⟨rfl, hLost⟩, rfl⟩

theorem Represents.answersAs
    {c : SnapshotCache σ ρ}
    {store : VersionStore σ}
    {Lost : VersionedId → Prop}
    (h : c.Represents store Lost) : c.AnswersAs store Lost where
  versions := h.indexed
  get_iff := by
    intro id kind seen
    rw [seen_get]
    unfold VersionStore.snapshot?
    simp only [Option.map_eq_some_iff, h.valued]
    constructor
    · rintro ⟨value, ⟨hThere, hLost⟩, rfl⟩
      exact ⟨⟨value, hThere, rfl⟩, hLost⟩
    · rintro ⟨⟨value, hThere, rfl⟩, hLost⟩
      exact ⟨value, ⟨hThere, hLost⟩, rfl⟩
  floor_iff := h.floor_iff
  isLive_iff := by
    intro id
    rw [isLive_iff_exists]
    unfold VersionStore.snapshot?
    rw [Option.isSome_map, Option.isSome_iff_exists]
    simp only [h.valued, exists_and_right]
  evicted := by
    intro id
    rw [count_evictThrough, h.indexed]
    exact store.length_versionList_evictThrough id
  untouched := by
    intro id other hNot
    constructor
    · apply Option.ext
      intro entry
      rw [get?_live_evictThrough]
      simp [hNot]
    · rw [indexes_evictThrough_iff]
      simp [hNot]

end SnapshotCache

end OrderedLog
