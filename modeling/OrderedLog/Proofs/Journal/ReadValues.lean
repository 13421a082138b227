import OrderedLog.Proofs.Journal.Agreement
import OrderedLog.Proofs.Journal.CachedReads
import OrderedLog.Proofs.SnapshotCache.Lookups

/-
  This file proves what a read of a counter returns and leaves,
  whether the log has reached its version or not. The value that
  is returned is cached at the version from then on. All other
  values and the log stay as they are, but for what is counted.

  A read looks at nothing above its version. If all that is
  cached of the counter up to there is right, so is the read.

  Key definitions include:
    * `Counter.baseOf`
    * `Counter.readValue`
    * `Counter.Leaves`

  Key lemmas include:
    * `Counter.exact_eq`
    * `Counter.base_eq`
    * `Counter.leaves_of_cached`
    * `Counter.leaves_put`
    * `Counter.readCached_eq`
    * `Counter.readValue_eq`
-/

namespace OrderedLog

namespace Counter

------------------------------------------------------------
-- Lookups
------------------------------------------------------------

/-
  Where a read of a version that is not cached starts: from the
  value at the floor, or from nothing.
-/
def baseOf
    (id : VersionedId)
    (c : CounterCache) : Int × Option Address :=
  ((c.floorVersion? id).bind (fun version =>
    (c.valueAt? (id.withVersion version)).map (fun value =>
      (value, some version)))).getD (0, none)

theorem exact_eq
    (id : VersionedId)
    (c : CounterCache) :
    (exact id c).1 = c.valueAt? id ∧ (exact id c).2.SameContents c := by
  have hSeen := congrArg (Option.map Prod.snd) (c.seen_get id .reference)
  have hSame := c.sameContents_get id .reference
  unfold exact
  rcases hGet : c.get id .reference with ⟨found, next⟩
  rw [hGet] at hSeen hSame
  simp only [Option.map_map, Function.comp_def, Handle.seen,
    Option.map_id'] at hSeen
  cases found with
  | none => exact ⟨hSeen, hSame⟩
  | some handle => exact ⟨hSeen, ⟨hSame.index, hSame.values⟩⟩

theorem base_eq
    (id : VersionedId)
    (c : CounterCache) :
    (base id c).1 = baseOf id c ∧ (base id c).2.SameContents c := by
  have hSeen :=
    congrArg (Option.map (fun seen => (seen.2, some seen.1.version)))
      (c.seen_floor id .reference)
  have hSame := c.sameContents_floor id .reference
  unfold base baseOf
  rcases hFloor : c.floor id .reference with ⟨found, next⟩
  rw [hFloor] at hSeen hSame
  simp only [Option.map_bind, Function.comp_def, Option.map_map,
    Handle.seen] at hSeen
  cases found with
  | none => exact ⟨congrArg (fun base => base.getD (0, none)) hSeen, hSame⟩
  | some handle =>
    exact ⟨congrArg (fun base => base.getD (0, none)) hSeen,
      ⟨hSame.index, hSame.values⟩⟩

/- Caches with the same contents offer the same floors. -/
theorem baseOf_congr
    {c d : CounterCache}
    (h : c.SameContents d)
    (id : VersionedId) : baseOf id c = baseOf id d := by
  unfold baseOf SnapshotCache.floorVersion?
  rw [h.versionList]
  simp only [h.values]

------------------------------------------------------------
-- Reads
------------------------------------------------------------

/-
  What a read of a version returns: the value that is cached
  there, or the value where it starts with the entries since.
-/
def readValue
    (id : VersionedId)
    (c : CounterCache)
    (j : Journal) : Int :=
  (c.valueAt? id).getD
    ((baseOf id c).1 +
      (j.replay id.object (baseOf id c).2 id.version).1)

/- What a read of a version leaves of a cache and a log. -/
structure Leaves
    (id : VersionedId)
    (c d : CounterCache)
    (j k : Journal) : Prop where
  /- The value that was read is at the version from now on. -/
  values :
    ∀ other,
      d.valueAt? other =
        if other = id then some (readValue id c j) else c.valueAt? other
  indexes :
    ∀ other,
      d.Indexes other ↔
        c.Indexes other ∨ (other = id ∧ c.valueAt? id = none)
  idle : j.Idle k

theorem idle_replay
    (j : Journal)
    (stream : StreamId)
    (lower : Option Address)
    (upper : Address) : j.Idle (j.replay stream lower upper).2 := by
  unfold Journal.replay
  split
  · exact ⟨rfl, rfl, rfl⟩
  · exact ⟨rfl, rfl, rfl⟩

/- A value that is cached is read, and stays where it is. -/
theorem leaves_of_cached
    {id : VersionedId}
    {c d : CounterCache}
    {value : Int}
    (hValue : c.valueAt? id = some value)
    (hSame : d.SameContents c)
    (j : Journal) : Leaves id c d j j := by
  constructor
  · intro other
    rw [hSame.values, readValue, hValue, Option.getD_some]
    split
    · next hOther => rw [hOther, hValue]
    · rfl
  · intro other
    simp [hSame.indexes_iff, hValue]
  · exact ⟨rfl, rfl, rfl⟩

/- A value that is not cached is put there once it is known. -/
theorem leaves_put
    {id : VersionedId}
    {c d : CounterCache}
    {j k : Journal}
    (hValue : c.valueAt? id = none)
    (hSame : d.SameContents c)
    (hIdle : j.Idle k) :
    Leaves id c (d.put id (readValue id c j)) j k := by
  constructor
  · intro other
    change (d.insertSnapshot id (readValue id c j)).valueAt? other = _
    rw [SnapshotCache.valueAt?_insertSnapshot, hSame.values]
  · intro other
    have hStored :
        (d.indexVersion id).Indexes other ↔ other = id ∨ d.Indexes other :=
      SnapshotCache.indexes_indexVersion_iff
    rw [hSame.indexes_iff, or_comm] at hStored
    simp only [hValue, and_true]
    exact hStored
  · exact hIdle

theorem readCached_eq
    (id : VersionedId)
    (c : CounterCache)
    (j : Journal) :
    (readCached id.object id.version (c, j)).1 = readValue id c j ∧
      Leaves id c (readCached id.object id.version (c, j)).2.1
        j (readCached id.object id.version (c, j)).2.2 := by
  have hExact := exact_eq id c
  unfold readCached
  rcases hLookup : exact id c with ⟨found, cache⟩
  rw [hLookup] at hExact
  rcases hExact with ⟨hFound, hCache⟩
  simp only at hFound
  cases found with
  | some value =>
    simp only [hLookup]
    constructor
    · rw [readValue, ← hFound, Option.getD_some]
    · exact leaves_of_cached hFound.symm hCache j
  | none =>
    have hBase := base_eq id cache
    rcases hFloor : base id cache with ⟨start, later⟩
    rw [hFloor, baseOf_congr hCache] at hBase
    rcases hBase with ⟨rfl, hLater⟩
    have hValue :
        readValue id c j =
          (baseOf id c).1 +
            (j.replay id.object (baseOf id c).2 id.version).1 := by
      rw [readValue, ← hFound, Option.getD_none]
    simp only [hLookup, hFloor, ← hValue, true_and]
    exact leaves_put hFound.symm (hLater.trans hCache)
      (idle_replay j id.object (baseOf id c).2 id.version)

------------------------------------------------------------
-- Right values
------------------------------------------------------------

/- If the versions up to this one are right, so is where it starts. -/
theorem rightBase_baseOf
    {id : VersionedId}
    {c : CounterCache}
    {j : Journal}
    (h : ∀ other value,
      id.Covers other → c.valueAt? other = some value →
        j.Settled other.version ∧
          value = j.sumUpTo other.object other.version) :
    RightBase j id (baseOf id c).1 (baseOf id c).2 := by
  unfold baseOf
  cases hFloor : c.floorVersion? id with
  | none => exact rfl
  | some version =>
    have hMem := List.mem_of_getLast? hFloor
    have hBelow : version ≤ id.version :=
      of_decide_eq_true (List.mem_filter.mp hMem).2
    cases hValue : c.valueAt? (id.withVersion version) with
    | none => simp [hValue, RightBase]
    | some value =>
      simp only [Option.bind_some, hValue, Option.map_some,
        Option.getD_some]
      exact ⟨hBelow,
        h (id.withVersion version) value ⟨rfl, hBelow⟩ hValue⟩

/- So the read is right as well. -/
theorem readValue_eq
    {id : VersionedId}
    {c : CounterCache}
    {j : Journal}
    (h : ∀ other value,
      id.Covers other → c.valueAt? other = some value →
        j.Settled other.version ∧
          value = j.sumUpTo other.object other.version) :
    readValue id c j = j.sumUpTo id.object id.version := by
  unfold readValue
  cases hValue : c.valueAt? id with
  | none => exact (rightBase_baseOf h).add_replay
  | some value => exact (h id value id.covers_refl hValue).2

end Counter

end OrderedLog
