import Mathlib.Data.List.Nodup
import OrderedLog.Proofs.SnapshotCache.Contents

/-
  This file proves that a batch of lost snapshots can be dealt
  with in one eviction for each object. What a sequence of
  evictions makes of a snapshot cache, and how many versions it
  counts on the way, depends only on which versions are covered
  by one of them. The highest version of each object covers the
  same versions as the whole batch, and so does the batch in any
  other order.

  Key definitions include:
    * `logging`
    * `Condenses`
    * `SnapshotCache.indexed`
    * `SnapshotCache.Evicts`
    * `SnapshotCache.CoalescesTo`

  Key lemmas include:
    * `evictBatch_logging`
    * `condenses_evictionTargets`
    * `SnapshotCache.evicts_evictThrough`
    * `SnapshotCache.evicts_evictEach`
    * `SnapshotCache.Evicts.unique`

  Key theorems include:
    * `SnapshotCache.evictBatch_coalesces`
-/

namespace OrderedLog

------------------------------------------------------------
-- The evictions of a batch
------------------------------------------------------------

section

variable {ω : Type}

/- An eviction that is written down as well. -/
def logging
    (evict : ω → VersionedId → Nat × ω)
    (s : ω × List VersionedId)
    (id : VersionedId) : Nat × (ω × List VersionedId) :=
  let one := evict s.1 id
  (one.1, one.2, s.2 ++ [id])

/- What is written down is what was asked for, and nothing else changes. -/
theorem evictEach_logging
    (evict : ω → VersionedId → Nat × ω)
    (state : ω)
    (calls ids : List VersionedId) :
    evictEach (logging evict) (state, calls) ids =
      ((evictEach evict state ids).1, (evictEach evict state ids).2,
        calls ++ ids) := by
  induction ids generalizing state calls with
  | nil => simp [evictEach]
  | cons id ids ih => simp [evictEach, logging, ih]

/- What is asked for when a batch is dealt with are its targets. -/
theorem evictBatch_logging
    (evict : ω → VersionedId → Nat × ω)
    (state : ω)
    (batch : List VersionedId) :
    evictBatch (logging evict) (state, []) batch =
      ((evictBatch evict state batch).1,
        (evictBatch evict state batch).2, evictionTargets batch) :=
  evictEach_logging evict state [] (evictionTargets batch)

end

/-
  One identifier for each object of a batch, in ascending order
  of the objects, and the highest one of its object there.
-/
structure Condenses (batch calls : List VersionedId) : Prop where
  ascending :
    (calls.map VersionedId.object).Pairwise (fun a b => a < b)
  objects :
    ∀ object, object ∈ calls.map VersionedId.object ↔
      object ∈ batch.map VersionedId.object
  highest :
    ∀ call ∈ calls, call ∈ batch ∧
      ∀ id ∈ batch, id.object = call.object → id.version ≤ call.version

theorem condenses_evictionTargets
    (batch : List VersionedId) :
    Condenses batch (evictionTargets batch) := by
  have hCarries := carries_evictionTargets batch
  constructor
  · rw [objects_evictionTargets]
    exact SortedMap.keys_sorted _
  · intro object
    simp only [List.mem_map]
    constructor
    · intro hTarget
      rcases hTarget with ⟨id, hMem, hObject⟩
      exact ⟨id, hCarries.genuine id hMem, hObject⟩
    · intro hBatch
      rcases hBatch with ⟨id, hMem, hObject⟩
      rcases hCarries.covered id hMem with ⟨target, hTarget, hCovers⟩
      exact ⟨target, hTarget, hCovers.1.trans hObject⟩
  · intro target hTarget
    exact get?_highestVersions_iff.mp (mem_identifiersOf_iff.mp hTarget)

/- The order of a batch makes no difference to its targets. -/
theorem evictionTargets_eq_of_perm
    {batch other : List VersionedId}
    (h : other.Perm batch) :
    evictionTargets other = evictionTargets batch := by
  have hHighest : highestVersions other = highestVersions batch :=
    highestVersions_eq_of_carries
      (carries_of_mem_iff (fun _ => h.mem_iff.symm))
  unfold evictionTargets
  rw [hHighest]

namespace SnapshotCache

variable {σ ρ : Type}

------------------------------------------------------------
-- Indexed versions
------------------------------------------------------------

/- All indexed versions of all objects. -/
def indexed (c : SnapshotCache σ ρ) : List VersionedId :=
  c.index.entries.flatMap
    (fun e => e.2.toList.map (fun version => ⟨e.1, version⟩))

theorem mem_indexed_iff
    {c : SnapshotCache σ ρ}
    {id : VersionedId} : id ∈ c.indexed ↔ c.Indexes id := by
  rw [indexes_iff]
  unfold indexed versions
  rw [List.mem_flatMap]
  constructor
  · intro hMem
    rcases hMem with ⟨⟨object, indexed⟩, hEntry, hVersion⟩
    rcases List.mem_map.mp hVersion with ⟨version, hIndexed, hSame⟩
    subst hSame
    rw [SortedMap.get?_eq_some_iff.mpr hEntry]
    exact SortedSet.mem_toList_iff.mp hIndexed
  · intro hMem
    cases hIndex : c.index.get? id.object with
    | none =>
      rw [hIndex] at hMem
      exact absurd hMem (SortedMap.not_mem_empty id.version)
    | some indexed =>
      rw [hIndex] at hMem
      refine ⟨(id.object, indexed), SortedMap.get?_eq_some_iff.mp hIndex, ?_⟩
      exact List.mem_map.mpr
        ⟨id.version, SortedSet.mem_toList_iff.mpr hMem, rfl⟩

/- No version is indexed twice. -/
theorem nodup_indexed (c : SnapshotCache σ ρ) : c.indexed.Nodup := by
  unfold indexed
  rw [List.nodup_flatMap]
  constructor
  · intro e _
    apply List.Nodup.map
    · intro a b hSame
      simpa using hSame
    · exact e.2.keys_nodup
  · -- versions of different objects are different
    refine c.index.entries_sorted.imp ?_
    intro a b hBelow id hFirst hSecond
    rcases List.mem_map.mp hFirst with ⟨v, _, hV⟩
    rcases List.mem_map.mp hSecond with ⟨w, _, hW⟩
    have hObject : a.1 = b.1 :=
      congrArg VersionedId.object (hV.trans hW.symm)
    exact KeyOrder.ne_of_lt hBelow hObject

------------------------------------------------------------
-- Evictions
------------------------------------------------------------

/-
  What becomes of a cache when the versions that some identifiers
  cover are evicted: they leave the index, and the live snapshots
  if they were indexed. The rest stays, and the versions that
  left the index are counted.
-/
structure Evicts
    (c : SnapshotCache σ ρ)
    (ids : List VersionedId)
    (total : Nat)
    (d : SnapshotCache σ ρ) : Prop where
  live :
    ∀ other entry,
      d.live.get? other = some entry ↔
        c.live.get? other = some entry ∧
          ¬ (other.CoveredBy ids ∧ c.Indexes other)
  index :
    ∀ object,
      d.index.get? object =
        (c.index.get? object).map
          (fun versions =>
            versions.filterKeys
              (fun v => ¬ VersionedId.CoveredBy ⟨object, v⟩ ids))
  counted :
    total = (c.indexed.filter (fun id => id.CoveredBy ids)).length
  others :
    d = { c with
      live := d.live
      index := d.index
      stats := c.stats.recordVersionsEvicted total }

/- Such an eviction leaves just the other versions in the index. -/
theorem Evicts.indexes_iff
    {c d : SnapshotCache σ ρ}
    {ids : List VersionedId}
    {total : Nat}
    (h : c.Evicts ids total d)
    {id : VersionedId} :
    d.Indexes id ↔ c.Indexes id ∧ ¬ id.CoveredBy ids := by
  rw [SnapshotCache.indexes_iff, SnapshotCache.indexes_iff]
  unfold versions
  rw [h.index id.object]
  cases c.index.get? id.object with
  | none =>
    have hNot := SortedMap.not_mem_empty (ν := Unit) id.version
    constructor
    · intro hMem
      exact absurd hMem hNot
    · intro hBoth
      exact absurd hBoth.1 hNot
  | some indexed =>
    simp only [Option.map_some, Option.getD_some,
      SortedMap.mem_filterKeys_iff, decide_eq_true_eq]

/- What is evicted depends only on what is covered. -/
theorem Evicts.unique
    {c d e : SnapshotCache σ ρ}
    {ids others : List VersionedId}
    {total count : Nat}
    (h : c.Evicts ids total d)
    (h' : c.Evicts others count e)
    (hSame : ∀ id : VersionedId,
      id.CoveredBy ids ↔ id.CoveredBy others) :
    (total, d) = (count, e) := by
  have hTotal : total = count := by
    rw [h.counted, h'.counted]
    simp only [hSame]
  have hLive : d.live = e.live := by
    apply SortedMap.eq_of_get?_eq
    intro other
    apply Option.ext
    intro entry
    rw [h.live, h'.live, hSame]
  have hIndex : d.index = e.index := by
    apply SortedMap.eq_of_get?_eq
    intro object
    rw [h.index, h'.index]
    simp only [hSame]
  have hState : d = e := by
    rw [h.others, h'.others, hLive, hIndex, hTotal]
  rw [hTotal, hState]

/- What two lists cover is what one covers, and the other apart from it. -/
theorem length_filter_coveredBy_append
    (ids others list : List VersionedId) :
    (list.filter (fun id => id.CoveredBy (ids ++ others))).length =
      (list.filter (fun id => id.CoveredBy ids)).length +
        (list.filter
          (fun id => id.CoveredBy others ∧ ¬ id.CoveredBy ids)).length := by
  rw [List.length_eq_length_filter_add (fun id => id.CoveredBy ids),
    List.filter_filter, List.filter_filter]
  congr 2
  · apply List.filter_congr
    intro id _
    by_cases hIds : id.CoveredBy ids
    · simp [VersionedId.coveredBy_append_iff, hIds]
    · simp [hIds]
  · apply List.filter_congr
    intro id _
    by_cases hIds : id.CoveredBy ids
    · simp [hIds]
    · simp [VersionedId.coveredBy_append_iff, hIds]

/- Evictions one after the other make one eviction of both lists. -/
theorem Evicts.append
    {c d e : SnapshotCache σ ρ}
    {ids others : List VersionedId}
    {total count : Nat}
    (h : c.Evicts ids total d)
    (h' : d.Evicts others count e) :
    c.Evicts (ids ++ others) (total + count) e := by
  constructor
  · intro other entry
    rw [h'.live, h.live, h.indexes_iff, VersionedId.coveredBy_append_iff]
    tauto
  · intro object
    rw [h'.index, h.index, Option.map_map]
    congr 1
    funext versions
    simp only [Function.comp_apply, SortedMap.filterKeys_filterKeys,
      VersionedId.coveredBy_append_iff]
    simp
  · -- the second eviction counts what the first one left
    have hLeft : d.indexed.Perm
        (c.indexed.filter (fun id => ¬ id.CoveredBy ids)) := by
      rw [List.perm_ext_iff_of_nodup d.nodup_indexed
        (c.nodup_indexed.filter _)]
      intro id
      simp [mem_indexed_iff, h.indexes_iff]
    rw [h.counted, h'.counted, (hLeft.filter _).length_eq,
      List.filter_filter, length_filter_coveredBy_append]
    simp
  · rw [h'.others, h.others]
    simp [CacheStats.recordVersionsEvicted, Nat.add_assoc]

theorem evicts_nil (c : SnapshotCache σ ρ) : c.Evicts [] 0 c := by
  have hNone : ∀ id : VersionedId, ¬ id.CoveredBy [] := by
    intro id
    simp [VersionedId.CoveredBy]
  constructor
  · intro other entry
    simp [hNone]
  · intro object
    simp [hNone, SortedMap.filterKeys_eq_self]
  · simp [hNone]
  · rfl

/- An eviction up to a version is the eviction of one identifier. -/
theorem evicts_evictThrough
    (c : SnapshotCache σ ρ)
    (id : VersionedId) :
    c.Evicts [id] (c.evictThrough id).1 (c.evictThrough id).2 := by
  have hOne : ∀ other : VersionedId,
      other.CoveredBy [id] ↔ id.Covers other := by
    intro other
    simp [VersionedId.CoveredBy]
  constructor
  · intro other entry
    rw [get?_live_evictThrough, hOne]
  · intro object
    simp only [get?_index_evictThrough, hOne]
  · have hPerm :
        (((c.versionList id.object).filter (fun v => v ≤ id.version)).map
          id.withVersion).Perm
            (c.indexed.filter (fun other => other.CoveredBy [id])) := by
      rw [List.perm_ext_iff_of_nodup]
      · intro other
        simp only [List.mem_map, List.mem_filter, mem_indexed_iff, hOne,
          decide_eq_true_eq]
        constructor
        · intro hListed
          rcases hListed with ⟨v, ⟨hMem, hBelow⟩, hSame⟩
          subst hSame
          exact ⟨hMem, rfl, hBelow⟩
        · intro hBoth
          rcases hBoth with ⟨hMem, hObject, hBelow⟩
          unfold Indexes at hMem
          rw [← hObject] at hMem
          exact ⟨other.version, ⟨hMem, hBelow⟩,
            VersionedId.eq_of_parts_eq hObject rfl⟩
      · apply List.Nodup.map
        · intro a b hSame
          exact congrArg VersionedId.version hSame
        · exact (SortedMap.keys_nodup _).filter _
      · exact c.nodup_indexed.filter _
    rw [count_evictThrough, ← hPerm.length_eq, List.length_map]
  · unfold evictThrough
    split
    · rfl
    · rfl

/- Evictions of each of some identifiers evict what they cover. -/
theorem evicts_evictEach
    (c : SnapshotCache σ ρ)
    (ids : List VersionedId) :
    c.Evicts ids (evictEach evictThrough c ids).1
      (evictEach evictThrough c ids).2 := by
  induction ids generalizing c with
  | nil => exact evicts_nil c
  | cons id ids ih =>
    exact (evicts_evictThrough c id).append (ih (c.evictThrough id).2)

/- Lists that carry each other along are evicted alike. -/
theorem evictEach_eq_of_carries
    (c : SnapshotCache σ ρ)
    {old new : List VersionedId}
    (h : Carries old new) :
    evictEach evictThrough c old = evictEach evictThrough c new :=
  (evicts_evictEach c old).unique (evicts_evictEach c new)
    h.coveredBy_iff

------------------------------------------------------------
-- Batches
------------------------------------------------------------

/-
  A batch is dealt with as if each of its identifiers had been
  evicted, with as few calls as that takes.
-/
structure CoalescesTo
    (c : SnapshotCache σ ρ)
    (batch : List VersionedId)
    (total : Nat)
    (d : SnapshotCache σ ρ) : Prop where
  /- The result does not depend on the order of the batch. -/
  batched :
    ∀ other : List VersionedId, other.Perm batch →
      evictBatch evictThrough c other = (total, d)
  /- Evictions for each identifier, in any order, have that result. -/
  separate :
    ∀ order : List VersionedId, order.Perm batch →
      evictEach evictThrough c order = (total, d)
  /- Each object of the batch is asked for once on the way. -/
  calls :
    ∃ calls, Condenses batch calls ∧
      ∀ other : List VersionedId, other.Perm batch →
        evictBatch (logging evictThrough) (c, []) other =
          (total, d, calls)
  /- All that the batch covers is evicted and counted. -/
  evicts : c.Evicts batch total d

/- The evictions of a batch can be coalesced. -/
theorem evictBatch_coalesces
    (c : SnapshotCache σ ρ)
    (batch : List VersionedId) :
    c.CoalescesTo batch (evictBatch evictThrough c batch).1
      (evictBatch evictThrough c batch).2 := by
  have hBatch : evictEach evictThrough c batch =
      evictBatch evictThrough c batch :=
    evictEach_eq_of_carries c (carries_evictionTargets batch)
  have hBatched : ∀ other : List VersionedId, other.Perm batch →
      evictBatch evictThrough c other = evictBatch evictThrough c batch := by
    intro other hPerm
    unfold evictBatch
    rw [evictionTargets_eq_of_perm hPerm]
  constructor
  · exact hBatched
  · intro order hPerm
    refine Eq.trans ?_ hBatch
    apply evictEach_eq_of_carries
    exact carries_of_mem_iff (fun _ => hPerm.mem_iff)
  · refine ⟨evictionTargets batch, condenses_evictionTargets batch, ?_⟩
    intro other hPerm
    rw [evictBatch_logging, hBatched other hPerm,
      evictionTargets_eq_of_perm hPerm]
  · have hEvicts := evicts_evictEach c batch
    rw [hBatch] at hEvicts
    exact hEvicts

/- One call for the first object takes both of its lower versions. -/
example :
    let object := StreamId.ofNat 1
    let other := StreamId.ofNat 2
    let c := (((empty : SnapshotCache Nat Unit).put
      ⟨object, Address.ofNat 3⟩ 30).put ⟨object, Address.ofNat 5⟩ 50).put
        ⟨object, Address.ofNat 8⟩ 80
    let batch : List VersionedId :=
      [ ⟨other, Address.ofNat 4⟩, ⟨object, Address.ofNat 3⟩,
        ⟨object, Address.ofNat 5⟩ ]
    (evictBatch (logging evictThrough) (c, []) batch).2.2 =
        [⟨object, Address.ofNat 5⟩, ⟨other, Address.ofNat 4⟩] ∧
      (evictBatch evictThrough c batch).1 = 2 := by
  decide

end SnapshotCache

end OrderedLog
