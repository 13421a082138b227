import OrderedLog.SortedMap.Basic
import OrderedLog.VersionedId

/-
  This file defines how a batch of lost snapshots is turned
  into evictions: one for each object of the batch, up to its
  highest version there.

  Key definitions include:
    * `highestVersions`
    * `evictionTargets`
    * `evictEach`
    * `evictBatch`
-/

namespace OrderedLog

/- The highest version of each object in a batch. -/
def highestVersions
    (batch : List VersionedId) : SortedMap StreamId Address :=
  batch.foldl
    (fun targets id => targets.insertWith Address.max id.object id.version)
    ∅

/- What to evict for a batch, in ascending order of the objects. -/
def evictionTargets (batch : List VersionedId) : List VersionedId :=
  (highestVersions batch).entries.map (fun e => ⟨e.1, e.2⟩)

/-
  Evict up to each of some versions in turn. An eviction
  changes the state and tells how many versions it removed.
-/
def evictEach
    {ω : Type}
    (evict : ω → VersionedId → Nat × ω)
    (state : ω) : List VersionedId → Nat × ω
  | [] => (0, state)
  | id :: ids =>
    let one := evict state id
    let others := evictEach evict one.2 ids
    (one.1 + others.1, others.2)

/- Evict once for each object of a batch. -/
def evictBatch
    {ω : Type}
    (evict : ω → VersionedId → Nat × ω)
    (state : ω)
    (batch : List VersionedId) : Nat × ω :=
  evictEach evict state (evictionTargets batch)

end OrderedLog
