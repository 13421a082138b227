import OrderedLog.Proxy
import OrderedLog.SnapshotCache.Stats
import OrderedLog.SortedMap.Basic

/-
  This file defines the cache of object snapshots at specific
  versions. It keeps the live snapshots, and beside them an
  index of the versions of each object for floor lookups. A
  snapshot may disappear at any time, and the index follows
  later, by evicting all versions up to the lost one.

  The users of the cache hold leases: each proxy handed out
  has a lease of its own until it is released.

  Key definitions include:
    * `SnapshotCache`
    * `SnapshotCache.put`
    * `SnapshotCache.get`
    * `SnapshotCache.floor`
    * `SnapshotCache.release`
    * `SnapshotCache.evictThrough`
    * `SnapshotCache.dropSnapshot`
    * `SnapshotCache.versionList`
    * `SnapshotCache.outstanding?`
-/

namespace OrderedLog

/- A live snapshot and the leases registered with it. -/
structure SnapshotEntry (σ : Type) where
  snapshot : Stored σ
  leases : List Nat
deriving DecidableEq

/- A proxy in the hands of a user, with its lease. -/
structure Handle (σ : Type) where
  lease : Nat
  proxy : Proxy σ
deriving DecidableEq

/-
  Snapshots of type `σ`, and a registry of the objects that
  can be refreshed, each known by a value of type `ρ`.
-/
structure SnapshotCache
    (σ : Type)
    (ρ : Type) where
  live : SortedMap VersionedId (SnapshotEntry σ)
  index : SortedMap StreamId (SortedSet Address)
  registry : SortedMap StreamId ρ
  stats : CacheStats
  held : SortedSet Nat
  issued : Nat
  editions : Nat

namespace SnapshotCache

variable {σ ρ : Type}

/- A cache without snapshots or objects. -/
def empty : SnapshotCache σ ρ where
  live := ∅
  index := ∅
  registry := ∅
  stats := CacheStats.zero
  held := ∅
  issued := 0
  editions := 0

------------------------------------------------------------
-- Looking at the contents
------------------------------------------------------------

/- The set of indexed versions of an object, empty at first. -/
def versions
    (c : SnapshotCache σ ρ)
    (object : StreamId) : SortedSet Address :=
  (c.index.get? object).getD ∅

/- The indexed versions of an object in ascending order. -/
def versionList
    (c : SnapshotCache σ ρ)
    (object : StreamId) : List Address :=
  (c.versions object).toList

/- The highest indexed version of an object. -/
def latest?
    (c : SnapshotCache σ ρ)
    (object : StreamId) : Option Address :=
  (c.versionList object).getLast?

/- The highest indexed version of an object up to a bound. -/
def floorVersion?
    (c : SnapshotCache σ ρ)
    (id : VersionedId) : Option Address :=
  ((c.versionList id.object).filter (fun v => v ≤ id.version)).getLast?

/- Whether a version has a live snapshot. -/
def isLive
    (c : SnapshotCache σ ρ)
    (id : VersionedId) : Bool :=
  c.live.contains id

/-
  Whether an object was ever cached. It stays known when all
  its versions are gone.
-/
def knows
    (c : SnapshotCache σ ρ)
    (object : StreamId) : Bool :=
  c.index.contains object

/- All versions with a live snapshot. -/
def keys (c : SnapshotCache σ ρ) : List VersionedId :=
  c.live.keys

/- The number of live snapshots. -/
def size (c : SnapshotCache σ ρ) : Nat :=
  c.live.size

------------------------------------------------------------
-- Storing
------------------------------------------------------------

/- Store a snapshot in a new entry, replacing any at the version. -/
def insertSnapshot
    (c : SnapshotCache σ ρ)
    (id : VersionedId)
    (value : σ) : SnapshotCache σ ρ :=
  { c with
    live := c.live.insert id ⟨⟨c.editions, value⟩, []⟩
    editions := c.editions + 1 }

/- Enter a version into the index of its object. -/
def indexVersion
    (c : SnapshotCache σ ρ)
    (id : VersionedId) : SnapshotCache σ ρ :=
  { c with
    index := c.index.insert id.object
      ((c.versions id.object).add id.version) }

/- Cache a snapshot: store it, enter its version, count it. -/
def put
    (c : SnapshotCache σ ρ)
    (id : VersionedId)
    (value : σ) : SnapshotCache σ ρ :=
  let entered := (c.insertSnapshot id value).indexVersion id
  { entered with stats := entered.stats.recordPut }

------------------------------------------------------------
-- Leases
------------------------------------------------------------

/- Hand out a proxy under a new lease. -/
def issue
    (c : SnapshotCache σ ρ)
    (proxy : Proxy σ) : Handle σ × SnapshotCache σ ρ :=
  (⟨c.issued, proxy⟩,
    { c with
      held := c.held.add c.issued
      issued := c.issued + 1 })

/- The leases registered with an entry that are still held. -/
def stillHeld
    (c : SnapshotCache σ ρ)
    (entry : SnapshotEntry σ) : List Nat :=
  entry.leases.filter (fun lease => c.held.contains lease)

/-
  Register a lease with an entry, and forget those that were
  released.
-/
def register
    (c : SnapshotCache σ ρ)
    (id : VersionedId)
    (entry : SnapshotEntry σ)
    (lease : Nat) : SnapshotCache σ ρ :=
  { c with
    live := c.live.insert id
      { entry with leases := c.stillHeld entry ++ [lease] } }

/- Give a lease back. -/
def release
    (c : SnapshotCache σ ρ)
    (lease : Nat) : SnapshotCache σ ρ :=
  { c with held := c.held.erase lease }

/-
  The number of leases registered with a live snapshot that
  are still held.
-/
def outstanding?
    (c : SnapshotCache σ ρ)
    (id : VersionedId) : Option Nat :=
  (c.live.get? id).map (fun entry => (c.stillHeld entry).length)

------------------------------------------------------------
-- Lookups
------------------------------------------------------------

/-
  A proxy for the snapshot at exactly this version. It is
  registered with the snapshot if it is a reference to it.
-/
def get
    (c : SnapshotCache σ ρ)
    (id : VersionedId)
    (kind : ProxyKind) : Option (Handle σ) × SnapshotCache σ ρ :=
  match c.live.get? id with
  | none => (none, { c with stats := c.stats.recordMiss })
  | some entry =>
    let (handle, issued) := c.issue (kind.wrap id entry.snapshot)
    let registered :=
      if handle.proxy.holdsReference then
        issued.register id entry handle.lease
      else
        issued
    (some handle, { registered with stats := c.stats.recordHit })

/-
  A proxy for the snapshot at the highest indexed version up
  to this one, registered with the snapshot. If that snapshot
  is gone there is none: an older one would skip versions.
-/
def floor
    (c : SnapshotCache σ ρ)
    (id : VersionedId)
    (kind : ProxyKind) : Option (Handle σ) × SnapshotCache σ ρ :=
  let missed := { c with stats := c.stats.recordFloorMiss }
  match c.floorVersion? id with
  | none => (none, missed)
  | some version =>
    let floorId := id.withVersion version
    match c.live.get? floorId with
    | none => (none, missed)
    | some entry =>
      let (handle, issued) := c.issue (kind.wrap floorId entry.snapshot)
      let registered := issued.register floorId entry handle.lease
      (some handle, { registered with stats := c.stats.recordFloorHit })

------------------------------------------------------------
-- Eviction
------------------------------------------------------------

/- The indexed versions of an object up to a bound. -/
def versionsUpTo
    (c : SnapshotCache σ ρ)
    (id : VersionedId) : SortedSet Address :=
  (c.versions id.object).filterKeys (fun v => v ≤ id.version)

/-
  Evict every version of an object up to a bound, from the
  live snapshots and from the index. The number is that of
  the evicted versions.
-/
def evictThrough
    (c : SnapshotCache σ ρ)
    (id : VersionedId) : Nat × SnapshotCache σ ρ :=
  match c.index.get? id.object with
  | none => (0, c)
  | some versions =>
    let evicted := c.versionsUpTo id
    (evicted.size,
      { c with
        live := c.live.eraseAll (evicted.toList.map id.withVersion)
        index := c.index.insert id.object
          (versions.filterKeys (fun v => id.version < v))
        stats := c.stats.recordVersionsEvicted evicted.size })

/-
  Lose a snapshot, to make room or because it is too old. The
  index does not follow at once.
-/
def dropSnapshot
    (c : SnapshotCache σ ρ)
    (id : VersionedId) : SnapshotCache σ ρ :=
  { c with live := c.live.erase id }

------------------------------------------------------------
-- The registry
------------------------------------------------------------

/- Register an object. The first registration of it counts. -/
def addObject
    (c : SnapshotCache σ ρ)
    (object : StreamId)
    (known : ρ) : SnapshotCache σ ρ :=
  if c.registry.contains object then c
  else { c with registry := c.registry.insert object known }

/- The sizes of a cache written out field by field. -/
def inspect (c : SnapshotCache σ ρ) : String :=
  "MvoCache \x7b entries: " ++ toString c.size
    ++ ", objects: " ++ toString c.index.size
    ++ ", registered_mvos: " ++ toString c.registry.size ++ ", .. \x7d"

end SnapshotCache

end OrderedLog
