import OrderedLog.Eviction.Worker
import OrderedLog.Settings.CacheSettings
import OrderedLog.SnapshotCache.Basic
import OrderedLog.SnapshotCache.Upkeep

/-
  This file defines the snapshot cache as it is run: bounded
  by its settings, with the eviction worker that makes the
  index follow the snapshots that were lost, and possibly
  with a refresher that moves objects forward meanwhile.

  Which snapshots are lost when there are too many of them is
  not promised to anyone. Here the smallest identifiers go.
  Snapshots that are too old lapse: they are found no more at
  once, but their loss is reported only when the cache is
  maintained, or when they are displaced before that.

  All times are in nanoseconds since the start.

  Key definitions include:
    * `CacheStats.recordReport`
    * `CacheService`
    * `CacheService.start`
    * `CacheService.lose`
    * `CacheService.lapseDue`
    * `CacheService.withCache`
    * `CacheService.maintain`
    * `CacheService.noteWrite`
    * `CacheService.withPuts`
    * `CacheService.put`
    * `CacheService.evictThrough`
    * `CacheService.get`
    * `CacheService.floor`
-/

namespace OrderedLog

/-
  A cache and its workers, at the time that the clock shows.
  Each live snapshot has a deadline at which it lapses, and
  `lapsed` has the versions whose snapshots did without a
  report yet. There is a refresher only if the settings ask
  for one; it runs until the cache is stopped.
-/
structure CacheService
    (σ : Type)
    (ρ : Type) where
  settings : CacheSettings
  cache : SnapshotCache σ ρ
  clock : Nat
  deadlines : SortedMap VersionedId Nat
  lapsed : SortedSet VersionedId
  upkeep : Upkeep
  queue : NoticeQueue
  worker : EvictionWorker
  refreshing : Option Bool
  nextRound : Nat

namespace CacheStats

/- Count what became of a report to the eviction worker. -/
def recordReport
    (s : CacheStats) : NoticeQueue.Report → CacheStats
  | .ignored => s
  | .queued => s.recordNotification
  | .overflowed => s.recordOverflowed
  | .unheard => s

/- The counters after each of some reports. -/
def afterEach
    (s : CacheStats) : List NoticeQueue.Report → List CacheStats
  | [] => []
  | report :: reports =>
    let next := s.recordReport report
    next :: afterEach next reports

end CacheStats

namespace CacheService

variable {σ ρ : Type}

/- An empty cache with its workers, if the settings are usable. -/
def start
    (settings : CacheSettings) : Except CacheError (CacheService σ ρ) :=
  match settings.check with
  | .error error => .error error
  | .ok () =>
    let started :=
      EvictionWorker.start settings.batchSize.toNat
        (NoticeQueue.empty settings.queueCapacity.toNat)
    .ok
      { settings := settings
        cache := SnapshotCache.empty
        clock := 0
        deadlines := ∅
        lapsed := ∅
        upkeep := Upkeep.fresh 0
        queue := started.2
        worker := started.1
        refreshing := if settings.refreshes then some true else none
        nextRound := settings.roundLength }

------------------------------------------------------------
-- Losing snapshots
------------------------------------------------------------

/- Report a loss to the eviction worker, and count the report. -/
def reportLoss
    (cause : RemovalCause)
    (s : CacheService σ ρ)
    (id : VersionedId) : CacheService σ ρ :=
  let (report, queue) := s.queue.report id cause
  { s with
    cache := { s.cache with stats := s.cache.stats.recordReport report }
    queue := queue }

/- Lose a live snapshot and report it in the same step. -/
def lose
    (cause : RemovalCause)
    (s : CacheService σ ρ)
    (id : VersionedId) : CacheService σ ρ :=
  if s.cache.isLive id then
    reportLoss cause { s with cache := s.cache.dropSnapshot id } id
  else
    s

/- A snapshot lapses, if it is still live at its deadline. -/
def lapse
    (s : CacheService σ ρ)
    (id : VersionedId) : CacheService σ ρ :=
  let passed := { s with deadlines := s.deadlines.erase id }
  if s.cache.isLive id then
    { passed with
      cache := s.cache.dropSnapshot id
      lapsed := s.lapsed.add id }
  else
    passed

/- Every live snapshot whose deadline has come lapses. -/
def lapseDue (s : CacheService σ ρ) : CacheService σ ρ :=
  let due := s.deadlines.entries.filter (fun e => e.2 ≤ s.clock)
  (due.map Prod.fst).foldl lapse s

/- Report the loss of those lapsed snapshots that pass a test. -/
def reportLapsed
    (p : VersionedId → Bool)
    (s : CacheService σ ρ) : CacheService σ ρ :=
  let kept := s.lapsed.filterKeys (fun id => !p id)
  (s.lapsed.toList.filter p).foldl (reportLoss .expired)
    { s with lapsed := kept }

/-
  Whether a lapsed snapshot is displaced: by a live one at the
  same version, or by an eviction of the version.
-/
def displaced
    (cache : SnapshotCache σ ρ)
    (id : VersionedId) : Bool :=
  cache.isLive id || !(cache.versions id.object).contains id.version

/-
  The service with another state of the cache. The loss of the
  lapsed snapshots that are displaced there is reported.
-/
def withCache
    (s : CacheService σ ρ)
    (cache : SnapshotCache σ ρ) : CacheService σ ρ :=
  reportLapsed (displaced cache) { s with cache }

------------------------------------------------------------
-- Upkeep
------------------------------------------------------------

/- Lose as many snapshots as there are too many. -/
def enforceBound (s : CacheService σ ρ) : CacheService σ ρ :=
  let surplus := s.cache.size - s.settings.maxEntries.toNat
  (s.cache.keys.take surplus).foldl (lose .size) s

/- Report what has lapsed, and lose what is too much. -/
def maintain (s : CacheService σ ρ) : CacheService σ ρ :=
  let clean := (s.reportLapsed (fun _ => true)).enforceBound
  { clean with upkeep := Upkeep.fresh s.clock }

/- Record a write, after the maintenance that it comes upon. -/
def noteWrite (s : CacheService σ ρ) : CacheService σ ρ :=
  let kept := if s.upkeep.dueAtWrite s.clock then s.maintain else s
  { kept with upkeep := kept.upkeep.addWrite }

/- Record some writes. -/
def noteWrites : (count : Nat) → CacheService σ ρ → CacheService σ ρ
  | 0, s => s
  | count + 1, s => noteWrites count s.noteWrite

/- Record a lookup, after the maintenance that it comes upon. -/
def noteLookup (s : CacheService σ ρ) : CacheService σ ρ :=
  let kept := if s.upkeep.dueAtLookup s.clock then s.maintain else s
  { kept with upkeep := kept.upkeep.addLookup }

------------------------------------------------------------
-- Using the cache
------------------------------------------------------------

/-
  The snapshots in another state of the cache that were stored
  there since the present state.
-/
def newIn
    (s : CacheService σ ρ)
    (cache : SnapshotCache σ ρ) : List VersionedId :=
  (cache.live.entries.filter (fun e =>
    s.cache.editions ≤ e.2.snapshot.edition)).map Prod.fst

/-
  The service with a state of the cache in which snapshots may
  have been stored. Each of them is a write, and has a deadline
  from now on.
-/
def withPuts
    (s : CacheService σ ρ)
    (cache : SnapshotCache σ ρ) : CacheService σ ρ :=
  let deadline := s.clock + s.settings.expiry.totalNanos
  let deadlines :=
    (s.newIn cache).foldl (fun m id => m.insert id deadline) s.deadlines
  noteWrites (cache.editions - s.cache.editions)
    ({ s with deadlines }.withCache cache)

/- Cache a snapshot. -/
def put
    (s : CacheService σ ρ)
    (id : VersionedId)
    (value : σ) : CacheService σ ρ :=
  s.withPuts (s.cache.put id value)

/- The number of snapshots that are stored, live or lapsed. -/
def stored (s : CacheService σ ρ) : Nat :=
  s.cache.size + s.lapsed.size

/-
  Evict every version of an object up to a bound. Each stored
  snapshot that goes is a write. The number is that of the
  evicted versions.
-/
def evictThrough
    (s : CacheService σ ρ)
    (id : VersionedId) : Nat × CacheService σ ρ :=
  let (count, cache) := s.cache.evictThrough id
  let evicted := s.withCache cache
  (count, noteWrites (s.stored - evicted.stored) evicted)

/- Look up an exact version. -/
def get
    (s : CacheService σ ρ)
    (id : VersionedId)
    (kind : ProxyKind) : Option (Handle σ) × CacheService σ ρ :=
  let (found, cache) := s.cache.get id kind
  (found, { s with cache }.noteLookup)

/-
  Look up the highest version up to a bound. No snapshot is
  looked up if there is no such version.
-/
def floor
    (s : CacheService σ ρ)
    (id : VersionedId)
    (kind : ProxyKind) : Option (Handle σ) × CacheService σ ρ :=
  let (found, cache) := s.cache.floor id kind
  let looked : CacheService σ ρ := { s with cache }
  (found,
    if (s.cache.floorVersion? id).isSome then looked.noteLookup
    else looked)

/- Look up how many leases on a snapshot are still held. -/
def outstanding?
    (s : CacheService σ ρ)
    (id : VersionedId) : Option Nat × CacheService σ ρ :=
  (s.cache.outstanding? id, s.noteLookup)

end CacheService

end OrderedLog
