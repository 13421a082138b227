import OrderedLog.Journal.Basic
import OrderedLog.Refresh

/-
  This file defines counters, the objects built from the log:
  the counter of a stream is the sum of the entries that list
  the stream. It is read through the snapshot cache: from the
  snapshot of the very version, from an older snapshot and
  the entries since, or from all entries.

  Key definitions include:
    * `Counter.exact`
    * `Counter.base`
    * `Counter.readCached`
    * `Counter.refreshTarget`
    * `Counters`
    * `Counters.read`
    * `Counters.refreshObject`
-/

namespace OrderedLog

/- A cache of counters. -/
abbrev CounterCache : Type :=
  SnapshotCache Int Unit

namespace Counter

/- Look for the counter's snapshot at a version. -/
def exact
    (id : VersionedId)
    (c : CounterCache) : Option Int × CounterCache :=
  match c.get id .reference with
  | (some handle, c) => (some handle.proxy.value, c.release handle.lease)
  | (none, c) => (none, c)

/-
  Where to replay from: the value and the version of the
  newest snapshot that may be used, or zero and the start.
-/
def base
    (id : VersionedId)
    (c : CounterCache) : (Int × Option Address) × CounterCache :=
  match c.floor id .reference with
  | (some handle, c) =>
    ((handle.proxy.value, some handle.proxy.id.version),
      c.release handle.lease)
  | (none, c) => ((0, none), c)

/-
  Read the counter of an object as of a snapshot and cache
  what was read.
-/
def readCached
    (object : StreamId)
    (snapshot : Address)
    (s : CounterCache × Journal) : Int × (CounterCache × Journal) :=
  let id : VersionedId := ⟨object, snapshot⟩
  match exact id s.1 with
  | (some value, cache) => (value, (cache, s.2))
  | (none, cache) =>
    let ((start, after), cache) := base id cache
    let (added, journal) := s.2.replay object after snapshot
    let value := start + added
    (value, (cache.put id value, journal))

/- Counters are refreshed by reading them at the tails of the log. -/
def refreshTarget : RefreshTarget Int Unit Journal where
  tails streams journal := (.ok (journal.tails streams), journal)
  refreshTo object _ version s := (.ok (), (readCached object version s).2)

end Counter

------------------------------------------------------------
-- A log and its counters
------------------------------------------------------------

/- A log and a cache of its counters, which may be gone. -/
structure Counters where
  journal : Journal
  cache : Option CounterCache

namespace Counters

/- An empty log and an empty cache. -/
def new? (capacity : Nat) : Except Refusal Counters :=
  match Journal.new? capacity with
  | .ok journal => .ok ⟨journal, some SnapshotCache.empty⟩
  | .error refusal => .error refusal

/- The same with another log. -/
def withJournal
    (s : Counters)
    (journal : Journal) : Counters :=
  { s with journal }

/- Make a counter known to the cache. -/
def openCounter
    (s : Counters)
    (object : StreamId) : Counters :=
  { s with
    cache := s.cache.map (fun c => c.addObject object ()) }

/- Read a counter as of a snapshot, unless the cache is gone. -/
def read
    (s : Counters)
    (object : StreamId)
    (snapshot : Address) : Except CacheError Int × Counters :=
  match s.cache with
  | none => (.error (.notRefreshed object "cache dropped"), s)
  | some cache =>
    let (value, cache, journal) :=
      Counter.readCached object snapshot (cache, s.journal)
    (.ok value, ⟨journal, some cache⟩)

/- Refresh a counter that the cache knows, if it knows it. -/
def refreshObject
    (s : Counters)
    (object : StreamId)
    (version : Address) : Option (Except CacheError Unit) × Counters :=
  let known :=
    match s.cache with
    | some cache => cache.registry.contains object
    | none => false
  if known then
    let (result, next) := s.read object version
    (some (result.map (fun _ => ())), next)
  else
    (none, s)

/- A round of refreshing over all known counters. -/
def refreshAll (s : Counters) : Nat × Counters :=
  match s.cache with
  | none => (0, s)
  | some cache =>
    let (count, cache, journal) :=
      Counter.refreshTarget.refreshAll (cache, s.journal)
    (count, ⟨journal, some cache⟩)

/- Evict the snapshots of a counter up to a version. -/
def evictThrough
    (s : Counters)
    (id : VersionedId) : Nat × Counters :=
  match s.cache with
  | none => (0, s)
  | some cache =>
    let (count, cache) := cache.evictThrough id
    (count, { s with cache := some cache })

/- The snapshot that a read at a version would start from. -/
def peek
    (s : Counters)
    (id : VersionedId) : Option (VersionedId × Int) × Counters :=
  match s.cache with
  | none => (none, s)
  | some cache =>
    match cache.floor id .reference with
    | (some handle, cache) =>
      (some (handle.proxy.id, handle.proxy.value),
        { s with cache := some (cache.release handle.lease) })
    | (none, cache) => (none, { s with cache := some cache })

/- Lose the cache. -/
def dropCache (s : Counters) : Counters :=
  { s with cache := none }

end Counters

end OrderedLog
