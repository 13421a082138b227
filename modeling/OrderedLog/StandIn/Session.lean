import OrderedLog.SnapshotCache.Waiting
import OrderedLog.StandIn.Holdings
import OrderedLog.StandIn.Recorder

/-
  This file defines a session with a snapshot cache: a cache
  of texts with its workers, a bench of recording objects,
  and a user who holds proxies under names.

  Key definitions include:
    * `Session`
    * `Session.start`
    * `Session.get`
    * `Session.floor`
    * `Session.drop`
    * `Session.register`
    * `Session.refreshObject`
    * `Session.refreshAll`
    * `Session.expire`
    * `Session.settle`
    * `Session.stop`
-/

namespace OrderedLog

/- A cache in use, and the places of the named objects. -/
structure Session where
  service : CacheService String Nat
  bench : Bench
  holdings : Holdings String
  objects : List (String × Nat)

namespace Session

/- A session with an empty cache, if the settings are usable. -/
def start (settings : CacheSettings) : Except CacheError Session :=
  match CacheService.start settings with
  | .error error => .error error
  | .ok service => .ok ⟨service, Bench.empty, Holdings.empty, []⟩

/- The cache itself. -/
def cache (s : Session) : SnapshotCache String Nat :=
  s.service.cache

/- The session with another state of the cache. -/
def withCache
    (s : Session)
    (cache : SnapshotCache String Nat) : Session :=
  { s with service := s.service.withCache cache }

/- Cache a snapshot. -/
def put
    (s : Session)
    (id : VersionedId)
    (value : String) : Session :=
  { s with service := s.service.put id value }

/- Cache the same snapshot at several versions. -/
def fill
    (s : Session)
    (ids : List VersionedId)
    (value : String) : Session :=
  ids.foldl (fun s id => s.put id value) s

/- Evict every version of an object up to a bound. -/
def evictThrough
    (s : Session)
    (id : VersionedId) : Nat × Session :=
  let (count, service) := s.service.evictThrough id
  (count, { s with service })

/- Look up how many leases on a snapshot are still held. -/
def outstanding?
    (s : Session)
    (id : VersionedId) : Option Nat × Session :=
  let (count, service) := s.service.outstanding? id
  (count, { s with service })

------------------------------------------------------------
-- Proxies
------------------------------------------------------------

/- Give a lease back to the cache. -/
def release
    (s : Session)
    (lease : Nat) : Session :=
  s.withCache (s.cache.release lease)

/-
  Drop the proxy held under a name, with its lease. The flag
  tells whether there was one.
-/
def drop
    (s : Session)
    (name : String) : Bool × Session :=
  match s.holdings.get? name with
  | none => (false, s)
  | some handle =>
    (true,
      { s.release handle.lease with holdings := s.holdings.without name })

/-
  Take what a lookup found: hold it under a name, in place of
  any proxy held there, or give it back at once.
-/
def take
    (s : Session)
    (name : Option String)
    (found : Option (Handle String) × CacheService String Nat) :
    Option (Proxy String) × Session :=
  let looked := { s with service := found.2 }
  match found.1, name with
  | none, _ => (none, looked)
  | some handle, none => (some handle.proxy, looked.release handle.lease)
  | some handle, some name =>
    let dropped := (looked.drop name).2
    (some handle.proxy,
      { dropped with holdings := dropped.holdings.hold name handle })

/- Look up an exact version. -/
def get
    (s : Session)
    (id : VersionedId)
    (kind : ProxyKind)
    (name : Option String) : Option (Proxy String) × Session :=
  s.take name (s.service.get id kind)

/- Look up the highest version up to a bound. -/
def floor
    (s : Session)
    (id : VersionedId)
    (kind : ProxyKind)
    (name : Option String) : Option (Proxy String) × Session :=
  s.take name (s.service.floor id kind)

------------------------------------------------------------
-- Objects
------------------------------------------------------------

/- Name a new recording object and make it known to the cache. -/
def register
    (s : Session)
    (object : StreamId)
    (name : String)
    (caching : Bool) : Session :=
  let (place, bench) := s.bench.add (Recorder.new object caching)
  { s.withCache (s.cache.addObject object place) with
    bench := bench
    objects := (name, place) :: s.objects }

/- The named object. -/
def recorder?
    (s : Session)
    (name : String) : Option Recorder :=
  match s.objects.lookup name with
  | some place => s.bench.recorders[place]?
  | none => none

/- Make the named object fail from now on, or work again. -/
def setFailing
    (s : Session)
    (name : String)
    (failing : Bool) : Session :=
  match s.objects.lookup name with
  | some place => { s with bench := s.bench.setFailing place failing }
  | none => s

/- Refresh the object that the cache knows, if it knows it. -/
def refreshObject
    (s : Session)
    (object : StreamId)
    (version : Address) : Option (Except CacheError Unit) × Session :=
  match s.cache.registry.get? object with
  | none => (none, s)
  | some place =>
    let (result, cache, bench) := Bench.refreshTo place version (s.cache, s.bench)
    (some result, { s with service := s.service.withPuts cache, bench })

------------------------------------------------------------
-- Tails
------------------------------------------------------------

/- Change what the teller of tails knows. -/
def withTails
    (s : Session)
    (tails : FixedTails) : Session :=
  { s with bench := { s.bench with tails } }

/- Set the tail of a stream. -/
def setTail
    (s : Session)
    (stream : StreamId)
    (tail : Address) : Session :=
  s.withTails (s.bench.tails.setTail stream tail)

/- Make the teller of tails fail from now on, or work again. -/
def setTailsFailing
    (s : Session)
    (failing : Bool) : Session :=
  s.withTails { s.bench.tails with failing }

/- Ask for the tails of some streams. -/
def tails
    (s : Session)
    (streams : List StreamId) :
    Except CacheError (SortedMap StreamId Address) × Session :=
  let (result, tails) := s.bench.tails.query streams
  (result, s.withTails tails)

------------------------------------------------------------
-- The workers
------------------------------------------------------------

/- A round of refreshing. -/
def refreshAll (s : Session) : Nat × Session :=
  let (count, service, bench) := s.service.refreshAll Bench.refreshTarget s.bench
  (count, { s with service, bench })

/- Await a live snapshot. -/
def awaitLive
    (s : Session)
    (id : VersionedId) : Bool × Session :=
  let (live, service, bench) :=
    CacheService.awaitLive Bench.refreshTarget id s.service s.bench
  (live, { s with service, bench })

/- Await a number of failures. -/
def awaitFailures
    (s : Session)
    (count : Nat) : Bool × Session :=
  let (reached, service, bench) :=
    CacheService.awaitFailures Bench.refreshTarget count s.service s.bench
  (reached, { s with service, bench })

/- How much longer than necessary a sleeper sleeps: 30 milliseconds. -/
def oversleep : Nat :=
  30000000

/- Sleep until every live snapshot has lapsed, and a little longer. -/
def expire (s : Session) : Session :=
  let nanos := s.service.settings.expiry.totalNanos + oversleep
  let (service, bench) := s.service.sleep Bench.refreshTarget nanos s.bench
  { s with service, bench }

/- Maintain the cache without letting the index follow yet. -/
def maintain (s : Session) : Session :=
  { s with service := s.service.maintain }

/- Let the index follow all losses. The flag tells whether it did. -/
def settle (s : Session) : Bool × Session :=
  let service := s.service.settle
  (service.settled, { s with service })

/-
  Let the index follow the losses reported so far. The flag
  tells whether some were, and some version evicted.
-/
def evictedSome (s : Session) : Bool × Session :=
  let service := s.service.catchUp
  (service.evictedSome, { s with service })

/- Stop both workers. The flag tells whether they did. -/
def stop (s : Session) : Bool × Session :=
  let service := s.service.stop
  (service.stopped, { s with service })

end Session

end OrderedLog
