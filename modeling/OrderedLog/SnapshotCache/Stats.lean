/-
  This file defines the counters of a snapshot cache and of
  the two workers beside it.

  Key definitions include:
    * `CacheStats`
    * `CacheStats.reported`
    * `CacheStats.hitRatio`
-/

namespace OrderedLog

/- Counters that only ever grow. -/
structure CacheStats where
  hits : Nat
  misses : Nat
  floorHits : Nat
  floorMisses : Nat
  puts : Nat
  versionsEvicted : Nat
  notifications : Nat
  overflowed : Nat
  rounds : Nat
  refreshed : Nat
  refreshFailures : Nat
deriving DecidableEq

namespace CacheStats

/- The counters of a new cache. -/
def zero : CacheStats :=
  ⟨0, 0, 0, 0, 0, 0, 0, 0, 0, 0, 0⟩

------------------------------------------------------------
-- Recording
------------------------------------------------------------

/- A lookup of an exact version found its snapshot. -/
def recordHit (s : CacheStats) : CacheStats :=
  { s with hits := s.hits + 1 }

/- A lookup of an exact version found nothing. -/
def recordMiss (s : CacheStats) : CacheStats :=
  { s with misses := s.misses + 1 }

/- A floor lookup found a snapshot. -/
def recordFloorHit (s : CacheStats) : CacheStats :=
  { s with floorHits := s.floorHits + 1 }

/- A floor lookup found nothing. -/
def recordFloorMiss (s : CacheStats) : CacheStats :=
  { s with floorMisses := s.floorMisses + 1 }

/- A snapshot was cached. -/
def recordPut (s : CacheStats) : CacheStats :=
  { s with puts := s.puts + 1 }

/- Some versions were evicted at once. -/
def recordVersionsEvicted
    (s : CacheStats)
    (count : Nat) : CacheStats :=
  { s with versionsEvicted := s.versionsEvicted + count }

/- A removal was queued for the eviction worker. -/
def recordNotification (s : CacheStats) : CacheStats :=
  { s with notifications := s.notifications + 1 }

/- A removal found the queue full. -/
def recordOverflowed (s : CacheStats) : CacheStats :=
  { s with overflowed := s.overflowed + 1 }

/- A round of refreshing ended, with some objects refreshed. -/
def recordRound
    (s : CacheStats)
    (count : Nat) : CacheStats :=
  { s with
    rounds := s.rounds + 1
    refreshed := s.refreshed + count }

/- A query of tails or a refresh of an object failed. -/
def recordRefreshFailure (s : CacheStats) : CacheStats :=
  { s with refreshFailures := s.refreshFailures + 1 }

------------------------------------------------------------
-- Reading
------------------------------------------------------------

/- A counter as it is reported, in 64 bits. -/
def reported (count : Nat) : UInt64 :=
  UInt64.ofNat count

/-
  The share of the exact lookups that found a snapshot, and
  zero before the first lookup.
-/
def hitRatio (s : CacheStats) : Float :=
  let total := s.hits + s.misses
  if total = 0 then 0.0
  else (reported s.hits).toFloat / (reported total).toFloat

end CacheStats

end OrderedLog
