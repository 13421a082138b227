import OrderedLog.Refusal
import OrderedLog.SortedMap.Basic

/-
  This file defines the conflict cache: a bounded window over
  the most recent writes, kept in two views. `latest` maps a
  key to the address of its latest write. `window` maps an
  address to the keys that were last written there.

  Keys leave the cache by whole addresses, from the smallest
  address on, so that the window has no holes. The wildcard
  is the highest address that was evicted: nothing is known
  about writes up to it.

  Key definitions include:
    * `ConflictStats`
    * `ConflictCache`
    * `ConflictCache.new?`
    * `ConflictCache.get?`
    * `ConflictCache.keysAt?`
    * `ConflictCache.firstAddress?`
    * `ConflictCache.detach`
    * `ConflictCache.evictFirst`
    * `ConflictCache.evictWhile`
    * `ConflictCache.measured`
-/

namespace OrderedLog

------------------------------------------------------------
-- Statistics
------------------------------------------------------------

/- Gauges of a conflict cache and counters of what it did. -/
structure ConflictStats where
  conflictKeys : Nat
  windowSize : Nat
  evictedKeys : Nat
  evictedAddresses : Nat
  commits : Nat
  aborts : Nat
deriving DecidableEq

namespace ConflictStats

/- The statistics of a new cache. -/
def zero : ConflictStats :=
  ⟨0, 0, 0, 0, 0, 0⟩

/- Count one evicted address and its keys. -/
def recordEviction
    (s : ConflictStats)
    (keys : Nat) : ConflictStats :=
  { s with
    evictedKeys := s.evictedKeys + keys
    evictedAddresses := s.evictedAddresses + 1 }

end ConflictStats

------------------------------------------------------------
-- The cache
------------------------------------------------------------

/-
  The latest writes of at most `capacity` keys. Snapshots
  below `bound` predate the sequencer that owns the cache.
-/
structure ConflictCache where
  latest : SortedMap ConflictKey Address
  window : SortedMap Address (SortedSet ConflictKey)
  capacity : Nat
  capacity_pos : 0 < capacity
  wildcard : Address
  bound : Address
  stats : ConflictStats
deriving DecidableEq

namespace ConflictCache

/- An empty cache, for a sequencer that starts above `bound`. -/
def new
    (capacity : Nat)
    (capacity_pos : 0 < capacity)
    (bound : Address) : ConflictCache where
  latest := ∅
  window := ∅
  capacity := capacity
  capacity_pos := capacity_pos
  wildcard := bound
  bound := bound
  stats := ConflictStats.zero

/- An empty cache, unless there is no room for a key. -/
def new?
    (capacity : Nat)
    (bound : Address) : Except Refusal ConflictCache :=
  if h : 0 < capacity then
    .ok (new capacity h bound)
  else
    .error .noCapacity

/- The address of the latest write of a key, if it is cached. -/
def get?
    (c : ConflictCache)
    (key : ConflictKey) : Option Address :=
  c.latest.get? key

/- The keys last written at an address that is in the window. -/
def keysAt?
    (c : ConflictCache)
    (address : Address) : Option (SortedSet ConflictKey) :=
  c.window.get? address

/- The smallest address in the window. -/
def firstAddress? (c : ConflictCache) : Option Address :=
  c.window.first?.map Prod.fst

/- The number of cached keys. -/
def size (c : ConflictCache) : Nat :=
  c.latest.size

/- The number of addresses in the window. -/
def windowSize (c : ConflictCache) : Nat :=
  c.window.size

/- The cache with gauges that show its present sizes. -/
def measured (c : ConflictCache) : ConflictCache :=
  { c with
    stats :=
      { c.stats with
        conflictKeys := c.size
        windowSize := c.windowSize } }

------------------------------------------------------------
-- Leaving the window
------------------------------------------------------------

/-
  Take a key out of the keys at an address, and the address
  out of the window once it has no keys.
-/
def detach
    (c : ConflictCache)
    (key : ConflictKey)
    (address : Address) : ConflictCache :=
  match c.window.get? address with
  | none => c
  | some keys =>
    let left := keys.erase key
    if left.isEmpty then
      { c with window := c.window.erase address }
    else
      { c with window := c.window.insert address left }

/-
  Evict the smallest address with all its keys, and raise the
  wildcard to it. The number is that of the evicted keys.
-/
def evictFirst (c : ConflictCache) : ConflictCache × Nat :=
  match c.window.first? with
  | none => (c, 0)
  | some (address, keys) =>
    ({ c with
        latest := c.latest.eraseAll keys.toList
        window := c.window.rest
        wildcard := c.wildcard.max address
        stats := c.stats.recordEviction keys.size },
      keys.size)

/-
  Evict smallest addresses as long as `more` asks for it, at
  most as many as `rounds`. The number is that of all keys
  evicted.
-/
def evictWhile
    (more : ConflictCache → Bool) :
    (rounds : Nat) → ConflictCache → ConflictCache × Nat
  | 0, c => (c, 0)
  | rounds + 1, c =>
    if more c then
      let one := c.evictFirst
      let others := evictWhile more rounds one.1
      (others.1, one.2 + others.2)
    else
      (c, 0)

------------------------------------------------------------
-- Text
------------------------------------------------------------

/- The cache's sizes and bounds written out field by field. -/
def inspect (c : ConflictCache) : String :=
  "SequencerConflictCache \x7b size: " ++ toString c.size
    ++ ", window_size: " ++ toString c.windowSize
    ++ ", capacity: " ++ toString c.capacity
    ++ ", max_conflict_wildcard: " ++ c.wildcard.inspect
    ++ ", max_conflict_new_sequencer: " ++ c.bound.inspect
    ++ ", .. \x7d"

end ConflictCache

end OrderedLog
