import OrderedLog.ConflictCache.Basic

/-
  This file defines how writes enter the conflict cache and
  how a trim of the log takes old ones out.

  Every condition is checked before anything changes, so a
  refused write leaves the cache as it was.

  Key definitions include:
    * `ConflictCache.regression?`
    * `ConflictCache.refusal?`
    * `ConflictCache.move`
    * `ConflictCache.overfull`
    * `ConflictCache.shrink`
    * `ConflictCache.record`
    * `ConflictCache.trimBelow`
-/

namespace OrderedLog

namespace ConflictCache

------------------------------------------------------------
-- Refusals
------------------------------------------------------------

/-
  The first of some keys that is already cached at or above a
  version, as the refusal that it calls for.
-/
def regression?
    (c : ConflictCache)
    (version : Address)
    (keys : List ConflictKey) : Option Refusal :=
  keys.findSome? (fun key =>
    match c.get? key with
    | some previous =>
      if version ≤ previous then
        some (.regression key previous version)
      else
        none
    | none => none)

/-
  Why a write of some keys at a version is refused, if it is:
  first the version itself is checked, then its place above
  the start of the window, then the keys in their order.
-/
def refusal?
    (c : ConflictCache)
    (keys : List ConflictKey)
    (version : Address) : Option Refusal :=
  if c.window.contains version then
    some (.duplicateVersion version)
  else
    match c.firstAddress? with
    | some smallest =>
      if version ≤ smallest then
        some (.belowWindow version smallest)
      else
        c.regression? version keys
    | none => c.regression? version keys

------------------------------------------------------------
-- Writes
------------------------------------------------------------

/- Move a key to a version, away from where it was before. -/
def move
    (version : Address)
    (c : ConflictCache)
    (key : ConflictKey) : ConflictCache :=
  let left :=
    match c.get? key with
    | some previous => c.detach key previous
    | none => c
  { left with latest := left.latest.insert key version }

/- Whether there are more keys than the cache has room for. -/
def overfull (c : ConflictCache) : Bool :=
  c.capacity < c.size

/- Evict whole addresses until the keys fit. -/
def shrink (c : ConflictCache) : ConflictCache :=
  (evictWhile overfull c.windowSize c).1

/- Enter an accepted write of at least one key. -/
def enter
    (c : ConflictCache)
    (keys : SortedSet ConflictKey)
    (version : Address) : ConflictCache :=
  let moved := keys.toList.foldl (move version) c
  let entered := { moved with window := moved.window.insert version keys }
  entered.shrink.measured

/-
  Record that some keys were written at a version. A write of
  no keys is accepted and leaves no trace.
-/
def record
    (c : ConflictCache)
    (keys : SortedSet ConflictKey)
    (version : Address) : Except Refusal ConflictCache :=
  match c.refusal? keys.toList version with
  | some refusal => .error refusal
  | none =>
    if keys.isEmpty then .ok c else .ok (c.enter keys version)

------------------------------------------------------------
-- Trims
------------------------------------------------------------

/- Whether the smallest address lies below a mark. -/
def startsBelow
    (mark : Address)
    (c : ConflictCache) : Bool :=
  match c.firstAddress? with
  | some first => first < mark
  | none => false

/-
  Evict every address below a mark. The number is that of the
  evicted keys.
-/
def trimBelow
    (c : ConflictCache)
    (mark : Address) : ConflictCache × Nat :=
  let trimmed := evictWhile (startsBelow mark) c.windowSize c
  (trimmed.1.measured, trimmed.2)

end ConflictCache

end OrderedLog
