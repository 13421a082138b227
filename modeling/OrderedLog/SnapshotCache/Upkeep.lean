/-
  This file defines when a snapshot cache maintains itself
  without being asked. It keeps a record of what was written
  and looked up since it was last maintained. It is maintained
  on its way through the next write or lookup when the record
  of that kind is full, or when the last time was long ago.

  All times are in nanoseconds since the start.

  Key definitions include:
    * `Upkeep`
    * `Upkeep.fresh`
    * `Upkeep.dueAtWrite`
    * `Upkeep.dueAtLookup`
-/

namespace OrderedLog

/-
  What was recorded since the last maintenance, and the time
  from which on the next one is due in any case.
-/
structure Upkeep where
  writes : Nat
  lookups : Nat
  dueAt : Nat
deriving DecidableEq

namespace Upkeep

/- The number of writes, or of lookups, that fill the record. -/
def recordSize : Nat :=
  64

/- The time after a maintenance that is long: 300 milliseconds. -/
def interval : Nat :=
  300000000

/- The record after a maintenance. -/
def fresh (now : Nat) : Upkeep :=
  ⟨0, 0, now + interval⟩

/- Whether a write comes upon a maintenance that is due. -/
def dueAtWrite
    (u : Upkeep)
    (now : Nat) : Bool :=
  recordSize ≤ u.writes ∨ u.dueAt ≤ now

/- Whether a lookup comes upon a maintenance that is due. -/
def dueAtLookup
    (u : Upkeep)
    (now : Nat) : Bool :=
  recordSize ≤ u.lookups ∨ u.dueAt ≤ now

/- Record a write. -/
def addWrite (u : Upkeep) : Upkeep :=
  { u with writes := u.writes + 1 }

/- Record a lookup. -/
def addLookup (u : Upkeep) : Upkeep :=
  { u with lookups := u.lookups + 1 }

end Upkeep

end OrderedLog
