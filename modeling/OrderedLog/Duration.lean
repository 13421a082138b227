/-
  This file defines lengths of time, exact to the nanosecond.

  Key definitions include:
    * `Duration`
    * `Duration.ofParts?`
    * `Duration.isZero`
    * `Duration.seconds`
-/

namespace OrderedLog

/- The number of nanoseconds in a second. -/
abbrev Duration.nanosPerSecond : Nat :=
  1000000000

/- Seconds, and nanoseconds that do not make up another second. -/
structure Duration where
  secs : UInt64
  nanos : Nat
  nanos_lt : nanos < Duration.nanosPerSecond
deriving DecidableEq

namespace Duration

/- A whole number of seconds. -/
def ofSecs (secs : UInt64) : Duration :=
  ⟨secs, 0, by decide⟩

/-
  Seconds and any number of nanoseconds, where whole seconds
  are carried over, unless there are too many seconds then.
-/
def ofParts?
    (secs : Nat)
    (nanos : Nat) : Option Duration :=
  let total := secs + nanos / nanosPerSecond
  if total < UInt64.size then
    some ⟨UInt64.ofNat total, nanos % nanosPerSecond, Nat.mod_lt _ (by decide)⟩
  else
    none

/- Whether no time passes. -/
def isZero (d : Duration) : Bool :=
  d.secs = 0 ∧ d.nanos = 0

/- All of a duration in nanoseconds. -/
def totalNanos (d : Duration) : Nat :=
  d.secs.toNat * nanosPerSecond + d.nanos

/- A duration in seconds, as near as binary64 comes. -/
def seconds (d : Duration) : Float :=
  d.secs.toFloat + (UInt64.ofNat d.nanos).toFloat / 1000000000.0

end Duration

end OrderedLog
