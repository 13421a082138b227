import OrderedLog.CacheError
import OrderedLog.Address
import OrderedLog.SortedMap.Basic

/-
  This file defines a teller of tails that knows those it was
  told, and that can be made to fail.

  Key definitions include:
    * `FixedTails`
    * `FixedTails.query`
-/

namespace OrderedLog

/- Tails that were set, and the number of queries so far. -/
structure FixedTails where
  tails : SortedMap StreamId Address
  failing : Bool
  queries : Nat
deriving DecidableEq

namespace FixedTails

/- A teller that knows no tails. -/
def empty : FixedTails :=
  ⟨∅, false, 0⟩

/- Set the tail of a stream. -/
def setTail
    (f : FixedTails)
    (stream : StreamId)
    (tail : Address) : FixedTails :=
  { f with tails := f.tails.insert stream tail }

/-
  The tails of those streams that have one. Failed queries
  count as well.
-/
def query
    (f : FixedTails)
    (streams : List StreamId) :
    Except CacheError (SortedMap StreamId Address) × FixedTails :=
  let counted := { f with queries := f.queries + 1 }
  if f.failing then
    (.error (.noTails "tail source unavailable"), counted)
  else
    (.ok (f.tails.filterKeys (fun stream => streams.contains stream)), counted)

end FixedTails

end OrderedLog
