import OrderedLog.StandIn.FixedTails
import OrderedLog.Refresh

/-
  This file defines objects that record the versions they
  were refreshed to. A caching one also caches a snapshot at
  such a version, which is the text of the versioned
  identifier itself.

  Key definitions include:
    * `Recorder`
    * `Recorder.refreshTo`
    * `Bench`
    * `Bench.refreshTarget`
-/

namespace OrderedLog

/- An object that records, and that can be made to fail. -/
structure Recorder where
  object : StreamId
  caching : Bool
  failing : Bool
  refreshedTo : List Address
deriving DecidableEq

namespace Recorder

/- An object that was not refreshed yet. -/
def new
    (object : StreamId)
    (caching : Bool) : Recorder :=
  ⟨object, caching, false, []⟩

/- Refresh the object to a version. -/
def refreshTo
    {ρ : Type}
    (r : Recorder)
    (version : Address)
    (c : SnapshotCache String ρ) :
    Except CacheError Unit × Recorder × SnapshotCache String ρ :=
  if r.failing then
    (.error (.notRefreshed r.object "replay failed"), r, c)
  else
    let id : VersionedId := ⟨r.object, version⟩
    (.ok (),
      { r with refreshedTo := r.refreshedTo ++ [version] },
      if r.caching then c.put id id.text else c)

end Recorder

------------------------------------------------------------
-- Refreshing recorders
------------------------------------------------------------

/- Fixed tails and recording objects, known by their places. -/
structure Bench where
  tails : FixedTails
  recorders : List Recorder
deriving DecidableEq

namespace Bench

/- A bench without tails and objects. -/
def empty : Bench :=
  ⟨FixedTails.empty, []⟩

/- Add an object; its place comes with the bench. -/
def add
    (b : Bench)
    (r : Recorder) : Nat × Bench :=
  (b.recorders.length, { b with recorders := b.recorders ++ [r] })

/- Make the object at a place fail from now on, or work again. -/
def setFailing
    (b : Bench)
    (place : Nat)
    (failing : Bool) : Bench :=
  { b with
    recorders := b.recorders.modify place (fun r => { r with failing }) }

/- Refresh the object at a place. -/
def refreshTo
    (place : Nat)
    (version : Address)
    (s : SnapshotCache String Nat × Bench) :
    Except CacheError Unit × (SnapshotCache String Nat × Bench) :=
  match s.2.recorders[place]? with
  | none => (.ok (), s)
  | some r =>
    let (result, r, cache) := r.refreshTo version s.1
    (result,
      cache, { s.2 with recorders := s.2.recorders.set place r })

/- Rounds of refreshing act on the objects of a bench. -/
def refreshTarget : RefreshTarget String Nat Bench where
  tails streams b :=
    let (result, tails) := b.tails.query streams
    (result, { b with tails })
  refreshTo _ place version s := refreshTo place version s

end Bench

end OrderedLog
