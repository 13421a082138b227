import OrderedLog.CacheError
import OrderedLog.SnapshotCache.Basic

/-
  This file defines a round of refreshing: the objects whose
  newest cached version is behind the tail of their stream
  are moved forward to it.

  Key definitions include:
    * `RefreshTarget`
    * `RefreshTarget.due?`
    * `RefreshTarget.refreshEach`
    * `RefreshTarget.round`
    * `RefreshTarget.refreshAll`
-/

namespace OrderedLog

/-
  What a round acts on beside the cache, of type `ω`: who can
  tell the tails of streams, and how an object is refreshed.
-/
structure RefreshTarget
    (σ : Type)
    (ρ : Type)
    (ω : Type) where
  tails :
    List StreamId → ω →
      Except CacheError (SortedMap StreamId Address) × ω
  refreshTo :
    StreamId → ρ → Address → SnapshotCache σ ρ × ω →
      Except CacheError Unit × (SnapshotCache σ ρ × ω)

namespace RefreshTarget

variable {σ ρ ω : Type}

/- Count a failure. -/
def recordFailure
    (s : SnapshotCache σ ρ × ω) : SnapshotCache σ ρ × ω :=
  ({ s.1 with stats := s.1.stats.recordRefreshFailure }, s.2)

/- Count a completed round. -/
def recordRound
    (s : SnapshotCache σ ρ × ω)
    (count : Nat) : SnapshotCache σ ρ × ω :=
  ({ s.1 with stats := s.1.stats.recordRound count }, s.2)

/-
  The tail to refresh an object to, if it has cached versions
  that are all below it.
-/
def due?
    (tails : SortedMap StreamId Address)
    (c : SnapshotCache σ ρ)
    (object : StreamId) : Option Address :=
  match tails.get? object, c.latest? object with
  | some tail, some latest => if latest < tail then some tail else none
  | _, _ => none

/-
  Refresh those of some objects that are behind, in turn. The
  number is that of the successes; a failure is counted and
  keeps no other object from being refreshed.
-/
def refreshEach
    (t : RefreshTarget σ ρ ω)
    (tails : SortedMap StreamId Address) :
    List (StreamId × ρ) → SnapshotCache σ ρ × ω →
      Nat × (SnapshotCache σ ρ × ω)
  | [], s => (0, s)
  | (object, known) :: objects, s =>
    match due? tails s.1 object with
    | none => refreshEach t tails objects s
    | some tail =>
      match t.refreshTo object known tail s with
      | (.ok (), s) =>
        let others := refreshEach t tails objects s
        (1 + others.1, others.2)
      | (.error _, s) => refreshEach t tails objects (recordFailure s)

/-
  A round over some objects in the given order. Without
  objects the tails are not asked for. If they cannot be
  told, the round counts as a failure alone.
-/
def round
    (t : RefreshTarget σ ρ ω)
    (objects : List (StreamId × ρ))
    (s : SnapshotCache σ ρ × ω) : Nat × (SnapshotCache σ ρ × ω) :=
  match objects with
  | [] => (0, recordRound s 0)
  | objects =>
    match t.tails (objects.map Prod.fst) s.2 with
    | (.error _, world) => (0, recordFailure (s.1, world))
    | (.ok tails, world) =>
      let done := t.refreshEach tails objects (s.1, world)
      (done.1, recordRound done.2 done.1)

/- A round over all registered objects. -/
def refreshAll
    (t : RefreshTarget σ ρ ω)
    (s : SnapshotCache σ ρ × ω) : Nat × (SnapshotCache σ ρ × ω) :=
  t.round s.1.registry.entries s

end RefreshTarget

end OrderedLog
