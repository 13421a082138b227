import Mathlib.Data.List.DropRight
import OrderedLog.Proofs.SnapshotCache.Refinement

/-
  This file defines what can be told from the trace of a cache
  alone, from what was done with it and what came out of that:
  which versions are cached, which leases are held, and which
  were registered with the snapshot at a version. For each of
  these there are events that put an end to what was before.

  Key definitions include:
    * `TendedCache.Event`
    * `TendedCache.trace`
    * `TendedCache.since`
    * `TendedCache.cached`
    * `TendedCache.held`
    * `TendedCache.registered`
    * `TendedCache.outstanding`

  Key lemmas include:
    * `TendedCache.trace_concat`
    * `TendedCache.cached_concat`
    * `TendedCache.held_concat`
    * `TendedCache.registered_concat`
-/

namespace OrderedLog

namespace TendedCache

variable {σ ρ : Type}

------------------------------------------------------------
-- Events
------------------------------------------------------------

/- What was done with a cache, and what came out of it. -/
abbrev Event (σ : Type) : Type :=
  Action σ × Reply σ

/- The events of a run in their order. -/
def trace
    (batchSize : Nat)
    (s : TendedCache σ ρ)
    (actions : List (Action σ)) : List (Event σ) :=
  actions.zip (s.run batchSize actions).1

theorem run_concat
    (batchSize : Nat)
    (s : TendedCache σ ρ)
    (actions : List (Action σ))
    (action : Action σ) :
    s.run batchSize (actions ++ [action]) =
      ((s.run batchSize actions).1 ++
          [((s.run batchSize actions).2.serve batchSize action).1],
        ((s.run batchSize actions).2.serve batchSize action).2) := by
  induction actions generalizing s with
  | nil => rfl
  | cons first actions ih =>
    rw [List.cons_append, run, ih]
    rfl

theorem length_run
    (batchSize : Nat)
    (s : TendedCache σ ρ)
    (actions : List (Action σ)) :
    (s.run batchSize actions).1.length = actions.length := by
  induction actions generalizing s with
  | nil => rfl
  | cons action actions ih =>
    rw [run, List.length_cons, List.length_cons, ih]

theorem trace_concat
    (batchSize : Nat)
    (s : TendedCache σ ρ)
    (actions : List (Action σ))
    (action : Action σ) :
    s.trace batchSize (actions ++ [action]) =
      s.trace batchSize actions ++
        [(action,
          ((s.run batchSize actions).2.serve batchSize action).1)] := by
  unfold trace
  rw [run_concat, List.zip_append (length_run batchSize s actions).symm]
  rfl

/- The lease of the proxy that a lookup hands out. -/
def lends? : Event σ → Option Nat
  | (_, .found (some handle)) => some handle.lease
  | _ => none

/-
  The lease that is registered with the snapshot at a version.
  An exact lookup registers references only, a floor lookup
  whatever it hands out.
-/
def registers?
    (id : VersionedId) : Event σ → Option Nat
  | (.get other .reference, .found (some handle)) =>
    if id = other then some handle.lease else none
  | (.floor _ _, .found (some handle)) =>
    if id = handle.proxy.id then some handle.lease else none
  | _ => none

/- Whether a lease is given back. -/
def releases
    (lease : Nat) : Event σ → Bool
  | (.release other, _) => lease = other
  | _ => false

/- Whether a snapshot is put at exactly a version. -/
def puts
    (id : VersionedId) : Event σ → Bool
  | (.put other _, _) => id = other
  | _ => false

/- Whether the snapshot at a version is evicted or lost. -/
def removes
    (id : VersionedId) : Event σ → Bool
  | (.evict bound, _) => bound.Covers id
  | (.work _, .worked (some (bound, _))) => bound.Covers id
  | (.lose other, _) => id = other
  | _ => false

------------------------------------------------------------
-- What holds after some events
------------------------------------------------------------

/- The events after the last one that ends something. -/
def since
    (ends : Event σ → Bool)
    (events : List (Event σ)) : List (Event σ) :=
  events.rtakeWhile (fun event => !ends event)

/- Whether a version was put, and not removed after that. -/
def cached
    (events : List (Event σ))
    (id : VersionedId) : Bool :=
  (since (removes id) events).any (puts id)

/- Whether a lease was handed out, and not given back after that. -/
def held
    (events : List (Event σ))
    (lease : Nat) : Bool :=
  (since (releases lease) events).any
    (fun event => some lease = lends? event)

/- The leases registered at a version since it was last put. -/
def registered
    (events : List (Event σ))
    (id : VersionedId) : List Nat :=
  (since (puts id) events).filterMap (registers? id)

/- Those of them that are held. -/
def outstanding
    (events : List (Event σ))
    (id : VersionedId) : List Nat :=
  (registered events id).filter (held events)

theorem since_concat
    (ends : Event σ → Bool)
    (events : List (Event σ))
    (event : Event σ) :
    since ends (events ++ [event]) =
      if ends event then [] else since ends events ++ [event] := by
  unfold since
  rw [List.rtakeWhile_concat]
  cases ends event with
  | true => rfl
  | false => rfl

theorem cached_concat
    (events : List (Event σ))
    (event : Event σ)
    (id : VersionedId) :
    cached (events ++ [event]) id =
      (!removes id event && (cached events id || puts id event)) := by
  unfold cached
  rw [since_concat]
  cases removes id event with
  | true => rfl
  | false => simp

theorem held_concat
    (events : List (Event σ))
    (event : Event σ)
    (lease : Nat) :
    held (events ++ [event]) lease =
      (!releases lease event &&
        (held events lease || some lease = lends? event)) := by
  unfold held
  rw [since_concat]
  cases releases lease event with
  | true => rfl
  | false => simp

theorem registered_concat
    (events : List (Event σ))
    (event : Event σ)
    (id : VersionedId) :
    registered (events ++ [event]) id =
      if puts id event then []
      else registered events id ++ (registers? id event).toList := by
  unfold registered
  rw [since_concat]
  cases puts id event with
  | true => rfl
  | false =>
    rw [if_neg Bool.false_ne_true, if_neg Bool.false_ne_true,
      List.filterMap_append, List.filterMap_cons, List.filterMap_nil]
    cases registers? id event with
    | none => rfl
    | some lease => rfl

/- An event that concerns no lease and puts nothing. -/
structure Quiet (event : Event σ) : Prop where
  lends : lends? event = none
  releases : ∀ lease, releases lease event = false
  puts : ∀ id, puts id event = false

/- No lease is registered that is not handed out. -/
theorem registers?_eq_none
    {event : Event σ}
    (h : lends? event = none)
    (id : VersionedId) : registers? id event = none := by
  unfold registers?
  split
  · exact absurd h nofun
  · exact absurd h nofun
  · rfl

theorem Quiet.held_concat
    {event : Event σ}
    (h : Quiet event)
    (events : List (Event σ))
    (lease : Nat) :
    held (events ++ [event]) lease = held events lease := by
  rw [TendedCache.held_concat, h.lends, h.releases]
  simp

theorem Quiet.registered_concat
    {event : Event σ}
    (h : Quiet event)
    (events : List (Event σ))
    (id : VersionedId) :
    registered (events ++ [event]) id = registered events id := by
  rw [TendedCache.registered_concat, h.puts, registers?_eq_none h.lends]
  exact List.append_nil _

theorem Quiet.outstanding_concat
    {event : Event σ}
    (h : Quiet event)
    (events : List (Event σ))
    (id : VersionedId) :
    outstanding (events ++ [event]) id = outstanding events id := by
  unfold outstanding
  rw [h.registered_concat, funext (h.held_concat events)]

end TendedCache

end OrderedLog
