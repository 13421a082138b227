import OrderedLog.Refresh
import OrderedLog.SnapshotCache.Service

/-
  This file defines what the workers of a snapshot cache do
  while its users wait. The eviction worker catches up with
  all reports at once. The refresher does a round whenever one
  is due, until the cache is stopped.

  Key definitions include:
    * `CacheService.stepWorker`
    * `CacheService.catchUp`
    * `CacheService.settle`
    * `CacheService.settled`
    * `CacheService.passTo`
    * `CacheService.refreshAll`
    * `CacheService.awaitRounds`
    * `CacheService.sleep`
    * `CacheService.stop`
-/

namespace OrderedLog

namespace CacheService

variable {σ ρ ω : Type}

------------------------------------------------------------
-- The eviction worker
------------------------------------------------------------

/- One step of the eviction worker, with the eviction it asks for. -/
def stepWorker (s : CacheService σ ρ) : CacheService σ ρ :=
  let next :=
    EvictionWorker.step s.settings.batchSize.toNat false s.queue s.worker
  let stepped : CacheService σ ρ :=
    { s with
      queue := next.queue
      worker := next.worker }
  match next.call with
  | some id => (stepped.evictThrough id).2
  | none => stepped

/- Whether the worker has nothing at hand and nothing queued. -/
def quiet (s : CacheService σ ρ) : Bool :=
  (s.worker = .waiting ∨ s.worker = .stopped) ∧ s.queue.idle

/- Let the worker take steps until it is quiet. -/
def reconcile : (steps : Nat) → CacheService σ ρ → CacheService σ ρ
  | 0, s => s
  | steps + 1, s =>
    if s.quiet then s else reconcile steps s.stepWorker

/-
  Deal with all that was reported. What is evicted on the way
  is reported at most once for each stored snapshot, and six
  steps are enough for each report that comes of it.
-/
def catchUp (s : CacheService σ ρ) : CacheService σ ρ :=
  reconcile (EvictionWorker.stepBound s.queue + 6 * s.stored) s

/- Maintain the cache, and then deal with what was reported. -/
def settle (s : CacheService σ ρ) : CacheService σ ρ :=
  s.maintain.catchUp

/-
  Whether nothing is pending, the bound holds and every
  indexed version has a live snapshot.
-/
def settled (s : CacheService σ ρ) : Bool :=
  s.quiet
    && decide (s.cache.size ≤ s.settings.maxEntries.toNat)
    && s.cache.index.entries.all (fun e =>
      (SortedSet.toList e.2).all (fun v => s.cache.isLive ⟨e.1, v⟩))

/- Whether some loss was reported and some version evicted. -/
def evictedSome (s : CacheService σ ρ) : Bool :=
  let stats := s.cache.stats
  0 < stats.notifications + stats.overflowed ∧ 0 < stats.versionsEvicted

------------------------------------------------------------
-- The refresher
------------------------------------------------------------

/- A round of refreshing. -/
def refreshAll
    (t : RefreshTarget σ ρ ω)
    (s : CacheService σ ρ)
    (world : ω) : Nat × CacheService σ ρ × ω :=
  let done := t.refreshAll (s.cache, world)
  (done.1, s.withPuts done.2.1, done.2.2)

/- Time passes, and snapshots lapse, while the worker is quiet. -/
def passTo
    (time : Nat)
    (s : CacheService σ ρ) : CacheService σ ρ :=
  let caught := s.catchUp
  { caught with clock := caught.clock.max time }.lapseDue

/- Let the time of the refresher's next round come, and do it. -/
def passRound
    (t : RefreshTarget σ ρ ω)
    (s : CacheService σ ρ)
    (world : ω) : CacheService σ ρ × ω :=
  let done := (s.passTo s.nextRound).refreshAll t world
  let waited := done.2.1
  ({ waited with nextRound := waited.clock + s.settings.roundLength },
    done.2.2)

/-
  Let the refresher do its rounds, at most some number of
  them, until the cache is as awaited.
-/
def awaitRounds
    (t : RefreshTarget σ ρ ω)
    (awaited : SnapshotCache σ ρ → Bool) :
    (rounds : Nat) → CacheService σ ρ → ω →
      Bool × CacheService σ ρ × ω
  | 0, s, world => (awaited s.cache, s, world)
  | rounds + 1, s, world =>
    if awaited s.cache then (true, s, world)
    else if s.refreshing = some true then
      let next := s.passRound t world
      awaitRounds t awaited rounds next.1 next.2
    else
      (false, s, world)

/- Await a live snapshot: if one round does not bring it, none does. -/
def awaitLive
    (t : RefreshTarget σ ρ ω)
    (id : VersionedId)
    (s : CacheService σ ρ)
    (world : ω) : Bool × CacheService σ ρ × ω :=
  awaitRounds t (fun c => c.isLive id) 1 s world

/- Await a number of failures, of which a round counts some or none. -/
def awaitFailures
    (t : RefreshTarget σ ρ ω)
    (count : Nat)
    (s : CacheService σ ρ)
    (world : ω) : Bool × CacheService σ ρ × ω :=
  awaitRounds t (fun c => decide (count ≤ c.stats.refreshFailures)) count s world

------------------------------------------------------------
-- Sleeping and stopping
------------------------------------------------------------

/-
  Let time pass to some moment, with the rounds that are due
  until then, as long as there are not more than `rounds`.
-/
def sleepTo
    (t : RefreshTarget σ ρ ω)
    (time : Nat) :
    (rounds : Nat) → CacheService σ ρ → ω → CacheService σ ρ × ω
  | 0, s, world => (s.passTo time, world)
  | rounds + 1, s, world =>
    if s.refreshing = some true ∧ s.nextRound ≤ time then
      let next := s.passRound t world
      sleepTo t time rounds next.1 next.2
    else
      (s.passTo time, world)

/- Let some time pass. A round is due once in each length of one. -/
def sleep
    (t : RefreshTarget σ ρ ω)
    (nanos : Nat)
    (s : CacheService σ ρ)
    (world : ω) : CacheService σ ρ × ω :=
  sleepTo t (s.clock + nanos) (nanos / s.settings.roundLength + 1) s world

/-
  Stop both workers, once all that was reported is dealt with.
  The cache itself can still be used, but the index does not
  follow lost snapshots any more.
-/
def stop (s : CacheService σ ρ) : CacheService σ ρ :=
  let caught := s.catchUp
  { caught with
    queue := caught.queue.dropReceiver
    worker := .stopped
    refreshing := caught.refreshing.map (fun _ => false) }

/- Whether no worker is running. -/
def stopped (s : CacheService σ ρ) : Bool :=
  s.worker = .stopped ∧ s.refreshing ≠ some true

/- How a refresher is written out field by field. -/
def inspectRefresher (running : Bool) : String :=
  "MvoCacheSync \x7b running: " ++ toString running ++ " \x7d"

end CacheService

end OrderedLog
