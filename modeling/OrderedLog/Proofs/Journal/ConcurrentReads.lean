import OrderedLog.Proofs.Journal.ReadLocks
import OrderedLog.Proofs.Journal.TruthfulReads

/-
  This file proves that reads through a shared cache are reads
  of the log, whoever appends, commits, evicts, loses snapshots
  or reads in between, and that a read never gets stuck.

  Key definitions include:
    * `SharedCounters.Exact`

  Key lemmas include:
    * `SharedCounters.truthful_run`
    * `SharedCounters.orderly_run`

  Key theorems include:
    * `SharedCounters.run_exact`
-/

namespace OrderedLog

namespace SharedCounters

------------------------------------------------------------
-- Runs
------------------------------------------------------------

theorem truthful_start
    (capacity : Nat)
    (capacity_pos : 0 < capacity)
    (batchSize queueCapacity : Nat) :
    (start capacity capacity_pos batchSize queueCapacity).Truthful := by
  constructor
  · exact Counter.right_empty _
  · intro reader id phase hReading
    cases hReading

theorem orderly_start
    (capacity : Nat)
    (capacity_pos : 0 < capacity)
    (batchSize queueCapacity : Nat) :
    (start capacity capacity_pos batchSize queueCapacity).Orderly := by
  constructor
  · intro reader id value hReading
    cases hReading
  · intro object version hLocked
    cases hLocked
  · intro reader other id otherId value otherValue hReading
    cases hReading

theorem truthful_run
    (batchSize : Nat)
    {s : SharedCounters}
    (h : s.Truthful)
    (actions : List Action) : (s.run batchSize actions).Truthful := by
  induction actions generalizing s with
  | nil => exact h
  | cons action actions ih => exact ih (h.step batchSize action)

theorem orderly_run
    (batchSize : Nat)
    {s : SharedCounters}
    (h : s.Orderly)
    (actions : List Action) : (s.run batchSize actions).Orderly := by
  induction actions generalizing s with
  | nil => exact h
  | cons action actions ih => exact ih (h.step batchSize action)

------------------------------------------------------------
-- Exact reads
------------------------------------------------------------

/- All reads yield the sum of the entries up to their version. -/
structure Exact
    (batchSize : Nat)
    (s : SharedCounters) : Prop where
  /- A read that is done yielded that sum. -/
  returned :
    ∀ reader id value,
      s.readings.get? reader = some ⟨id, .returned value⟩ →
        value = s.journal.sumUpTo id.object id.version
  /- A read that is under way can be finished with that sum. -/
  finishes :
    ∀ reader id phase,
      s.readings.get? reader = some ⟨id, phase⟩ →
        ∃ actions,
          (s.run batchSize actions).readings.get? reader =
            some ⟨id,
              .returned (s.journal.sumUpTo id.object id.version)⟩
  /- A read that nobody comes upon yields that sum. -/
  undisturbed :
    ∀ object snapshot, s.reached snapshot = true →
      (Counter.readCached object snapshot
          (s.shared.cache, s.journal)).1 =
        s.journal.sumUpTo object snapshot

theorem Truthful.exact
    {s : SharedCounters}
    (h : s.Truthful)
    (hOrderly : s.Orderly)
    (batchSize : Nat) : s.Exact batchSize := by
  constructor
  · intro reader id value hReading
    exact (h.reading reader id _ hReading).2
  · intro reader id phase hReading
    have hSettled := (h.reading reader id phase hReading).1
    have hFinishes : Finishes batchSize s reader id :=
      hOrderly.finishes hReading
    rcases hFinishes with ⟨actions, value, hReturned⟩
    -- the log may have grown meanwhile, but not up to the version
    have hGrows := grows_run batchSize s actions
    have hValue :=
      ((truthful_run batchSize h actions).reading _ _ _ hReturned).2
    have hSum : value = s.journal.sumUpTo id.object id.version :=
      Eq.trans hValue (hGrows.sums _ _ hSettled)
    refine ⟨actions, ?_⟩
    rw [← hSum]
    exact hReturned
  · intro object snapshot hReached
    exact (h.cached.readCached (settled_of_reached hReached)).1

/-
  In whatever state a run of a log, a cache and any number of
  readers gets into, reads of counters are exact.
-/
theorem run_exact
    (capacity : Nat)
    (capacity_pos : 0 < capacity)
    (batchSize queueCapacity : Nat)
    (actions : List Action) :
    Exact batchSize
      (run batchSize
        (start capacity capacity_pos batchSize queueCapacity)
        actions) := by
  apply Truthful.exact
  · exact truthful_run batchSize (truthful_start _ _ _ _) actions
  · exact orderly_run batchSize (orderly_start _ _ _ _) actions

/-
  Three reads of one counter: from all entries, from the first
  one's snapshot and the entries since, and from the second
  one's snapshot. Entries are appended while they are read, and
  a snapshot is lost in the end.
-/
def mixedActions : List Action :=
  let stream := StreamId.ofNat 7
  let next (reader : Nat) : Action := .advance reader []
  [ .append stream 5,
    .append stream 7,
    .call 0 ⟨stream, Address.ofNat 1⟩,
    next 0, next 0,
    .append stream 30,
    next 0, next 0, next 0,
    .append (StreamId.ofNat 8) 100,
    .call 1 ⟨stream, Address.ofNat 3⟩,
    next 1, next 1, next 1,
    .append stream 1000,
    next 1, next 1,
    .call 2 ⟨stream, Address.ofNat 3⟩,
    next 2,
    .lose ⟨stream, Address.ofNat 1⟩ .size ]

theorem mixedActions_exact :
    let s := run 16 (start 4 (by decide) 16 4) mixedActions
    s.readings.values.map Reading.phase =
        [.returned 12, .returned 42, .returned 42] ∧
      s.Exact 16 :=
  ⟨by decide +kernel, run_exact 4 (by decide) 16 4 mixedActions⟩

end SharedCounters

end OrderedLog
