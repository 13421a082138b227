import OrderedLog.Eviction.Batch
import OrderedLog.Eviction.Notices

/-
  This file defines the worker that turns reports of lost
  snapshots into evictions. It works in rounds: it waits for
  an identifier, fills a batch with what else is queued, adds
  the overflow, and evicts once for each object of the batch.
  Each step touches the queue once or asks for one eviction,
  so that reports may come in between any two of them.

  Key definitions include:
    * `EvictionWorker`
    * `EvictionWorker.unfinished`
    * `EvictionWorker.start`
    * `EvictionWorker.step`
    * `EvictionWorker.run`
    * `EvictionWorker.drain`
-/

namespace OrderedLog

/- Where the worker is in its round. -/
inductive EvictionWorker where
  /- At the start of a round. -/
  | waiting
  /- Taking what else is queued, up to the size of a batch. -/
  | filling
      (batch : List VersionedId)
  /- About to add the overflow. -/
  | draining
      (batch : List VersionedId)
  /- With some evictions still to ask for. -/
  | evicting
      (targets : List VersionedId)
  /- Out of its loop. -/
  | stopped
deriving DecidableEq

namespace EvictionWorker

/- The worker and the queue after a step, and an eviction asked for. -/
structure Progress where
  worker : EvictionWorker
  queue : NoticeQueue
  call : Option VersionedId
deriving DecidableEq

/- The identifiers the worker has taken and not yet dealt with. -/
def unfinished : EvictionWorker → List VersionedId
  | waiting => []
  | filling batch => batch
  | draining batch => batch
  | evicting targets => targets
  | stopped => []

/- The bytes that an identifier takes in a batch. -/
def idBytes : Nat := 24

/- The most bytes that anyone can set aside at once. -/
def mostBytes : Nat := 9223372036854775807

/- Whether there can be room for a whole batch of some size. -/
def fits (batchSize : Nat) : Bool :=
  batchSize * idBytes ≤ mostBytes

/-
  A new worker on a queue. The first thing it does is to set
  aside room for a whole batch. If there can be no such room,
  it is out of its loop before it has received anything, and
  nobody receives any more.
-/
def start
    (batchSize : Nat)
    (q : NoticeQueue) : EvictionWorker × NoticeQueue :=
  if fits batchSize then (waiting, q) else (stopped, q.dropReceiver)

/-
  One step. The worker looks at the stop request only at the
  start of a round, and stops there, or when it waits on a
  queue without sender. Then nobody receives any more.
-/
def step
    (batchSize : Nat)
    (stopping : Bool)
    (q : NoticeQueue) : EvictionWorker → Progress
  | waiting =>
    if stopping then ⟨stopped, q.dropReceiver, none⟩
    else
      match q.receive with
      | (.got id, q) => ⟨filling [id], q, none⟩
      | (.timedOut, q) => ⟨filling [], q, none⟩
      | (.disconnected, q) => ⟨stopped, q.dropReceiver, none⟩
  | filling batch =>
    if batch.length < batchSize then
      match q.receive with
      | (.got id, q) => ⟨filling (batch ++ [id]), q, none⟩
      | (_, q) => ⟨draining batch, q, none⟩
    else
      ⟨draining batch, q, none⟩
  | draining batch =>
    let (deferred, q) := q.takeOverflow
    match batch ++ deferred with
    | [] => ⟨waiting, q, none⟩
    | whole => ⟨evicting (evictionTargets whole), q, none⟩
  | evicting [] => ⟨waiting, q, none⟩
  | evicting (target :: targets) => ⟨evicting targets, q, some target⟩
  | stopped => ⟨stopped, q, none⟩

/- The worker and the queue after a run, and all evictions asked for. -/
structure Outcome where
  worker : EvictionWorker
  queue : NoticeQueue
  calls : List VersionedId
deriving DecidableEq

/-
  Run the worker for at most `steps` steps while nothing is
  reported. It is asked to stop as soon as it has asked for
  `enough` evictions, if a number is given.
-/
def run
    (batchSize : Nat)
    (enough : Option Nat) :
    (steps : Nat) → EvictionWorker → NoticeQueue →
      (calls : List VersionedId) → Outcome
  | 0, w, q, calls => ⟨w, q, calls⟩
  | steps + 1, w, q, calls =>
    match w with
    | stopped => ⟨stopped, q, calls⟩
    | w =>
      let stopping :=
        match enough with
        | some n => decide (n ≤ calls.length)
        | none => false
      let next := step batchSize stopping q w
      run batchSize enough steps next.worker next.queue
        (calls ++ next.call.toList)

/-
  Steps that are enough to deal with all that a queue holds
  and to find that nothing else is there.
-/
def stepBound (q : NoticeQueue) : Nat :=
  5 * q.pending.length + q.overflow.size + 6

/- Run a new worker on a queue while nothing is reported. -/
def drain
    (batchSize : Nat)
    (enough : Option Nat)
    (q : NoticeQueue) : Outcome :=
  let started := start batchSize q
  run batchSize enough (stepBound q) started.1 started.2 []

/- How a worker is written out field by field. -/
def inspect (w : EvictionWorker) : String :=
  "MvoCacheEviction \x7b running: " ++ toString (w ≠ stopped : Bool)
    ++ " \x7d"

end EvictionWorker

end OrderedLog
