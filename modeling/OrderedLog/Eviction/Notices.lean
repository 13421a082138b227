import OrderedLog.SortedMap.Basic
import OrderedLog.VersionedId

/-
  This file defines the queue through which the snapshot
  cache tells the eviction worker which snapshots it lost.
  The queue is bounded. What does not fit is merged, as the
  highest version of each object, into an overflow map, so
  that telling never waits and nothing is lost.

  Key definitions include:
    * `RemovalCause`
    * `NoticeQueue`
    * `NoticeQueue.report`
    * `NoticeQueue.reportAll`
    * `NoticeQueue.receive`
    * `NoticeQueue.takeOverflow`
-/

namespace OrderedLog

/- Why a snapshot left the snapshot cache. -/
inductive RemovalCause where
  | explicit
  | replaced
  | size
  | expired
deriving DecidableEq

namespace RemovalCause

/-
  Whether the cache lost the snapshot on its own account. The
  other removals are made by those who keep the index.
-/
def evicted : RemovalCause → Bool
  | explicit => false
  | replaced => false
  | size => true
  | expired => true

end RemovalCause

/-
  Identifiers in the order they were sent, at most `capacity`
  of them, and the overflow. Either end may be gone.
-/
structure NoticeQueue where
  capacity : Nat
  pending : List VersionedId
  overflow : SortedMap StreamId Address
  senderGone : Bool
  receiverGone : Bool
deriving DecidableEq

namespace NoticeQueue

/- What became of a report. -/
inductive Report where
  /- It does not concern the worker. -/
  | ignored
  /- It is in the queue. -/
  | queued
  /- The queue was full and it is in the overflow map. -/
  | overflowed
  /- The worker has stopped. -/
  | unheard
deriving DecidableEq

/- What the worker gets when it asks for an identifier. -/
inductive Received where
  | got
      (id : VersionedId)
  | timedOut
  | disconnected
deriving DecidableEq

/- A queue without identifiers, with both its ends. -/
def empty (capacity : Nat) : NoticeQueue where
  capacity := capacity
  pending := []
  overflow := ∅
  senderGone := false
  receiverGone := false

/- Whether there is no room for another identifier. -/
def full (q : NoticeQueue) : Bool :=
  q.capacity ≤ q.pending.length

/- Report a removal, without waiting for room. -/
def report
    (q : NoticeQueue)
    (id : VersionedId)
    (cause : RemovalCause) : Report × NoticeQueue :=
  if !cause.evicted then
    (.ignored, q)
  else if q.receiverGone then
    (.unheard, q)
  else if q.full then
    (.overflowed,
      { q with
        overflow :=
          q.overflow.insertWith Address.max id.object id.version })
  else
    (.queued, { q with pending := q.pending ++ [id] })

/- Report removals in turn. What became of them is in the same order. -/
def reportAll
    (q : NoticeQueue) :
    List (VersionedId × RemovalCause) → List Report × NoticeQueue
  | [] => ([], q)
  | (id, cause) :: removals =>
    let one := q.report id cause
    let others := reportAll one.2 removals
    (one.1 :: others.1, others.2)

/-
  Wait for an identifier. When there is none, the wait times
  out, or the queue is found to have no sender any more.
-/
def receive (q : NoticeQueue) : Received × NoticeQueue :=
  match q.pending with
  | id :: rest => (.got id, { q with pending := rest })
  | [] => (if q.senderGone then .disconnected else .timedOut, q)

/- Take everything out of the overflow map. -/
def takeOverflow
    (q : NoticeQueue) : List VersionedId × NoticeQueue :=
  (q.overflow.entries.map (fun e => ⟨e.1, e.2⟩),
    { q with overflow := ∅ })

/- Whether there is nothing left for the worker. -/
def idle (q : NoticeQueue) : Bool :=
  q.pending.isEmpty && q.overflow.isEmpty

/- The queue after its sender is gone. -/
def dropSender (q : NoticeQueue) : NoticeQueue :=
  { q with senderGone := true }

/- The queue after its receiver is gone. -/
def dropReceiver (q : NoticeQueue) : NoticeQueue :=
  { q with receiverGone := true }

end NoticeQueue

end OrderedLog
