import OrderedLog.SnapshotCache.Basic
import OrderedLog.Workload.Basic

/-
  This file defines a workload on the snapshot cache: puts,
  floor lookups and evictions by threads with objects of
  their own. A lookup fails if it finds a snapshot of another
  version than it says, or of one above the bound.

  The objects of two threads are different, so the threads
  are run one after the other.

  Key definitions include:
    * `Workload.stepSnapshots`
    * `Workload.runThread`
    * `Workload.runSnapshots`
-/

namespace OrderedLog

namespace Workload

/- The number of operations of each thread. -/
def opsPerThread (w : Workload) : Nat :=
  w.operations / Nat.max w.threads 1

/- The number of objects of each thread, at least one. -/
def objectsPerThread (w : Workload) : Nat :=
  Nat.max (w.objects / Nat.max w.threads 1) 1

/- A cache whose snapshots are the numbers of their versions. -/
abbrev VersionCache : Type :=
  SnapshotCache Nat Unit

/- Whether a floor lookup finds what it should, or nothing. -/
def lookUp
    (c : VersionCache)
    (id : VersionedId) : Bool × VersionCache :=
  match c.floor id .reference with
  | (none, c) => (true, c)
  | (some handle, c) =>
    let found := handle.proxy
    (decide (found.value = found.id.version.val)
        && decide (found.id.version ≤ id.version),
      c.release handle.lease)

/- One operation of a thread. -/
def stepSnapshots
    (w : Workload)
    (thread : Nat)
    (s : WorkloadResult × VersionCache)
    (i : Nat) : WorkloadResult × VersionCache :=
  let own := w.objectsPerThread
  let version := i / own
  let id : VersionedId :=
    ⟨StreamId.ofNat (thread * own + i % own), Address.ofNat version⟩
  let (ok, cache) :=
    match i % 4 with
    | 0 => (true, s.2.put id version)
    | 1 => (true, s.2.put id version)
    | 2 => lookUp s.2 id
    | _ =>
      if 2 < version then
        (true,
          (s.2.evictThrough (id.withVersion (Address.ofNat (version - 2)))).2)
      else
        (true, s.2)
  (s.1.record ok, cache)

/- All operations of a thread. -/
def runThread
    (w : Workload)
    (s : WorkloadResult × VersionCache)
    (thread : Nat) : WorkloadResult × VersionCache :=
  (List.range w.opsPerThread).foldl (w.stepSnapshots thread) s

/- The whole workload on a new cache. -/
def runSnapshots (w : Workload) : WorkloadResult :=
  ((List.range w.threads).foldl w.runThread
    (WorkloadResult.none, SnapshotCache.empty)).1

end Workload

end OrderedLog
