import OrderedLog.ConflictCache.Record
import OrderedLog.Workload.Basic

/-
  This file defines a workload on the conflict cache: write
  sets that look random, at increasing addresses. An
  operation fails if the cache refuses it or outgrows its
  capacity.

  Key definitions include:
    * `Workload.writeSet`
    * `Workload.runConflicts`
-/

namespace OrderedLog

namespace Workload

/- A number as eight bytes, the most significant one first. -/
def bytes (n : Nat) : List UInt8 :=
  (List.range 8).reverse.map (fun i => UInt8.ofNat (n >>> (8 * i)))

/- The key of a number. -/
def key
    (w : Workload)
    (n : Nat) : ConflictKey :=
  ⟨StreamId.ofNat (n % w.objects), bytes n⟩

/- The keys that one operation writes. -/
def writeSet
    (w : Workload)
    (operation : Nat) : SortedSet ConflictKey :=
  SortedSet.ofList
    ((List.range w.keysPerCommit).map (fun k =>
      w.key ((operation * 31 + k * 17) % (w.objects * 8))))

/- One operation. -/
def stepConflicts
    (w : Workload)
    (s : WorkloadResult × ConflictCache)
    (operation : Nat) : WorkloadResult × ConflictCache :=
  match s.2.record (w.writeSet operation) (Address.ofNat (operation + 1)) with
  | .ok cache => (s.1.record (decide (cache.size ≤ cache.capacity)), cache)
  | .error _ => (s.1.record false, s.2)

/- The whole workload on a new cache, which needs some capacity. -/
def runConflicts
    (w : Workload)
    (capacity : Nat) : WorkloadResult :=
  match ConflictCache.new? capacity Address.zero with
  | .error _ => ⟨0, w.operations⟩
  | .ok cache =>
    ((List.range w.operations).foldl w.stepConflicts
      (WorkloadResult.none, cache)).1

end Workload

end OrderedLog
