import OrderedLog.Duration

/-
  This file defines the settings and the results of workloads
  that put a cache under load.

  Key definitions include:
    * `Workload`
    * `WorkloadResult`
    * `WorkloadResult.opsPerSecond`
-/

namespace OrderedLog

/- How much a workload does, and on how many things. -/
structure Workload where
  operations : Nat
  threads : Nat
  objects : Nat
  keysPerCommit : Nat
deriving DecidableEq

namespace Workload

/- The settings unless told otherwise. -/
def default : Workload :=
  ⟨10000, 4, 64, 4⟩

end Workload

/- How many operations went well and how many did not. -/
structure WorkloadResult where
  successful : Nat
  failed : Nat
deriving DecidableEq

namespace WorkloadResult

/- The result before the first operation. -/
def none : WorkloadResult :=
  ⟨0, 0⟩

/- All operations. -/
def total (r : WorkloadResult) : Nat :=
  r.successful + r.failed

/- Count one more operation. -/
def record
    (r : WorkloadResult)
    (ok : Bool) : WorkloadResult :=
  if ok then { r with successful := r.successful + 1 }
  else { r with failed := r.failed + 1 }

/-
  All operations by the seconds they took, and zero if they
  took no time.
-/
def opsPerSecond
    (r : WorkloadResult)
    (duration : Duration) : Float :=
  if duration.seconds > 0.0 then
    (UInt64.ofNat r.total).toFloat / duration.seconds
  else
    0.0

end WorkloadResult

end OrderedLog
