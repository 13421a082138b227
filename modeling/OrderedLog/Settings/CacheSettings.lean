import OrderedLog.CacheError
import OrderedLog.Duration

/-
  This file defines the settings of a snapshot cache and says
  which of them are usable.

  Key definitions include:
    * `CacheSettings`
    * `CacheSettings.roundLength`
    * `CacheSettings.Fault`
    * `CacheSettings.fault?`
    * `CacheSettings.check`
-/

namespace OrderedLog

/- The bounds of a snapshot cache and of its two workers. -/
structure CacheSettings where
  maxEntries : UInt64
  expiry : Duration
  refreshPeriod : Duration
  queueCapacity : UInt64
  batchSize : UInt64
deriving DecidableEq

namespace CacheSettings

/- The settings unless told otherwise. -/
def default : CacheSettings where
  maxEntries := 2500
  expiry := Duration.ofSecs 300
  refreshPeriod := Duration.ofSecs 30
  queueCapacity := 4096
  batchSize := 256

/- Objects are refreshed in the background at a period above zero. -/
def refreshes (c : CacheSettings) : Bool :=
  !c.refreshPeriod.isZero

/-
  The time from one round of refreshing to the next one, in
  nanoseconds: the period, but no less than a tenth of a
  millisecond, which a round takes itself.
-/
def roundLength (c : CacheSettings) : Nat :=
  Nat.max c.refreshPeriod.totalNanos 100000

/- The longest expiry: a thousand years of 365 days. -/
def longestExpiry : Duration :=
  Duration.ofSecs 31536000000

/- What makes settings unusable. -/
inductive Fault where
  | noEntries
  | noExpiry
  | longExpiry
  | noQueue
  | noBatch
deriving DecidableEq

namespace Fault

/- The wording of a fault. -/
def message : Fault → String
  | noEntries => "max_cache_entries must be positive"
  | noExpiry => "cache_expiry must be positive"
  | longExpiry => "cache_expiry must not exceed 1000 years"
  | noQueue => "eviction_queue_capacity must be positive"
  | noBatch => "eviction_batch_size must be positive"

end Fault

/- The first fault, in the order of the settings. -/
def fault? (c : CacheSettings) : Option Fault :=
  if c.maxEntries = 0 then some .noEntries
  else if c.expiry.isZero then some .noExpiry
  else if longestExpiry.totalNanos < c.expiry.totalNanos then
    some .longExpiry
  else if c.queueCapacity = 0 then some .noQueue
  else if c.batchSize = 0 then some .noBatch
  else none

/- Accept usable settings alone. -/
def check (c : CacheSettings) : Except CacheError Unit :=
  match c.fault? with
  | some fault => .error (.badSettings fault.message)
  | none => .ok ()

end CacheSettings

end OrderedLog
