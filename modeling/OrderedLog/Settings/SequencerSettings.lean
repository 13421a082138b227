import OrderedLog.Sequencer.Basic

/-
  This file defines the settings of a sequencer.

  Key definitions include:
    * `SequencerSettings`
-/

namespace OrderedLog

/- How many keys the conflict cache has room for. -/
structure SequencerSettings where
  cacheCapacity : UInt64
deriving DecidableEq

namespace SequencerSettings

/- The settings unless told otherwise. -/
def default : SequencerSettings where
  cacheCapacity := UInt64.ofNat Sequencer.defaultCapacity

end SequencerSettings

end OrderedLog
