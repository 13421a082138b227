import OrderedLog.Address
import OrderedLog.ConflictKey

/-
  This file defines why the sequencer or its conflict cache
  refuses a request.

  Key definitions include:
    * `Refusal`
    * `Refusal.message`
-/

namespace OrderedLog

/- Why a request is refused. -/
inductive Refusal where
  /- A conflict cache needs room for at least one key. -/
  | noCapacity
  /- Some keys were already written at this version. -/
  | duplicateVersion
      (version : Address)
  /- The version is not above the start of the window. -/
  | belowWindow
      (version : Address)
      (smallest : Address)
  /- A key was already written at or above this version. -/
  | regression
      (key : ConflictKey)
      (previous : Address)
      (version : Address)
  /- A token covers at least one address. -/
  | emptyToken
      (count : Nat)
  /- The request would use up the last address. -/
  | exhausted
      (tail : Address)
deriving DecidableEq

namespace Refusal

/- The wording of a refusal. -/
def message : Refusal → String
  | noCapacity =>
    "sequencer cache capacity must be positive"
  | duplicateVersion version =>
    "txVersion=" ++ version.label
      ++ " is already present in the sequencer cache"
  | belowWindow version smallest =>
    "txVersion=" ++ version.label
      ++ " should be larger than the smallest address=" ++ smallest.label
  | regression key previous version =>
    "sequencer regression: conflictKey=" ++ key.text
      ++ " prevVersion=" ++ previous.label
      ++ " txVersion=" ++ version.label
  | emptyToken count =>
    "token request must ask for at least one address, got "
      ++ toString count
  | exhausted tail =>
    "address space exhausted at " ++ tail.label

end Refusal

end OrderedLog
