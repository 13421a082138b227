import OrderedLog.StreamId

/-
  This file defines what can go wrong around the snapshot
  cache.

  Key definitions include:
    * `CacheError`
    * `CacheError.message`
-/

namespace OrderedLog

/- Why a cache cannot be started, or an object not be refreshed. -/
inductive CacheError where
  | badSettings
      (reason : String)
  | noWorker
      (reason : String)
  | notRefreshed
      (object : StreamId)
      (reason : String)
  | noTails
      (reason : String)
deriving DecidableEq

namespace CacheError

/- The wording of an error. -/
def message : CacheError → String
  | badSettings reason =>
    "invalid configuration: " ++ reason
  | noWorker reason =>
    "failed to spawn worker: " ++ reason
  | notRefreshed object reason =>
    "failed to sync object " ++ object.text ++ ": " ++ reason
  | noTails reason =>
    "stream tail query failed: " ++ reason

end CacheError

end OrderedLog
