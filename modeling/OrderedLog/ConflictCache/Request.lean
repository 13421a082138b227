import OrderedLog.ConflictCache.Verdict

/-
  This file defines what a conflict cache is asked to do, as
  data, and how it serves a sequence of such requests.

  Key definitions include:
    * `ConflictCache.Request`
    * `ConflictCache.Reply`
    * `ConflictCache.serve`
    * `ConflictCache.run`
-/

namespace OrderedLog

namespace ConflictCache

/- What a cache may be asked to do. -/
inductive Request where
  /- Record that keys were written at a version. -/
  | record
      (keys : SortedSet ConflictKey)
      (version : Address)
  /- Evict every address below a mark. -/
  | trim
      (mark : Address)
  /- Judge a transaction. -/
  | rule
      (transaction : Transaction)
deriving DecidableEq

/- What a cache answers. -/
inductive Reply where
  | accepted
  | refused
      (refusal : Refusal)
  | evicted
      (keys : Nat)
  | ruled
      (verdict : Verdict)
deriving DecidableEq

/- Serve one request. -/
def serve
    (c : ConflictCache) : Request → Reply × ConflictCache
  | .record keys version =>
    match c.record keys version with
    | .ok next => (.accepted, next)
    | .error refusal => (.refused refusal, c)
  | .trim mark =>
    let trimmed := c.trimBelow mark
    (.evicted trimmed.2, trimmed.1)
  | .rule transaction =>
    let ruled := c.rule transaction
    (.ruled ruled.1, ruled.2)

/- Serve requests in turn. The replies are in the same order. -/
def run
    (c : ConflictCache) : List Request → List Reply × ConflictCache
  | [] => ([], c)
  | request :: requests =>
    let served := c.serve request
    let others := run served.2 requests
    (served.1 :: others.1, others.2)

end ConflictCache

end OrderedLog
