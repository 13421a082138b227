import OrderedLog.ConflictCache.Record

/-
  This file defines how a transaction is judged against the
  conflict cache: it may commit unless a key that it read or
  writes was, or may have been, written after its snapshot.

  Key definitions include:
    * `Transaction`
    * `AbortReason`
    * `Verdict`
    * `ConflictCache.offence?`
    * `ConflictCache.judge`
    * `ConflictCache.rule`
-/

namespace OrderedLog

------------------------------------------------------------
-- Transactions and verdicts
------------------------------------------------------------

/-
  What a transaction tells about itself: the address its reads
  were taken at, the keys it read and the keys it writes.
-/
structure Transaction where
  snapshot : Address
  reads : SortedSet ConflictKey
  writes : SortedSet ConflictKey
deriving DecidableEq

/- Why a transaction is aborted. -/
inductive AbortReason where
  /- Writes before the sequencer's start are not known to it. -/
  | predates
      (snapshot : Address)
      (bound : Address)
  /- The key was written after the snapshot. -/
  | conflict
      (key : ConflictKey)
      (address : Address)
  /- The key may have been written and evicted since. -/
  | overflow
      (key : ConflictKey)
      (wildcard : Address)
deriving DecidableEq

/- The verdict on a transaction. -/
inductive Verdict where
  | commit
  | abort
      (reason : AbortReason)
deriving DecidableEq

namespace AbortReason

/- The wording of a reason. -/
def message : AbortReason → String
  | predates snapshot bound =>
    "new sequencer: snapshot " ++ snapshot.label ++ " < " ++ bound.label
  | conflict key address =>
    "conflict on " ++ key.text ++ " at " ++ address.label
  | overflow key wildcard =>
    "cache overflow for " ++ key.text ++ ": wildcard " ++ wildcard.label

end AbortReason

------------------------------------------------------------
-- Judging
------------------------------------------------------------

namespace ConflictStats

/- Count a verdict. -/
def recordVerdict
    (s : ConflictStats) : Verdict → ConflictStats
  | .commit => { s with commits := s.commits + 1 }
  | .abort _ => { s with aborts := s.aborts + 1 }

end ConflictStats

namespace ConflictCache

/- What a single key has against a commit at a snapshot. -/
def offence?
    (c : ConflictCache)
    (snapshot : Address)
    (key : ConflictKey) : Option AbortReason :=
  match c.get? key with
  | some address =>
    if snapshot < address then some (.conflict key address) else none
  | none =>
    if snapshot < c.wildcard then some (.overflow key c.wildcard) else none

/-
  The keys to check: those that were read, then those that are
  only written.
-/
def examined
    (reads : List ConflictKey)
    (writes : List ConflictKey) : List ConflictKey :=
  reads ++ writes.filter (fun key => key ∉ reads)

/-
  The verdict at a snapshot, when the keys read and the keys
  written are looked at in the given orders.
-/
def judge
    (c : ConflictCache)
    (snapshot : Address)
    (reads : List ConflictKey)
    (writes : List ConflictKey) : Verdict :=
  if snapshot < c.bound then
    .abort (.predates snapshot c.bound)
  else
    match (examined reads writes).findSome? (c.offence? snapshot) with
    | some reason => .abort reason
    | none => .commit

/- The verdict on a transaction. -/
def verdict
    (c : ConflictCache)
    (t : Transaction) : Verdict :=
  c.judge t.snapshot t.reads.toList t.writes.toList

/- Judge a transaction and count the verdict. -/
def rule
    (c : ConflictCache)
    (t : Transaction) : Verdict × ConflictCache :=
  let verdict := c.verdict t
  (verdict, { c with stats := c.stats.recordVerdict verdict })

end ConflictCache

end OrderedLog
