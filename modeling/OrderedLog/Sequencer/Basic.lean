import OrderedLog.ConflictCache.Verdict

/-
  This file defines the sequencer, the single point of total
  order of the log. It hands out addresses without gaps,
  tracks the last address of every stream and decides which
  transactions commit.

  Key definitions include:
    * `Token`
    * `Outcome`
    * `Tails`
    * `Sequencer`
    * `Sequencer.new?`
    * `Sequencer.tail?`
    * `Sequencer.issue`
    * `Sequencer.written`
    * `Sequencer.commit`
    * `Sequencer.tailsOf`
    * `Sequencer.trim`
    * `Sequencer.restart`
    * `Sequencer.handover`
-/

namespace OrderedLog

------------------------------------------------------------
-- Tokens, outcomes and tails
------------------------------------------------------------

/- A range of consecutive addresses that was handed out. -/
structure Token where
  start : Address
  count : Nat
deriving DecidableEq

namespace Token

/- The last address of the range. -/
def last (t : Token) : Address :=
  Address.ofNat (t.start.val + t.count - 1)

/- How a token is written out field by field. -/
def inspect (t : Token) : String :=
  "Token \x7b start: " ++ t.start.inspect
    ++ ", count: " ++ toString t.count ++ " \x7d"

end Token

/- What became of a transaction. -/
inductive Outcome where
  | committed
      (address : Address)
  | aborted
      (reason : AbortReason)
deriving DecidableEq

/- The last addresses of the whole log and of some streams. -/
structure Tails where
  global : Option Address
  streams : SortedMap StreamId Address
deriving DecidableEq

------------------------------------------------------------
-- The sequencer
------------------------------------------------------------

/- The next address to hand out is `next`. -/
structure Sequencer where
  cache : ConflictCache
  next : Address
  tails : SortedMap StreamId Address
deriving DecidableEq

namespace Sequencer

/- The number of keys a cache has room for unless told otherwise. -/
def defaultCapacity : Nat :=
  250000

/- A sequencer for a fresh log. -/
def new
    (capacity : Nat)
    (capacity_pos : 0 < capacity) : Sequencer where
  cache := ConflictCache.new capacity capacity_pos Address.zero
  next := Address.zero
  tails := ∅

/- A sequencer for a fresh log, unless its cache has no room. -/
def new? (capacity : Nat) : Except Refusal Sequencer :=
  if h : 0 < capacity then
    .ok (new capacity h)
  else
    .error .noCapacity

/- The last address handed out, if there is one. -/
def tail? (s : Sequencer) : Option Address :=
  s.next.pred?

/- Raise the tails of some streams to an address. -/
def raise
    (tails : SortedMap StreamId Address)
    (streams : List StreamId)
    (address : Address) : SortedMap StreamId Address :=
  streams.foldl
    (fun tails stream => tails.insertWith Address.max stream address)
    tails

------------------------------------------------------------
-- Handing out addresses
------------------------------------------------------------

/- Hand out `count` consecutive addresses to some streams. -/
def issue
    (s : Sequencer)
    (streams : List StreamId)
    (count : Nat) : Except Refusal (Token × Sequencer) :=
  if count = 0 then
    .error (.emptyToken count)
  else
    match s.next.add? count with
    | none => .error (.exhausted s.next)
    | some next =>
      let token : Token := ⟨s.next, count⟩
      .ok (token,
        { s with
          next := next
          tails := raise s.tails streams token.last })

/-
  The streams a committed transaction is appended to: those
  of the keys it writes and those listed beside.
-/
def written
    (t : Transaction)
    (streams : List StreamId) : SortedSet StreamId :=
  SortedSet.ofList (t.writes.toList.map ConflictKey.stream ++ streams)

/-
  Judge a transaction and, if it may commit, hand out its
  address and record its writes. A refusal and an abort leave
  nothing behind but the count of the verdict.
-/
def commit
    (s : Sequencer)
    (t : Transaction)
    (streams : List StreamId) :
    Except Refusal Outcome × Sequencer :=
  let ruled := s.cache.rule t
  let judged := { s with cache := ruled.2 }
  match ruled.1 with
  | .abort reason => (.ok (.aborted reason), judged)
  | .commit =>
    match s.next.next? with
    | none => (.error (.exhausted s.next), judged)
    | some next =>
      match judged.cache.record t.writes s.next with
      | .error refusal => (.error refusal, judged)
      | .ok cache =>
        (.ok (.committed s.next),
          { cache := cache
            next := next
            tails := raise s.tails (written t streams).toList s.next })

------------------------------------------------------------
-- Tails, trims and a new epoch
------------------------------------------------------------

/- The tails of the log and of those streams that have one. -/
def tailsOf
    (s : Sequencer)
    (streams : List StreamId) : Tails where
  global := s.tail?
  streams :=
    streams.foldl
      (fun found stream =>
        match s.tails.get? stream with
        | some tail => found.insert stream tail
        | none => found)
      ∅

/-
  Forget the writes below a mark. The number is that of the
  forgotten keys.
-/
def trim
    (s : Sequencer)
    (mark : Address) : Nat × Sequencer :=
  let trimmed := s.cache.trimBelow mark
  (trimmed.2, { s with cache := trimmed.1 })

/-
  Start a new epoch from recovered tails. Nothing is known of
  the writes before it, so the global tail becomes the bound
  of an empty cache.
-/
def restart
    (s : Sequencer)
    (tails : Tails) : Except Refusal Sequencer :=
  let start (bound next : Address) : Sequencer :=
    { cache :=
        ConflictCache.new s.cache.capacity s.cache.capacity_pos bound
      next := next
      tails := tails.streams }
  match tails.global with
  | none => .ok (start Address.zero Address.zero)
  | some tail =>
    match tail.next? with
    | none => .error (.exhausted tail)
    | some next => .ok (start tail next)

/-
  A new sequencer of the same capacity that starts from what
  this one reports about itself and some streams.
-/
def handover
    (s : Sequencer)
    (streams : List StreamId) : Except Refusal Sequencer :=
  (new s.cache.capacity s.cache.capacity_pos).restart (s.tailsOf streams)

/- How a sequencer is written out field by field. -/
def inspect (s : Sequencer) : String :=
  "Sequencer \x7b next_address: " ++ s.next.inspect
    ++ ", streams: " ++ toString s.tails.size
    ++ ", cache: " ++ s.cache.inspect ++ ", .. \x7d"

end Sequencer

end OrderedLog
