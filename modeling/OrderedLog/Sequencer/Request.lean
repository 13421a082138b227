import OrderedLog.Sequencer.Basic

/-
  This file defines what a sequencer is asked to do, as data,
  and how it serves a sequence of such requests.

  Key definitions include:
    * `Sequencer.Request`
    * `Sequencer.Reply`
    * `Sequencer.serve`
    * `Sequencer.run`
-/

namespace OrderedLog

namespace Sequencer

/- What a sequencer may be asked to do. -/
inductive Request where
  /- Hand out consecutive addresses to some streams. -/
  | token
      (streams : List StreamId)
      (count : Nat)
  /- Judge a transaction and commit it if it may. -/
  | commit
      (transaction : Transaction)
      (streams : List StreamId)
  /- Report the tails of the log and of some streams. -/
  | tails
      (streams : List StreamId)
  /- Forget the writes below a mark. -/
  | trim
      (mark : Address)
  /- Start a new epoch from recovered tails. -/
  | restart
      (tails : Tails)
  /- Give way to a new sequencer that knows some streams. -/
  | handover
      (streams : List StreamId)
deriving DecidableEq

/- What a sequencer answers. -/
inductive Reply where
  | token
      (token : Token)
  | outcome
      (outcome : Outcome)
  | tails
      (tails : Tails)
  | evicted
      (keys : Nat)
  | started
  | refused
      (refusal : Refusal)
deriving DecidableEq

/- Serve one request. -/
def serve
    (s : Sequencer) : Request → Reply × Sequencer
  | .token streams count =>
    match s.issue streams count with
    | .ok (token, next) => (.token token, next)
    | .error refusal => (.refused refusal, s)
  | .commit transaction streams =>
    match s.commit transaction streams with
    | (.ok outcome, next) => (.outcome outcome, next)
    | (.error refusal, next) => (.refused refusal, next)
  | .tails streams =>
    (.tails (s.tailsOf streams), s)
  | .trim mark =>
    let trimmed := s.trim mark
    (.evicted trimmed.1, trimmed.2)
  | .restart tails =>
    match s.restart tails with
    | .ok next => (.started, next)
    | .error refusal => (.refused refusal, s)
  | .handover streams =>
    match s.handover streams with
    | .ok next => (.started, next)
    | .error refusal => (.refused refusal, s)

/- Serve requests in turn. The replies are in the same order. -/
def run
    (s : Sequencer) : List Request → List Reply × Sequencer
  | [] => ([], s)
  | request :: requests =>
    let served := s.serve request
    let others := run served.2 requests
    (served.1 :: others.1, others.2)

end Sequencer

end OrderedLog
