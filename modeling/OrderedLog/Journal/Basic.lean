import OrderedLog.Sequencer.Basic

/-
  This file defines an in-memory log whose entries are put in
  order by a sequencer. Each entry belongs to some streams
  and adds a number to the counter of each of them.

  Key definitions include:
    * `Entry`
    * `Journal`
    * `Journal.append`
    * `Journal.writtenStreams`
    * `Journal.commit`
    * `Journal.tails`
    * `AddressRange`
    * `AddressRange.after?`
    * `Journal.inRange`
    * `Journal.replay`
-/

namespace OrderedLog

/- An entry of the log. -/
structure Entry where
  streams : List StreamId
  delta : Int
deriving DecidableEq

/- Consecutive addresses, both ends included. -/
structure AddressRange where
  start : Address
  stop : Address
deriving DecidableEq

namespace AddressRange

/- Whether an address lies between the ends. -/
def holds
    (r : AddressRange)
    (a : Address) : Bool :=
  r.start ≤ a ∧ a ≤ r.stop

/-
  The addresses after a lower bound, or from the first one
  on, and up to an upper bound, unless there are none.
-/
def after?
    (lower : Option Address)
    (upper : Address) : Option AddressRange :=
  match lower with
  | none => some ⟨Address.zero, upper⟩
  | some lower =>
    match lower.next? with
    | none => none
    | some start => if start ≤ upper then some ⟨start, upper⟩ else none

end AddressRange

/- A log, its sequencer, and how many entries were replayed so far. -/
structure Journal where
  sequencer : Sequencer
  entries : SortedMap Address Entry
  replayed : Nat
deriving DecidableEq

namespace Journal

/- An empty log, unless its sequencer's cache has no room. -/
def new? (capacity : Nat) : Except Refusal Journal :=
  match Sequencer.new? capacity with
  | .ok sequencer => .ok ⟨sequencer, ∅, 0⟩
  | .error refusal => .error refusal

------------------------------------------------------------
-- Writing
------------------------------------------------------------

/- Append an entry to a stream. -/
def append
    (j : Journal)
    (stream : StreamId)
    (delta : Int) : Except Refusal (Address × Journal) :=
  match j.sequencer.issue [stream] 1 with
  | .error refusal => .error refusal
  | .ok (token, sequencer) =>
    .ok (token.start,
      { j with
        sequencer := sequencer
        entries := j.entries.insert token.start ⟨[stream], delta⟩ })

/-
  The streams that a transaction writes, sorted and without
  repetitions.
-/
def writtenStreams (t : Transaction) : List StreamId :=
  let streams := t.writes.toList.map ConflictKey.stream
  (streams.mergeSort (fun a b => ¬ b < a)).eraseReps

/-
  Commit a transaction that adds to the counters of all the
  streams it writes.
-/
def commit
    (j : Journal)
    (t : Transaction)
    (delta : Int) : Except Refusal Outcome × Journal :=
  let (result, sequencer) := j.sequencer.commit t []
  let judged := { j with sequencer }
  match result with
  | .ok (.committed address) =>
    let entry : Entry := ⟨writtenStreams t, delta⟩
    (result,
      { judged with entries := j.entries.insert address entry })
  | _ => (result, judged)

------------------------------------------------------------
-- Reading
------------------------------------------------------------

/- The tails of those streams that have one. -/
def tails
    (j : Journal)
    (streams : List StreamId) : SortedMap StreamId Address :=
  (j.sequencer.tailsOf streams).streams

/- The entries at the addresses of a range, in their order. -/
def inRange
    (j : Journal)
    (r : AddressRange) : List Entry :=
  (j.entries.filterKeys r.holds).values

/- The numbers that a range of entries adds to a stream's counter. -/
def deltas
    (stream : StreamId)
    (entries : List Entry) : List Int :=
  (entries.filter (fun e => e.streams.contains stream)).map Entry.delta

/- The sum of some numbers. -/
def total : List Int → Int
  | [] => 0
  | delta :: deltas => delta + total deltas

/-
  Replay the entries of a stream after a lower bound, or from
  the start, up to an upper bound: their sum, and the log
  that has counted them.
-/
def replay
    (j : Journal)
    (stream : StreamId)
    (lower : Option Address)
    (upper : Address) : Int × Journal :=
  match AddressRange.after? lower upper with
  | none => (0, j)
  | some range =>
    let added := deltas stream (j.inRange range)
    (total added, { j with replayed := j.replayed + added.length })

------------------------------------------------------------
-- The sequencer of the log
------------------------------------------------------------

/- Forget the writes below a mark. The entries stay. -/
def trim
    (j : Journal)
    (mark : Address) : Nat × Journal :=
  let (count, sequencer) := j.sequencer.trim mark
  (count, { j with sequencer })

/- Start a new epoch of the sequencer. The entries stay. -/
def restart
    (j : Journal)
    (global : Option Address) : Except Refusal Journal :=
  match j.sequencer.restart ⟨global, ∅⟩ with
  | .ok sequencer => .ok { j with sequencer }
  | .error refusal => .error refusal

end Journal

end OrderedLog
