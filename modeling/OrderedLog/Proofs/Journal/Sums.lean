import Mathlib.Algebra.Ring.Int.Defs
import Mathlib.Tactic.Common
import OrderedLog.Journal.Basic
import OrderedLog.Proofs.Sequencer.Steps
import OrderedLog.SortedMap.Lemmas

/-
  This file proves what replays of the log add up to: the sum
  over the entries of a stream at the addresses of a range.
  Ranges that follow each other add up, and what was written
  later changes no sum over addresses handed out before.

  Key definitions include:
    * `Journal.sumOver`
    * `Journal.sumUpTo`
    * `Journal.Settled`
    * `Journal.Grows`

  Key lemmas include:
    * `Journal.deltas_filter`
    * `Journal.replay_eq_sumOver`
    * `Journal.sumUpTo_add_sumOver`
    * `Journal.grows_append`
    * `Journal.grows_commit`
-/

namespace OrderedLog

namespace Journal

------------------------------------------------------------
-- Sums over entries
------------------------------------------------------------

/- The sum over a stream's entries at addresses that pass a test. -/
def sumEntries
    (stream : StreamId)
    (p : Address → Bool)
    (entries : List (Address × Entry)) : Int :=
  ((entries.filter (fun e => p e.1 ∧ stream ∈ e.2.streams)).map
    (fun e => e.2.delta)).sum

/- The sum over all of a stream's entries that pass a test. -/
def sumOver
    (j : Journal)
    (stream : StreamId)
    (p : Address → Bool) : Int :=
  sumEntries stream p j.entries.entries

/- The value of a stream's counter at an address. -/
def sumUpTo
    (j : Journal)
    (stream : StreamId)
    (upper : Address) : Int :=
  j.sumOver stream (fun address => address ≤ upper)

/- What an entry adds to the sum over it and those after it. -/
theorem sumEntries_cons
    (stream : StreamId)
    (p : Address → Bool)
    (e : Address × Entry)
    (entries : List (Address × Entry)) :
    sumEntries stream p (e :: entries) =
      (if p e.1 ∧ stream ∈ e.2.streams then e.2.delta else 0) +
        sumEntries stream p entries := by
  unfold sumEntries
  rw [List.filter_cons]
  by_cases hCounts : p e.1 ∧ stream ∈ e.2.streams
  · simp [hCounts]
  · simp [hCounts]

/- Sums over separate addresses add up. -/
theorem sumEntries_add
    (stream : StreamId)
    {p q r : Address → Bool}
    (hApart : ∀ address, p address = true → q address = false)
    (hEither : ∀ address, r address = (p address || q address))
    (entries : List (Address × Entry)) :
    sumEntries stream p entries + sumEntries stream q entries =
      sumEntries stream r entries := by
  induction entries with
  | nil => rfl
  | cons e entries ih =>
    rw [sumEntries_cons, sumEntries_cons, sumEntries_cons, ← ih,
      hEither e.1]
    by_cases hStream : stream ∈ e.2.streams
    · cases hP : p e.1 with
      | true =>
        have hQ := hApart e.1 hP
        simp only [hStream, hQ, Bool.true_or, Bool.false_eq_true,
          and_true, and_self, if_true, if_false]
        omega
      | false =>
        simp only [hStream, Bool.false_or, Bool.false_eq_true, and_true,
          if_false]
        omega
    · simp only [hStream, and_false, if_false]
      omega

/- An insertion changes no sum that leaves its address out. -/
theorem sumEntries_insertEntry
    (stream : StreamId)
    {p : Address → Bool}
    {address : Address}
    (hOut : p address = false)
    (entry : Entry)
    (entries : List (Address × Entry)) :
    sumEntries stream p
        (SortedMap.insertEntry address entry entries) =
      sumEntries stream p entries := by
  induction entries with
  | nil =>
    rw [SortedMap.insertEntry, sumEntries_cons]
    simp [hOut]
  | cons e entries ih =>
    rcases e with ⟨a, old⟩
    rw [SortedMap.insertEntry]
    split
    · rw [sumEntries_cons, sumEntries_cons, ih]
    · split
      · rw [sumEntries_cons]
        simp [hOut]
      · next hNotLt hNotGt =>
        have hSame : a = address := KeyOrder.connected hNotLt hNotGt
        rw [sumEntries_cons, sumEntries_cons, hSame]
        simp [hOut]

/- An entry at a new address adds to the sums that have it. -/
theorem sumEntries_insertEntry_of_new
    {stream : StreamId}
    {p : Address → Bool}
    {address : Address}
    (hIn : p address = true)
    {entry : Entry}
    (hStream : stream ∈ entry.streams)
    {entries : List (Address × Entry)}
    (hNew : ∀ e ∈ entries, e.1 ≠ address) :
    sumEntries stream p
        (SortedMap.insertEntry address entry entries) =
      sumEntries stream p entries + entry.delta := by
  induction entries with
  | nil =>
    rw [SortedMap.insertEntry, sumEntries_cons]
    simp [hIn, hStream, sumEntries]
  | cons e entries ih =>
    rcases e with ⟨a, old⟩
    have hRest := ih (fun e hMem => hNew e (List.mem_cons_of_mem _ hMem))
    rw [SortedMap.insertEntry]
    split
    · rw [sumEntries_cons, sumEntries_cons, hRest, Int.add_assoc]
    · split
      · rw [sumEntries_cons]
        simp [hIn, hStream, Int.add_comm]
      · next hNotLt hNotGt =>
        have hSame : a = address := KeyOrder.connected hNotLt hNotGt
        exact absurd hSame (hNew (a, old) List.mem_cons_self)

------------------------------------------------------------
-- Replays
------------------------------------------------------------

/- The addresses after a lower bound and up to an upper one. -/
def between
    (lower : Option Address)
    (upper : Address)
    (address : Address) : Bool :=
  match lower with
  | none => address ≤ upper
  | some lower => lower < address ∧ address ≤ upper

/- A range has the addresses between its bounds. -/
theorem holds_of_after?
    {lower : Option Address}
    {upper : Address}
    {range : AddressRange}
    (hRange : AddressRange.after? lower upper = some range)
    (address : Address) :
    range.holds address = between lower upper address := by
  unfold AddressRange.after? at hRange
  cases lower with
  | none =>
    cases hRange
    unfold AddressRange.holds between
    simp [Address.le_iff_val_le]
  | some lower =>
    simp only at hRange
    split at hRange
    · cases hRange
    · next start hStart =>
      split at hRange
      · cases hRange
        have hVal := Address.next?_eq_some_iff.mp hStart
        unfold AddressRange.holds between
        simp only [Address.le_iff_val_le, Address.lt_iff_val_lt, hVal,
          Nat.succ_le_iff]
      · cases hRange

/- Bounds without a range have no addresses between them. -/
theorem between_eq_false
    {lower : Option Address}
    {upper : Address}
    (hRange : AddressRange.after? lower upper = none)
    (address : Address) : between lower upper address = false := by
  unfold AddressRange.after? at hRange
  cases lower with
  | none => cases hRange
  | some lower =>
    simp only [between, decide_eq_false_iff_not, not_and,
      Address.le_iff_val_le, Address.lt_iff_val_lt]
    intro hAbove
    simp only at hRange
    split at hRange
    · next hLast =>
      -- nothing lies above the last address
      rw [Address.next?_eq_none_iff] at hLast
      exact absurd hLast (Address.ne_last_of_lt hAbove)
    · next start hStart =>
      have hVal := Address.next?_eq_some_iff.mp hStart
      split at hRange
      · cases hRange
      · next hNot =>
        rw [Address.le_iff_val_le] at hNot
        omega

theorem total_eq_sum (added : List Int) : total added = added.sum := by
  induction added with
  | nil => rfl
  | cons delta added ih => rw [total, ih, List.sum_cons]

/-
  The numbers of a stream at addresses that pass a test are
  those of its entries there.
-/
theorem deltas_filter
    (stream : StreamId)
    (p : Address → Bool)
    (entries : List (Address × Entry)) :
    deltas stream ((entries.filter (fun e => p e.1)).map Prod.snd) =
      (entries.filter (fun e => p e.1 ∧ stream ∈ e.2.streams)).map
        (fun e => e.2.delta) := by
  unfold deltas
  rw [List.filter_map, List.filter_filter, List.map_map]
  simp [Function.comp_def, Bool.and_comm]

/- The replayed numbers of a stream add up to the sum over it. -/
theorem total_deltas
    (stream : StreamId)
    (p : Address → Bool)
    (entries : List (Address × Entry)) :
    total (deltas stream
        ((entries.filter (fun e => p e.1)).map Prod.snd)) =
      sumEntries stream p entries := by
  rw [total_eq_sum, deltas_filter]
  rfl

/- A replay yields the sum over the addresses between its bounds. -/
theorem replay_eq_sumOver
    (j : Journal)
    (stream : StreamId)
    (lower : Option Address)
    (upper : Address) :
    (j.replay stream lower upper).1 =
      j.sumOver stream (between lower upper) := by
  unfold replay sumOver
  split
  · next hRange =>
    have hNone : between lower upper = fun _ => false :=
      funext (between_eq_false hRange)
    rw [hNone]
    unfold sumEntries
    rw [List.filter_eq_nil_iff.mpr (by simp)]
    rfl
  · next range hRange =>
    have hHolds : range.holds = between lower upper :=
      funext (holds_of_after? hRange)
    unfold inRange SortedMap.values
    simp only
    rw [SortedMap.entries_filterKeys, total_deltas, hHolds]

/- The sum after an address adds to the sum up to it. -/
theorem sumUpTo_add_sumOver
    (j : Journal)
    (stream : StreamId)
    {lower upper : Address}
    (h : lower ≤ upper) :
    j.sumUpTo stream lower
        + j.sumOver stream (between (some lower) upper) =
      j.sumUpTo stream upper := by
  unfold sumUpTo sumOver
  apply sumEntries_add
  · intro address hBelow
    simp only [decide_eq_true_eq, Address.le_iff_val_le] at hBelow
    simp only [between, Address.lt_iff_val_lt, decide_eq_false_iff_not,
      not_and]
    omega
  · intro address
    rw [Address.le_iff_val_le] at h
    rw [Bool.eq_iff_iff]
    simp only [between, Address.le_iff_val_le, Address.lt_iff_val_lt,
      Bool.or_eq_true, decide_eq_true_eq]
    omega

------------------------------------------------------------
-- Growth
------------------------------------------------------------

/- An address was handed out already. -/
def Settled
    (j : Journal)
    (address : Address) : Prop :=
  address < j.sequencer.next

/-
  A later state of a log. What was handed out stays so, and
  the sums up to there are the same.
-/
structure Grows (j k : Journal) : Prop where
  settled : ∀ address, j.Settled address → k.Settled address
  sums :
    ∀ stream address, j.Settled address →
      k.sumUpTo stream address = j.sumUpTo stream address

theorem grows_refl (j : Journal) : Grows j j :=
  ⟨fun _ h => h, fun _ _ _ => rfl⟩

theorem Grows.trans
    {j k l : Journal}
    (h : Grows j k)
    (h' : Grows k l) : Grows j l where
  settled := fun address hSettled =>
    h'.settled address (h.settled address hSettled)
  sums := fun stream address hSettled =>
    (h'.sums stream address (h.settled address hSettled)).trans
      (h.sums stream address hSettled)

/- A log grows by an entry at the next address. -/
theorem grows_insert
    {j : Journal}
    {sequencer : Sequencer}
    (hNext : j.sequencer.next ≤ sequencer.next)
    (entry : Entry) :
    Grows j
      { j with
        sequencer
        entries := j.entries.insert j.sequencer.next entry } := by
  constructor
  · intro address hSettled
    exact Nat.lt_of_lt_of_le hSettled hNext
  · intro stream address hSettled
    unfold sumUpTo sumOver
    simp only
    rw [SortedMap.entries_insert]
    apply sumEntries_insertEntry
    simp only [decide_eq_false_iff_not]
    exact Address.not_le.mpr hSettled

/- A log without a new entry grows with its sequencer. -/
theorem grows_sequencer
    {j : Journal}
    {sequencer : Sequencer}
    (hNext : j.sequencer.next ≤ sequencer.next) :
    Grows j { j with sequencer } := by
  constructor
  · intro address hSettled
    exact Nat.lt_of_lt_of_le hSettled hNext
  · intro stream address _
    rfl

theorem grows_append
    {j k : Journal}
    {stream : StreamId}
    {delta : Int}
    {address : Address}
    (h : j.append stream delta = .ok (address, k)) : Grows j k := by
  unfold append at h
  split at h
  · cases h
  · next token sequencer hIssue =>
    cases h
    rcases Sequencer.issue_cases hIssue with ⟨hStart, _, hNext⟩
    rw [hStart]
    exact grows_insert hNext _

theorem grows_commit
    (j : Journal)
    (t : Transaction)
    (delta : Int) : Grows j (j.commit t delta).2 := by
  unfold commit
  rcases hCommit : j.sequencer.commit t [] with ⟨result, sequencer⟩
  simp only
  split
  · next address =>
    rcases Sequencer.commit_cases hCommit with ⟨rfl, hNext, _⟩
    apply grows_insert
    rw [Address.le_iff_val_le, hNext]
    exact Nat.le_succ _
  · next hNot =>
    apply grows_sequencer
    rw [Sequencer.commit_of_not_committed hCommit hNot]
    exact Address.le_refl _

/- A replay does not write. -/
theorem grows_replay
    (j : Journal)
    (stream : StreamId)
    (lower : Option Address)
    (upper : Address) :
    Grows j (j.replay stream lower upper).2 := by
  unfold replay
  split
  · exact grows_refl j
  · exact ⟨fun _ h => h, fun _ _ _ => rfl⟩

end Journal

end OrderedLog
