import OrderedLog.Proofs.Journal.Sums

/-
  This file proves what a replay counts: each entry of its
  stream between its bounds, once, and nothing else. So replays
  that follow each other are one replay, in what they add up to
  and in what they count.

  For this a replay is carried out step by step, with a lookup
  that has no answer for a range that starts after its end, and
  with the entries it finds counted one by one. It always ends,
  and with the same result.

  At the address where one replay ends and the next one starts,
  the entries of both are those of the whole replay, in one list
  after the other. Sums and numbers of entries follow from that.

  Key definitions include:
    * `AddressRange.Inverted`
    * `Journal.inRange?`
    * `Journal.countEntry`
    * `Journal.replayInSteps?`
    * `Journal.entriesBetween`
    * `Journal.ReplaysExactly`

  Key lemmas include:
    * `AddressRange.not_inverted_of_after?`
    * `Journal.foldl_countEntry`
    * `Journal.replayInSteps?_eq`
    * `Journal.deltas_inRange`
    * `Journal.replay_eq`
    * `Journal.replay_of_le`
    * `Journal.entriesBetween_append`
    * `Journal.replay_replay`

  Key theorems include:
    * `Journal.replays_exactly`
-/

namespace OrderedLog

------------------------------------------------------------
-- Inverted ranges
------------------------------------------------------------

/- A range starts after its end. -/
def AddressRange.Inverted (r : AddressRange) : Prop :=
  r.stop < r.start

instance (r : AddressRange) : Decidable r.Inverted :=
  inferInstanceAs (Decidable (r.stop < r.start))

/- The range after a lower bound is not inverted, if there is one. -/
theorem AddressRange.not_inverted_of_after?
    {lower : Option Address}
    {upper : Address}
    {range : AddressRange}
    (h : after? lower upper = some range) : ¬ range.Inverted := by
  unfold Inverted
  rw [Address.not_lt]
  unfold after? at h
  cases lower with
  | none =>
    cases h
    exact upper.zero_le
  | some lower =>
    simp only at h
    split at h
    · cases h
    · next start _ =>
      split at h
      · next hLe =>
        cases h
        exact hLe
      · cases h

namespace Journal

------------------------------------------------------------
-- Replays step by step
------------------------------------------------------------

/- The entries of a range. There is no answer for an inverted one. -/
def inRange?
    (j : Journal)
    (range : AddressRange) : Option (List Entry) :=
  if range.Inverted then none else some (j.inRange range)

/- Add and count an entry, if it is one of the stream. -/
def countEntry
    (stream : StreamId)
    (counted : Int × Journal)
    (entry : Entry) : Int × Journal :=
  if entry.streams.contains stream then
    (counted.1 + entry.delta,
      { counted.2 with replayed := counted.2.replayed + 1 })
  else
    counted

/-
  A replay that looks its entries up and then counts them one by
  one. It fails if the lookup has no answer.
-/
def replayInSteps?
    (j : Journal)
    (stream : StreamId)
    (lower : Option Address)
    (upper : Address) : Option (Int × Journal) :=
  match AddressRange.after? lower upper with
  | none => some (0, j)
  | some range =>
    (j.inRange? range).map
      (fun entries => entries.foldl (countEntry stream) (0, j))

theorem deltas_cons
    (stream : StreamId)
    (entry : Entry)
    (entries : List Entry) :
    deltas stream (entry :: entries) =
      if entry.streams.contains stream then
        entry.delta :: deltas stream entries
      else
        deltas stream entries := by
  unfold deltas
  rw [List.filter_cons]
  split
  · rw [List.map_cons]
  · rfl

/- Counting entries one by one adds up. -/
theorem foldl_countEntry
    (stream : StreamId)
    (entries : List Entry)
    (sum : Int)
    (j : Journal) :
    entries.foldl (countEntry stream) (sum, j) =
      (sum + total (deltas stream entries),
        { j with
          replayed := j.replayed + (deltas stream entries).length }) := by
  induction entries generalizing sum j with
  | nil => exact Prod.ext (Int.add_zero sum).symm rfl
  | cons entry entries ih =>
    rw [List.foldl_cons, countEntry, deltas_cons]
    split
    · rw [ih]
      simp only [total, List.length_cons, Int.add_assoc, Nat.add_assoc,
        Nat.add_comm 1]
    · exact ih sum j

/- No lookup is left without an answer. -/
theorem replayInSteps?_eq
    (j : Journal)
    (stream : StreamId)
    (lower : Option Address)
    (upper : Address) :
    j.replayInSteps? stream lower upper =
      some (j.replay stream lower upper) := by
  unfold replayInSteps? replay
  cases hRange : AddressRange.after? lower upper with
  | none => rfl
  | some range =>
    simp only [inRange?]
    rw [if_neg (AddressRange.not_inverted_of_after? hRange),
      Option.map_some, foldl_countEntry, Int.zero_add]

------------------------------------------------------------
-- What is replayed
------------------------------------------------------------

/- The entries of a stream between two bounds, in their order. -/
def entriesBetween
    (j : Journal)
    (stream : StreamId)
    (lower : Option Address)
    (upper : Address) : List (Address × Entry) :=
  j.entries.entries.filter
    (fun e => between lower upper e.1 ∧ stream ∈ e.2.streams)

theorem entriesBetween_sorted
    (j : Journal)
    (stream : StreamId)
    (lower : Option Address)
    (upper : Address) :
    (j.entriesBetween stream lower upper).Pairwise
      (fun a b => a.1 < b.1) :=
  j.entries.entries_sorted.filter _

theorem mem_entriesBetween_iff
    {j : Journal}
    {stream : StreamId}
    {lower : Option Address}
    {upper : Address}
    {e : Address × Entry} :
    e ∈ j.entriesBetween stream lower upper ↔
      j.entries.get? e.1 = some e.2 ∧ stream ∈ e.2.streams ∧
        (∀ bound ∈ lower, bound < e.1) ∧ e.1 ≤ upper := by
  unfold entriesBetween between
  rw [List.mem_filter, SortedMap.get?_eq_some_iff]
  cases lower with
  | none => simp [and_comm]
  | some bound => simp [and_comm, and_assoc]

/- What a range adds are the numbers of the entries between. -/
theorem deltas_inRange
    (j : Journal)
    (stream : StreamId)
    {lower : Option Address}
    {upper : Address}
    {range : AddressRange}
    (hRange : AddressRange.after? lower upper = some range) :
    deltas stream (j.inRange range) =
      (j.entriesBetween stream lower upper).map (fun e => e.2.delta) := by
  have hHolds : range.holds = between lower upper :=
    funext (holds_of_after? hRange)
  unfold inRange SortedMap.values
  rw [SortedMap.entries_filterKeys, hHolds]
  exact deltas_filter stream (between lower upper) j.entries.entries

/- Without a range there is no entry between the bounds. -/
theorem entriesBetween_eq_nil
    (j : Journal)
    (stream : StreamId)
    {lower : Option Address}
    {upper : Address}
    (hRange : AddressRange.after? lower upper = none) :
    j.entriesBetween stream lower upper = [] := by
  unfold entriesBetween
  rw [List.filter_eq_nil_iff]
  intro e _
  rw [between_eq_false hRange]
  simp

/-
  A replay adds up the entries between its bounds and counts
  them, and leaves the log alone but for that count.
-/
theorem replay_eq
    (j : Journal)
    (stream : StreamId)
    (lower : Option Address)
    (upper : Address) :
    j.replay stream lower upper =
      (((j.entriesBetween stream lower upper).map
          (fun e => e.2.delta)).sum,
        { j with
          replayed :=
            j.replayed + (j.entriesBetween stream lower upper).length }) := by
  apply Prod.ext
  · exact j.replay_eq_sumOver stream lower upper
  · unfold replay
    split
    · next hRange =>
      rw [j.entriesBetween_eq_nil stream hRange]
      rfl
    · next range hRange =>
      simp only [j.deltas_inRange stream hRange, List.length_map]

------------------------------------------------------------
-- Replays after one another
------------------------------------------------------------

section Seam

variable {lower : Option Address}
variable {middle upper : Address}

/- Nothing is between bounds that are equal or in the wrong order. -/
theorem replay_of_le
    (j : Journal)
    (stream : StreamId)
    {bound : Address}
    (hBound : bound ∈ lower)
    (hLe : upper ≤ bound) : j.replay stream lower upper = (0, j) := by
  have hNone : j.entriesBetween stream lower upper = [] := by
    rw [List.eq_nil_iff_forall_not_mem]
    intro e hEntry
    rcases mem_entriesBetween_iff.mp hEntry with ⟨_, _, hAbove, hUpper⟩
    exact Address.not_lt.mpr (Address.le_trans hUpper hLe)
      (hAbove bound hBound)
  rw [replay_eq, hNone]
  rfl

/-
  The entries up to an address between the bounds and those
  after it are all entries between the bounds.
-/
theorem entriesBetween_append
    (j : Journal)
    (stream : StreamId)
    (hLower : ∀ bound ∈ lower, bound ≤ middle)
    (hUpper : middle ≤ upper) :
    j.entriesBetween stream lower middle
        ++ j.entriesBetween stream (some middle) upper =
      j.entriesBetween stream lower upper := by
  apply SortedMap.eq_of_sorted _ (j.entriesBetween_sorted stream lower upper)
  · intro e
    rw [List.mem_append, mem_entriesBetween_iff, mem_entriesBetween_iff,
      mem_entriesBetween_iff]
    constructor
    · rintro (⟨hEntry, hStream, hAbove, hLe⟩ |
        ⟨hEntry, hStream, hAbove, hLe⟩)
      · exact ⟨hEntry, hStream, hAbove, Address.le_trans hLe hUpper⟩
      · refine ⟨hEntry, hStream, ?_, hLe⟩
        intro bound hBound
        exact Address.lt_of_le_of_lt (hLower bound hBound)
          (hAbove middle rfl)
    · rintro ⟨hEntry, hStream, hAbove, hLe⟩
      by_cases hMiddle : e.1 ≤ middle
      · exact Or.inl ⟨hEntry, hStream, hAbove, hMiddle⟩
      · right
        refine ⟨hEntry, hStream, ?_, hLe⟩
        intro bound hBound
        cases hBound
        exact Address.not_le.mp hMiddle
  · rw [List.pairwise_append]
    refine ⟨j.entriesBetween_sorted stream lower middle,
      j.entriesBetween_sorted stream (some middle) upper, ?_⟩
    intro front hFront back hBack
    have hLe := (mem_entriesBetween_iff.mp hFront).2.2.2
    have hLt := (mem_entriesBetween_iff.mp hBack).2.2.1 middle rfl
    exact Address.lt_of_le_of_lt hLe hLt

/-
  A replay up to an address and then one from there on yield and
  leave together what a single replay does.
-/
theorem replay_replay
    (j : Journal)
    (stream : StreamId)
    (hLower : ∀ bound ∈ lower, bound ≤ middle)
    (hUpper : middle ≤ upper) :
    let front := j.replay stream lower middle
    let back := front.2.replay stream (some middle) upper
    (front.1 + back.1, back.2) = j.replay stream lower upper := by
  simp only [replay_eq, ← j.entriesBetween_append stream hLower hUpper,
    List.map_append, List.sum_append, List.length_append, Nat.add_assoc]
  rfl

end Seam

------------------------------------------------------------
-- All replays
------------------------------------------------------------

/-
  What a replay of a stream after a lower bound, or from the
  start, and up to an upper bound yields and leaves.
-/
structure ReplaysExactly
    (j : Journal)
    (stream : StreamId)
    (lower : Option Address)
    (upper : Address) : Prop where
  /- No inverted range is looked up, as that would have no answer. -/
  answered :
    j.replayInSteps? stream lower upper =
      some (j.replay stream lower upper)
  /- Some entries are added up and counted, and nothing else changes. -/
  counted :
    j.replay stream lower upper =
      (((j.entriesBetween stream lower upper).map
          (fun e => e.2.delta)).sum,
        { j with
          replayed :=
            j.replayed + (j.entriesBetween stream lower upper).length })
  /- These are the entries of the stream between the bounds. -/
  entries :
    ∀ address entry,
      (address, entry) ∈ j.entriesBetween stream lower upper ↔
        j.entries.get? address = some entry ∧ stream ∈ entry.streams ∧
          (∀ bound ∈ lower, bound < address) ∧ address ≤ upper
  /- Each of them is there once, in the order of the log. -/
  sorted :
    (j.entriesBetween stream lower upper).Pairwise
      (fun a b => a.1 < b.1)
  /- There are none between bounds in the wrong order. -/
  nothing :
    ∀ bound ∈ lower, upper ≤ bound →
      j.replay stream lower upper = (0, j)
  /- A replay may be interrupted at any address between the bounds. -/
  seam :
    ∀ middle, (∀ bound ∈ lower, bound ≤ middle) → middle ≤ upper →
      let front := j.replay stream lower middle
      let back := front.2.replay stream (some middle) upper
      (front.1 + back.1, back.2) = j.replay stream lower upper

/-
  Replays of any log are exact and additive, between any bounds
  and for any stream.
-/
theorem replays_exactly
    (j : Journal)
    (stream : StreamId)
    (lower : Option Address)
    (upper : Address) : j.ReplaysExactly stream lower upper where
  answered := j.replayInSteps?_eq stream lower upper
  counted := j.replay_eq stream lower upper
  entries := fun _ _ => mem_entriesBetween_iff
  sorted := j.entriesBetween_sorted stream lower upper
  nothing := fun _ hBound hLe => j.replay_of_le stream hBound hLe
  seam := fun _ hLower hUpper => j.replay_replay stream hLower hUpper

/-
  Four entries, three of them of the first stream. Between bounds
  in the wrong order there is nothing to replay, though a lookup
  of the addresses from one to the other would have no answer.
-/
example :
    let log : Journal :=
      { sequencer := Sequencer.new 1 (by decide)
        entries := SortedMap.ofEntries
          [ (Address.ofNat 0, ⟨[StreamId.ofNat 1], 1⟩),
            (Address.ofNat 1, ⟨[StreamId.ofNat 2], 10⟩),
            (Address.ofNat 2, ⟨[StreamId.ofNat 1, StreamId.ofNat 2], 2⟩),
            (Address.ofNat 3, ⟨[StreamId.ofNat 1], 4⟩) ]
        replayed := 5 }
    let replay := fun lower upper =>
      log.replay (StreamId.ofNat 1) lower upper
    replay none (Address.ofNat 3) = (7, { log with replayed := 8 }) ∧
      replay (some (Address.ofNat 0)) (Address.ofNat 2) =
        (2, { log with replayed := 6 }) ∧
      replay (some (Address.ofNat 3)) (Address.ofNat 1) = (0, log) ∧
      replay (some Address.last) Address.last = (0, log) ∧
      log.inRange? ⟨Address.ofNat 4, Address.ofNat 1⟩ = none := by
  decide

end Journal

end OrderedLog
