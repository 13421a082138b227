import OrderedLog.Proofs.Journal.Sums
import OrderedLog.Proofs.Journal.WrittenStreams
import OrderedLog.Proofs.Sequencer.Assignment
import OrderedLog.Proofs.Sequencer.StreamTails

/-
  This file proves that a log and its sequencer agree. There is
  an entry at every address that was handed out, and nowhere
  else, and the tail of a stream is the highest address of an
  entry that lists it.

  A request leaves both alone or takes the next address, puts
  an entry there and raises the tails of just the streams that
  the entry lists. As the next address is above all others, the
  tails are raised to it, and no entry is overwritten.

  Key definitions include:
    * `Journal.Request`
    * `Journal.run`
    * `Journal.Lists`
    * `Journal.Idle`
    * `Journal.Writes`
    * `Journal.InStep`
    * `Journal.Agrees`

  Key lemmas include:
    * `Journal.writes_commit`
    * `Journal.serve_cases`
    * `Journal.grows_serve`
    * `Journal.InStep.writes`
    * `Journal.InStep.run`
    * `Journal.InStep.get?_entries_run`
    * `Journal.InStep.enters`

  Key theorems include:
    * `Journal.run_agrees`
-/

namespace OrderedLog

namespace Journal

------------------------------------------------------------
-- Requests
------------------------------------------------------------

/- What a log may be asked to do but for replays. -/
inductive Request where
  | append
      (stream : StreamId)
      (delta : Int)
  | commit
      (transaction : Transaction)
      (delta : Int)
  | tails
      (streams : List StreamId)
deriving DecidableEq

/- The log after one request. -/
def serve
    (j : Journal) : Request → Journal
  | .append stream delta =>
    match j.append stream delta with
    | .ok (_, next) => next
    | .error _ => j
  | .commit t delta => (j.commit t delta).2
  | .tails _ => j

/- The log after some requests. -/
def run
    (j : Journal)
    (requests : List Request) : Journal :=
  requests.foldl serve j

------------------------------------------------------------
-- What a request does
------------------------------------------------------------

/- There is an entry of a stream at an address. -/
def Lists
    (j : Journal)
    (stream : StreamId)
    (address : Address) : Prop :=
  ∃ entry, j.entries.get? address = some entry ∧ stream ∈ entry.streams

/-
  The second log is the first one but for its sequencer's cache
  and for the count of replayed entries.
-/
structure Idle (j k : Journal) : Prop where
  next : k.sequencer.next = j.sequencer.next
  tails : k.sequencer.tails = j.sequencer.tails
  entries : k.entries = j.entries

/-
  The second log has one more entry, at the next address of the
  first one. The streams of the entry have their tails there.
-/
structure Writes
    (entry : Entry)
    (j k : Journal) : Prop where
  next : k.sequencer.next.val = j.sequencer.next.val + 1
  tails :
    ∀ stream,
      k.sequencer.tails.get? stream =
        if stream ∈ entry.streams then
          some ((j.sequencer.tails.get? stream).elim j.sequencer.next
            (fun tail => tail.max j.sequencer.next))
        else
          j.sequencer.tails.get? stream
  entries : k.entries = j.entries.insert j.sequencer.next entry

variable {j k : Journal}
variable {entry : Entry}

theorem writes_append
    {stream : StreamId}
    {delta : Int}
    {address : Address}
    (h : j.append stream delta = .ok (address, k)) :
    address = j.sequencer.next ∧ Writes ⟨[stream], delta⟩ j k := by
  unfold append at h
  split at h
  · exact absurd h nofun
  · next token sequencer hIssue =>
    have hEq := Except.ok.inj h
    obtain ⟨rfl, rfl⟩ := Prod.mk.inj hEq
    have hLast := (Sequencer.counted_issue hIssue).2
    rcases Sequencer.issue_eq hIssue with ⟨_, hToken, hNext, _, hTails⟩
    subst hToken
    -- a token for a single address ends where it starts
    have hSame : (⟨j.sequencer.next, 1⟩ : Token).last = j.sequencer.next :=
      Address.eq_of_val_eq (Nat.succ.inj hLast)
    refine ⟨rfl, hNext, ?_, rfl⟩
    intro other
    simp only [hTails, hSame, Sequencer.get?_raise]

theorem writes_commit
    {t : Transaction}
    {delta : Int}
    {address : Address}
    (h : (j.commit t delta).1 = .ok (.committed address)) :
    address = j.sequencer.next ∧
      Writes ⟨writtenStreams t, delta⟩ j (j.commit t delta).2 := by
  unfold commit at h ⊢
  rcases hCommit : j.sequencer.commit t [] with ⟨result, sequencer⟩
  rw [hCommit] at h
  simp only at h ⊢
  split at h
  · next other =>
    obtain rfl := Outcome.committed.inj (Except.ok.inj h)
    have hTails := Sequencer.tails_of_committed hCommit
    rcases Sequencer.commit_cases hCommit with ⟨rfl, hNext, _⟩
    refine ⟨rfl, hNext, ?_, rfl⟩
    intro stream
    simp only [hTails, Sequencer.get?_raise, writtenStreams_eq]
  · next hNot => exact absurd h (hNot address)

/- What does not commit leaves the log alone. -/
theorem idle_commit
    {t : Transaction}
    {delta : Int}
    (h : ∀ address, (j.commit t delta).1 ≠ .ok (.committed address)) :
    Idle j (j.commit t delta).2 := by
  unfold commit at h ⊢
  rcases hCommit : j.sequencer.commit t [] with ⟨result, sequencer⟩
  rw [hCommit] at h
  simp only at h ⊢
  split at h
  · exact absurd rfl (h _)
  · next hNot =>
    rw [Sequencer.commit_of_not_committed hCommit hNot]
    exact ⟨rfl, rfl, rfl⟩

/- A request leaves the log alone or writes one entry. -/
theorem serve_cases
    (j : Journal)
    (request : Request) :
    Idle j (j.serve request) ∨ ∃ entry, Writes entry j (j.serve request) := by
  cases request with
  | append stream delta =>
    unfold serve
    simp only
    split
    · next hAppend => exact Or.inr ⟨_, (writes_append hAppend).2⟩
    · exact Or.inl ⟨rfl, rfl, rfl⟩
  | commit t delta =>
    by_cases hCommitted :
        ∃ address, (j.commit t delta).1 = .ok (.committed address)
    · rcases hCommitted with ⟨address, hCommitted⟩
      exact Or.inr ⟨_, (writes_commit hCommitted).2⟩
    · exact Or.inl (idle_commit (not_exists.mp hCommitted))
  | tails streams => exact Or.inl ⟨rfl, rfl, rfl⟩

/- A log that is idle has the sums it had. -/
theorem Idle.grows (h : j.Idle k) : j.Grows k := by
  constructor
  · intro address hSettled
    unfold Settled
    rw [h.next]
    exact hSettled
  · intro stream address _
    unfold sumUpTo sumOver
    rw [h.entries]

theorem grows_serve
    (j : Journal)
    (request : Request) : j.Grows (j.serve request) := by
  cases request with
  | append stream delta =>
    unfold serve
    simp only
    split
    · next hAppend => exact grows_append hAppend
    · exact grows_refl j
  | commit t delta => exact grows_commit j t delta
  | tails streams => exact grows_refl j

theorem Writes.settled_iff
    (h : Writes entry j k)
    {address : Address} :
    k.Settled address ↔ j.Settled address ∨ address = j.sequencer.next := by
  unfold Settled
  rw [Address.lt_iff_val_lt, Address.lt_iff_val_lt, h.next,
    Nat.lt_succ_iff_lt_or_eq]
  apply or_congr_right
  exact ⟨Address.eq_of_val_eq, congrArg Address.val⟩

------------------------------------------------------------
-- Entries and tails
------------------------------------------------------------

/-
  A log in step with its sequencer: its entries are at the
  addresses that were handed out, and the tail of a stream is
  the last one of an entry that lists it.
-/
structure InStep (j : Journal) : Prop where
  filled : ∀ address, address ∈ j.entries ↔ j.Settled address
  tails :
    ∀ stream,
      Sequencer.IsTail (j.Lists stream) (j.sequencer.tails.get? stream)

theorem exists_new
    {capacity : Nat}
    (capacity_pos : 0 < capacity) :
    ∃ start, new? capacity = .ok start := by
  unfold new? Sequencer.new?
  rw [dif_pos capacity_pos]
  exact ⟨_, rfl⟩

theorem inStep_new
    {capacity : Nat}
    {start : Journal}
    (h : new? capacity = .ok start) : start.InStep := by
  unfold new? Sequencer.new? at h
  split at h
  · next sequencer hSequencer =>
    split at hSequencer
    · obtain rfl := Except.ok.inj hSequencer
      obtain rfl := Except.ok.inj h
      constructor
      · intro address
        constructor
        · intro hMem
          exact absurd hMem (SortedMap.not_mem_empty address)
        · intro hSettled
          exact absurd hSettled (Nat.not_lt_zero _)
      · intro stream address hLists
        rcases hLists with ⟨entry, hEntry, _⟩
        exact absurd hEntry nofun
    · exact absurd hSequencer nofun
  · exact absurd h nofun

theorem InStep.idle
    (h : j.InStep)
    (hIdle : Idle j k) : k.InStep := by
  have hFilled := h.filled
  have hTails := h.tails
  unfold Settled at hFilled
  unfold Lists at hTails
  rw [← hIdle.entries, ← hIdle.next] at hFilled
  rw [← hIdle.entries, ← hIdle.tails] at hTails
  exact ⟨hFilled, hTails⟩

/- There is no entry at the next address yet. -/
theorem InStep.get?_next
    (h : j.InStep) : j.entries.get? j.sequencer.next = none := by
  rw [SortedMap.get?_eq_none_iff, h.filled]
  exact KeyOrder.irrefl _

/- An entry leaves those before it alone. -/
theorem InStep.get?_entries
    (h : j.InStep)
    (hWrites : Writes entry j k)
    {address : Address}
    {old : Entry}
    (hOld : j.entries.get? address = some old) :
    k.entries.get? address = some old := by
  rw [hWrites.entries, SortedMap.get?_insert]
  split
  · next hSame =>
    rw [hSame, h.get?_next] at hOld
    exact absurd hOld nofun
  · exact hOld

theorem InStep.lists_iff
    (h : j.InStep)
    (hWrites : Writes entry j k)
    {stream : StreamId}
    {address : Address} :
    k.Lists stream address ↔
      j.Lists stream address ∨
        (address = j.sequencer.next ∧ stream ∈ entry.streams) := by
  unfold Lists
  rw [hWrites.entries]
  simp only [SortedMap.get?_insert]
  by_cases hSame : address = j.sequencer.next
  · simp [hSame, h.get?_next]
  · simp [hSame]

theorem InStep.writes
    (h : j.InStep)
    (hWrites : Writes entry j k) : k.InStep := by
  constructor
  · intro address
    rw [hWrites.entries, SortedMap.mem_insert_iff, hWrites.settled_iff,
      h.filled, or_comm]
  · intro stream
    rw [hWrites.tails]
    split
    · next hStream =>
      apply ((h.tails stream).raise j.sequencer.next).congr
      intro address
      rw [h.lists_iff hWrites]
      simp [hStream]
    · next hStream =>
      apply (h.tails stream).congr
      intro address
      rw [h.lists_iff hWrites]
      simp [hStream]

theorem InStep.serve
    (h : j.InStep)
    (request : Request) : (j.serve request).InStep := by
  rcases j.serve_cases request with hIdle | ⟨entry, hWrites⟩
  · exact h.idle hIdle
  · exact h.writes hWrites

theorem InStep.run
    (h : j.InStep)
    (requests : List Request) : (j.run requests).InStep := by
  induction requests generalizing j with
  | nil => exact h
  | cons request requests ih => exact ih (h.serve request)

/- No request overwrites an entry. -/
theorem InStep.get?_entries_run
    (h : j.InStep)
    (requests : List Request)
    {address : Address}
    {old : Entry}
    (hOld : j.entries.get? address = some old) :
    (j.run requests).entries.get? address = some old := by
  induction requests generalizing j with
  | nil => exact hOld
  | cons request requests ih =>
    apply ih (h.serve request)
    rcases j.serve_cases request with hIdle | ⟨entry, hWrites⟩
    · rw [hIdle.entries]
      exact hOld
    · exact h.get?_entries hWrites hOld

------------------------------------------------------------
-- Agreement
------------------------------------------------------------

/-
  The second log has one more entry, at a new address, and just
  the streams of the entry have other tails than before: there.
-/
structure Enters
    (address : Address)
    (entry : Entry)
    (j k : Journal) : Prop where
  fresh : address ∉ j.entries
  entries : k.entries = j.entries.insert address entry
  tails :
    ∀ stream,
      k.sequencer.tails.get? stream =
        if stream ∈ entry.streams then some address
        else j.sequencer.tails.get? stream

theorem InStep.enters
    (h : j.InStep)
    (hWrites : Writes entry j k) :
    Enters j.sequencer.next entry j k := by
  constructor
  · exact SortedMap.get?_eq_none_iff.mp h.get?_next
  · exact hWrites.entries
  · intro stream
    rw [hWrites.tails]
    have hTail := h.tails stream
    cases hOld : j.sequencer.tails.get? stream with
    | none => rfl
    | some tail =>
      -- a tail is the address of an entry, so it is below the next
      rw [hOld] at hTail
      rcases hTail.1 with ⟨old, hEntry, _⟩
      have hLt : tail < j.sequencer.next :=
        (h.filled tail).mp (SortedMap.mem_iff_exists.mpr ⟨old, hEntry⟩)
      rw [Option.elim_some, Address.max_eq_right (Nat.le_of_lt hLt)]

/-
  After some requests the entries of a log, the tails that it
  reports and what its sequencer does next are of one mind.
-/
structure Agrees
    (start : Journal)
    (requests : List Request) : Prop where
  /- Each address up to the tail of the log has one entry. -/
  filled :
    ∀ address,
      address ∈ (start.run requests).entries ↔
        ∃ tail ∈ (start.run requests).sequencer.tail?, address ≤ tail
  /- An entry that was there at some time is there for good. -/
  kept :
    ∀ before after, before ++ after = requests →
      ∀ address entry,
        (start.run before).entries.get? address = some entry →
          (start.run requests).entries.get? address = some entry
  /- Just those streams are reported that some entry lists. -/
  reported_iff :
    ∀ streams stream,
      stream ∈ (start.run requests).tails streams ↔
        stream ∈ streams ∧
          ∃ address, (start.run requests).Lists stream address
  greatest :
    ∀ streams stream tail,
      ((start.run requests).tails streams).get? stream = some tail →
        IsGreatest {address | (start.run requests).Lists stream address}
          tail
  appended :
    ∀ stream delta address next,
      (start.run requests).append stream delta = .ok (address, next) →
        Enters address ⟨[stream], delta⟩ (start.run requests) next
  /- An entry lists the streams whose tails the commit raises. -/
  committed :
    ∀ t delta address,
      ((start.run requests).commit t delta).1 = .ok (.committed address) →
        Enters address ⟨writtenStreams t, delta⟩ (start.run requests)
          ((start.run requests).commit t delta).2
  /- They are the streams of its keys, sorted, and once each. -/
  written :
    ∀ t : Transaction,
      (writtenStreams t).Pairwise (fun a b => a < b) ∧
        ∀ stream,
          stream ∈ writtenStreams t ↔
            ∃ key ∈ t.writes, key.stream = stream
  /- What is aborted or refused changes neither. -/
  idle :
    ∀ t delta,
      (∀ address,
          ((start.run requests).commit t delta).1 ≠
            .ok (.committed address)) →
        Idle (start.run requests) ((start.run requests).commit t delta).2

theorem InStep.agrees
    {start : Journal}
    (h : start.InStep)
    (requests : List Request) : start.Agrees requests := by
  have hRun := h.run requests
  constructor
  · intro address
    rw [Sequencer.exists_tail_iff]
    exact hRun.filled address
  · intro before after hSplit address entry hEntry
    rw [← hSplit]
    unfold Journal.run at hEntry ⊢
    rw [List.foldl_append]
    exact (h.run before).get?_entries_run after hEntry
  · intro streams stream
    rw [SortedMap.mem_iff_exists]
    simp only [Journal.tails, Sequencer.get?_streams_tailsOf,
      Option.ite_none_right_eq_some, exists_and_left]
    exact and_congr_right (fun _ => (hRun.tails stream).exists_iff)
  · intro streams stream tail hReported
    simp only [Journal.tails, Sequencer.get?_streams_tailsOf,
      Option.ite_none_right_eq_some] at hReported
    have hTail := hRun.tails stream
    rw [hReported.2] at hTail
    exact hTail
  · intro stream delta address next hAppend
    rcases writes_append hAppend with ⟨rfl, hWrites⟩
    exact hRun.enters hWrites
  · intro t delta address hCommit
    rcases writes_commit hCommit with ⟨rfl, hWrites⟩
    exact hRun.enters hWrites
  · intro t
    refine ⟨?_, fun stream => mem_writtenStreams_iff⟩
    rw [writtenStreams_eq]
    exact SortedMap.keys_sorted _
  · intro t delta hNot
    exact idle_commit hNot

/-
  A new log agrees with its sequencer after any appends, commits
  and requests for tails, whatever they are answered.
-/
theorem run_agrees
    (capacity : Nat)
    (capacity_pos : 0 < capacity)
    (requests : List Request) :
    ∃ start, new? capacity = .ok start ∧ start.Agrees requests := by
  rcases exists_new capacity_pos with ⟨start, hStart⟩
  exact ⟨start, hStart, (inStep_new hStart).agrees requests⟩

/-
  Room for one key. The first transaction writes more, two of
  them in one stream. The second one is aborted, as it has read
  what is forgotten since. The third one writes nothing, so its
  entry is of no stream.
-/
def spreadTransaction : Transaction :=
  ⟨Address.zero, ∅,
    SortedSet.ofList
      [ ⟨StreamId.ofNat 3, [1]⟩, ⟨StreamId.ofNat 1, [1]⟩,
        ⟨StreamId.ofNat 3, [2]⟩ ]⟩

def mixedRequests : List Request :=
  let key : ConflictKey := ⟨StreamId.ofNat 1, [1]⟩
  [ .append (StreamId.ofNat 2) 5,
    .commit spreadTransaction 7,
    .commit ⟨Address.zero, SortedSet.ofList [key], ∅⟩ 9,
    .tails [StreamId.ofNat 1],
    .commit ⟨Address.zero, ∅, ∅⟩ 4 ]

theorem mixedRequests_agree :
    ∃ start, new? 1 = .ok start ∧
      (start.run mixedRequests).entries.keys =
        [0, 1, 2].map Address.ofNat ∧
      (start.run mixedRequests).entries.get? (Address.ofNat 1) =
        some ⟨[StreamId.ofNat 1, StreamId.ofNat 3], 7⟩ ∧
      ((start.run mixedRequests).tails
          ([1, 2, 3, 4].map StreamId.ofNat)).entries =
        [ (StreamId.ofNat 1, Address.ofNat 1),
          (StreamId.ofNat 2, Address.ofNat 0),
          (StreamId.ofNat 3, Address.ofNat 1) ] ∧
      start.Agrees mixedRequests := by
  have hStreams : writtenStreams spreadTransaction =
      [StreamId.ofNat 1, StreamId.ofNat 3] := by
    rw [writtenStreams_eq]
    decide
  rcases run_agrees 1 (by decide) mixedRequests with
    ⟨start, hStart, hAgrees⟩
  obtain rfl := Except.ok.inj hStart
  refine ⟨_, rfl, by decide, ?_, by decide, hAgrees⟩
  rw [← hStreams]
  rfl

end Journal

end OrderedLog
