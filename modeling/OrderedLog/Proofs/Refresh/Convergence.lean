import OrderedLog.Proofs.Refresh.CounterRounds
import OrderedLog.Proofs.Refresh.CounterStates

/-
  This file proves that rounds of refreshing converge. After
  one round the counters that were cached have caught up with
  the log: they are read at their latest versions without a
  replay, and come to the sums of their streams. A second
  round finds nothing to do.

  A round is a number of reads at tails. As long as all that
  is indexed is cached, a read enters its version into the
  index, so a counter that was read at its tail is not behind.

  Key definitions include:
    * `Journal.sumOf`
    * `Counter.readEach`
    * `Counter.Whole`
    * `Counter.Reads`
    * `Counter.CaughtUp`
    * `Counter.Converges`

  Key lemmas include:
    * `Journal.InStep.sumUpTo_eq_sumOf`
    * `Counter.refreshEach_eq_readEach`
    * `Counter.Whole.reads`
    * `Counter.mem_called_iff`
    * `Counter.Whole.reads_round`
    * `Counter.Whole.reaches_tail`
    * `Counter.Whole.converges`

  Key theorems include:
    * `Counters.follow_converges`
-/

namespace OrderedLog

namespace SnapshotCache

variable {σ ρ : Type}

/- An object with an indexed version has a latest one. -/
theorem exists_latest
    {c : SnapshotCache σ ρ}
    {object : StreamId}
    {version : Address}
    (h : c.Indexes ⟨object, version⟩) :
    ∃ latest, c.latest? object = some latest ∧ version ≤ latest := by
  have hSome : c.versionList object ≠ [] := List.ne_nil_of_mem h
  have hLatest : c.latest? object =
      some ((c.versionList object).getLast hSome) :=
    List.getLast?_eq_some_getLast hSome
  exact ⟨_, hLatest, (latest?_eq_some_iff.mp hLatest).2 h⟩

end SnapshotCache

namespace Journal

variable {j k : Journal}
variable {stream : StreamId}
variable {tail : Address}

------------------------------------------------------------
-- Tails and sums
------------------------------------------------------------

/- The sum of all entries of a stream. -/
def sumOf
    (j : Journal)
    (stream : StreamId) : Int :=
  j.sumOver stream (fun _ => true)

/- The tail of a stream was handed out. -/
theorem InStep.settled_tail
    (h : j.InStep)
    (hTail : j.sequencer.tails.get? stream = some tail) :
    j.Settled tail := by
  have hGreatest := h.tails stream
  rw [hTail] at hGreatest
  rcases hGreatest.1 with ⟨entry, hEntry, _⟩
  exact (h.filled tail).mp (SortedMap.mem_iff_exists.mpr ⟨entry, hEntry⟩)

/- No entry of a stream is after its tail. -/
theorem InStep.sumUpTo_eq_sumOf
    (h : j.InStep)
    (hTail : j.sequencer.tails.get? stream = some tail)
    {upper : Address}
    (hUpper : tail ≤ upper) : j.sumUpTo stream upper = j.sumOf stream := by
  have hGreatest := h.tails stream
  rw [hTail] at hGreatest
  have hSame : ∀ e ∈ j.entries.entries,
      decide (decide (e.1 ≤ upper) = true ∧ stream ∈ e.2.streams) =
        decide (true = true ∧ stream ∈ e.2.streams) := by
    intro e hMem
    rw [decide_eq_decide]
    constructor
    · intro hBoth
      exact ⟨rfl, hBoth.2⟩
    · intro hBoth
      have hLists : j.Lists stream e.1 :=
        ⟨e.2, SortedMap.get?_eq_some_iff.mpr hMem, hBoth.2⟩
      exact ⟨decide_eq_true (Address.le_trans (hGreatest.2 hLists) hUpper),
        hBoth.2⟩
  unfold sumUpTo sumOf sumOver sumEntries
  rw [List.filter_congr hSame]

/- An idle log leaves the values of the counters as they are. -/
theorem Idle.sumUpTo_eq
    (h : j.Idle k)
    (upper : Address) : k.sumUpTo stream upper = j.sumUpTo stream upper := by
  unfold sumUpTo sumOver
  rw [h.entries]

theorem Idle.trans
    {l : Journal}
    (h : j.Idle k)
    (h' : k.Idle l) : j.Idle l where
  next := h'.next.trans h.next
  tails := h'.tails.trans h.tails
  entries := h'.entries.trans h.entries

end Journal

namespace Counter

open RefreshTarget

------------------------------------------------------------
-- Reads of counters
------------------------------------------------------------

/- Counters are read at some versions, one after the other. -/
def readEach
    (ids : List VersionedId)
    (s : CounterCache × Journal) : CounterCache × Journal :=
  ids.foldl (fun s id => (readCached id.object id.version s).2) s

/- What a round calls for. -/
def called
    (calls : List Call) : List VersionedId :=
  calls.map (fun call => ⟨call.object, call.tail⟩)

/- To go through counters is to read those that are called. -/
theorem refreshEach_eq_readEach
    (tails : SortedMap StreamId Address)
    (objects : List (StreamId × Unit))
    (s : CounterCache × Journal) :
    (refreshTarget.refreshEach tails objects s).2 =
      readEach (called (refreshTarget.eachCalls tails objects s)) s := by
  induction objects generalizing s with
  | nil => rfl
  | cons e objects ih =>
    rcases e with ⟨object, known⟩
    rw [refreshEach_cons, eachCalls]
    cases due? tails s.1 object with
    | none => exact ih s
    | some tail => exact ih (readCached object tail s).2

/-
  The log is in step, what is cached is right, and what is
  indexed is cached.
-/
def Whole (s : CounterCache × Journal) : Prop :=
  Counters.Orderly ⟨s.2, some s.1⟩ []

/- What some reads make of a cache and a log. -/
structure Reads
    (ids : List VersionedId)
    (s t : CounterCache × Journal) : Prop where
  whole : Whole t
  registry : t.1.registry = s.1.registry
  indexes : ∀ id, t.1.Indexes id ↔ s.1.Indexes id ∨ id ∈ ids
  idle : s.2.Idle t.2

variable {s t : CounterCache × Journal}
variable {id : VersionedId}
variable {ids : List VersionedId}

theorem Whole.inStep (h : Whole s) : s.2.InStep :=
  h.kept.inStep

/- What is indexed is cached, and is right. -/
theorem Whole.value_eq
    (h : Whole s)
    (hIndexes : s.1.Indexes id) :
    s.1.valueAt? id = some (s.2.sumUpTo id.object id.version) := by
  rcases h.live s.1 rfl id hIndexes with ⟨value, hValue⟩ | hClears
  · have hRight := (h.right id value trivial hValue).2
    rw [hValue, hRight]
  · rcases hClears with ⟨_, hMem, _⟩
    exact absurd hMem List.not_mem_nil

/- What is cached is indexed. -/
theorem Whole.indexes_of_value
    (h : Whole s)
    {value : Int}
    (hValue : s.1.valueAt? id = some value) : s.1.Indexes id := by
  rcases h.kept.indexed with ⟨c, hCache, hIndexed⟩
  obtain rfl := Option.some.inj hCache
  exact hIndexed id value hValue

theorem Whole.settled
    (h : Whole s)
    (hIndexes : s.1.Indexes id) : s.2.Settled id.version :=
  Counters.reached_iff.mp
    (h.right id _ trivial (h.value_eq hIndexes)).1

/- A read of an indexed version needs no replay. -/
theorem Whole.read_indexed
    (h : Whole s)
    (hIndexes : s.1.Indexes id) :
    (readCached id.object id.version s).1 =
        s.2.sumUpTo id.object id.version ∧
      (readCached id.object id.version s).2.2 = s.2 := by
  have hValue := h.value_eq hIndexes
  constructor
  · rw [(readCached_eq id s.1 s.2).1, readValue, hValue,
      Option.getD_some]
  · exact (readCached_of_some hValue s.2).2.2.2

theorem Whole.of_sameContents
    {c d : CounterCache}
    {j : Journal}
    (h : Whole (c, j))
    (hSame : d.SameContents c) : Whole (d, j) :=
  Counters.Orderly.of_sameContents h hSame

/- A read of a version that was handed out enters it. -/
theorem Whole.read
    (h : Whole s)
    (hSettled : s.2.Settled id.version) :
    Reads [id] s (readCached id.object id.version s).2 := by
  have hLeaves := (readCached_eq id s.1 s.2).2
  constructor
  · -- the events that are left to come are none, before and after
    have hBefore : Counters.Orderly ⟨s.2, some s.1⟩
        [.acts (.read id)] :=
      ⟨h.kept, h.right, fun c hCache other hIndexes =>
        (h.live c hCache other hIndexes).imp_right
          (fun hClears => absurd hClears.choose_spec.1 List.not_mem_nil)⟩
    exact hBefore.read (Counters.reached_iff.mpr hSettled)
  · exact (cellOf_readCached id s.1 s.2).2.1
  · intro other
    rw [hLeaves.indexes, List.mem_singleton]
    constructor
    · intro hEither
      exact hEither.imp_right And.left
    · intro hEither
      rcases hEither with hOld | hSame
      · exact Or.inl hOld
      · cases hValue : s.1.valueAt? id with
        | none => exact Or.inr ⟨hSame, rfl⟩
        | some value =>
          exact Or.inl (hSame ▸ h.indexes_of_value hValue)
  · exact hLeaves.idle

theorem Reads.trans
    {u : CounterCache × Journal}
    {others : List VersionedId}
    (h : Reads ids s t)
    (h' : Reads others t u) : Reads (ids ++ others) s u where
  whole := h'.whole
  registry := h'.registry.trans h.registry
  indexes := by
    intro id
    rw [h'.indexes, h.indexes, List.mem_append, or_assoc]
  idle := h.idle.trans h'.idle

/- Reads of versions that were handed out enter all of them. -/
theorem Whole.reads
    (h : Whole s)
    (hSettled : ∀ id ∈ ids, s.2.Settled id.version) :
    Reads ids s (readEach ids s) := by
  induction ids generalizing s with
  | nil => exact ⟨h, rfl, by simp [readEach], ⟨rfl, rfl, rfl⟩⟩
  | cons id ids ih =>
    have hRead := h.read (hSettled id List.mem_cons_self)
    have hLater : ∀ other ∈ ids,
        (readCached id.object id.version s).2.2.Settled other.version :=
      fun other hMem => hRead.idle.grows.settled _
        (hSettled other (List.mem_cons_of_mem id hMem))
    exact hRead.trans (ih hRead.whole hLater)

------------------------------------------------------------
-- Rounds
------------------------------------------------------------

variable {objects : List (StreamId × Unit)}

/- A round calls the known counters that are behind the log. -/
theorem mem_called_iff
    (hOrder : objects.Perm s.1.registry.entries) :
    id ∈ called (refreshTarget.calls objects s) ↔
      id.object ∈ s.1.registry ∧
        Behind s.2.sequencer.tails s.1 id.object id.version := by
  have hKnown : id.object ∈ objects.map Prod.fst ↔
      id.object ∈ s.1.registry := by
    rw [(hOrder.map Prod.fst).mem_iff]
    exact SortedMap.mem_keys_iff
  rw [← hKnown]
  by_cases hNone : objects = []
  · subst hNone
    simp [called, calls_nil]
  · have hCalled := (rounds_refresh_behind s hOrder hNone).called
      id.object id.version
    have hTails : id.object ∈ objects.map Prod.fst →
        (s.2.tails (objects.map Prod.fst)).get? id.object =
          s.2.sequencer.tails.get? id.object := by
      intro hMem
      unfold Journal.tails
      rw [Sequencer.get?_streams_tailsOf, if_pos hMem]
    have hMem : id ∈ called (refreshTarget.calls objects s) ↔
        ∃ call ∈ refreshTarget.calls objects s,
          call.object = id.object ∧ call.tail = id.version := by
      rcases id with ⟨object, tail⟩
      unfold called
      rw [List.mem_map]
      simp only [VersionedId.mk.injEq]
    rw [hMem, hCalled]
    apply and_congr_right
    intro hObject
    unfold Behind
    rw [hTails hObject]

/- A round reads the counters that it calls. -/
theorem Whole.reads_round
    (h : Whole s)
    (hOrder : objects.Perm s.1.registry.entries) :
    Reads (called (refreshTarget.calls objects s)) s
      (refreshTarget.round objects s).2 := by
  have hSettled : ∀ id ∈ called (refreshTarget.calls objects s),
      s.2.Settled id.version := by
    intro id hMem
    rw [mem_called_iff hOrder] at hMem
    exact h.inStep.settled_tail hMem.2.1
  have hReads := h.reads hSettled
  have hRound : ∃ count, (refreshTarget.round objects s).2 =
      recordRound
        (readEach (called (refreshTarget.calls objects s)) s) count := by
    by_cases hNone : objects = []
    · subst hNone
      exact ⟨0, rfl⟩
    · have hAnswer : (refreshTarget.tails (objects.map Prod.fst) s.2).1 =
          .ok (s.2.tails (objects.map Prod.fst)) := rfl
      have hEach := refreshEach_eq_readEach
        (s.2.tails (objects.map Prod.fst)) objects s
      rw [refreshTarget.round_of_ok s hNone hAnswer,
        refreshTarget.calls_of_ok s hAnswer]
      exact ⟨_, congrArg (fun done => recordRound done _) hEach⟩
  rcases hRound with ⟨count, hRound⟩
  rw [hRound]
  exact ⟨hReads.whole.of_sameContents
      (SnapshotCache.sameContents_of_eq rfl rfl),
    hReads.registry, hReads.indexes, hReads.idle⟩

/- A round has nothing to do when no known counter is behind. -/
theorem round_of_none_behind
    (hOrder : objects.Perm s.1.registry.entries)
    (hNone : ∀ object ∈ s.1.registry, ∀ tail,
      ¬ Behind s.2.sequencer.tails s.1 object tail) :
    refreshTarget.calls objects s = [] ∧
      (refreshTarget.round objects s).1 = 0 := by
  have hCalls : refreshTarget.calls objects s = [] := by
    rw [List.eq_nil_iff_forall_not_mem]
    intro call hCall
    have hMem : ⟨call.object, call.tail⟩ ∈
        called (refreshTarget.calls objects s) :=
      List.mem_map_of_mem hCall
    rw [mem_called_iff hOrder] at hMem
    exact hNone _ hMem.1 _ hMem.2
  refine ⟨hCalls, ?_⟩
  by_cases hEmpty : objects = []
  · subst hEmpty
    rfl
  · rw [(rounds_refresh_behind s hOrder hEmpty).returned, hCalls]
    rfl

------------------------------------------------------------
-- Convergence
------------------------------------------------------------

/- The versions are the latest ones of their objects. -/
def Latest
    (c : CounterCache)
    (ids : List VersionedId) : Prop :=
  ∀ id ∈ ids, c.latest? id.object = some id.version

/-
  A counter has caught up with a tail: its latest version is
  at the tail or after it, and is read without a replay.
-/
def CaughtUp
    (object : StreamId)
    (tail : Address)
    (sum : Int)
    (s : CounterCache × Journal) : Prop :=
  ∃ latest,
    s.1.latest? object = some latest ∧ tail ≤ latest ∧
      (readCached object latest s).1 = sum ∧
        (readCached object latest s).2.2 = s.2

/-
  A round converges: what holds after it holds as well after
  reads of counters at the latest versions that it has left.
-/
structure Converges
    (objects : List (StreamId × Unit))
    (s : CounterCache × Journal) : Prop where
  /- Cached counters catch up with the tails of their streams. -/
  caughtUp :
    ∀ ids, Latest (refreshTarget.round objects s).2.1 ids →
      ∀ object ∈ s.1.registry, ∀ version tail,
        s.1.Indexes ⟨object, version⟩ ∨
            s.1.isLive ⟨object, version⟩ = true →
          s.2.sequencer.tails.get? object = some tail →
            CaughtUp object tail (s.2.sumOf object)
              (readEach ids (refreshTarget.round objects s).2)
  /- The next round makes no call. -/
  rests :
    ∀ ids, Latest (refreshTarget.round objects s).2.1 ids →
      let later := readEach ids (refreshTarget.round objects s).2
      ∀ others : List (StreamId × Unit),
        others.Perm later.1.registry.entries →
          refreshTarget.calls others later = [] ∧
            (refreshTarget.round others later).1 = 0

/- Reads at latest versions come after the reads of the round. -/
theorem Whole.reads_after
    (h : Whole s)
    (hOrder : objects.Perm s.1.registry.entries)
    (hLatest : Latest (refreshTarget.round objects s).2.1 ids) :
    Reads (called (refreshTarget.calls objects s) ++ ids) s
      (readEach ids (refreshTarget.round objects s).2) := by
  have hRound := h.reads_round hOrder
  apply hRound.trans
  apply hRound.whole.reads
  intro id hMem
  have hGreatest :=
    SnapshotCache.latest?_eq_some_iff.mp (hLatest id hMem)
  exact hRound.whole.settled hGreatest.1

/- A counter that the round found cached is at its tail by then. -/
theorem Whole.reaches_tail
    (h : Whole s)
    (hOrder : objects.Perm s.1.registry.entries)
    (hLatest : Latest (refreshTarget.round objects s).2.1 ids)
    {object : StreamId}
    {version tail : Address}
    (hObject : object ∈ s.1.registry)
    (hIndexes : s.1.Indexes ⟨object, version⟩)
    (hTail : s.2.sequencer.tails.get? object = some tail) :
    ∃ latest,
      (readEach ids (refreshTarget.round objects s).2).1.latest? object =
          some latest ∧
        tail ≤ latest := by
  have hAfter := h.reads_after hOrder hLatest
  rcases SnapshotCache.exists_latest hIndexes with ⟨before, hBefore, _⟩
  rw [SnapshotCache.latest?_eq_some_iff] at hBefore
  by_cases hBehind : before < tail
  · have hCalled : (⟨object, tail⟩ : VersionedId) ∈
        called (refreshTarget.calls objects s) :=
      (mem_called_iff hOrder).mpr
        ⟨hObject, hTail, before, hBefore, hBehind⟩
    exact SnapshotCache.exists_latest
      ((hAfter.indexes ⟨object, tail⟩).mpr
        (Or.inr (List.mem_append_left ids hCalled)))
  · rcases SnapshotCache.exists_latest
        ((hAfter.indexes ⟨object, before⟩).mpr (Or.inl hBefore.1)) with
      ⟨latest, hHighest, hAbove⟩
    exact ⟨latest, hHighest,
      Address.le_trans (Address.not_lt.mp hBehind) hAbove⟩

/- A counter that is cached by then was cached before the round. -/
theorem Whole.cached_before
    (h : Whole s)
    (hOrder : objects.Perm s.1.registry.entries)
    (hLatest : Latest (refreshTarget.round objects s).2.1 ids)
    (hIndexes :
      (readEach ids (refreshTarget.round objects s).2).1.Indexes id) :
    ∃ version, s.1.Indexes ⟨id.object, version⟩ := by
  have hRound := h.reads_round hOrder
  have hEither : s.1.Indexes id ∨
      id ∈ called (refreshTarget.calls objects s) := by
    rw [(h.reads_after hOrder hLatest).indexes, List.mem_append] at hIndexes
    rcases hIndexes with hOld | hCalled | hRead
    · exact Or.inl hOld
    · exact Or.inr hCalled
    · have hGreatest :=
        SnapshotCache.latest?_eq_some_iff.mp (hLatest id hRead)
      exact (hRound.indexes id).mp hGreatest.1
  rcases hEither with hOld | hCalled
  · exact ⟨id.version, hOld⟩
  · rcases ((mem_called_iff hOrder).mp hCalled).2.2 with
      ⟨before, hBefore, _⟩
    exact ⟨before, hBefore.1⟩

/- As long as all that is indexed is cached, a round converges. -/
theorem Whole.converges
    (h : Whole s)
    (hOrder : objects.Perm s.1.registry.entries) :
    Converges objects s := by
  constructor
  · intro ids hLatest object hObject version tail hCached hTail
    have hAfter := h.reads_after hOrder hLatest
    have hIndexes : s.1.Indexes ⟨object, version⟩ := by
      rcases hCached with hIndexes | hLive
      · exact hIndexes
      · rcases SnapshotCache.isLive_iff_exists.mp hLive with
          ⟨value, hValue⟩
        exact h.indexes_of_value hValue
    rcases h.reaches_tail hOrder hLatest hObject hIndexes hTail with
      ⟨latest, hHighest, hReached⟩
    have hGreatest := SnapshotCache.latest?_eq_some_iff.mp hHighest
    have hRead := hAfter.whole.read_indexed hGreatest.1
    rw [hAfter.idle.sumUpTo_eq latest,
      h.inStep.sumUpTo_eq_sumOf hTail hReached] at hRead
    exact ⟨latest, hHighest, hReached, hRead⟩
  · intro ids hLatest later others hOthers
    have hAfter := h.reads_after hOrder hLatest
    apply round_of_none_behind hOthers
    intro object hObject tail hBehind
    rcases hBehind with ⟨hTail, latest, hGreatest, hBelow⟩
    rw [hAfter.registry] at hObject
    rw [hAfter.idle.tails] at hTail
    rcases h.cached_before hOrder hLatest hGreatest.1 with
      ⟨version, hIndexes⟩
    rcases h.reaches_tail hOrder hLatest hObject hIndexes hTail with
      ⟨highest, hHighest, hReached⟩
    rw [← SnapshotCache.latest?_eq_some_iff, hHighest,
      Option.some_inj] at hGreatest
    rw [hGreatest] at hReached
    exact Address.not_lt.mpr hReached hBelow

end Counter

namespace Counters

/-
  Whatever happened to a log and its counters, a round converges
  if no read was ahead of the log and every loss was made good.
-/
theorem follow_converges
    {capacity : Nat}
    {start : Counters}
    (hNew : new? capacity = .ok start)
    {events : List Event}
    (hReads : start.ReadsWait events)
    (hReconciled : Reconciled events) :
    ∃ cache, (start.follow events).cache = some cache ∧
      ∀ objects : List (StreamId × Unit),
        objects.Perm cache.registry.entries →
          Counter.Converges objects
            (cache, (start.follow events).journal) := by
  have hOrderly := (orderly_new hNew events).follow hReads hReconciled
  rcases hOrderly.kept.indexed with ⟨cache, hCache, _⟩
  refine ⟨cache, hCache, fun objects hOrder => ?_⟩
  have hState : start.follow events =
      ⟨(start.follow events).journal, some cache⟩ := by
    rw [← hCache]
  rw [hState] at hOrderly
  exact Counter.Whole.converges hOrderly hOrder

/-
  Four counters: the first is behind the log, the second was read
  after its tail and has lost an older snapshot, the third has no
  snapshots, and the stream of the fourth is empty.
-/
def scatteredEvents : List Event :=
  let first := StreamId.ofNat 1
  let second := StreamId.ofNat 2
  let third := StreamId.ofNat 3
  let fourth := StreamId.ofNat 4
  [ .opens first,
    .opens second,
    .acts (.write (.append first 5)),
    .acts (.read ⟨first, Address.ofNat 0⟩),
    .acts (.write (.append second 7)),
    .acts (.read ⟨second, Address.ofNat 1⟩),
    .opens third,
    .acts (.write (.commit Journal.spreadTransaction 3)),
    .acts (.lose ⟨second, Address.ofNat 1⟩),
    .acts (.read ⟨second, Address.ofNat 2⟩),
    .acts (.evict ⟨second, Address.ofNat 1⟩),
    .opens fourth,
    .acts (.read ⟨fourth, Address.ofNat 2⟩),
    .acts (.write (.append first 11)) ]

theorem scatteredEvents_converge :
    ∃ start, new? 4 = .ok start ∧ start.ReadsWait scatteredEvents ∧
      Reconciled scatteredEvents ∧
      ∃ cache, (start.follow scatteredEvents).cache = some cache ∧
        Counter.refreshTarget.calls cache.registry.entries
            (cache, (start.follow scatteredEvents).journal) =
          [⟨StreamId.ofNat 1, Address.ofNat 3, true⟩] ∧
        Counter.Converges cache.registry.entries
          (cache, (start.follow scatteredEvents).journal) := by
  obtain ⟨start, hNew⟩ : ∃ start, new? 4 = .ok start := ⟨_, rfl⟩
  have hReads : start.ReadsWait scatteredEvents := by
    obtain rfl := Except.ok.inj hNew
    decide +kernel
  have hReconciled : Reconciled scatteredEvents := by decide
  have hCalls : (start.follow scatteredEvents).cache.map
        (fun cache => Counter.refreshTarget.calls cache.registry.entries
          (cache, (start.follow scatteredEvents).journal)) =
      some [⟨StreamId.ofNat 1, Address.ofNat 3, true⟩] := by
    obtain rfl := Except.ok.inj hNew
    decide +kernel
  rcases follow_converges hNew hReads hReconciled with
    ⟨cache, hCache, hConverges⟩
  rw [hCache] at hCalls
  exact ⟨start, hNew, hReads, hReconciled, cache, hCache,
    Option.some.inj hCalls, hConverges _ (List.Perm.refl _)⟩

end Counters

end OrderedLog
