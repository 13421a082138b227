import OrderedLog.Journal.Counter
import OrderedLog.Proofs.SnapshotCache.Sharing

/-
  This file defines a log and a cache of counters as any
  number of readers share them, one step at a time and in any
  order.

  A read looks for the exact snapshot, then for an older one,
  then replays the entries since, and then puts the value into
  the cache, which takes two steps of its own. The log may grow
  and the cache may lose snapshots between any two of these. A
  counter is refreshed by reading it, so that a refresh has the
  same steps.

  Key definitions include:
    * `Reading`
    * `SharedCounters`
    * `SharedCounters.Action`
    * `SharedCounters.advance`
    * `SharedCounters.step`
    * `SharedCounters.run`
    * `SharedCounters.ReadStep`

  Key lemmas include:
    * `SharedCounters.readStep_advance`
    * `SharedCounters.run_advance`
-/

namespace OrderedLog

/- How far a read has come. -/
inductive ReadPhase where
  /- About to look for the exact snapshot. -/
  | looking
  /- Without one, and about to look for an older snapshot. -/
  | searching
  /- About to replay what was appended after a version. -/
  | replaying
      (start : Int)
      (after : Option Address)
  /- About to store the value, under the lock of the object. -/
  | storing
      (value : Int)
  /- With the lock, and about to enter the version. -/
  | entering
      (value : Int)
  /- Done. -/
  | returned
      (value : Int)
deriving DecidableEq

/- A read of a counter as of a version. -/
structure Reading where
  id : VersionedId
  phase : ReadPhase
deriving DecidableEq

/- A log, a cache of counters, and what each reader last read. -/
structure SharedCounters where
  shared : SharedCache Int Unit
  journal : Journal
  readings : SortedMap Nat Reading

namespace SharedCounters

/- An empty log and an empty cache without readers. -/
def start
    (capacity : Nat)
    (capacity_pos : 0 < capacity)
    (batchSize queueCapacity : Nat) : SharedCounters where
  shared := SharedCache.start batchSize queueCapacity
  journal := ⟨Sequencer.new capacity capacity_pos, ∅, 0⟩
  readings := ∅

/- The same with another cache of counters. -/
def withCache
    (s : SharedCounters)
    (cache : CounterCache) : SharedCounters :=
  { s with shared := { s.shared with cache } }

/- The same with a reader at some point of a read. -/
def withReading
    (s : SharedCounters)
    (reader : Nat)
    (reading : Reading) : SharedCounters :=
  { s with readings := s.readings.insert reader reading }

/- Whether a reader is in the middle of a read. -/
def busy
    (s : SharedCounters)
    (reader : Nat) : Bool :=
  match s.readings.get? reader with
  | none => false
  | some ⟨_, .returned _⟩ => false
  | some _ => true

/- Whether an address is at most the last one handed out. -/
def reached
    (s : SharedCounters)
    (address : Address) : Bool :=
  match s.journal.sequencer.tail? with
  | none => false
  | some tail => address ≤ tail

------------------------------------------------------------
-- Steps
------------------------------------------------------------

/- What may happen to shared counters. -/
inductive Action where
  /- An entry is appended to a stream. -/
  | append
      (stream : StreamId)
      (delta : Int)
  /- A transaction is judged and may commit. -/
  | commit
      (transaction : Transaction)
      (delta : Int)
  /- A reader starts to read a counter, as of a reached address. -/
  | call
      (reader : Nat)
      (id : VersionedId)
  /-
    A reader takes its next step. If that is to store a value,
    some snapshots may be lost over it.
  -/
  | advance
      (reader : Nat)
      (lost : List VersionedId)
  /- Someone evicts the versions of an object up to a bound. -/
  | evict
      (id : VersionedId)
  /- A snapshot is lost, to make room or because it is too old. -/
  | lose
      (id : VersionedId)
      (cause : RemovalCause)
  /- The eviction worker takes its next step. -/
  | work

/- The next step of a read, unless it has to wait for a lock. -/
def advance
    (s : SharedCounters)
    (reader : Nat)
    (lost : List VersionedId) : SharedCounters :=
  match s.readings.get? reader with
  | none => s
  | some ⟨id, .looking⟩ =>
    let (found, cache) := Counter.exact id s.shared.cache
    let phase : ReadPhase :=
      match found with
      | some value => .returned value
      | none => .searching
    (s.withCache cache).withReading reader ⟨id, phase⟩
  | some ⟨id, .searching⟩ =>
    if s.shared.locked id.object then s
    else
      let ((start, after), cache) := Counter.base id s.shared.cache
      (s.withCache cache).withReading reader
        ⟨id, .replaying start after⟩
  | some ⟨id, .replaying start after⟩ =>
    let (added, journal) := s.journal.replay id.object after id.version
    { s with journal }.withReading reader ⟨id, .storing (start + added)⟩
  | some ⟨id, .storing value⟩ =>
    if s.shared.locked id.object then s
    else
      let stored := s.shared.store id value
      { s with shared := lost.foldl (SharedCache.lose .size) stored
        }.withReading reader ⟨id, .entering value⟩
  | some ⟨id, .entering value⟩ =>
    { s with shared := s.shared.enter id }.withReading reader
      ⟨id, .returned value⟩
  | some ⟨_, .returned _⟩ => s

/-
  What an action makes of shared counters. One that is refused
  or has to wait leaves them as they are.
-/
def step
    (batchSize : Nat)
    (s : SharedCounters) : Action → SharedCounters
  | .append stream delta =>
    match s.journal.append stream delta with
    | .ok (_, journal) => { s with journal }
    | .error _ => s
  | .commit transaction delta =>
    { s with journal := (s.journal.commit transaction delta).2 }
  | .call reader id =>
    if !s.busy reader && s.reached id.version then
      s.withReading reader ⟨id, .looking⟩
    else
      s
  | .advance reader lost => s.advance reader lost
  | .evict id =>
    if s.shared.locked id.object then s
    else { s with shared := s.shared.evict id }
  | .lose id cause =>
    if cause.evicted then { s with shared := s.shared.lose cause id }
    else s
  | .work =>
    match s.shared.work? batchSize with
    | some shared => { s with shared }
    | none => s

/- What actions make of shared counters, one after the other. -/
def run
    (batchSize : Nat)
    (s : SharedCounters)
    (actions : List Action) : SharedCounters :=
  actions.foldl (step batchSize) s

------------------------------------------------------------
-- Steps of a read
------------------------------------------------------------

theorem get?_withReading
    (s : SharedCounters)
    (reader other : Nat)
    (reading : Reading) :
    (s.withReading reader reading).readings.get? other =
      if other = reader then some reading
      else s.readings.get? other :=
  SortedMap.get?_insert _ _ _ _

theorem get?_withReading_self
    (s : SharedCounters)
    (reader : Nat)
    (reading : Reading) :
    (s.withReading reader reading).readings.get? reader =
      some reading := by
  rw [get?_withReading, if_pos rfl]

variable {s : SharedCounters} {reader : Nat} {id : VersionedId}

/- A reader that finds the exact snapshot is done. -/
theorem advance_of_hit
    (hReading : s.readings.get? reader = some ⟨id, .looking⟩)
    {value : Int}
    {cache : CounterCache}
    (hExact : Counter.exact id s.shared.cache = (some value, cache))
    (lost : List VersionedId) :
    s.advance reader lost =
      (s.withCache cache).withReading reader ⟨id, .returned value⟩ := by
  unfold advance
  simp only [hReading, hExact]

/- Without the exact snapshot a reader searches on. -/
theorem advance_of_miss
    (hReading : s.readings.get? reader = some ⟨id, .looking⟩)
    {cache : CounterCache}
    (hExact : Counter.exact id s.shared.cache = (none, cache))
    (lost : List VersionedId) :
    s.advance reader lost =
      (s.withCache cache).withReading reader ⟨id, .searching⟩ := by
  unfold advance
  simp only [hReading, hExact]

/- A reader that can have the lock finds where to start from. -/
theorem advance_searching
    (hReading : s.readings.get? reader = some ⟨id, .searching⟩)
    (hFree : s.shared.locked id.object = false)
    {start : Int}
    {after : Option Address}
    {cache : CounterCache}
    (hBase : Counter.base id s.shared.cache = ((start, after), cache))
    (lost : List VersionedId) :
    s.advance reader lost =
      (s.withCache cache).withReading reader
        ⟨id, .replaying start after⟩ := by
  unfold advance
  simp only [hReading, hFree, hBase, Bool.false_eq_true, if_false]

theorem advance_replaying
    {start : Int}
    {after : Option Address}
    (hReading :
      s.readings.get? reader = some ⟨id, .replaying start after⟩)
    {added : Int}
    {journal : Journal}
    (hReplay :
      s.journal.replay id.object after id.version = (added, journal))
    (lost : List VersionedId) :
    s.advance reader lost =
      SharedCounters.withReading { s with journal } reader
        ⟨id, .storing (start + added)⟩ := by
  unfold advance
  simp only [hReading, hReplay]

/- A reader that can have the lock takes it and stores its value. -/
theorem advance_storing
    {value : Int}
    (hReading : s.readings.get? reader = some ⟨id, .storing value⟩)
    (hFree : s.shared.locked id.object = false)
    (lost : List VersionedId) :
    s.advance reader lost =
      SharedCounters.withReading
        { s with
          shared :=
            lost.foldl (SharedCache.lose .size)
              (s.shared.store id value) }
        reader ⟨id, .entering value⟩ := by
  unfold advance
  simp only [hReading, hFree, Bool.false_eq_true, if_false]

theorem advance_entering
    {value : Int}
    (hReading : s.readings.get? reader = some ⟨id, .entering value⟩)
    (lost : List VersionedId) :
    s.advance reader lost =
      SharedCounters.withReading { s with shared := s.shared.enter id }
        reader ⟨id, .returned value⟩ := by
  unfold advance
  simp only [hReading]

/- A reader that is done takes no more steps. -/
theorem advance_returned
    {value : Int}
    (hReading : s.readings.get? reader = some ⟨id, .returned value⟩)
    (lost : List VersionedId) : s.advance reader lost = s := by
  unfold advance
  simp only [hReading]

/- All that a reader's next step may be. -/
inductive ReadStep
    (s : SharedCounters)
    (reader : Nat)
    (lost : List VersionedId) : SharedCounters → Prop where
  /- There is no read, it is done, or it waits for a lock. -/
  | idle : ReadStep s reader lost s
  | hit
      {id : VersionedId}
      {value : Int}
      {cache : CounterCache}
      (reading : s.readings.get? reader = some ⟨id, .looking⟩)
      (found : Counter.exact id s.shared.cache = (some value, cache)) :
      ReadStep s reader lost
        ((s.withCache cache).withReading reader ⟨id, .returned value⟩)
  | miss
      {id : VersionedId}
      {cache : CounterCache}
      (reading : s.readings.get? reader = some ⟨id, .looking⟩)
      (found : Counter.exact id s.shared.cache = (none, cache)) :
      ReadStep s reader lost
        ((s.withCache cache).withReading reader ⟨id, .searching⟩)
  | base
      {id : VersionedId}
      {start : Int}
      {after : Option Address}
      {cache : CounterCache}
      (reading : s.readings.get? reader = some ⟨id, .searching⟩)
      (found : Counter.base id s.shared.cache = ((start, after), cache)) :
      ReadStep s reader lost
        ((s.withCache cache).withReading reader
          ⟨id, .replaying start after⟩)
  | replay
      {id : VersionedId}
      {start : Int}
      {after : Option Address}
      {added : Int}
      {journal : Journal}
      (reading :
        s.readings.get? reader = some ⟨id, .replaying start after⟩)
      (replayed :
        s.journal.replay id.object after id.version = (added, journal)) :
      ReadStep s reader lost
        (SharedCounters.withReading { s with journal } reader
          ⟨id, .storing (start + added)⟩)
  | store
      {id : VersionedId}
      {value : Int}
      (reading : s.readings.get? reader = some ⟨id, .storing value⟩)
      (free : s.shared.locked id.object = false) :
      ReadStep s reader lost
        (SharedCounters.withReading
          { s with
            shared :=
              lost.foldl (SharedCache.lose .size)
                (s.shared.store id value) }
          reader ⟨id, .entering value⟩)
  | enter
      {id : VersionedId}
      {value : Int}
      (reading : s.readings.get? reader = some ⟨id, .entering value⟩) :
      ReadStep s reader lost
        (SharedCounters.withReading
          { s with shared := s.shared.enter id } reader
          ⟨id, .returned value⟩)

theorem readStep_advance
    (s : SharedCounters)
    (reader : Nat)
    (lost : List VersionedId) :
    ReadStep s reader lost (s.advance reader lost) := by
  cases hReading : s.readings.get? reader with
  | none =>
    unfold advance
    simp only [hReading]
    exact ReadStep.idle
  | some reading =>
    rcases reading with ⟨id, phase⟩
    cases phase with
    | looking =>
      rcases hExact : Counter.exact id s.shared.cache with ⟨found, cache⟩
      cases found with
      | some value =>
        rw [advance_of_hit hReading hExact]
        exact ReadStep.hit hReading hExact
      | none =>
        rw [advance_of_miss hReading hExact]
        exact ReadStep.miss hReading hExact
    | searching =>
      cases hFree : s.shared.locked id.object with
      | true =>
        unfold advance
        simp only [hReading, hFree, if_true]
        exact ReadStep.idle
      | false =>
        rcases hBase : Counter.base id s.shared.cache with
          ⟨⟨start, after⟩, cache⟩
        rw [advance_searching hReading hFree hBase]
        exact ReadStep.base hReading hBase
    | replaying start after =>
      rcases hReplay : s.journal.replay id.object after id.version with
        ⟨added, journal⟩
      rw [advance_replaying hReading hReplay]
      exact ReadStep.replay hReading hReplay
    | storing value =>
      cases hFree : s.shared.locked id.object with
      | true =>
        unfold advance
        simp only [hReading, hFree, if_true]
        exact ReadStep.idle
      | false =>
        rw [advance_storing hReading hFree]
        exact ReadStep.store hReading hFree
    | entering value =>
      rw [advance_entering hReading]
      exact ReadStep.enter hReading
    | returned value =>
      rw [advance_returned hReading]
      exact ReadStep.idle

------------------------------------------------------------
-- Undisturbed reads
------------------------------------------------------------

/-
  The steps of a read that nobody comes upon make up the read
  of a counter through its cache.
-/
theorem run_advance
    (batchSize : Nat)
    (hReading : s.readings.get? reader = some ⟨id, .looking⟩)
    (hFree : s.shared.locked id.object = false) :
    let after := run batchSize s (List.replicate 5 (.advance reader []))
    let read :=
      Counter.readCached id.object id.version (s.shared.cache, s.journal)
    after.readings.get? reader = some ⟨id, .returned read.1⟩ ∧
      after.shared.cache = read.2.1 ∧
      after.journal = read.2.2 := by
  simp only [run, List.replicate, List.foldl_cons, List.foldl_nil, step]
  unfold Counter.readCached
  rcases hExact : Counter.exact id s.shared.cache with ⟨found, cache⟩
  cases found with
  | some value =>
    rw [advance_of_hit hReading hExact]
    have hDone := get?_withReading_self (s.withCache cache) reader
      ⟨id, .returned value⟩
    simp only [advance_returned hDone, hExact]
    exact ⟨hDone, rfl, rfl⟩
  | none =>
    rcases hBase : Counter.base id cache with ⟨⟨start, after⟩, later⟩
    rcases hReplay : s.journal.replay id.object after id.version with
      ⟨added, journal⟩
    let value := start + added
    let s₁ := (s.withCache cache).withReading reader ⟨id, .searching⟩
    let s₂ := (s₁.withCache later).withReading reader
      ⟨id, .replaying start after⟩
    let s₃ := SharedCounters.withReading { s₂ with journal } reader
      ⟨id, .storing value⟩
    let s₄ := SharedCounters.withReading
      { s₃ with shared := s₃.shared.store id value } reader
      ⟨id, .entering value⟩
    have hAt₁ : s₁.readings.get? reader = some ⟨id, .searching⟩ :=
      get?_withReading_self (s.withCache cache) reader _
    have hAt₂ : s₂.readings.get? reader =
        some ⟨id, .replaying start after⟩ :=
      get?_withReading_self (s₁.withCache later) reader _
    have hAt₃ : s₃.readings.get? reader = some ⟨id, .storing value⟩ :=
      get?_withReading_self { s₂ with journal } reader _
    have hAt₄ : s₄.readings.get? reader = some ⟨id, .entering value⟩ :=
      get?_withReading_self
        { s₃ with shared := s₃.shared.store id value } reader _
    have h₁ : s.advance reader [] = s₁ :=
      advance_of_miss hReading hExact []
    have h₂ : s₁.advance reader [] = s₂ :=
      advance_searching hAt₁ hFree hBase []
    have h₃ : s₂.advance reader [] = s₃ :=
      advance_replaying hAt₂ hReplay []
    have h₄ : s₃.advance reader [] = s₄ :=
      advance_storing hAt₃ hFree []
    rw [h₁, h₂, h₃, h₄, advance_entering hAt₄]
    simp only [hExact, hBase, hReplay]
    refine ⟨get?_withReading_self _ _ _, ?_, rfl⟩
    exact SharedCache.enter_store s₃.shared id value

end SharedCounters

end OrderedLog
