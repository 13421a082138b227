import OrderedLog.Proofs.Journal.ReadValues

/-
  This file proves which values of counters stay right while the
  log is written, counters are read, and snapshots are evicted or
  lost. Values at some versions do if the reads there wait until
  the log has reached them. Reads elsewhere may be made at any
  time, as long as no version is left out that is below another
  one.

  Key definitions include:
    * `Counters.Action`
    * `Counters.run`
    * `Counters.Reached`
    * `Counters.Waits`
    * `Counters.ExactAt`
    * `Counters.RightOn`
    * `Counters.Kept`

  Key lemmas include:
    * `Counters.Kept.read_eq`
    * `Counters.Kept.evict_eq`
    * `Counters.Kept.run`
    * `Counters.RightOn.readValue_eq`
    * `Counters.RightOn.step`
    * `Counters.RightOn.run`
-/

namespace OrderedLog

namespace Counters

variable {s t : Counters}
variable {id : VersionedId}
variable {ids : VersionedId → Prop}

------------------------------------------------------------
-- Actions
------------------------------------------------------------

/- What may happen to a log and a cache of its counters. -/
inductive Action where
  /- The log is written, or asked for tails. -/
  | write
      (request : Journal.Request)
  /- A counter is read as of a snapshot. -/
  | read
      (id : VersionedId)
  /- The snapshots of a counter are evicted up to a version. -/
  | evict
      (id : VersionedId)
  /- A snapshot is lost. -/
  | lose
      (id : VersionedId)
deriving DecidableEq

/- The log and the cache after one action. -/
def step
    (s : Counters) : Action → Counters
  | .write request => s.withJournal (s.journal.serve request)
  | .read id => (s.read id.object id.version).2
  | .evict id => (s.evictThrough id).2
  | .lose id => { s with cache := s.cache.map (fun c => c.dropSnapshot id) }

/- The log and the cache after some actions. -/
def run
    (s : Counters)
    (actions : List Action) : Counters :=
  actions.foldl step s

/- The value that is cached at a version. -/
def valueAt?
    (s : Counters)
    (id : VersionedId) : Option Int :=
  s.cache.bind (fun c => c.valueAt? id)

/- The log has reached an address: its tail is not before it. -/
def Reached
    (s : Counters)
    (address : Address) : Prop :=
  ∃ tail ∈ s.journal.sequencer.tail?, address ≤ tail

/-
  Reads at some versions wait for the log: it has reached the
  version whenever such a read is made.
-/
def Waits
    (ids : VersionedId → Prop)
    (s : Counters) : List Action → Prop
  | [] => True
  | action :: actions =>
    (∀ id, action = .read id → ids id → s.Reached id.version) ∧
      Waits ids (s.step action) actions

/- If the log has reached a version, the read there is right. -/
def ExactAt
    (s : Counters)
    (id : VersionedId) : Prop :=
  s.Reached id.version →
    (s.read id.object id.version).1 =
      .ok (s.journal.sumUpTo id.object id.version)

/- What is cached at some versions is right, and was reached. -/
def RightOn
    (ids : VersionedId → Prop)
    (s : Counters) : Prop :=
  ∀ id value,
    ids id → s.valueAt? id = some value →
      s.Reached id.version ∧
        value = s.journal.sumUpTo id.object id.version

theorem reached_iff
    {address : Address} :
    s.Reached address ↔ s.journal.Settled address :=
  Sequencer.exists_tail_iff

theorem Waits.mono
    {others : VersionedId → Prop}
    {actions : List Action}
    (h : s.Waits ids actions)
    (hSubset : ∀ id, others id → ids id) : s.Waits others actions := by
  induction actions generalizing s with
  | nil => exact trivial
  | cons action actions ih =>
    exact ⟨fun id hRead hId => h.1 id hRead (hSubset id hId), ih h.2⟩

------------------------------------------------------------
-- One action
------------------------------------------------------------

/-
  The log is in step with its sequencer, the cache is there, and
  its index has every version that has a snapshot.
-/
structure Kept (s : Counters) : Prop where
  inStep : s.journal.InStep
  indexed :
    ∃ c, s.cache = some c ∧
      ∀ id value, c.valueAt? id = some value → c.Indexes id

/- What a read returns and leaves. -/
theorem Kept.read_eq
    (h : s.Kept)
    (id : VersionedId) :
    ∃ c, s.cache = some c ∧
      (s.read id.object id.version).1 =
          .ok (Counter.readValue id c s.journal) ∧
        (∀ other,
          (s.step (.read id)).valueAt? other =
            if other = id then some (Counter.readValue id c s.journal)
            else s.valueAt? other) ∧
          s.journal.Idle (s.step (.read id)).journal ∧
            (s.step (.read id)).Kept := by
  rcases h.indexed with ⟨c, hCache, hIndexed⟩
  rcases Counter.readCached_eq id c s.journal with ⟨hValue, hLeaves⟩
  refine ⟨c, hCache, ?_⟩
  unfold step read valueAt?
  simp only [hCache, Option.bind_some]
  refine ⟨congrArg Except.ok hValue, hLeaves.values, hLeaves.idle, ?_⟩
  refine ⟨h.inStep.idle hLeaves.idle, _, rfl, ?_⟩
  intro other value hOther
  rw [hLeaves.indexes]
  rw [hLeaves.values] at hOther
  split at hOther
  · next hSame =>
    cases hOld : c.valueAt? id with
    | none => exact Or.inr ⟨hSame, rfl⟩
    | some old => exact Or.inl (hSame ▸ hIndexed id old hOld)
  · exact Or.inl (hIndexed other value hOther)

/- Of snapshots that are indexed the covered ones are evicted. -/
theorem valueAt?_evictThrough_iff
    {c : CounterCache}
    (hIndexed : ∀ id value, c.valueAt? id = some value → c.Indexes id)
    {other : VersionedId}
    {value : Int} :
    (c.evictThrough id).2.valueAt? other = some value ↔
      c.valueAt? other = some value ∧ ¬ id.Covers other := by
  have hGone : c.valueAt? other = some value →
      (¬ (id.Covers other ∧ c.Indexes other) ↔ ¬ id.Covers other) := by
    intro hValue
    simp [hIndexed other value hValue]
  rw [← and_congr_right_iff.mpr hGone]
  unfold SnapshotCache.valueAt?
  simp only [Option.map_eq_some_iff, SnapshotCache.get?_live_evictThrough]
  constructor
  · intro hEntry
    rcases hEntry with ⟨entry, ⟨hOld, hNot⟩, hSame⟩
    exact ⟨⟨entry, hOld, hSame⟩, hNot⟩
  · intro hEntry
    rcases hEntry with ⟨⟨entry, hOld, hSame⟩, hNot⟩
    exact ⟨entry, ⟨hOld, hNot⟩, hSame⟩

/- An eviction takes what it covers, and nothing else. -/
theorem Kept.evict_eq
    (h : s.Kept)
    (id : VersionedId) :
    (∀ other value,
      (s.step (.evict id)).valueAt? other = some value ↔
        s.valueAt? other = some value ∧ ¬ id.Covers other) ∧
      (s.step (.evict id)).journal = s.journal ∧
        (s.step (.evict id)).Kept := by
  rcases h.indexed with ⟨c, hCache, hIndexed⟩
  unfold step evictThrough valueAt?
  simp only [hCache, Option.bind_some]
  refine ⟨fun _ _ => valueAt?_evictThrough_iff hIndexed, trivial,
    h.inStep, _, rfl, ?_⟩
  intro other value hOther
  rcases (valueAt?_evictThrough_iff hIndexed).mp hOther with ⟨hOld, hNot⟩
  exact SnapshotCache.indexes_evictThrough_iff.mpr
    ⟨hIndexed other value hOld, hNot⟩

theorem Kept.lose_eq
    (h : s.Kept)
    (id : VersionedId) :
    (∀ other value,
      (s.step (.lose id)).valueAt? other = some value →
        s.valueAt? other = some value) ∧
      (s.step (.lose id)).journal = s.journal ∧
        (s.step (.lose id)).Kept := by
  rcases h.indexed with ⟨c, hCache, hIndexed⟩
  have hWithin := c.within_dropSnapshot id
  unfold step valueAt?
  simp only [hCache, Option.map_some, Option.bind_some]
  refine ⟨hWithin, trivial, h.inStep, _, rfl, ?_⟩
  intro other value hOther
  exact hIndexed other value (hWithin other value hOther)

theorem Kept.step
    (h : s.Kept)
    (action : Action) : (s.step action).Kept := by
  cases action with
  | write request => exact ⟨h.inStep.serve request, h.indexed⟩
  | read id =>
    rcases h.read_eq id with ⟨_, _, _, _, _, hKept⟩
    exact hKept
  | evict id => exact (h.evict_eq id).2.2
  | lose id => exact (h.lose_eq id).2.2

theorem Kept.run
    (h : s.Kept)
    (actions : List Action) : (s.run actions).Kept := by
  induction actions generalizing s with
  | nil => exact h
  | cons action actions ih => exact ih (h.step action)

theorem kept_new
    {capacity : Nat}
    {start : Counters}
    (h : new? capacity = .ok start) :
    start.Kept ∧ ∀ id, start.valueAt? id = none := by
  unfold new? at h
  split at h
  · next journal hJournal =>
    obtain rfl := Except.ok.inj h
    refine ⟨⟨Journal.inStep_new hJournal, _, rfl, ?_⟩, fun _ => rfl⟩
    intro id value hValue
    exact absurd hValue nofun
  · exact absurd h nofun

------------------------------------------------------------
-- Right values
------------------------------------------------------------

theorem RightOn.mono
    {others : VersionedId → Prop}
    (h : s.RightOn ids)
    (hSubset : ∀ id, others id → ids id) : s.RightOn others :=
  fun id value hId => h id value (hSubset id hId)

/- What is cached in a later state was there, or is right. -/
theorem RightOn.grows
    (h : s.RightOn ids)
    (hGrows : s.journal.Grows t.journal)
    (hValues : ∀ id value,
      ids id → t.valueAt? id = some value →
        s.valueAt? id = some value ∨
          (s.Reached id.version ∧
            value = s.journal.sumUpTo id.object id.version)) :
    t.RightOn ids := by
  intro id value hId hValue
  have hBefore : s.Reached id.version ∧
      value = s.journal.sumUpTo id.object id.version := by
    rcases hValues id value hId hValue with hOld | hNew
    · exact h id value hId hOld
    · exact hNew
  rcases hBefore with ⟨hReached, hSum⟩
  rw [reached_iff] at hReached ⊢
  rw [hGrows.sums _ _ hReached]
  exact ⟨hGrows.settled _ hReached, hSum⟩

/- What is left of right values is right. -/
theorem RightOn.forgets
    (h : s.RightOn ids)
    (hJournal : t.journal = s.journal)
    (hValues : ∀ id value,
      t.valueAt? id = some value → s.valueAt? id = some value) :
    t.RightOn ids := by
  apply h.grows
  · rw [hJournal]
    exact Journal.grows_refl _
  · intro id value _ hValue
    exact Or.inl (hValues id value hValue)

/- If the versions up to this one are right, so is a read of it. -/
theorem RightOn.readValue_eq
    (h : s.RightOn id.Covers)
    {c : CounterCache}
    (hCache : s.cache = some c) :
    Counter.readValue id c s.journal =
      s.journal.sumUpTo id.object id.version := by
  apply Counter.readValue_eq
  intro other value hCovers hValue
  rw [← reached_iff]
  apply h other value hCovers
  unfold valueAt?
  rw [hCache]
  exact hValue

theorem RightOn.exactAt
    (h : s.RightOn id.Covers)
    (hKept : s.Kept) : s.ExactAt id := by
  intro _
  rcases hKept.read_eq id with ⟨c, hCache, hRead, _⟩
  rw [hRead, h.readValue_eq hCache]

/- As long as the reads at these versions wait, they stay right. -/
theorem RightOn.step
    (h : s.RightOn ids)
    (hKept : s.Kept)
    (hDown : ∀ id other, ids id → id.Covers other → ids other)
    {action : Action}
    (hWaits : ∀ id, action = .read id → ids id → s.Reached id.version) :
    (s.step action).RightOn ids := by
  cases action with
  | write request =>
    exact h.grows (s.journal.grows_serve request)
      (fun _ _ _ hValue => Or.inl hValue)
  | read id =>
    rcases hKept.read_eq id with ⟨c, hCache, _, hValues, hIdle, _⟩
    apply h.grows hIdle.grows
    intro other value hOther hValue
    rw [hValues] at hValue
    split at hValue
    · next hSame =>
      subst hSame
      have hRight := h.mono (fun lower => hDown other lower hOther)
      rw [hRight.readValue_eq hCache] at hValue
      exact Or.inr ⟨hWaits other rfl hOther, (Option.some_inj.mp hValue).symm⟩
    · exact Or.inl hValue
  | evict id =>
    rcases hKept.evict_eq id with ⟨hValues, hJournal, _⟩
    apply h.forgets hJournal
    intro other value hValue
    exact ((hValues other value).mp hValue).1
  | lose id =>
    rcases hKept.lose_eq id with ⟨hValues, hJournal, _⟩
    exact h.forgets hJournal hValues

theorem RightOn.run
    (h : s.RightOn ids)
    (hKept : s.Kept)
    (hDown : ∀ id other, ids id → id.Covers other → ids other)
    {actions : List Action}
    (hWaits : s.Waits ids actions) : (s.run actions).RightOn ids := by
  induction actions generalizing s with
  | nil => exact h
  | cons action actions ih =>
    exact ih (h.step hKept hDown hWaits.1) (hKept.step action) hWaits.2

end Counters

end OrderedLog
