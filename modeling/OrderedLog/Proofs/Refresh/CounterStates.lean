import OrderedLog.Proofs.Journal.CounterRuns

/-
  This file defines what may happen to a log and its counters
  when nothing is read ahead of the log and every loss of a
  snapshot is followed by an eviction, and proves what holds
  of the cache then: what is cached is right, and the index
  has a version without a snapshot only as long as that
  eviction is still to come.

  Key definitions include:
    * `Counters.Event`
    * `Counters.follow`
    * `Counters.ReadsWait`
    * `Counters.Reconciled`
    * `Counters.Orderly`

  Key lemmas include:
    * `Counters.Orderly.of_sameContents`
    * `Counters.Orderly.acts`
    * `Counters.Orderly.read`
    * `Counters.Orderly.happen`
    * `Counters.Orderly.follow`
    * `Counters.orderly_new`
-/

namespace OrderedLog

namespace Counters

------------------------------------------------------------
-- Events
------------------------------------------------------------

/- What may happen to a log and its counters. -/
inductive Event where
  /- A counter is made known to the cache. -/
  | opens
      (object : StreamId)
  | acts
      (action : Action)
deriving DecidableEq

/- The log and the cache after one event. -/
def happen
    (s : Counters) : Event → Counters
  | .opens object => s.openCounter object
  | .acts action => s.step action

/- The log and the cache after some events. -/
def follow
    (s : Counters)
    (events : List Event) : Counters :=
  events.foldl happen s

/- Whether a read waits until the log has reached its version. -/
def Timely
    (s : Counters) : Event → Prop
  | .acts (.read id) => s.Reached id.version
  | _ => True

/- All reads wait for the log. -/
def ReadsWait
    (s : Counters) : List Event → Prop
  | [] => True
  | event :: later => s.Timely event ∧ ReadsWait (s.happen event) later

/- Whether a version is evicted. -/
def Clears
    (id : VersionedId) : Event → Prop
  | .acts (.evict bound) => bound.Covers id
  | _ => False

/- Whether a loss is made good by what comes later. -/
def MadeGood
    (later : List Event) : Event → Prop
  | .acts (.lose id) => ∃ event ∈ later, Clears id event
  | _ => True

/- All losses are made good. -/
def Reconciled : List Event → Prop
  | [] => True
  | event :: later => MadeGood later event ∧ Reconciled later

instance
    (s : Counters)
    (address : Address) : Decidable (s.Reached address) :=
  inferInstanceAs
    (Decidable (∃ tail ∈ s.journal.sequencer.tail?, address ≤ tail))

instance
    (s : Counters) :
    (event : Event) → Decidable (s.Timely event)
  | .acts (.read id) => inferInstanceAs (Decidable (s.Reached id.version))
  | .opens _
  | .acts (.write _)
  | .acts (.evict _)
  | .acts (.lose _) => isTrue trivial

instance decidableReadsWait
    (s : Counters) :
    (events : List Event) → Decidable (s.ReadsWait events)
  | [] => isTrue trivial
  | event :: later =>
    have := decidableReadsWait (s.happen event) later
    inferInstanceAs
      (Decidable (s.Timely event ∧ ReadsWait (s.happen event) later))

instance
    (id : VersionedId) :
    (event : Event) → Decidable (Clears id event)
  | .acts (.evict bound) => inferInstanceAs (Decidable (bound.Covers id))
  | .opens _
  | .acts (.write _)
  | .acts (.read _)
  | .acts (.lose _) => isFalse not_false

instance
    (later : List Event) :
    (event : Event) → Decidable (MadeGood later event)
  | .acts (.lose id) =>
    inferInstanceAs (Decidable (∃ event ∈ later, Clears id event))
  | .opens _
  | .acts (.write _)
  | .acts (.read _)
  | .acts (.evict _) => isTrue trivial

instance decidableReconciled :
    (events : List Event) → Decidable (Reconciled events)
  | [] => isTrue trivial
  | event :: later =>
    have := decidableReconciled later
    inferInstanceAs (Decidable (MadeGood later event ∧ Reconciled later))

------------------------------------------------------------
-- Orderly states
------------------------------------------------------------

/-
  What is cached is right, and was reached by the log. What is
  indexed is cached, or it will be evicted.
-/
structure Orderly
    (s : Counters)
    (later : List Event) : Prop where
  kept : s.Kept
  right : s.RightOn (fun _ => True)
  live :
    ∀ c, s.cache = some c → ∀ id, c.Indexes id →
      (∃ value, c.valueAt? id = some value) ∨
        ∃ event ∈ later, Clears id event

variable {s : Counters}
variable {c d : CounterCache}
variable {j k : Journal}
variable {id : VersionedId}
variable {event : Event}
variable {later : List Event}

/- Only the contents of a cache have a part in this. -/
theorem Orderly.of_sameContents
    (h : Orderly ⟨j, some c⟩ later)
    (hSame : d.SameContents c) : Orderly ⟨j, some d⟩ later := by
  have hLive := h.live c rfl
  rcases h.kept.indexed with ⟨_, hCache, hIndexed⟩
  obtain rfl := Option.some.inj hCache
  constructor
  · refine ⟨h.kept.inStep, d, rfl, ?_⟩
    intro id value hValue
    rw [hSame.values] at hValue
    exact hSame.indexes_iff.mpr (hIndexed id value hValue)
  · have hJournal : (⟨j, some d⟩ : Counters).journal =
        (⟨j, some c⟩ : Counters).journal := rfl
    apply h.right.forgets hJournal
    intro id value hValue
    exact (hSame.values id).symm.trans hValue
  · intro e hCache id hIndexes
    obtain rfl := Option.some.inj hCache
    rw [hSame.indexes_iff] at hIndexes
    rw [hSame.values]
    exact hLive id hIndexes

theorem sameContents_addObject
    (c : CounterCache)
    (object : StreamId) : (c.addObject object ()).SameContents c := by
  unfold SnapshotCache.addObject
  split
  · exact SnapshotCache.sameContents_of_eq rfl rfl
  · exact SnapshotCache.sameContents_of_eq rfl rfl

/- What an event does not evict is cached, or will be evicted later. -/
theorem Orderly.live_later
    (h : s.Orderly (event :: later))
    (hCache : s.cache = some c)
    (hIndexes : c.Indexes id)
    (hNot : ¬ Clears id event) :
    (∃ value, c.valueAt? id = some value) ∨
      ∃ e ∈ later, Clears id e := by
  rcases h.live c hCache id hIndexes with hValue | ⟨e, hMem, hClears⟩
  · exact Or.inl hValue
  · rcases List.mem_cons.mp hMem with hFirst | hLater
    · exact absurd (hFirst ▸ hClears) hNot
    · exact Or.inr ⟨e, hLater, hClears⟩

theorem Orderly.opens
    {object : StreamId}
    (h : s.Orderly (.opens object :: later)) :
    (s.openCounter object).Orderly later := by
  rcases h.kept.indexed with ⟨c, hCache, _⟩
  have hState : s = ⟨s.journal, some c⟩ := by
    rw [← hCache]
  have hLater : Orderly ⟨s.journal, some c⟩ later := by
    rw [← hState]
    exact ⟨h.kept, h.right, fun c hCache id hIndexes =>
      h.live_later hCache hIndexes not_false⟩
  have hOpened : s.openCounter object =
      ⟨s.journal, some (c.addObject object ())⟩ := by
    unfold openCounter
    rw [hCache]
    rfl
  rw [hOpened]
  exact hLater.of_sameContents (sameContents_addObject c object)

/- It is left to see that what is indexed stays cached. -/
theorem Orderly.acts
    {action : Action}
    (h : s.Orderly (.acts action :: later))
    (hTimely : s.Timely (.acts action))
    (hLive :
      ∀ d, (s.step action).cache = some d → ∀ id, d.Indexes id →
        (∃ value, d.valueAt? id = some value) ∨
          ∃ event ∈ later, Clears id event) :
    (s.step action).Orderly later where
  kept := h.kept.step action
  right := by
    apply h.right.step h.kept (fun _ _ _ _ => trivial)
    intro id hRead _
    subst hRead
    exact hTimely
  live := hLive

theorem Orderly.write
    {request : Journal.Request}
    (h : s.Orderly (.acts (.write request) :: later)) :
    (s.step (.write request)).Orderly later := by
  apply h.acts trivial
  intro c hCache id hIndexes
  exact h.live_later hCache hIndexes not_false

/- A read leaves its version with a snapshot. -/
theorem Orderly.read
    (h : s.Orderly (.acts (.read id) :: later))
    (hReached : s.Reached id.version) :
    (s.step (.read id)).Orderly later := by
  rcases h.kept.indexed with ⟨c, hCache, _⟩
  have hLeaves := (Counter.readCached_eq id c s.journal).2
  have hState : (s.step (.read id)).cache =
      some (Counter.readCached id.object id.version
        (c, s.journal)).2.1 := by
    unfold step Counters.read
    rw [hCache]
  apply h.acts hReached
  intro d hLater other hIndexes
  rw [hState] at hLater
  obtain rfl := Option.some.inj hLater
  rw [hLeaves.indexes] at hIndexes
  rw [hLeaves.values]
  by_cases hSame : other = id
  · rw [if_pos hSame]
    exact Or.inl ⟨_, rfl⟩
  · rw [if_neg hSame]
    have hOld := hIndexes.resolve_right (fun hNew => hSame hNew.1)
    exact h.live_later hCache hOld not_false

theorem Orderly.evict
    (h : s.Orderly (.acts (.evict id) :: later)) :
    (s.step (.evict id)).Orderly later := by
  rcases h.kept.indexed with ⟨c, hCache, hIndexed⟩
  have hState : (s.step (.evict id)).cache =
      some (c.evictThrough id).2 := by
    unfold step evictThrough
    rw [hCache]
  apply h.acts trivial
  intro d hLater other hIndexes
  rw [hState] at hLater
  obtain rfl := Option.some.inj hLater
  rcases SnapshotCache.indexes_evictThrough_iff.mp hIndexes with
    ⟨hOld, hNot⟩
  rcases h.live_later hCache hOld hNot with ⟨value, hValue⟩ | hClears
  · exact Or.inl
      ⟨value, (valueAt?_evictThrough_iff hIndexed).mpr ⟨hValue, hNot⟩⟩
  · exact Or.inr hClears

theorem Orderly.lose
    (h : s.Orderly (.acts (.lose id) :: later))
    (hMadeGood : ∃ event ∈ later, Clears id event) :
    (s.step (.lose id)).Orderly later := by
  rcases h.kept.indexed with ⟨c, hCache, _⟩
  have hState : (s.step (.lose id)).cache =
      some (c.dropSnapshot id) := by
    unfold step
    rw [hCache]
    rfl
  apply h.acts trivial
  intro d hLater other hIndexes
  rw [hState] at hLater
  obtain rfl := Option.some.inj hLater
  by_cases hSame : other = id
  · exact Or.inr (hSame ▸ hMadeGood)
  · have hValue : (c.dropSnapshot id).valueAt? other =
        c.valueAt? other := by
      unfold SnapshotCache.valueAt? SnapshotCache.dropSnapshot
      simp only [SortedMap.get?_erase, if_neg hSame]
    rw [hValue]
    exact h.live_later hCache hIndexes not_false

theorem Orderly.happen
    (h : s.Orderly (event :: later))
    (hTimely : s.Timely event)
    (hMadeGood : MadeGood later event) :
    (s.happen event).Orderly later := by
  cases event with
  | opens object => exact h.opens
  | acts action =>
    cases action with
    | write request => exact h.write
    | read id => exact h.read hTimely
    | evict id => exact h.evict
    | lose id => exact h.lose hMadeGood

/- When all losses are made good, all that is indexed is cached. -/
theorem Orderly.follow
    {events : List Event}
    (h : s.Orderly events)
    (hReads : s.ReadsWait events)
    (hReconciled : Reconciled events) :
    (s.follow events).Orderly [] := by
  induction events generalizing s with
  | nil => exact h
  | cons event later ih =>
    exact ih (h.happen hReads.1 hReconciled.1) hReads.2 hReconciled.2

theorem orderly_new
    {capacity : Nat}
    {start : Counters}
    (h : new? capacity = .ok start)
    (events : List Event) : start.Orderly events := by
  rcases kept_new h with ⟨hKept, hNone⟩
  refine ⟨hKept, ?_, ?_⟩
  · intro id value _ hValue
    rw [hNone] at hValue
    exact absurd hValue nofun
  · intro c hCache id hIndexes
    unfold new? at h
    split at h
    · obtain rfl := Except.ok.inj h
      obtain rfl := Option.some.inj hCache
      exact absurd hIndexes List.not_mem_nil
    · exact absurd h nofun

end Counters

end OrderedLog
