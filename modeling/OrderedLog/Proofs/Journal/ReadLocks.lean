import OrderedLog.Proofs.Journal.SharedCounters

/-
  This file proves that the lock of an object is taken exactly
  by the reader that is about to enter a version of it. That
  reader can always go on, so that every read can be finished.

  Key definitions include:
    * `SharedCounters.Orderly`
    * `SharedCounters.Finishes`

  Key lemmas include:
    * `SharedCounters.Orderly.lock`
    * `SharedCounters.Orderly.unlock`
    * `SharedCounters.Orderly.step`
    * `SharedCounters.finishes_of_free`
    * `SharedCounters.Orderly.finishes`
-/

namespace OrderedLog

namespace SharedCounters

------------------------------------------------------------
-- The owners of locks
------------------------------------------------------------

/-
  The lock of an object is taken by one reader, and that reader
  is about to enter the version it has stored.
-/
structure Orderly (s : SharedCounters) : Prop where
  held :
    ∀ reader id value,
      s.readings.get? reader = some ⟨id, .entering value⟩ →
        s.shared.storing.get? id.object = some id.version
  holder :
    ∀ object version,
      s.shared.storing.get? object = some version →
        ∃ reader value,
          s.readings.get? reader =
            some ⟨⟨object, version⟩, .entering value⟩
  alone :
    ∀ reader other id otherId value otherValue,
      s.readings.get? reader = some ⟨id, .entering value⟩ →
        s.readings.get? other = some ⟨otherId, .entering otherValue⟩ →
          id.object = otherId.object → reader = other

theorem Orderly.change
    {s : SharedCounters}
    (h : s.Orderly)
    {shared : SharedCache Int Unit}
    (hStoring : shared.storing = s.shared.storing)
    (journal : Journal) : Orderly { s with shared, journal } := by
  constructor
  · intro reader id value hReading
    rw [hStoring]
    exact h.held reader id value hReading
  · intro object version hLocked
    rw [hStoring] at hLocked
    exact h.holder object version hLocked
  · exact h.alone

theorem Orderly.withCache
    {s : SharedCounters}
    (h : s.Orderly)
    (cache : CounterCache) : (s.withCache cache).Orderly :=
  ⟨h.held, h.holder, h.alone⟩

/- A reader that neither had a lock nor takes one. -/
theorem Orderly.withReading
    {s : SharedCounters}
    (h : s.Orderly)
    {reader : Nat}
    {reading : Reading}
    (hOld : ∀ id value,
      s.readings.get? reader ≠ some ⟨id, .entering value⟩)
    (hNew : ∀ value, reading.phase ≠ .entering value) :
    (s.withReading reader reading).Orderly := by
  have hSame : ∀ other id value,
      (s.withReading reader reading).readings.get? other =
          some ⟨id, .entering value⟩ ↔
        s.readings.get? other = some ⟨id, .entering value⟩ := by
    intro other id value
    rw [get?_withReading]
    by_cases hReader : other = reader
    · rw [if_pos hReader, hReader]
      constructor
      · intro hEntering
        rw [Option.some_inj] at hEntering
        exact absurd (congrArg Reading.phase hEntering) (hNew value)
      · intro hEntering
        exact absurd hEntering (hOld id value)
    · rw [if_neg hReader]
  constructor
  · intro other id value hReading
    rw [hSame] at hReading
    exact h.held other id value hReading
  · intro object version hLocked
    rcases h.holder object version hLocked with
      ⟨other, value, hReading⟩
    exact ⟨other, value, (hSame _ _ _).mpr hReading⟩
  · intro one other id otherId value otherValue hOne hOther
    rw [hSame] at hOne hOther
    exact h.alone one other id otherId value otherValue hOne hOther

/- A reader that takes a free lock. -/
theorem Orderly.lock
    {s : SharedCounters}
    (h : s.Orderly)
    {reader : Nat}
    {id : VersionedId}
    {value : Int}
    (hFree : s.shared.locked id.object = false)
    {shared : SharedCache Int Unit}
    (hStoring :
      shared.storing = s.shared.storing.insert id.object id.version)
    (hOld : ∀ otherId otherValue,
      s.readings.get? reader ≠ some ⟨otherId, .entering otherValue⟩) :
    (SharedCounters.withReading { s with shared } reader
      ⟨id, .entering value⟩).Orderly := by
  rw [SharedCache.locked_eq_false_iff] at hFree
  -- nobody else is entering a version of the object
  have hNobody : ∀ other otherId otherValue,
      s.readings.get? other = some ⟨otherId, .entering otherValue⟩ →
        otherId.object ≠ id.object := by
    intro other otherId otherValue hReading hObject
    have hHeld := h.held other otherId otherValue hReading
    rw [hObject, hFree] at hHeld
    cases hHeld
  constructor
  · intro other otherId otherValue hReading
    rw [get?_withReading] at hReading
    change shared.storing.get? otherId.object = _
    rw [hStoring, SortedMap.get?_insert]
    split at hReading
    · cases hReading
      rw [if_pos rfl]
    · rw [if_neg (hNobody other otherId otherValue hReading)]
      exact h.held other otherId otherValue hReading
  · intro object version hLocked
    change shared.storing.get? object = some version at hLocked
    rw [hStoring, SortedMap.get?_insert] at hLocked
    split at hLocked
    · next hObject =>
      cases hLocked
      subst hObject
      refine ⟨reader, value, ?_⟩
      rw [get?_withReading, if_pos rfl]
    · rcases h.holder object version hLocked with
        ⟨other, otherValue, hReading⟩
      refine ⟨other, otherValue, ?_⟩
      rw [get?_withReading, if_neg]
      · exact hReading
      · intro hReader
        rw [hReader] at hReading
        exact hOld _ _ hReading
  · intro one other oneId otherId oneValue otherValue hOne hOther hSame
    rw [get?_withReading] at hOne hOther
    split at hOne
    · next hOneReader =>
      cases hOne
      split at hOther
      · next hOtherReader => rw [hOneReader, hOtherReader]
      · exact absurd hSame.symm
          (hNobody other otherId otherValue hOther)
    · split at hOther
      · cases hOther
        exact absurd hSame (hNobody one oneId oneValue hOne)
      · exact h.alone one other oneId otherId oneValue otherValue hOne
          hOther hSame

/- A reader that gives its lock up. -/
theorem Orderly.unlock
    {s : SharedCounters}
    (h : s.Orderly)
    {reader : Nat}
    {id : VersionedId}
    {value : Int}
    (hReading : s.readings.get? reader = some ⟨id, .entering value⟩) :
    (SharedCounters.withReading
      { s with shared := s.shared.enter id } reader
      ⟨id, .returned value⟩).Orderly := by
  have hOthers : ∀ other otherId otherValue,
      (SharedCounters.withReading
          { s with shared := s.shared.enter id } reader
          ⟨id, .returned value⟩).readings.get? other =
          some ⟨otherId, .entering otherValue⟩ ↔
        other ≠ reader ∧
          s.readings.get? other =
            some ⟨otherId, .entering otherValue⟩ := by
    intro other otherId otherValue
    rw [get?_withReading]
    by_cases hReader : other = reader
    · simp [hReader]
    · simp [hReader]
  have hStoring : ∀ object,
      (s.shared.enter id).storing.get? object =
        if object = id.object then none
        else s.shared.storing.get? object := by
    intro object
    exact SortedMap.get?_erase _ _ _
  constructor
  · intro other otherId otherValue hOther
    rw [hOthers] at hOther
    change (s.shared.enter id).storing.get? otherId.object = _
    rw [hStoring, if_neg]
    · exact h.held other otherId otherValue hOther.2
    · intro hObject
      exact hOther.1
        (h.alone other reader _ _ _ _ hOther.2 hReading hObject)
  · intro object version hLocked
    change (s.shared.enter id).storing.get? object = _ at hLocked
    rw [hStoring] at hLocked
    split at hLocked
    · cases hLocked
    · next hObject =>
      rcases h.holder object version hLocked with
        ⟨other, otherValue, hOther⟩
      refine ⟨other, otherValue, ?_⟩
      rw [hOthers]
      refine ⟨?_, hOther⟩
      intro hReader
      rw [hReader, hReading] at hOther
      cases hOther
      exact hObject rfl
  · intro one other oneId otherId oneValue otherValue hOne hOther
    rw [hOthers] at hOne hOther
    exact h.alone one other oneId otherId oneValue otherValue hOne.2
      hOther.2

/- A reader's next step leaves the locks in order. -/
theorem Orderly.readStep
    {s t : SharedCounters}
    (h : s.Orderly)
    {reader : Nat}
    {lost : List VersionedId}
    (hStep : ReadStep s reader lost t) : t.Orderly := by
  -- a reader in another phase has no lock
  have hOther : ∀ {id : VersionedId} {phase : ReadPhase},
      s.readings.get? reader = some ⟨id, phase⟩ →
        (∀ value, phase ≠ .entering value) →
          ∀ otherId value,
            s.readings.get? reader ≠ some ⟨otherId, .entering value⟩ := by
    intro id phase hReading hPhase otherId value hEntering
    rw [hReading, Option.some_inj] at hEntering
    exact hPhase value (congrArg Reading.phase hEntering)
  cases hStep with
  | idle => exact h
  | @hit id value cache hReading hFound =>
    apply (h.withCache cache).withReading
    · exact hOther hReading nofun
    · intro _ hPhase
      cases hPhase
  | @miss id cache hReading hFound =>
    apply (h.withCache cache).withReading
    · exact hOther hReading nofun
    · intro _ hPhase
      cases hPhase
  | @base id start after cache hReading hFound =>
    apply (h.withCache cache).withReading
    · exact hOther hReading nofun
    · intro _ hPhase
      cases hPhase
  | @replay id start after added journal hReading hReplayed =>
    have hChanged : Orderly { s with journal } := h.change rfl journal
    apply hChanged.withReading
    · exact hOther hReading nofun
    · intro _ hPhase
      cases hPhase
  | store hReading hFree =>
    apply h.lock hFree
    · rw [SharedCache.storing_foldl_lose, SharedCache.store_eq]
    · exact hOther hReading nofun
  | enter hReading => exact h.unlock hReading

/- Whatever happens leaves the locks in order. -/
theorem Orderly.step
    {s : SharedCounters}
    (h : s.Orderly)
    (batchSize : Nat)
    (action : Action) : (s.step batchSize action).Orderly := by
  unfold SharedCounters.step
  cases action with
  | append stream delta =>
    simp only
    split
    · exact h.change rfl _
    · exact h
  | commit transaction delta => exact h.change rfl _
  | call reader id =>
    simp only
    split
    · next hCall =>
      rw [Bool.and_eq_true] at hCall
      apply h.withReading
      · intro otherId value hEntering
        have hBusy : s.busy reader = true := by
          unfold busy
          rw [hEntering]
        rw [hBusy] at hCall
        cases hCall.1
      · exact nofun
    · exact h
  | advance reader lost =>
    exact h.readStep (readStep_advance s reader lost)
  | evict id =>
    simp only
    split
    · exact h
    · exact h.change (SharedCache.storing_evict s.shared id) _
  | lose id cause =>
    simp only
    split
    · exact h.change (SharedCache.storing_lose cause s.shared id) _
    · exact h
  | work =>
    simp only
    split
    · next hWork => exact h.change (SharedCache.storing_work hWork) _
    · exact h

------------------------------------------------------------
-- Finishing a read
------------------------------------------------------------

/- Some actions lead to the end of a reader's read. -/
def Finishes
    (batchSize : Nat)
    (s : SharedCounters)
    (reader : Nat)
    (id : VersionedId) : Prop :=
  ∃ actions value,
    (s.run batchSize actions).readings.get? reader =
      some ⟨id, .returned value⟩

variable {batchSize : Nat} {s : SharedCounters} {reader : Nat}
variable {id : VersionedId}

theorem finishes_of_advance
    (other : Nat)
    (h : Finishes batchSize (s.advance other []) reader id) :
    Finishes batchSize s reader id := by
  rcases h with ⟨actions, value, hReturned⟩
  exact ⟨.advance other [] :: actions, value, hReturned⟩

theorem finishes_returned
    {value : Int}
    (hReading : s.readings.get? reader = some ⟨id, .returned value⟩) :
    Finishes batchSize s reader id :=
  ⟨[], value, hReading⟩

theorem finishes_entering
    {value : Int}
    (hReading : s.readings.get? reader = some ⟨id, .entering value⟩) :
    Finishes batchSize s reader id := by
  apply finishes_of_advance reader
  rw [advance_entering hReading]
  exact finishes_returned (get?_withReading_self _ _ _)

theorem finishes_storing
    {value : Int}
    (hReading : s.readings.get? reader = some ⟨id, .storing value⟩)
    (hFree : s.shared.locked id.object = false) :
    Finishes batchSize s reader id := by
  apply finishes_of_advance reader
  rw [advance_storing hReading hFree]
  exact finishes_entering (get?_withReading_self _ _ _)

theorem finishes_replaying
    {start : Int}
    {after : Option Address}
    (hReading :
      s.readings.get? reader = some ⟨id, .replaying start after⟩)
    (hFree : s.shared.locked id.object = false) :
    Finishes batchSize s reader id := by
  rcases hReplay : s.journal.replay id.object after id.version with
    ⟨added, journal⟩
  apply finishes_of_advance reader
  rw [advance_replaying hReading hReplay]
  exact finishes_storing (get?_withReading_self _ _ _) hFree

theorem finishes_searching
    (hReading : s.readings.get? reader = some ⟨id, .searching⟩)
    (hFree : s.shared.locked id.object = false) :
    Finishes batchSize s reader id := by
  rcases hBase : Counter.base id s.shared.cache with
    ⟨⟨start, after⟩, cache⟩
  apply finishes_of_advance reader
  rw [advance_searching hReading hFree hBase]
  exact finishes_replaying (get?_withReading_self _ _ _) hFree

theorem finishes_looking
    (hReading : s.readings.get? reader = some ⟨id, .looking⟩)
    (hFree : s.shared.locked id.object = false) :
    Finishes batchSize s reader id := by
  rcases hExact : Counter.exact id s.shared.cache with ⟨found, cache⟩
  apply finishes_of_advance reader
  cases found with
  | some value =>
    rw [advance_of_hit hReading hExact]
    exact finishes_returned (get?_withReading_self _ _ _)
  | none =>
    rw [advance_of_miss hReading hExact]
    exact finishes_searching (get?_withReading_self _ _ _) hFree

/- With the lock free a reader can finish on its own. -/
theorem finishes_of_free
    {phase : ReadPhase}
    (hReading : s.readings.get? reader = some ⟨id, phase⟩)
    (hFree : s.shared.locked id.object = false) :
    Finishes batchSize s reader id := by
  cases phase with
  | looking => exact finishes_looking hReading hFree
  | searching => exact finishes_searching hReading hFree
  | replaying start after => exact finishes_replaying hReading hFree
  | storing value => exact finishes_storing hReading hFree
  | entering value => exact finishes_entering hReading
  | returned value => exact finishes_returned hReading

/-
  Every read can be finished: by the reader itself or, if its
  lock is taken, once the owner of the lock has given it up.
-/
theorem Orderly.finishes
    (h : s.Orderly)
    {phase : ReadPhase}
    (hReading : s.readings.get? reader = some ⟨id, phase⟩) :
    Finishes batchSize s reader id := by
  cases hLocked : s.shared.storing.get? id.object with
  | none =>
    exact finishes_of_free hReading
      (SharedCache.locked_eq_false_iff.mpr hLocked)
  | some version =>
    rcases h.holder id.object version hLocked with
      ⟨owner, value, hOwner⟩
    by_cases hSame : reader = owner
    · rw [hSame, hOwner, Option.some_inj] at hReading
      have hId : ⟨id.object, version⟩ = id :=
        congrArg Reading.id hReading
      rw [hId, ← hSame] at hOwner
      exact finishes_entering hOwner
    · have hFreed :
          (s.shared.enter ⟨id.object, version⟩).locked id.object =
            false := by
        rw [SharedCache.locked_eq_false_iff]
        exact (SortedMap.get?_erase _ _ _).trans (if_pos rfl)
      apply finishes_of_advance owner
      rw [advance_entering hOwner]
      have hStill :
          (SharedCounters.withReading
              { s with shared := s.shared.enter ⟨id.object, version⟩ }
              owner ⟨⟨id.object, version⟩, .returned value⟩
            ).readings.get? reader = some ⟨id, phase⟩ := by
        rw [get?_withReading, if_neg hSame]
        exact hReading
      exact finishes_of_free hStill hFreed

end SharedCounters

end OrderedLog
