import OrderedLog.Proofs.Journal.CachedReads
import OrderedLog.Proofs.Journal.SharedCounters

/-
  This file proves that shared counters never hold a wrong
  value: neither in the cache, nor in the hands of a reader,
  however far its read has come.

  Key definitions include:
    * `ReadPhase.Right`
    * `SharedCounters.Truthful`

  Key lemmas include:
    * `SharedCounters.Truthful.readStep`
    * `SharedCounters.grows_run`
    * `SharedCounters.Truthful.step`
-/

namespace OrderedLog

------------------------------------------------------------
-- Right values
------------------------------------------------------------

/- What a read has found out so far is right. -/
def ReadPhase.Right
    (j : Journal)
    (id : VersionedId) : ReadPhase → Prop
  | looking => True
  | searching => True
  | replaying start after => Counter.RightBase j id start after
  | storing value => value = j.sumUpTo id.object id.version
  | entering value => value = j.sumUpTo id.object id.version
  | returned value => value = j.sumUpTo id.object id.version

theorem ReadPhase.Right.grows
    {j k : Journal}
    {id : VersionedId}
    {phase : ReadPhase}
    (h : phase.Right j id)
    (hSettled : j.Settled id.version)
    (hGrows : j.Grows k) : phase.Right k id := by
  have hSame := hGrows.sums id.object id.version hSettled
  cases phase with
  | looking => trivial
  | searching => trivial
  | replaying start after => exact Counter.RightBase.grows h hGrows
  | storing value => exact Eq.trans h hSame.symm
  | entering value => exact Eq.trans h hSame.symm
  | returned value => exact Eq.trans h hSame.symm

namespace SharedCounters

/- The cache and all readers have right values. -/
structure Truthful (s : SharedCounters) : Prop where
  cached : Counter.Right s.shared.cache s.journal
  reading :
    ∀ reader id phase, s.readings.get? reader = some ⟨id, phase⟩ →
      s.journal.Settled id.version ∧ phase.Right s.journal id

theorem Truthful.change
    {s : SharedCounters}
    (h : s.Truthful)
    {shared : SharedCache Int Unit}
    {journal : Journal}
    (hCached : Counter.Right shared.cache journal)
    (hGrows : s.journal.Grows journal) :
    Truthful { s with shared, journal } := by
  constructor
  · exact hCached
  · intro reader id phase hReading
    rcases h.reading reader id phase hReading with ⟨hSettled, hRight⟩
    exact ⟨hGrows.settled _ hSettled, hRight.grows hSettled hGrows⟩

theorem Truthful.withReading
    {s : SharedCounters}
    (h : s.Truthful)
    (reader : Nat)
    {id : VersionedId}
    {phase : ReadPhase}
    (hSettled : s.journal.Settled id.version)
    (hRight : phase.Right s.journal id) :
    (s.withReading reader ⟨id, phase⟩).Truthful := by
  constructor
  · exact h.cached
  · intro other otherId otherPhase hReading
    rw [get?_withReading] at hReading
    split at hReading
    · cases hReading
      exact ⟨hSettled, hRight⟩
    · exact h.reading other otherId otherPhase hReading

/- A reached address was handed out. -/
theorem settled_of_reached
    {s : SharedCounters}
    {address : Address}
    (h : s.reached address = true) : s.journal.Settled address := by
  unfold reached at h
  split at h
  · cases h
  · next tail hTail =>
    have hBelow := of_decide_eq_true h
    have hVal := Address.pred?_eq_some_iff.mp hTail
    unfold Journal.Settled
    rw [Address.le_iff_val_le] at hBelow
    rw [Address.lt_iff_val_lt]
    omega

/- A read goes from right values to right values. -/
theorem Truthful.readStep
    {s t : SharedCounters}
    (h : s.Truthful)
    {reader : Nat}
    {lost : List VersionedId}
    (hStep : ReadStep s reader lost t) : t.Truthful := by
  cases hStep with
  | idle => exact h
  | @hit id value cache hReading hFound =>
    have hExact := h.cached.exact id
    rw [hFound] at hExact
    have hSettled := (h.reading _ _ _ hReading).1
    exact (h.change hExact.1 (Journal.grows_refl _)).withReading reader
      hSettled (hExact.2 value rfl)
  | @miss id cache hReading hFound =>
    have hExact := h.cached.exact id
    rw [hFound] at hExact
    have hSettled := (h.reading _ _ _ hReading).1
    exact (h.change hExact.1 (Journal.grows_refl _)).withReading reader
      hSettled trivial
  | @base id start after cache hReading hFound =>
    have hBase := h.cached.base id
    rw [hFound] at hBase
    have hSettled := (h.reading _ _ _ hReading).1
    exact (h.change hBase.1 (Journal.grows_refl _)).withReading reader
      hSettled hBase.2
  | @replay id start after added journal hReading hReplayed =>
    rcases h.reading _ _ _ hReading with ⟨hSettled, hRight⟩
    have hSum := Counter.RightBase.add_replay hRight
    have hGrows :=
      s.journal.grows_replay id.object after id.version
    rw [hReplayed] at hSum hGrows
    refine (h.change (h.cached.grows hGrows) hGrows).withReading reader
      (hGrows.settled _ hSettled) ?_
    change start + added = journal.sumUpTo id.object id.version
    rw [hGrows.sums _ _ hSettled]
    exact hSum
  | @store id value hReading hFree =>
    rcases h.reading _ _ _ hReading with ⟨hSettled, hRight⟩
    have hValue : value = s.journal.sumUpTo id.object id.version := hRight
    have hStored :
        Counter.Right (s.shared.store id value).cache s.journal := by
      rw [SharedCache.store_eq, hValue]
      exact h.cached.insertSnapshot id hSettled
    have hLost := hStored.within
      (SharedCache.within_foldl_lose .size lost (s.shared.store id value))
    exact (h.change hLost (Journal.grows_refl _)).withReading reader
      hSettled hValue
  | @enter id value hReading =>
    rcases h.reading _ _ _ hReading with ⟨hSettled, hRight⟩
    have hEntered :
        Counter.Right (s.shared.enter id).cache s.journal :=
      h.cached.within (SnapshotCache.within_of_live_eq rfl)
    exact (h.change hEntered (Journal.grows_refl _)).withReading reader
      hSettled hRight

theorem grows_readStep
    {s t : SharedCounters}
    {reader : Nat}
    {lost : List VersionedId}
    (hStep : ReadStep s reader lost t) : s.journal.Grows t.journal := by
  cases hStep with
  | @replay id start after added journal hReading hReplayed =>
    have hGrows := s.journal.grows_replay id.object after id.version
    rw [hReplayed] at hGrows
    exact hGrows
  | idle => exact Journal.grows_refl _
  | hit hReading hFound => exact Journal.grows_refl _
  | miss hReading hFound => exact Journal.grows_refl _
  | base hReading hFound => exact Journal.grows_refl _
  | store hReading hFree => exact Journal.grows_refl _
  | enter hReading => exact Journal.grows_refl _

/- Whatever happens, the log only grows. -/
theorem grows_step
    (batchSize : Nat)
    (s : SharedCounters)
    (action : Action) :
    s.journal.Grows (s.step batchSize action).journal := by
  unfold SharedCounters.step
  cases action with
  | append stream delta =>
    simp only
    split
    · next hAppend => exact Journal.grows_append hAppend
    · exact Journal.grows_refl _
  | commit transaction delta =>
    exact Journal.grows_commit s.journal transaction delta
  | call reader id =>
    simp only
    split <;> exact Journal.grows_refl _
  | advance reader lost =>
    exact grows_readStep (readStep_advance s reader lost)
  | evict id =>
    simp only
    split <;> exact Journal.grows_refl _
  | lose id cause =>
    simp only
    split <;> exact Journal.grows_refl _
  | work =>
    simp only
    split <;> exact Journal.grows_refl _

theorem grows_run
    (batchSize : Nat)
    (s : SharedCounters)
    (actions : List Action) :
    s.journal.Grows (s.run batchSize actions).journal := by
  induction actions generalizing s with
  | nil => exact Journal.grows_refl _
  | cons action actions ih =>
    exact (grows_step batchSize s action).trans (ih _)

/- Whatever happens, all values stay right. -/
theorem Truthful.step
    {s : SharedCounters}
    (h : s.Truthful)
    (batchSize : Nat)
    (action : Action) : (s.step batchSize action).Truthful := by
  have hGrows := grows_step batchSize s action
  unfold SharedCounters.step at hGrows ⊢
  cases action with
  | append stream delta =>
    simp only at hGrows ⊢
    split at hGrows
    · exact h.change (h.cached.grows hGrows) hGrows
    · exact h
  | commit transaction delta =>
    exact h.change (h.cached.grows hGrows) hGrows
  | call reader id =>
    simp only
    split
    · next hCall =>
      rw [Bool.and_eq_true] at hCall
      exact h.withReading reader (settled_of_reached hCall.2) trivial
    · exact h
  | advance reader lost =>
    exact h.readStep (readStep_advance s reader lost)
  | evict id =>
    simp only
    split
    · exact h
    · exact h.change (h.cached.within (s.shared.within_evict id))
        (Journal.grows_refl _)
  | lose id cause =>
    simp only
    split
    · exact h.change
        (h.cached.within (SharedCache.within_lose cause s.shared id))
        (Journal.grows_refl _)
    · exact h
  | work =>
    simp only
    split
    · next hWork =>
      exact h.change (h.cached.within (SharedCache.within_work hWork))
        (Journal.grows_refl _)
    · exact h

end SharedCounters

end OrderedLog
