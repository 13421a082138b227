import OrderedLog.Proofs.SnapshotCache.Contents
import OrderedLog.Proofs.SnapshotCache.Sharing

/-
  This file proves that the index of versions and the live
  snapshots always reconcile, however puts, evictions, losses
  and steps of the eviction worker come upon each other.

  The invariant treats a version that a put is about to enter
  as indexed already. The lock of its object keeps the worker
  from an eviction that would come between the two steps.

  As with the eviction pipeline, this takes a worker with room
  for its batches. Without one the first lost snapshot leaves
  its version in the index for good.

  Key definitions include:
    * `SharedCache.Noted`
    * `SharedCache.Sound`
    * `SharedCache.Reconciled`

  Key lemmas include:
    * `SharedCache.Sound.lose`
    * `SharedCache.Sound.store`
    * `SharedCache.Sound.enter`
    * `SharedCache.Sound.evict`
    * `SharedCache.Sound.step`
    * `SharedCache.sound_of_reachable`
    * `SharedCache.Sound.reconciled`
    * `SharedCache.strand`

  Key theorems include:
    * `SharedCache.reconciled_iff`
-/

namespace OrderedLog

namespace SharedCache

variable {σ ρ : Type}

------------------------------------------------------------
-- The invariant
------------------------------------------------------------

/- A version is in the index, or a put is about to enter it. -/
def Noted
    (s : SharedCache σ ρ)
    (id : VersionedId) : Prop :=
  s.cache.Indexes id ∨ s.storing.get? id.object = some id.version

/-
  The worker lives, every live snapshot is noted, and a noted
  version without a live snapshot is covered by something the
  worker was told and has not evicted yet.
-/
structure Sound (s : SharedCache σ ρ) : Prop where
  alive : EvictionWorker.Alive s.queue s.worker
  noted : ∀ id, s.cache.isLive id = true → s.Noted id
  covered :
    ∀ id, s.Noted id →
      s.cache.isLive id = true ∨ id.CoveredBy s.outstanding

theorem sound_start
    {batchSize : Nat}
    (hFits : EvictionWorker.fits batchSize = true)
    (capacity : Nat) :
    (start batchSize capacity : SharedCache σ ρ).Sound := by
  constructor
  · exact EvictionWorker.start_alive hFits capacity
  · intro id hLive
    cases hLive
  · intro id hNoted
    rcases hNoted with hIndexed | hStoring
    · cases hIndexed
    · cases hStoring

/- A version of an object that no put has the lock of. -/
theorem noted_iff_of_free
    {s : SharedCache σ ρ}
    {id : VersionedId}
    (hFree : s.locked id.object = false) :
    s.Noted id ↔ s.cache.Indexes id := by
  unfold Noted
  have hNone : s.storing.get? id.object = none := by
    unfold locked SortedMap.contains at hFree
    exact Option.not_isSome_iff_eq_none.mp (by simp [hFree])
  rw [hNone]
  simp

------------------------------------------------------------
-- Steps
------------------------------------------------------------

/- A snapshot that is lost is reported before anyone notices. -/
theorem Sound.lose
    {s : SharedCache σ ρ}
    (h : s.Sound)
    (id : VersionedId)
    {cause : RemovalCause}
    (hCause : cause.evicted = true) : (s.lose cause id).Sound := by
  unfold SharedCache.lose
  split
  · rcases s.queue.report_heard id hCause h.alive.receiver with
      ⟨outcome, next, hReport, _, hSender, hReceiver, hCarries⟩
    have hOutstanding :
        Carries (s.outstanding ++ [id])
          (EvictionWorker.outstanding next s.worker) :=
      EvictionWorker.carries_reported hCarries s.worker
    unfold notify
    simp only [hReport]
    constructor
    · exact ⟨h.alive.running, hSender.trans h.alive.sender, hReceiver⟩
    · intro other hLive
      exact h.noted other
        (SnapshotCache.isLive_dropSnapshot_iff.mp hLive).2
    · intro other hNoted
      by_cases hLost : other = id
      · right
        apply hOutstanding.covered
        rw [hLost]
        exact List.mem_append_right _ (List.mem_singleton_self id)
      · rcases h.covered other hNoted with hLive | hCovered
        · left
          exact SnapshotCache.isLive_dropSnapshot_iff.mpr
            ⟨hLost, hLive⟩
        · right
          exact (hCovered.mono (List.subset_append_left _ _)).trans
            hOutstanding.covered
  · exact h

theorem Sound.foldl_lose
    {s : SharedCache σ ρ}
    (h : s.Sound)
    (ids : List VersionedId)
    {cause : RemovalCause}
    (hCause : cause.evicted = true) :
    (ids.foldl (SharedCache.lose cause) s).Sound := by
  induction ids generalizing s with
  | nil => exact h
  | cons id ids ih => exact ih (h.lose id hCause)

/- A put that takes a free lock notes the version it stores. -/
theorem Sound.store
    {s : SharedCache σ ρ}
    (h : s.Sound)
    {id : VersionedId}
    (value : σ)
    (hFree : s.locked id.object = false) : (s.store id value).Sound := by
  have hNoted : ∀ other,
      (s.store id value).Noted other ↔ other = id ∨ s.Noted other := by
    intro other
    rw [store_eq]
    unfold Noted
    simp only [SortedMap.get?_insert]
    by_cases hObject : other.object = id.object
    · have hOther : s.locked other.object = false := hObject ▸ hFree
      have hOld := noted_iff_of_free hOther
      unfold Noted at hOld
      rw [if_pos hObject, hOld, Option.some_inj, or_comm]
      apply or_congr_left
      constructor
      · intro hVersion
        exact VersionedId.eq_of_parts_eq hObject hVersion.symm
      · intro hSame
        rw [hSame]
    · rw [if_neg hObject]
      constructor
      · intro hOld
        exact Or.inr hOld
      · intro hEither
        rcases hEither with hSame | hOld
        · exact absurd (congrArg VersionedId.object hSame) hObject
        · exact hOld
  have hLive : ∀ other,
      (s.store id value).cache.isLive other = true ↔
        other = id ∨ s.cache.isLive other = true := by
    intro other
    rw [store_eq]
    exact SnapshotCache.isLive_insertSnapshot_iff
  have hAlive :
      EvictionWorker.Alive (s.store id value).queue
        (s.store id value).worker := by
    rw [store_eq]
    exact h.alive
  have hOutstanding :
      (s.store id value).outstanding = s.outstanding := by
    rw [store_eq]
    rfl
  constructor
  · exact hAlive
  · intro other hOther
    rw [hLive] at hOther
    rw [hNoted]
    exact hOther.imp_right (h.noted other)
  · intro other hOther
    rw [hNoted] at hOther
    rw [hLive, hOutstanding]
    rcases hOther with hSame | hOld
    · exact Or.inl (Or.inl hSame)
    · rcases h.covered other hOld with hLiving | hCovered
      · exact Or.inl (Or.inr hLiving)
      · exact Or.inr hCovered

/- A put that enters its version notes nothing new by that. -/
theorem Sound.enter
    {s : SharedCache σ ρ}
    (h : s.Sound)
    {id : VersionedId}
    (hStoring : s.storing.get? id.object = some id.version) :
    (s.enter id).Sound := by
  have hNoted : ∀ other, (s.enter id).Noted other ↔ s.Noted other := by
    intro other
    unfold Noted
    have hIndexes :
        (s.enter id).cache.Indexes other ↔
          other = id ∨ s.cache.Indexes other :=
      SnapshotCache.indexes_indexVersion_iff
    rw [hIndexes]
    unfold SharedCache.enter
    simp only [SortedMap.get?_erase]
    by_cases hObject : other.object = id.object
    · rw [if_pos hObject, hObject, hStoring, Option.some_inj]
      simp only [reduceCtorEq, or_false]
      rw [or_comm]
      apply or_congr_right
      constructor
      · intro hSame
        rw [hSame]
      · intro hVersion
        exact VersionedId.eq_of_parts_eq hObject hVersion.symm
    · rw [if_neg hObject, or_assoc]
      constructor
      · intro hEither
        rcases hEither with hSame | hOld
        · exact absurd (congrArg VersionedId.object hSame) hObject
        · exact hOld
      · intro hOld
        exact Or.inr hOld
  constructor
  · exact h.alive
  · intro other hLive
    rw [hNoted]
    exact h.noted other hLive
  · intro other hOther
    rw [hNoted] at hOther
    exact h.covered other hOther

/-
  An eviction under a free lock, together with a step of the
  queue and the worker that hands over nothing but what the
  eviction covers.
-/
theorem Sound.evict
    {s : SharedCache σ ρ}
    (h : s.Sound)
    {id : VersionedId}
    (hFree : s.locked id.object = false)
    {queue : NoticeQueue}
    {worker : EvictionWorker}
    (hAlive : EvictionWorker.Alive queue worker)
    (hCovered :
      ∀ other ∈ s.outstanding,
        other.CoveredBy (EvictionWorker.outstanding queue worker ++ [id])) :
    (SharedCache.evict { s with queue, worker } id).Sound := by
  rw [evict_eq]
  -- the eviction covers nothing that is noted afterwards
  have hNoted : ∀ other,
      (SharedCache.Noted
        { s with
          cache := (s.cache.evictThrough id).2
          queue
          worker } other) ↔
        s.Noted other ∧ ¬ id.Covers other := by
    intro other
    unfold Noted
    rw [SnapshotCache.indexes_evictThrough_iff]
    by_cases hCovers : id.Covers other
    · have hOther : s.locked other.object = false := hCovers.1 ▸ hFree
      have hNone := noted_iff_of_free hOther
      unfold Noted at hNone
      simp only [hCovers, not_true, and_false, false_or, iff_false]
      intro hStoring
      unfold locked SortedMap.contains at hOther
      rw [hStoring] at hOther
      cases hOther
    · simp [hCovers]
  constructor
  · exact hAlive
  · intro other hLive
    rw [hNoted]
    have hOld := SnapshotCache.isLive_evictThrough_iff.mp hLive
    have hOldNoted := h.noted other hOld.1
    refine ⟨hOldNoted, ?_⟩
    intro hCovers
    have hOther : s.locked other.object = false := hCovers.1 ▸ hFree
    exact hOld.2 ⟨hCovers, (noted_iff_of_free hOther).mp hOldNoted⟩
  · intro other hOther
    rw [hNoted] at hOther
    rcases hOther with ⟨hOld, hCovers⟩
    rcases h.covered other hOld with hLive | hCoveredBefore
    · left
      apply SnapshotCache.isLive_evictThrough_iff.mpr
      exact ⟨hLive, fun hBoth => hCovers hBoth.1⟩
    · right
      rcases hCoveredBefore.trans hCovered with
        ⟨another, hAnother, hAbove⟩
      rcases List.mem_append.mp hAnother with hLeft | hTarget
      · exact ⟨another, hLeft, hAbove⟩
      · rw [List.mem_singleton] at hTarget
        rw [hTarget] at hAbove
        exact absurd hAbove hCovers

/- A step of the worker, with the eviction it may ask for. -/
theorem Sound.work
    {s t : SharedCache σ ρ}
    (h : s.Sound)
    {batchSize : Nat}
    (hWork : s.work? batchSize = some t) : t.Sound := by
  have hAlive := h.alive.step batchSize
  have hStep :=
    EvictionWorker.carries_step batchSize false s.queue s.worker
  unfold work? at hWork
  cases hCall : (s.worker.step batchSize false s.queue).call with
  | none =>
    rw [hCall] at hStep
    simp only [hCall, Option.some_inj] at hWork
    subst hWork
    rw [Option.toList_none, List.append_nil] at hStep
    constructor
    · exact hAlive
    · exact h.noted
    · intro other hOther
      exact (h.covered other hOther).imp_right
        (fun hCovered => hCovered.trans hStep.covered)
  | some id =>
    rw [hCall] at hStep
    simp only [hCall] at hWork
    split at hWork
    · cases hWork
    · next hFree =>
      cases hWork
      exact h.evict (Bool.eq_false_iff.mpr hFree) hAlive hStep.covered

/- Whatever happens keeps the invariant. -/
theorem Sound.step
    {s t : SharedCache σ ρ}
    (h : s.Sound)
    {batchSize : Nat}
    {action : Action σ}
    (hStep : s.step? batchSize action = some t) : t.Sound := by
  unfold step? at hStep
  cases action with
  | store id value lost =>
    simp only at hStep
    split at hStep
    · cases hStep
    · next hFree =>
      cases hStep
      exact (h.store value (Bool.eq_false_iff.mpr hFree)).foldl_lose
        lost rfl
  | enter object =>
    simp only at hStep
    split at hStep
    · cases hStep
    · next hStoring =>
      cases hStep
      exact h.enter hStoring
  | evict id =>
    simp only at hStep
    split at hStep
    · cases hStep
    · next hFree =>
      cases hStep
      refine h.evict (Bool.eq_false_iff.mpr hFree) h.alive ?_
      intro other hOther
      exact VersionedId.coveredBy_of_mem (List.mem_append_left _ hOther)
  | lose id cause =>
    simp only at hStep
    split at hStep
    · next hCause =>
      cases hStep
      exact h.lose id hCause
    · cases hStep
  | work => exact h.work hStep

theorem sound_of_reachable
    {batchSize : Nat}
    (hFits : EvictionWorker.fits batchSize = true)
    {capacity : Nat}
    {s : SharedCache σ ρ}
    (h : Reachable batchSize capacity s) : s.Sound := by
  induction h with
  | start => exact sound_start hFits capacity
  | step action before taken ih => exact ih.step taken

------------------------------------------------------------
-- Reconciliation
------------------------------------------------------------

/- What holds for every object whose lock is free. -/
structure Reconciled (s : SharedCache σ ρ) : Prop where
  /- A version with a live snapshot is indexed. -/
  indexed :
    ∀ id, s.locked id.object = false → s.cache.isLive id = true →
      s.cache.Indexes id
  /- The worker was told of indexed versions without a snapshot. -/
  noticed :
    ∀ id, s.locked id.object = false → s.cache.Indexes id →
      s.cache.isLive id = false → id.CoveredBy s.outstanding
  /-
    When the worker has dealt with all that it was told, just
    the versions with a live snapshot are indexed.
  -/
  exact :
    s.outstanding = [] → ∀ object, s.locked object = false →
      s.cache.versionList object = s.cache.liveVersions object

theorem Sound.reconciled
    {s : SharedCache σ ρ}
    (h : s.Sound) : s.Reconciled := by
  have hIndexed : ∀ id, s.locked id.object = false →
      s.cache.isLive id = true → s.cache.Indexes id := by
    intro id hFree hLive
    exact (noted_iff_of_free hFree).mp (h.noted id hLive)
  have hNoticed : ∀ id, s.locked id.object = false →
      s.cache.Indexes id → s.cache.isLive id = false →
        id.CoveredBy s.outstanding := by
    intro id hFree hIndexes hDead
    rcases h.covered id ((noted_iff_of_free hFree).mpr hIndexes) with
      hLive | hCovered
    · rw [hDead] at hLive
      cases hLive
    · exact hCovered
  constructor
  · exact hIndexed
  · exact hNoticed
  · intro hNothing object hFree
    apply SnapshotCache.versionList_eq_liveVersions
    intro version
    constructor
    · intro hIndexes
      cases hDead : s.cache.isLive ⟨object, version⟩ with
      | true => rfl
      | false =>
        have hCovered := hNoticed ⟨object, version⟩ hFree hIndexes hDead
        rw [hNothing] at hCovered
        rcases hCovered with ⟨other, hOther, _⟩
        cases hOther
    · exact hIndexed ⟨object, version⟩ hFree

/- A shared cache whose worker is dead from the start. -/
theorem start_of_not_fits
    {batchSize : Nat}
    (hFits : EvictionWorker.fits batchSize = false)
    (capacity : Nat) :
    (start batchSize capacity : SharedCache σ ρ) =
      { cache := SnapshotCache.empty
        queue := (NoticeQueue.empty capacity).dropReceiver
        worker := .stopped
        storing := ∅ } := by
  simp [start, EvictionWorker.start, hFits]

/-
  Without room for a batch: a snapshot is put and then lost,
  and nobody takes its version out of the index.
-/
theorem strand
    {batchSize : Nat}
    (hFits : EvictionWorker.fits batchSize = false)
    (capacity : Nat)
    (id : VersionedId)
    (value : σ) :
    ∃ s : SharedCache σ ρ,
      Reachable batchSize capacity s ∧
      s.outstanding = [] ∧
      s.locked id.object = false ∧
      s.cache.Indexes id ∧
      s.cache.isLive id = false := by
  let s₀ : SharedCache σ ρ := SharedCache.start batchSize capacity
  let s₁ := s₀.store id value
  let s₂ := s₁.enter id
  have hStart := start_of_not_fits (σ := σ) (ρ := ρ) hFits capacity
  have hGone : s₀.queue.receiverGone = true := by
    simp only [s₀, hStart]
    rfl
  have hNothing : s₀.outstanding = [] := by
    simp only [s₀, hStart]
    rfl
  have hStore : s₀.step? batchSize (.store id value []) = some s₁ := rfl
  have hEnter : s₁.step? batchSize (.enter id.object) = some s₂ := by
    simp only [step?, s₁, store_eq, SortedMap.get?_insert, if_true]
    rfl
  have hLose :
      s₂.step? batchSize (.lose id .expired) =
        some (s₂.lose .expired id) := rfl
  have hLive : s₂.cache.isLive id = true := by
    simp only [s₂, s₁, store_eq]
    exact SnapshotCache.isLive_insertSnapshot_iff.mpr (Or.inl rfl)
  have hQueue : s₂.queue = s₀.queue ∧ s₂.worker = s₀.worker := by
    simp only [s₂, s₁, store_eq]
    exact ⟨rfl, rfl⟩
  have hLost :
      s₂.lose .expired id =
        { s₂ with cache := s₂.cache.dropSnapshot id } := by
    unfold SharedCache.lose notify
    rw [if_pos hLive]
    simp only
    rw [NoticeQueue.report_unheard _ id rfl (hQueue.1 ▸ hGone)]
    rfl
  refine ⟨s₂.lose .expired id, ?_, ?_, ?_, ?_, ?_⟩
  · exact ((Reachable.start.step _ hStore).step _ hEnter).step _ hLose
  · rw [hLost, ← hNothing]
    unfold outstanding
    simp only [hQueue]
  · rw [hLost]
    simp [locked, SortedMap.contains, s₂, SharedCache.enter]
  · rw [hLost]
    exact SnapshotCache.indexes_indexVersion_iff.mpr (Or.inl rfl)
  · rw [hLost, Bool.eq_false_iff]
    intro hStill
    exact (SnapshotCache.isLive_dropSnapshot_iff.mp hStill).1 rfl

/- A stranded version is not reconciled. -/
theorem not_reconciled_of_stranded
    {s : SharedCache σ ρ}
    {id : VersionedId}
    (hNothing : s.outstanding = [])
    (hFree : s.locked id.object = false)
    (hIndexes : s.cache.Indexes id)
    (hDead : s.cache.isLive id = false) : ¬ s.Reconciled := by
  intro hReconciled
  have hCovered := hReconciled.noticed id hFree hIndexes hDead
  rw [hNothing] at hCovered
  rcases hCovered with ⟨other, hOther, _⟩
  cases hOther

/-
  The index and the live snapshots reconcile in whatever state
  a shared cache gets into, exactly if there is room for the
  batches of its worker.
-/
theorem reconciled_iff
    (value : σ)
    (batchSize capacity : Nat) :
    (∀ s : SharedCache σ ρ,
        Reachable batchSize capacity s → s.Reconciled) ↔
      EvictionWorker.fits batchSize = true := by
  constructor
  · intro hAll
    cases hFits : EvictionWorker.fits batchSize with
    | true => rfl
    | false =>
      rcases strand (ρ := ρ) hFits capacity
          ⟨StreamId.ofNat 1, Address.ofNat 1⟩ value with
        ⟨s, hReachable, hNothing, hFree, hIndexes, hDead⟩
      exact absurd (hAll s hReachable)
        (not_reconciled_of_stranded hNothing hFree hIndexes hDead)
  · intro hFits s hReachable
    exact (sound_of_reachable hFits hReachable).reconciled

/-
  A batch size that is accepted, but for which there can be no
  room: the lost version of the object stays in the index, and
  nobody is told.
-/
theorem not_reconciled_of_huge_batch :
    ∃ s : SharedCache String Unit,
      Reachable 1152921504606846976 4 s ∧
      s.outstanding = [] ∧
      s.locked (StreamId.ofNat 1) = false ∧
      Address.ofNat 1 ∈ s.cache.versionList (StreamId.ofNat 1) ∧
      Address.ofNat 1 ∉ s.cache.liveVersions (StreamId.ofNat 1) ∧
      ¬ s.Reconciled := by
  have hFits : EvictionWorker.fits 1152921504606846976 = false := by
    decide
  rcases strand (ρ := Unit) hFits 4
      ⟨StreamId.ofNat 1, Address.ofNat 1⟩ "x" with
    ⟨s, hReachable, hNothing, hFree, hIndexes, hDead⟩
  refine ⟨s, hReachable, hNothing, hFree, hIndexes, ?_, ?_⟩
  · rw [SnapshotCache.mem_liveVersions_iff, hDead]
    exact Bool.false_ne_true
  · exact not_reconciled_of_stranded hNothing hFree hIndexes hDead

end SharedCache

end OrderedLog
