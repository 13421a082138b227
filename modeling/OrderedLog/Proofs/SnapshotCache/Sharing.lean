import OrderedLog.Proofs.Eviction.Coverage
import OrderedLog.Proofs.SnapshotCache.Values
import OrderedLog.SnapshotCache.Service

/-
  This file defines the snapshot cache as its users and the
  eviction worker share it, one step at a time and in any
  order.

  A put takes two steps. It stores its snapshot under the lock
  of the object, and the cache may lose snapshots to make room,
  even the new one. Then it enters the version into the index
  and gives up the lock. Whoever else needs the lock can take
  no step before that. There may be puts of any number of
  objects on the way at once.

  Key definitions include:
    * `SharedCache`
    * `SharedCache.lose`
    * `SharedCache.store`
    * `SharedCache.enter`
    * `SharedCache.evict`
    * `SharedCache.work?`
    * `SharedCache.Action`
    * `SharedCache.step?`
    * `SharedCache.Reachable`

  Key lemmas include:
    * `SharedCache.store_eq`
    * `SharedCache.evict_eq`
    * `SharedCache.enter_store`
    * `SharedCache.lose_service`
    * `SharedCache.within_work`
    * `SharedCache.storing_work`
-/

namespace OrderedLog

/-
  A cache, the queue to its eviction worker, and the worker.
  The lock of an object is taken as long as a put is between
  its two steps: `storing` has the version it will enter.
-/
structure SharedCache
    (σ : Type)
    (ρ : Type) where
  cache : SnapshotCache σ ρ
  queue : NoticeQueue
  worker : EvictionWorker
  storing : SortedMap StreamId Address

namespace SharedCache

variable {σ ρ : Type}

/- An empty cache whose worker has just started. -/
def start (batchSize capacity : Nat) : SharedCache σ ρ :=
  let started :=
    EvictionWorker.start batchSize (NoticeQueue.empty capacity)
  { cache := SnapshotCache.empty
    queue := started.2
    worker := started.1
    storing := ∅ }

/- Whether a put has the lock of an object. -/
def locked
    (s : SharedCache σ ρ)
    (object : StreamId) : Bool :=
  s.storing.contains object

/- All that was reported to the worker and not evicted yet. -/
def outstanding (s : SharedCache σ ρ) : List VersionedId :=
  EvictionWorker.outstanding s.queue s.worker

------------------------------------------------------------
-- Parts of steps
------------------------------------------------------------

/- Report a removal to the eviction worker, and count it. -/
def notify
    (cause : RemovalCause)
    (s : SharedCache σ ρ)
    (id : VersionedId) : SharedCache σ ρ :=
  let reported := s.queue.report id cause
  { s with
    cache :=
      { s.cache with stats := s.cache.stats.recordReport reported.1 }
    queue := reported.2 }

/- Lose a live snapshot and report it in the same step. -/
def lose
    (cause : RemovalCause)
    (s : SharedCache σ ρ)
    (id : VersionedId) : SharedCache σ ρ :=
  if s.cache.isLive id then
    notify cause { s with cache := s.cache.dropSnapshot id } id
  else
    s

/-
  The first step of a put: take the lock and store a snapshot.
  If it replaces another one, that is reported as well.
-/
def store
    (s : SharedCache σ ρ)
    (id : VersionedId)
    (value : σ) : SharedCache σ ρ :=
  let stored :=
    { s with
      cache := s.cache.insertSnapshot id value
      storing := s.storing.insert id.object id.version }
  if s.cache.isLive id then stored.notify .replaced id else stored

/-
  The second step of a put: enter the version into the index,
  count the put and give up the lock.
-/
def enter
    (s : SharedCache σ ρ)
    (id : VersionedId) : SharedCache σ ρ :=
  let entered := s.cache.indexVersion id
  { s with
    cache := { entered with stats := entered.stats.recordPut }
    storing := s.storing.erase id.object }

/-
  Evict every version of an object up to a bound. Each live
  snapshot that goes is reported.
-/
def evict
    (s : SharedCache σ ρ)
    (id : VersionedId) : SharedCache σ ρ :=
  let evicted := (s.cache.versionsUpTo id).toList.map id.withVersion
  (evicted.filter s.cache.isLive).foldl (notify .explicit)
    { s with cache := (s.cache.evictThrough id).2 }

/-
  The next step of the worker, with the eviction it asks for.
  It waits as long as the lock for that is taken.
-/
def work?
    (batchSize : Nat)
    (s : SharedCache σ ρ) : Option (SharedCache σ ρ) :=
  let next := s.worker.step batchSize false s.queue
  let moved := { s with queue := next.queue, worker := next.worker }
  match next.call with
  | none => some moved
  | some id => if s.locked id.object then none else some (moved.evict id)

------------------------------------------------------------
-- Steps
------------------------------------------------------------

/- What may happen to a shared cache. -/
inductive Action (σ : Type) where
  /- A put stores its snapshot, and some are lost over it. -/
  | store
      (id : VersionedId)
      (value : σ)
      (lost : List VersionedId)
  /- A put that has stored its snapshot enters the version. -/
  | enter
      (object : StreamId)
  /- Someone evicts the versions of an object up to a bound. -/
  | evict
      (id : VersionedId)
  /- A snapshot is lost, to make room or because it is too old. -/
  | lose
      (id : VersionedId)
      (cause : RemovalCause)
  /- The worker takes its next step. -/
  | work

/- What an action makes of a shared cache, unless it has to wait. -/
def step?
    (batchSize : Nat)
    (s : SharedCache σ ρ) : Action σ → Option (SharedCache σ ρ)
  | .store id value lost =>
    if s.locked id.object then none
    else some (lost.foldl (lose .size) (s.store id value))
  | .enter object =>
    match s.storing.get? object with
    | none => none
    | some version => some (s.enter ⟨object, version⟩)
  | .evict id =>
    if s.locked id.object then none else some (s.evict id)
  | .lose id cause =>
    if cause.evicted then some (s.lose cause id) else none
  | .work => s.work? batchSize

/- The states that a new shared cache may get into. -/
inductive Reachable
    (batchSize capacity : Nat) : SharedCache σ ρ → Prop where
  | start : Reachable batchSize capacity (start batchSize capacity)
  | step
      {s t : SharedCache σ ρ}
      (action : Action σ)
      (before : Reachable batchSize capacity s)
      (taken : s.step? batchSize action = some t) :
      Reachable batchSize capacity t

------------------------------------------------------------
-- Undisturbed operations
------------------------------------------------------------

/- A removal that is not the cache's own leaves no trace. -/
theorem notify_ignored
    (s : SharedCache σ ρ)
    (id : VersionedId)
    {cause : RemovalCause}
    (hCause : cause.evicted = false) : s.notify cause id = s := by
  unfold notify NoticeQueue.report
  simp [hCause, CacheStats.recordReport]

theorem foldl_notify_ignored
    (s : SharedCache σ ρ)
    (ids : List VersionedId)
    {cause : RemovalCause}
    (hCause : cause.evicted = false) :
    ids.foldl (notify cause) s = s := by
  induction ids with
  | nil => rfl
  | cons id ids ih =>
    rw [List.foldl_cons, notify_ignored s id hCause]
    exact ih

/- What is left of a store without the report. -/
theorem store_eq
    (s : SharedCache σ ρ)
    (id : VersionedId)
    (value : σ) :
    s.store id value =
      { s with
        cache := s.cache.insertSnapshot id value
        storing := s.storing.insert id.object id.version } := by
  unfold store
  simp only
  split
  · exact notify_ignored _ id rfl
  · rfl

/- What is left of an eviction without the reports. -/
theorem evict_eq
    (s : SharedCache σ ρ)
    (id : VersionedId) :
    s.evict id = { s with cache := (s.cache.evictThrough id).2 } :=
  foldl_notify_ignored _ _ rfl

/- The two steps of a put make up the put of a cache. -/
theorem enter_store
    (s : SharedCache σ ρ)
    (id : VersionedId)
    (value : σ) :
    ((s.store id value).enter id).cache = s.cache.put id value := by
  rw [store_eq]
  rfl

/- A running service loses snapshots as a shared cache does. -/
theorem lose_service
    (cause : RemovalCause)
    (s : CacheService σ ρ)
    (id : VersionedId)
    (storing : SortedMap StreamId Address) :
    lose cause ⟨s.cache, s.queue, s.worker, storing⟩ id =
      ⟨(CacheService.lose cause s id).cache,
        (CacheService.lose cause s id).queue,
        (CacheService.lose cause s id).worker, storing⟩ := by
  unfold lose CacheService.lose
  simp only
  split
  · rfl
  · rfl

------------------------------------------------------------
-- Values and locks
------------------------------------------------------------

theorem within_lose
    (cause : RemovalCause)
    (s : SharedCache σ ρ)
    (id : VersionedId) : (s.lose cause id).cache.Within s.cache := by
  unfold lose
  split
  · exact s.cache.within_dropSnapshot id
  · exact SnapshotCache.within_refl _

theorem within_foldl_lose
    (cause : RemovalCause)
    (ids : List VersionedId)
    (s : SharedCache σ ρ) :
    (ids.foldl (lose cause) s).cache.Within s.cache := by
  induction ids generalizing s with
  | nil => exact SnapshotCache.within_refl _
  | cons id ids ih =>
    exact (ih (s.lose cause id)).trans (within_lose cause s id)

theorem within_evict
    (s : SharedCache σ ρ)
    (id : VersionedId) : (s.evict id).cache.Within s.cache := by
  rw [evict_eq]
  exact s.cache.within_evictThrough id

theorem within_work
    {batchSize : Nat}
    {s t : SharedCache σ ρ}
    (h : s.work? batchSize = some t) : t.cache.Within s.cache := by
  unfold work? at h
  simp only at h
  split at h
  · cases h
    exact SnapshotCache.within_refl _
  · split at h
    · cases h
    · cases h
      exact within_evict _ _

@[simp]
theorem storing_lose
    (cause : RemovalCause)
    (s : SharedCache σ ρ)
    (id : VersionedId) : (s.lose cause id).storing = s.storing := by
  unfold lose
  split <;> rfl

@[simp]
theorem storing_foldl_lose
    (cause : RemovalCause)
    (ids : List VersionedId)
    (s : SharedCache σ ρ) :
    (ids.foldl (lose cause) s).storing = s.storing := by
  induction ids generalizing s with
  | nil => rfl
  | cons id ids ih =>
    rw [List.foldl_cons, ih, storing_lose]

@[simp]
theorem storing_evict
    (s : SharedCache σ ρ)
    (id : VersionedId) : (s.evict id).storing = s.storing := by
  rw [evict_eq]

theorem storing_work
    {batchSize : Nat}
    {s t : SharedCache σ ρ}
    (h : s.work? batchSize = some t) : t.storing = s.storing := by
  unfold work? at h
  simp only at h
  split at h
  · cases h
    rfl
  · split at h
    · cases h
    · cases h
      exact storing_evict _ _

theorem locked_eq_false_iff
    {s : SharedCache σ ρ}
    {object : StreamId} :
    s.locked object = false ↔ s.storing.get? object = none := by
  unfold locked SortedMap.contains
  rw [← Bool.not_eq_true, Option.not_isSome_iff_eq_none]

end SharedCache

end OrderedLog
