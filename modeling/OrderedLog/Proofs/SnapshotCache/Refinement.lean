import OrderedLog.Proofs.SnapshotCache.Representation
import OrderedLog.SnapshotCache.Service

/-
  This file proves that a snapshot cache refines a plain store
  of versions, whatever its eviction worker evicts and whichever
  snapshots are lost. The store follows the puts and the
  evictions, those of the worker included. A lookup has the
  answer of the store, unless the snapshot was lost after it had
  last been put, and then it has none.

  Nothing is assumed of the reports to the worker. They may come
  late, or never, or be of snapshots that are not lost at all.

  Key definitions include:
    * `TendedCache`
    * `TendedCache.Action`
    * `TendedCache.serve`
    * `TendedCache.run`
    * `TendedCache.follow`
    * `TendedCache.followAll`
    * `TendedCache.LostSince`

  Key lemmas include:
    * `TendedCache.lostSince_append_iff`
    * `TendedCache.represents_serve`
    * `TendedCache.represents_run`

  Key theorems include:
    * `TendedCache.run_answersAs`
-/

namespace OrderedLog

------------------------------------------------------------
-- Runs
------------------------------------------------------------

/- A cache and the worker that tends it, with its queue. -/
structure TendedCache
    (σ : Type)
    (ρ : Type) where
  cache : SnapshotCache σ ρ
  queue : NoticeQueue
  worker : EvictionWorker

namespace TendedCache

variable {σ ρ : Type}

/- An empty cache whose worker has just started. -/
def start (batchSize capacity : Nat) : TendedCache σ ρ :=
  let started :=
    EvictionWorker.start batchSize (NoticeQueue.empty capacity)
  { cache := SnapshotCache.empty
    queue := started.2
    worker := started.1 }

/- What is done with a cache, or happens to it. -/
inductive Action (σ : Type) where
  /- Cache a snapshot. -/
  | put
      (id : VersionedId)
      (value : σ)
  /- Look up an exact version. -/
  | get
      (id : VersionedId)
      (kind : ProxyKind)
  /- Look up the highest version up to a bound. -/
  | floor
      (id : VersionedId)
      (kind : ProxyKind)
  /- Ask whether a version has a live snapshot. -/
  | contains
      (id : VersionedId)
  /- Evict the versions of an object up to a bound. -/
  | evict
      (id : VersionedId)
  /- Give a lease back. -/
  | release
      (lease : Nat)
  /- A snapshot is lost. -/
  | lose
      (id : VersionedId)
  /- The worker is told of a removal. -/
  | report
      (id : VersionedId)
      (cause : RemovalCause)
  /- The worker takes its next step. -/
  | work
      (stopping : Bool)

/- What comes out of an action. -/
inductive Reply (σ : Type) where
  | done
  | found
      (handle : Option (Handle σ))
  | live
      (flag : Bool)
  | evicted
      (count : Nat)
  /- The eviction that the worker asked for, and its count. -/
  | worked
      (call : Option (VersionedId × Nat))

/- Do one thing with a cache, or let it happen. -/
def serve
    (batchSize : Nat)
    (s : TendedCache σ ρ) : Action σ → Reply σ × TendedCache σ ρ
  | .put id value =>
    (.done, { s with cache := s.cache.put id value })
  | .get id kind =>
    let (found, cache) := s.cache.get id kind
    (.found found, { s with cache })
  | .floor id kind =>
    let (found, cache) := s.cache.floor id kind
    (.found found, { s with cache })
  | .contains id =>
    (.live (s.cache.isLive id), s)
  | .evict id =>
    let (count, cache) := s.cache.evictThrough id
    (.evicted count, { s with cache })
  | .release lease =>
    (.done, { s with cache := s.cache.release lease })
  | .lose id =>
    (.done, { s with cache := s.cache.dropSnapshot id })
  | .report id cause =>
    let (report, queue) := s.queue.report id cause
    let stats := s.cache.stats.recordReport report
    (.done, { s with cache := { s.cache with stats }, queue })
  | .work stopping =>
    let next := s.worker.step batchSize stopping s.queue
    let moved := { s with queue := next.queue, worker := next.worker }
    match next.call with
    | none => (.worked none, moved)
    | some id =>
      let (count, cache) := s.cache.evictThrough id
      (.worked (some (id, count)), { moved with cache })

/- Do some things in turn. The replies are in the same order. -/
def run
    (batchSize : Nat)
    (s : TendedCache σ ρ) :
    List (Action σ) → List (Reply σ) × TendedCache σ ρ
  | [] => ([], s)
  | action :: actions =>
    let served := s.serve batchSize action
    let others := run batchSize served.2 actions
    (served.1 :: others.1, others.2)

------------------------------------------------------------
-- The store behind a run
------------------------------------------------------------

/- What an action and its reply make of a plain store. -/
def follow
    (store : VersionStore σ) :
    Action σ → Reply σ → VersionStore σ
  | .put id value, _ => store.put id value
  | .evict id, _ => store.evictThrough id
  | .work _, .worked (some (id, _)) => store.evictThrough id
  | _, _ => store

/- What actions and their replies make of a plain store. -/
def followAll
    (store : VersionStore σ) :
    List (Action σ) → List (Reply σ) → VersionStore σ
  | action :: actions, reply :: replies =>
    followAll (follow store action reply) actions replies
  | _, _ => store

/- A snapshot was lost and not put again after that. -/
def LostSince
    (actions : List (Action σ))
    (id : VersionedId) : Prop :=
  ∃ before after, actions = before ++ .lose id :: after ∧
    ∀ value, .put id value ∉ after

theorem not_lostSince_nil
    (id : VersionedId) : ¬ LostSince ([] : List (Action σ)) id := by
  rintro ⟨before, after, hActions, _⟩
  exact List.append_ne_nil_of_right_ne_nil _ (List.cons_ne_nil _ _)
    hActions.symm

/- The last action loses a snapshot, or does not bring it back. -/
theorem lostSince_append_iff
    {actions : List (Action σ)}
    {action : Action σ}
    {id : VersionedId} :
    LostSince (actions ++ [action]) id ↔
      action = .lose id ∨
        (LostSince actions id ∧ ∀ value, action ≠ .put id value) := by
  constructor
  · rintro ⟨before, after, hActions, hAfter⟩
    rcases after.eq_nil_or_concat' with rfl | ⟨front, last, rfl⟩
    · left
      exact List.singleton_inj.mp (List.append_inj' hActions rfl).2
    · right
      rw [← List.cons_append, ← List.append_assoc] at hActions
      rcases List.append_inj' hActions rfl with ⟨hEarlier, hLast⟩
      rw [List.singleton_inj] at hLast
      subst hLast
      refine ⟨⟨before, front, hEarlier, ?_⟩, ?_⟩
      · intro value hMem
        exact hAfter value (List.mem_append_left _ hMem)
      · rintro value rfl
        exact hAfter value (List.mem_append_right _ List.mem_cons_self)
  · rintro (rfl | ⟨⟨before, after, rfl, hAfter⟩, hNot⟩)
    · exact ⟨actions, [], rfl, fun _ => List.not_mem_nil⟩
    · refine ⟨before, after ++ [action], ?_, ?_⟩
      · rw [List.append_assoc, List.cons_append]
      · intro value hMem
        rcases List.mem_append.mp hMem with hEarlier | hLast
        · exact hAfter value hEarlier
        · exact hNot value (List.mem_singleton.mp hLast).symm

/- An action that neither loses nor puts a snapshot. -/
theorem lostSince_append_iff_of_neither
    {actions : List (Action σ)}
    {action : Action σ}
    (hLose : ∀ id, action ≠ .lose id)
    (hPut : ∀ id value, action ≠ .put id value)
    (id : VersionedId) :
    LostSince (actions ++ [action]) id ↔ LostSince actions id := by
  rw [lostSince_append_iff, or_iff_right (hLose id)]
  exact and_iff_left (hPut id)

------------------------------------------------------------
-- Refinement
------------------------------------------------------------

/- What changes neither contents nor losses changes nothing. -/
theorem represents_of_neither
    {c d : SnapshotCache σ ρ}
    {store : VersionStore σ}
    {past : List (Action σ)}
    (h : c.Represents store (LostSince past))
    (hSame : d.SameContents c)
    {action : Action σ}
    (hLose : ∀ id, action ≠ .lose id)
    (hPut : ∀ id value, action ≠ .put id value) :
    d.Represents store (LostSince (past ++ [action])) :=
  (h.of_sameContents hSame).of_lost_iff
    (lostSince_append_iff_of_neither hLose hPut)

/- One action keeps the cache and the store together. -/
theorem represents_serve
    (batchSize : Nat)
    {s : TendedCache σ ρ}
    {store : VersionStore σ}
    {past : List (Action σ)}
    (h : s.cache.Represents store (LostSince past))
    (action : Action σ) :
    (s.serve batchSize action).2.cache.Represents
      (follow store action (s.serve batchSize action).1)
      (LostSince (past ++ [action])) := by
  cases action with
  | put id value =>
    apply h.put id value
    intro other
    rw [lostSince_append_iff, or_iff_right nofun]
    simp [eq_comm]
  | lose id =>
    apply h.dropSnapshot id
    intro other
    rw [lostSince_append_iff]
    simp [eq_comm, or_comm]
  | evict id =>
    exact (h.evictThrough id).of_lost_iff
      (lostSince_append_iff_of_neither nofun nofun)
  | work stopping =>
    have hLost : ∀ id, LostSince (past ++ [.work stopping]) id ↔
        LostSince past id :=
      lostSince_append_iff_of_neither nofun nofun
    unfold serve
    simp only
    split
    · exact h.of_lost_iff hLost
    · next id _ => exact (h.evictThrough id).of_lost_iff hLost
  | get id kind =>
    exact represents_of_neither h (s.cache.sameContents_get id kind)
      nofun nofun
  | floor id kind =>
    exact represents_of_neither h (s.cache.sameContents_floor id kind)
      nofun nofun
  | contains id =>
    have hSame : s.cache.SameContents s.cache :=
      SnapshotCache.sameContents_of_eq rfl rfl
    exact represents_of_neither h hSame nofun nofun
  | release lease =>
    have hSame : (s.cache.release lease).SameContents s.cache :=
      SnapshotCache.sameContents_of_eq rfl rfl
    exact represents_of_neither h hSame nofun nofun
  | report id cause =>
    have hSame : SnapshotCache.SameContents
        { s.cache with
          stats :=
            s.cache.stats.recordReport (s.queue.report id cause).1 }
        s.cache :=
      SnapshotCache.sameContents_of_eq rfl rfl
    exact represents_of_neither h hSame nofun nofun

/- So does a whole run, by induction on its actions. -/
theorem represents_run
    (batchSize : Nat)
    {s : TendedCache σ ρ}
    {store : VersionStore σ}
    {past : List (Action σ)}
    (h : s.cache.Represents store (LostSince past))
    (actions : List (Action σ)) :
    (s.run batchSize actions).2.cache.Represents
      (followAll store actions (s.run batchSize actions).1)
      (LostSince (past ++ actions)) := by
  induction actions generalizing s store past with
  | nil =>
    rw [run, followAll, List.append_nil]
    · exact h
    · nofun
  | cons action actions ih =>
    rw [run, followAll, List.append_cons]
    exact ih (represents_serve batchSize h action)

/-
  After whatever was done and happened, the cache answers as the
  store that followed the puts and the evictions does, except
  where a snapshot was lost after it had last been put.
-/
theorem run_answersAs
    (batchSize capacity : Nat)
    (actions : List (Action σ)) :
    let started : TendedCache σ ρ := start batchSize capacity
    (started.run batchSize actions).2.cache.AnswersAs
      (followAll .empty actions (started.run batchSize actions).1)
      (LostSince actions) := by
  intro started
  have hStart :
      started.cache.Represents .empty (LostSince ([] : List (Action σ))) :=
    SnapshotCache.represents_empty.of_lost_iff
      (fun id => iff_false_intro (not_lostSince_nil id))
  exact (represents_run batchSize hStart actions).answersAs

/- A lost snapshot is not replaced by the one below it. -/
example :
    let id := fun version => VersionedId.mk (StreamId.ofNat 1) version
    let started : TendedCache String Unit := start 4 2
    let reached := (started.run 4
      [ .put (id (Address.ofNat 5)) "below",
        .put (id (Address.ofNat 9)) "lost",
        .lose (id (Address.ofNat 9)) ]).2.cache
    (reached.floor (id (Address.ofNat 12)) .materialized).1 = none ∧
      (reached.evictThrough (id Address.last)).1 = 2 := by
  decide

end TendedCache

end OrderedLog
