import OrderedLog.Proofs.Eviction.Coverage
import OrderedLog.SnapshotCache.Service

/-
  This file proves that the eviction pipeline, from the report
  of a lost snapshot to the eviction that the worker asks for,
  neither loses nor invents anything, in whatever order the
  reports and the steps of the worker come.

  That takes a worker that lives. The worker sets aside room
  for a whole batch as it starts, and with a batch size for
  which there can be no room it is dead before it has received
  anything, though the settings accept every size but zero.
  The batch sizes that work are therefore part of the result.

  Key definitions include:
    * `EvictionPipeline`
    * `EvictionPipeline.Event`
    * `EvictionPipeline.step`
    * `EvictionPipeline.run`
    * `EvictionPipeline.evictions`
    * `EvictionPipeline.Faithful`

  Key lemmas include:
    * `EvictionPipeline.step_carries`
    * `EvictionPipeline.run_carries`
    * `EvictionPipeline.run_counted`
    * `EvictionPipeline.run_of_dead`

  Key theorems include:
    * `EvictionPipeline.faithful_iff`
-/

namespace OrderedLog

------------------------------------------------------------
-- Events and runs
------------------------------------------------------------

/-
  The queue between the snapshot cache and the worker, the
  counters, and the evictions asked for so far.
-/
structure EvictionPipeline where
  queue : NoticeQueue
  worker : EvictionWorker
  stats : CacheStats
  calls : List VersionedId
deriving DecidableEq

namespace EvictionPipeline

/- What happens to a pipeline before anyone asks it to stop. -/
inductive Event where
  /- The snapshot cache reports a removal. -/
  | report
      (id : VersionedId)
      (cause : RemovalCause)
  /- The worker takes its next step. -/
  | work
deriving DecidableEq

/- A pipeline whose worker has just started. -/
def start (batchSize capacity : Nat) : EvictionPipeline :=
  let started :=
    EvictionWorker.start batchSize (NoticeQueue.empty capacity)
  { queue := started.2
    worker := started.1
    stats := CacheStats.zero
    calls := [] }

/- What an event makes of a pipeline. -/
def step
    (batchSize : Nat)
    (p : EvictionPipeline) : Event → EvictionPipeline
  | .report id cause =>
    let reported := p.queue.report id cause
    { p with
      queue := reported.2
      stats := p.stats.recordReport reported.1 }
  | .work =>
    let next := p.worker.step batchSize false p.queue
    { p with
      queue := next.queue
      worker := next.worker
      calls := p.calls ++ next.call.toList }

/- What events make of a pipeline, one after the other. -/
def run
    (batchSize : Nat)
    (p : EvictionPipeline)
    (events : List Event) : EvictionPipeline :=
  events.foldl (step batchSize) p

/- All that was reported and not evicted yet. -/
def outstanding (p : EvictionPipeline) : List VersionedId :=
  EvictionWorker.outstanding p.queue p.worker

/- The snapshot that an event reports as lost by the cache. -/
def Event.eviction? : Event → Option VersionedId
  | .report id cause => if cause.evicted then some id else none
  | .work => none

/- All snapshots that were reported as lost by the cache. -/
def evictions (events : List Event) : List VersionedId :=
  events.filterMap Event.eviction?

theorem evictions_cons
    (event : Event)
    (events : List Event) :
    evictions (event :: events) =
      evictions [event] ++ evictions events :=
  List.filterMap_append (l := [event])

theorem run_append
    (batchSize : Nat)
    (p : EvictionPipeline)
    (before after : List Event) :
    run batchSize p (before ++ after) =
      run batchSize (run batchSize p before) after :=
  List.foldl_append

/-
  Undisturbed steps of the worker are what the worker does
  when it is run on its own.
-/
theorem run_replicate_work
    (batchSize steps : Nat)
    (p : EvictionPipeline) :
    run batchSize p (List.replicate steps .work) =
      let outcome :=
        EvictionWorker.run batchSize none steps p.worker p.queue p.calls
      { p with
        queue := outcome.queue
        worker := outcome.worker
        calls := outcome.calls } := by
  induction steps generalizing p with
  | zero => rfl
  | succ steps ih =>
    rw [List.replicate_succ, run, List.foldl_cons]
    change run batchSize (step batchSize p .work) _ = _
    rw [ih]
    rcases p with ⟨queue, worker, stats, calls⟩
    cases worker with
    | stopped =>
      simp only [step, EvictionWorker.step, EvictionWorker.run,
        Option.toList_none, List.append_nil]
      cases steps <;> rfl
    | waiting => rfl
    | filling batch => rfl
    | draining batch => rfl
    | evicting targets => rfl

------------------------------------------------------------
-- Living workers
------------------------------------------------------------

/- The worker of the pipeline lives. -/
abbrev Alive (p : EvictionPipeline) : Prop :=
  EvictionWorker.Alive p.queue p.worker

/- The number of reports that were queued or merged. -/
def counted (p : EvictionPipeline) : Nat :=
  p.stats.notifications + p.stats.overflowed

/-
  An event leaves the worker alive. What is outstanding after
  it, and an eviction that was asked for, carry along what was
  outstanding before and what was reported now.
-/
theorem step_carries
    (batchSize : Nat)
    {p : EvictionPipeline}
    (h : p.Alive)
    (event : Event) :
    (step batchSize p event).Alive ∧
      ∃ later,
        (step batchSize p event).calls = p.calls ++ later ∧
        Carries (p.outstanding ++ evictions [event])
          ((step batchSize p event).outstanding ++ later) := by
  cases event with
  | work =>
    refine ⟨EvictionWorker.Alive.step batchSize h, _, rfl, ?_⟩
    have hNothing : evictions [.work] = [] := rfl
    rw [hNothing, List.append_nil]
    exact EvictionWorker.carries_step batchSize false p.queue p.worker
  | report id cause =>
    cases hCause : cause.evicted with
    | false =>
      have hNothing : evictions [.report id cause] = [] := by
        simp [evictions, Event.eviction?, hCause]
      simp only [step, p.queue.report_ignored id hCause]
      refine ⟨h, [], (List.append_nil _).symm, ?_⟩
      rw [hNothing]
      exact carries_refl _
    | true =>
      have hOne : evictions [.report id cause] = [id] := by
        simp [evictions, Event.eviction?, hCause]
      rcases p.queue.report_heard id hCause h.receiver with
        ⟨outcome, next, hReport, _, hSender, hReceiver, hCarries⟩
      simp only [step, hReport]
      refine ⟨⟨h.running, hSender.trans h.sender, hReceiver⟩, [],
        (List.append_nil _).symm, ?_⟩
      rw [hOne, List.append_nil]
      exact EvictionWorker.carries_reported hCarries p.worker

/- Events one after the other carry along all of this together. -/
theorem run_carries
    (batchSize : Nat)
    {p : EvictionPipeline}
    (h : p.Alive)
    (events : List Event) :
    (run batchSize p events).Alive ∧
      ∃ later,
        (run batchSize p events).calls = p.calls ++ later ∧
        Carries (p.outstanding ++ evictions events)
          ((run batchSize p events).outstanding ++ later) := by
  induction events generalizing p with
  | nil =>
    exact ⟨h, [], (List.append_nil _).symm, carries_refl _⟩
  | cons event events ih =>
    rcases step_carries batchSize h event with
      ⟨hAlive, first, hFirst, hStep⟩
    rcases ih hAlive with ⟨hLiving, others, hOthers, hRun⟩
    refine ⟨hLiving, first ++ others, ?_, ?_⟩
    · rw [← List.append_assoc, ← hFirst]
      exact hOthers
    · have hLeft := hStep.append (carries_refl (evictions events))
      have hRight := hRun.append (carries_refl first)
      rw [evictions_cons, ← List.append_assoc, ← List.append_assoc]
      refine hLeft.trans ((carries_right_comm _ _ _).trans ?_)
      exact hRight.trans (carries_right_comm _ _ _)

/- An event that reports an eviction to a living worker counts. -/
theorem step_counted
    (batchSize : Nat)
    {p : EvictionPipeline}
    (h : p.Alive)
    (event : Event) :
    (step batchSize p event).counted =
      p.counted + (evictions [event]).length := by
  cases event with
  | work => rfl
  | report id cause =>
    cases hCause : cause.evicted with
    | false =>
      simp [step, p.queue.report_ignored id hCause, counted, evictions,
        Event.eviction?, hCause, CacheStats.recordReport]
    | true =>
      rcases p.queue.report_heard id hCause h.receiver with
        ⟨outcome, next, hReport, hOutcome, _, _, _⟩
      simp only [step, hReport, counted, evictions, Event.eviction?,
        hCause, if_true, List.filterMap_cons, List.filterMap_nil,
        List.length_singleton]
      rcases hOutcome with rfl | rfl
      · simp only [CacheStats.recordReport, CacheStats.recordNotification]
        omega
      · simp only [CacheStats.recordReport, CacheStats.recordOverflowed]
        omega

theorem run_counted
    (batchSize : Nat)
    {p : EvictionPipeline}
    (h : p.Alive)
    (events : List Event) :
    (run batchSize p events).counted =
      p.counted + (evictions events).length := by
  induction events generalizing p with
  | nil => rfl
  | cons event events ih =>
    have hRest := ih (step_carries batchSize h event).1
    rw [step_counted batchSize h event] at hRest
    rw [evictions_cons, List.length_append, ← Nat.add_assoc, ← hRest]
    rfl

------------------------------------------------------------
-- Dead workers
------------------------------------------------------------

/- Nothing happens any more once the worker is dead. -/
theorem run_of_dead
    (batchSize : Nat)
    {p : EvictionPipeline}
    (hStopped : p.worker = .stopped)
    (hGone : p.queue.receiverGone = true)
    (events : List Event) : run batchSize p events = p := by
  have hStep : ∀ event, step batchSize p event = p := by
    intro event
    rcases p with ⟨queue, worker, stats, calls⟩
    cases hStopped
    cases event with
    | work =>
      simp only [step, EvictionWorker.step, Option.toList_none,
        List.append_nil]
    | report id cause =>
      cases hCause : cause.evicted with
      | false =>
        simp only [step, queue.report_ignored id hCause,
          CacheStats.recordReport]
      | true =>
        simp only [step, queue.report_unheard id hCause hGone,
          CacheStats.recordReport]
  induction events with
  | nil => rfl
  | cons event events ih =>
    rw [run, List.foldl_cons, hStep event]
    exact ih

/- Without room for a batch all events pass without a trace. -/
theorem run_of_not_fits
    {batchSize : Nat}
    (hFits : EvictionWorker.fits batchSize = false)
    (capacity : Nat)
    (events : List Event) :
    run batchSize (start batchSize capacity) events =
      start batchSize capacity := by
  apply run_of_dead
  · simp [start, EvictionWorker.start, hFits]
  · simp [start, EvictionWorker.start, hFits, NoticeQueue.dropReceiver]

theorem outstanding_start
    (batchSize capacity : Nat) :
    (start batchSize capacity).outstanding = [] := by
  unfold start EvictionWorker.start
  split <;> rfl

------------------------------------------------------------
-- Faithful runs
------------------------------------------------------------

/-
  Where some events have led a new pipeline, and that nothing
  was lost or invented on the way there.
-/
structure Faithful
    (batchSize capacity : Nat)
    (events : List Event) : Prop where
  /-
    Each snapshot reported as lost is covered by something that
    is outstanding or was evicted after the report.
  -/
  covered :
    ∀ before after id cause,
      events = before ++ .report id cause :: after →
        cause.evicted = true →
          ∃ later,
            (run batchSize (start batchSize capacity) events).calls =
              (run batchSize (start batchSize capacity) before).calls
                ++ later ∧
            id.CoveredBy
              ((run batchSize (start batchSize capacity)
                events).outstanding ++ later)
  /- Each eviction is for a snapshot that was reported as lost. -/
  genuine :
    ∀ id ∈ (run batchSize (start batchSize capacity) events).calls,
      ∃ cause, .report id cause ∈ events ∧ cause.evicted = true
  /- Each report of a lost snapshot is counted once. -/
  counted :
    (run batchSize (start batchSize capacity) events).counted =
      (evictions events).length
  /-
    When nothing is outstanding, the evictions have gone as high
    as the reports for each object.
  -/
  highest :
    (run batchSize (start batchSize capacity) events).outstanding = [] →
      highestVersions
          (run batchSize (start batchSize capacity) events).calls =
        highestVersions (evictions events)

theorem mem_evictions_iff
    {events : List Event}
    {id : VersionedId} :
    id ∈ evictions events ↔
      ∃ cause, .report id cause ∈ events ∧ cause.evicted = true := by
  unfold evictions
  rw [List.mem_filterMap]
  constructor
  · rintro ⟨event, hMem, hEviction⟩
    cases event with
    | work => cases hEviction
    | report other cause =>
      simp only [Event.eviction?, Option.ite_none_right_eq_some,
        Option.some_inj] at hEviction
      rcases hEviction with ⟨hCause, rfl⟩
      exact ⟨cause, hMem, hCause⟩
  · rintro ⟨cause, hMem, hCause⟩
    exact ⟨.report id cause, hMem, by simp [Event.eviction?, hCause]⟩

/- With room for its batch the worker serves all events. -/
theorem faithful_of_fits
    {batchSize : Nat}
    (hFits : EvictionWorker.fits batchSize = true)
    (capacity : Nat)
    (events : List Event) : Faithful batchSize capacity events := by
  have hAlive : (start batchSize capacity).Alive :=
    EvictionWorker.start_alive hFits capacity
  rcases run_carries batchSize hAlive events with
    ⟨_, later, hCalls, hCarries⟩
  have hLater :
      (run batchSize (start batchSize capacity) events).calls = later :=
    hCalls
  rw [outstanding_start, List.nil_append, ← hLater] at hCarries
  constructor
  · intro before after id cause hEvents hCause
    subst hEvents
    have hBefore := (run_carries batchSize hAlive before).1
    rcases run_carries batchSize hBefore (.report id cause :: after)
      with ⟨_, since, hSince, hCovers⟩
    rw [← run_append] at hSince hCovers
    refine ⟨since, hSince, hCovers.covered id ?_⟩
    apply List.mem_append_right
    rw [mem_evictions_iff]
    exact ⟨cause, List.mem_cons_self, hCause⟩
  · intro id hCall
    rw [← mem_evictions_iff]
    exact hCarries.genuine id (List.mem_append_right _ hCall)
  · have hCounted := run_counted batchSize hAlive events
    rw [hCounted]
    exact Nat.zero_add _
  · intro hNothing
    rw [hNothing, List.nil_append] at hCarries
    exact highestVersions_eq_of_carries hCarries

/-
  Nothing is lost or invented by a pipeline exactly if there is
  room for the batches of its worker, or if there is nothing to
  lose.
-/
theorem faithful_iff
    (batchSize capacity : Nat)
    (events : List Event) :
    Faithful batchSize capacity events ↔
      EvictionWorker.fits batchSize = true ∨ evictions events = [] := by
  cases hFits : EvictionWorker.fits batchSize with
  | true =>
    constructor
    · intro _
      exact Or.inl rfl
    · intro _
      exact faithful_of_fits hFits capacity events
  | false =>
    have hRun := run_of_not_fits hFits capacity events
    constructor
    · intro hFaithful
      right
      have hCounted := hFaithful.counted
      rw [hRun] at hCounted
      exact List.length_eq_zero_iff.mp hCounted.symm
    · rintro (hImpossible | hNothing)
      · cases hImpossible
      · constructor
        · intro before after id cause hEvents hCause
          have hMem : id ∈ evictions events := by
            rw [mem_evictions_iff, hEvents]
            exact ⟨cause, by simp, hCause⟩
          rw [hNothing] at hMem
          cases hMem
        · rw [hRun]
          exact nofun
        · rw [hRun, hNothing]
          rfl
        · intro _
          rw [hRun, hNothing]
          rfl

/-
  A batch size that is accepted, but for which there can be no
  room: the first of these reports is gone for good.
-/
theorem not_faithful_of_huge_batch :
    ¬ Faithful 1152921504606846976 4
        [ .report ⟨StreamId.ofNat 1, Address.ofNat 3⟩ .size,
          .report ⟨StreamId.ofNat 2, Address.ofNat 1⟩ .expired,
          .report ⟨StreamId.ofNat 1, Address.ofNat 9⟩ .size,
          .work ] := by
  intro hFaithful
  have hFits : EvictionWorker.fits 1152921504606846976 = false := by
    decide
  rcases hFaithful.covered [] _ _ _ rfl rfl with
    ⟨later, hLater, other, hOther, _⟩
  rw [run_of_not_fits hFits, run_of_not_fits hFits] at hLater
  rw [run_of_not_fits hFits, outstanding_start] at hOther
  have hNone : later = [] := List.append_right_eq_self.mp hLater.symm
  rw [hNone] at hOther
  cases hOther

end EvictionPipeline

end OrderedLog
