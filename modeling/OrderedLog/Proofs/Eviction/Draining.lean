import OrderedLog.Proofs.Eviction.Pipeline

/-
  This file proves that the eviction worker deals with all
  that was reported before it ends because nobody reports any
  more. In the round in which it finds this out, it leaves the
  overflow where it is. Nothing is lost by that, since whatever
  overflows does so while the queue is full: either something
  is still queued then, or the worker is in the part of its
  round that comes before it takes the overflow.

  The end does come. Each step of the worker on a queue without
  sender lowers a bound on the number of its remaining steps.

  Key definitions include:
    * `EvictionWorker.Heeds`
    * `EvictionWorker.stepsLeft`
    * `EvictionPipeline.runOut`
    * `EvictionPipeline.Leaves`
    * `EvictionPipeline.Drained`
    * `EvictionPipeline.DrainsOut`

  Key lemmas include:
    * `EvictionWorker.Heeds.report`
    * `EvictionWorker.Heeds.step`
    * `EvictionWorker.stepsLeft_step`
    * `EvictionWorker.run_stops`
    * `EvictionPipeline.idle_of_leaves`

  Key theorems include:
    * `EvictionPipeline.run_drainsOut`
-/

namespace OrderedLog

namespace EvictionWorker

------------------------------------------------------------
-- Heeding the overflow
------------------------------------------------------------

/- The worker will take the overflow before its round ends. -/
def collecting : EvictionWorker → Bool
  | waiting => false
  | filling _ => true
  | draining _ => true
  | evicting _ => false
  | stopped => false

/-
  Nothing stays in the overflow unnoticed: something is queued
  that the worker has yet to receive, or it is in a round in
  which it will take the overflow.
-/
structure Heeds
    (q : NoticeQueue)
    (w : EvictionWorker) : Prop where
  room : 0 < q.capacity
  heeded : q.overflow = ∅ ∨ q.pending ≠ [] ∨ w.collecting = true

theorem heeds_start
    (batchSize : Nat)
    {capacity : Nat}
    (hCapacity : 0 < capacity) :
    Heeds (start batchSize (NoticeQueue.empty capacity)).2
      (start batchSize (NoticeQueue.empty capacity)).1 := by
  unfold start
  split
  · exact ⟨hCapacity, Or.inl rfl⟩
  · exact ⟨hCapacity, Or.inl rfl⟩

/- A report overflows only while others are queued. -/
theorem Heeds.report
    {q : NoticeQueue}
    {w : EvictionWorker}
    (h : Heeds q w)
    (id : VersionedId)
    (cause : RemovalCause) : Heeds (q.report id cause).2 w := by
  unfold NoticeQueue.report
  split
  · exact h
  · split
    · exact h
    · split
      · next hFull =>
        have hLength : q.capacity ≤ q.pending.length := by
          simpa [NoticeQueue.full] using hFull
        have hQueued : q.pending ≠ [] :=
          List.ne_nil_of_length_pos (Nat.lt_of_lt_of_le h.room hLength)
        exact ⟨h.room, Or.inr (Or.inl hQueued)⟩
      · have hQueued : q.pending ++ [id] ≠ [] := by simp
        exact ⟨h.room, Or.inr (Or.inl hQueued)⟩

/-
  A step that takes what was queued last begins or goes on with
  a round, and the round ends only after the overflow is taken.
-/
theorem Heeds.step
    {q : NoticeQueue}
    {w : EvictionWorker}
    (h : Heeds q w)
    (batchSize : Nat)
    (stopping : Bool) :
    Heeds (step batchSize stopping q w).queue
      (step batchSize stopping q w).worker := by
  rcases h with ⟨hRoom, hHeeded⟩
  have hMoves := moves_step batchSize stopping q w
  generalize EvictionWorker.step batchSize stopping q w = next at hMoves
  cases hMoves with
  | asked => exact ⟨hRoom, hHeeded.imp_right (Or.imp_right nofun)⟩
  | opened => exact ⟨hRoom, Or.inr (Or.inr rfl)⟩
  | lapsed => exact ⟨hRoom, Or.inr (Or.inr rfl)⟩
  | left => exact ⟨hRoom, hHeeded.imp_right (Or.imp_right nofun)⟩
  | filled => exact ⟨hRoom, Or.inr (Or.inr rfl)⟩
  | closed => exact ⟨hRoom, Or.inr (Or.inr rfl)⟩
  | rested => exact ⟨hRoom, Or.inl rfl⟩
  | planned => exact ⟨hRoom, Or.inl rfl⟩
  | ended => exact ⟨hRoom, hHeeded⟩
  | evicted => exact ⟨hRoom, hHeeded⟩
  | halted => exact ⟨hRoom, hHeeded⟩

------------------------------------------------------------
-- The end of a worker
------------------------------------------------------------

/-
  A bound on the steps that a worker takes on a queue without
  sender. An identifier that is queued may need a round of its
  own, which takes five steps. One of the overflow or of a batch
  needs its eviction.
-/
def stepsLeft (q : NoticeQueue) : EvictionWorker → Nat
  | waiting => 5 * q.pending.length + q.overflow.size + 1
  | filling batch =>
    5 * q.pending.length + q.overflow.size + batch.length + 4
  | draining batch =>
    5 * q.pending.length + q.overflow.size + batch.length + 3
  | evicting targets =>
    5 * q.pending.length + q.overflow.size + targets.length + 2
  | stopped => 0

theorem length_takeOverflow
    (q : NoticeQueue) :
    q.takeOverflow.1.length = q.overflow.size := by
  rw [SortedMap.size_eq_length]
  exact List.length_map _

/- No step brings back the sender. -/
theorem senderGone_step
    (batchSize : Nat)
    (stopping : Bool)
    (q : NoticeQueue)
    (w : EvictionWorker) :
    (step batchSize stopping q w).queue.senderGone = q.senderGone := by
  have hMoves := moves_step batchSize stopping q w
  generalize step batchSize stopping q w = next at hMoves
  cases hMoves with
  | _ => rfl

/- Without a sender each step brings the end nearer. -/
theorem stepsLeft_step
    (batchSize : Nat)
    (stopping : Bool)
    {q : NoticeQueue}
    {w : EvictionWorker}
    (hGone : q.senderGone = true)
    (hRunning : w ≠ stopped) :
    stepsLeft (step batchSize stopping q w).queue
        (step batchSize stopping q w).worker <
      stepsLeft q w := by
  have hMoves := moves_step batchSize stopping q w
  generalize step batchSize stopping q w = next at hMoves
  cases hMoves with
  | asked => exact Nat.succ_pos _
  | opened _ hPending =>
    simp only [stepsLeft, hPending, List.length_cons, List.length_nil]
    omega
  | lapsed _ _ hSender => simp [hGone] at hSender
  | left => exact Nat.succ_pos _
  | filled _ hPending =>
    simp only [stepsLeft, hPending, List.length_cons, List.length_append,
      List.length_nil]
    omega
  | closed => exact Nat.lt_succ_self _
  | rested =>
    have hPending : q.takeOverflow.2.pending = q.pending := rfl
    have hOverflow : q.takeOverflow.2.overflow.size = 0 := rfl
    simp only [stepsLeft, hPending, hOverflow]
    omega
  | @planned batch =>
    -- each target is one of the identifiers taken
    have hTargets :=
      length_evictionTargets_le (batch ++ q.takeOverflow.1)
    rw [List.length_append, length_takeOverflow] at hTargets
    have hPending : q.takeOverflow.2.pending = q.pending := rfl
    have hOverflow : q.takeOverflow.2.overflow.size = 0 := rfl
    simp only [stepsLeft, hPending, hOverflow]
    omega
  | ended => exact Nat.lt_succ_self _
  | evicted => exact Nat.lt_succ_self _
  | halted => exact absurd rfl hRunning

/- A run begins with a step of the worker. -/
theorem exists_run_succ
    (batchSize : Nat)
    (enough : Option Nat)
    (steps : Nat)
    (q : NoticeQueue)
    {w : EvictionWorker}
    (hRunning : w ≠ stopped)
    (calls : List VersionedId) :
    ∃ stopping,
      run batchSize enough (steps + 1) w q calls =
        run batchSize enough steps (step batchSize stopping q w).worker
          (step batchSize stopping q w).queue
          (calls ++ (step batchSize stopping q w).call.toList) := by
  cases w with
  | stopped => exact absurd rfl hRunning
  | waiting => exact ⟨_, rfl⟩
  | filling batch => exact ⟨_, rfl⟩
  | draining batch => exact ⟨_, rfl⟩
  | evicting targets => exact ⟨_, rfl⟩

/- Without a sender a worker that has enough steps ends. -/
theorem run_stops
    (batchSize : Nat)
    (enough : Option Nat)
    {steps : Nat}
    {q : NoticeQueue}
    {w : EvictionWorker}
    (hGone : q.senderGone = true)
    (hSteps : stepsLeft q w ≤ steps)
    (calls : List VersionedId) :
    (run batchSize enough steps w q calls).worker = stopped := by
  induction steps generalizing q w calls with
  | zero =>
    cases w with
    | stopped => rfl
    | waiting => simp [stepsLeft] at hSteps
    | filling batch => simp [stepsLeft] at hSteps
    | draining batch => simp [stepsLeft] at hSteps
    | evicting targets => simp [stepsLeft] at hSteps
  | succ steps ih =>
    by_cases hStopped : w = stopped
    · subst hStopped
      rfl
    · rcases exists_run_succ batchSize enough steps q hStopped calls with
        ⟨stopping, hRun⟩
      have hNext := stepsLeft_step batchSize stopping hGone hStopped
      rw [hRun]
      apply ih
      · rw [senderGone_step]
        exact hGone
      · exact Nat.le_of_lt_succ (Nat.lt_of_lt_of_le hNext hSteps)

/- Without a sender a new worker ends within its bound. -/
theorem drain_stops
    (batchSize : Nat)
    (enough : Option Nat)
    {q : NoticeQueue}
    (hGone : q.senderGone = true) :
    (drain batchSize enough q).worker = stopped := by
  have hStart : stepsLeft (start batchSize q).2 (start batchSize q).1 ≤
      stepBound q := by
    unfold start stepBound
    split
    · simp only [stepsLeft]
      omega
    · exact Nat.zero_le _
  have hSender : (start batchSize q).2.senderGone = true := by
    unfold start
    split
    · exact hGone
    · exact hGone
  exact run_stops batchSize enough hSender hStart []

end EvictionWorker

namespace EvictionPipeline

------------------------------------------------------------
-- Pipelines without sender
------------------------------------------------------------

/- The pipeline after nobody can report to it any more. -/
def dropSender (p : EvictionPipeline) : EvictionPipeline :=
  { p with queue := p.queue.dropSender }

/-
  Where a new pipeline is after some events, the end of its
  sender and a number of steps of its worker.
-/
def runOut
    (batchSize capacity : Nat)
    (events : List Event)
    (steps : Nat) : EvictionPipeline :=
  run batchSize
    (run batchSize (start batchSize capacity) events).dropSender
    (List.replicate steps .work)

/- The next step takes the worker out of its loop. -/
def Leaves
    (batchSize : Nat)
    (p : EvictionPipeline) : Prop :=
  p.worker ≠ .stopped ∧ (step batchSize p .work).worker = .stopped

instance
    (batchSize : Nat)
    (p : EvictionPipeline) : Decidable (p.Leaves batchSize) :=
  inferInstanceAs (Decidable (_ ∧ _))

/-
  Nothing of what the events reported is left: each snapshot
  that was reported as lost has been evicted since, up to its
  version or a higher one.
-/
structure Drained
    (batchSize capacity : Nat)
    (events : List Event)
    (p : EvictionPipeline) : Prop where
  pending : p.queue.pending = []
  overflow : p.queue.overflow = ∅
  evicted :
    ∀ before after id cause,
      events = before ++ .report id cause :: after →
        cause.evicted = true →
          ∃ later,
            p.calls =
              (run batchSize (start batchSize capacity) before).calls
                ++ later ∧
            id.CoveredBy later

/-
  A worker that leaves its loop because the sender is gone has
  dealt with all events, and it does leave it.
-/
structure DrainsOut
    (batchSize capacity : Nat)
    (events : List Event) : Prop where
  /- After the step with which the worker leaves nothing is left. -/
  drained :
    ∀ steps, (runOut batchSize capacity events steps).Leaves batchSize →
      Drained batchSize capacity events
        (runOut batchSize capacity events (steps + 1))
  /- The worker does not go on forever. -/
  ends :
    ∃ steps, (runOut batchSize capacity events steps).worker = .stopped
  /- A worker that could start does leave its loop at some time. -/
  leaves :
    EvictionWorker.fits batchSize = true →
      ∃ steps, (runOut batchSize capacity events steps).Leaves batchSize
  /- A new worker on any queue without sender ends as well. -/
  stops :
    ∀ q : NoticeQueue, q.senderGone = true →
      (EvictionWorker.drain batchSize none q).worker = .stopped

------------------------------------------------------------
-- Steps of a pipeline
------------------------------------------------------------

theorem heeds_run
    (batchSize : Nat)
    {p : EvictionPipeline}
    (h : EvictionWorker.Heeds p.queue p.worker)
    (events : List Event) :
    EvictionWorker.Heeds (run batchSize p events).queue
      (run batchSize p events).worker := by
  induction events generalizing p with
  | nil => exact h
  | cons event events ih =>
    apply ih
    cases event with
    | report id cause => exact h.report id cause
    | work => exact h.step batchSize false

/- The end of the sender changes neither part of the queue. -/
theorem heeds_dropSender
    {p : EvictionPipeline}
    (h : EvictionWorker.Heeds p.queue p.worker) :
    EvictionWorker.Heeds p.dropSender.queue p.dropSender.worker :=
  ⟨h.room, h.heeded⟩

/- Steps of the worker carry along all that is outstanding. -/
theorem run_work_carries
    (batchSize steps : Nat)
    (p : EvictionPipeline) :
    ∃ later,
      (run batchSize p (List.replicate steps .work)).calls =
        p.calls ++ later ∧
      Carries p.outstanding
        ((run batchSize p (List.replicate steps .work)).outstanding
          ++ later) := by
  induction steps generalizing p with
  | zero =>
    refine ⟨[], (List.append_nil _).symm, ?_⟩
    rw [List.append_nil]
    exact carries_refl _
  | succ steps ih =>
    have hStep :=
      EvictionWorker.carries_step batchSize false p.queue p.worker
    rcases ih (step batchSize p .work) with ⟨others, hCalls, hRest⟩
    let first := (p.worker.step batchSize false p.queue).call.toList
    have hBoth := hStep.trans (hRest.append (carries_refl first))
    refine ⟨first ++ others, ?_, ?_⟩
    · rw [← List.append_assoc]
      exact hCalls
    · rw [← List.append_assoc]
      exact hBoth.trans (carries_right_comm _ _ _)

theorem runOut_succ
    (batchSize capacity : Nat)
    (events : List Event)
    (steps : Nat) :
    runOut batchSize capacity events (steps + 1) =
      step batchSize (runOut batchSize capacity events steps) .work := by
  unfold runOut
  rw [List.replicate_succ', run_append]
  rfl

------------------------------------------------------------
-- The end of a pipeline
------------------------------------------------------------

/-
  The worker leaves its loop only as it waits on an empty queue,
  and then the overflow is empty, too.
-/
theorem idle_of_leaves
    {batchSize : Nat}
    {p : EvictionPipeline}
    (hLeaves : p.Leaves batchSize)
    (hHeeds : EvictionWorker.Heeds p.queue p.worker) :
    p.worker = .waiting ∧ p.queue.pending = [] ∧
      p.queue.overflow = ∅ ∧
      step batchSize p .work =
        { p with
          queue := p.queue.dropReceiver
          worker := .stopped } := by
  rcases p with ⟨q, w, stats, calls⟩
  rcases hLeaves with ⟨hRunning, hStopped⟩
  rcases hHeeds with ⟨_, hHeeded⟩
  have hMoves := EvictionWorker.moves_step batchSize false q w
  simp only [step] at hRunning hStopped hHeeded ⊢
  generalize w.step batchSize false q = next at hMoves hStopped
  cases hMoves with
  | asked hStopping => simp at hStopping
  | left _ hPending =>
    refine ⟨rfl, hPending, ?_, by simp⟩
    rcases hHeeded with hEmpty | hQueued | hCollects
    · exact hEmpty
    · exact absurd hPending hQueued
    · simp [EvictionWorker.collecting] at hCollects
  | halted => exact absurd rfl hRunning
  | opened => simp at hStopped
  | lapsed => simp at hStopped
  | filled => simp at hStopped
  | closed => simp at hStopped
  | rested => simp at hStopped
  | planned => simp at hStopped
  | ended => simp at hStopped
  | evicted => simp at hStopped

/- Without room for a batch the worker has no loop to leave. -/
theorem not_leaves_of_not_fits
    {batchSize : Nat}
    (hFits : EvictionWorker.fits batchSize = false)
    (capacity : Nat)
    (events : List Event)
    (steps : Nat) :
    ¬ (runOut batchSize capacity events steps).Leaves batchSize := by
  intro hLeaves
  apply hLeaves.1
  unfold runOut
  rw [run_of_not_fits hFits, run_of_dead]
  · simp [dropSender, start, EvictionWorker.start, hFits]
  · simp [dropSender, start, EvictionWorker.start, hFits]
  · simp [dropSender, NoticeQueue.dropSender, start,
      EvictionWorker.start, hFits, NoticeQueue.dropReceiver]

/- What is left of the events as the worker leaves is nothing. -/
theorem drained_of_leaves
    {batchSize capacity : Nat}
    (hFits : EvictionWorker.fits batchSize = true)
    (hCapacity : 0 < capacity)
    {events : List Event}
    {steps : Nat}
    (hLeaves : (runOut batchSize capacity events steps).Leaves batchSize) :
    Drained batchSize capacity events
      (runOut batchSize capacity events (steps + 1)) := by
  have hHeeds :
      EvictionWorker.Heeds (runOut batchSize capacity events steps).queue
        (runOut batchSize capacity events steps).worker :=
    heeds_run batchSize
      (heeds_dropSender
        (heeds_run batchSize
          (EvictionWorker.heeds_start batchSize hCapacity) events)) _
  rcases idle_of_leaves hLeaves hHeeds with
    ⟨hWaiting, hPending, hOverflow, hLeft⟩
  rw [runOut_succ, hLeft]
  constructor
  · exact hPending
  · exact hOverflow
  · intro before after id cause hEvents hCause
    -- what was outstanding as the sender went has been evicted
    have hNothing :
        (runOut batchSize capacity events steps).outstanding = [] := by
      simp only [outstanding, EvictionWorker.outstanding, hWaiting,
        EvictionWorker.unfinished, NoticeQueue.undelivered, hPending,
        hOverflow, List.append_nil, List.nil_append]
      rfl
    rcases run_work_carries batchSize steps
        (run batchSize (start batchSize capacity) events).dropSender with
      ⟨others, hOthers, hRest⟩
    change Carries
      (run batchSize (start batchSize capacity) events).outstanding
      ((runOut batchSize capacity events steps).outstanding ++ others)
      at hRest
    rw [hNothing, List.nil_append] at hRest
    rcases (faithful_of_fits hFits capacity events).covered
        before after id cause hEvents hCause with
      ⟨first, hFirst, hCovered⟩
    refine ⟨first ++ others, ?_, ?_⟩
    · rw [← List.append_assoc, ← hFirst]
      exact hOthers
    · have hBoth := hRest.append (carries_refl first)
      have hLater := hCovered.trans hBoth.covered
      exact hLater.mono (by simp)

/- There is a number of steps that takes the worker to its end. -/
theorem exists_stopped
    (batchSize capacity : Nat)
    (events : List Event) :
    ∃ steps, (runOut batchSize capacity events steps).worker = .stopped := by
  let p := (run batchSize (start batchSize capacity) events).dropSender
  refine ⟨EvictionWorker.stepsLeft p.queue p.worker, ?_⟩
  unfold runOut
  rw [run_replicate_work]
  exact EvictionWorker.run_stops batchSize none rfl (Nat.le_refl _) p.calls

/- Before it has stopped, the worker leaves its loop. -/
theorem exists_leaves
    {batchSize : Nat}
    (hFits : EvictionWorker.fits batchSize = true)
    (capacity : Nat)
    (events : List Event) :
    ∃ steps, (runOut batchSize capacity events steps).Leaves batchSize := by
  have hAlive : (start batchSize capacity).Alive :=
    EvictionWorker.start_alive hFits capacity
  have hRunning : (runOut batchSize capacity events 0).worker ≠ .stopped :=
    (run_carries batchSize hAlive events).1.running
  rcases exists_stopped batchSize capacity events with ⟨steps, hStopped⟩
  -- there is a first step after which the worker has stopped
  induction steps with
  | zero => exact absurd hStopped hRunning
  | succ steps ih =>
    by_cases hEarlier :
        (runOut batchSize capacity events steps).worker = .stopped
    · exact ih hEarlier
    · rw [runOut_succ] at hStopped
      exact ⟨steps, hEarlier, hStopped⟩

/-
  With room in its queue, the worker deals with everything
  before it ends because the sender is gone.
-/
theorem run_drainsOut
    (batchSize : Nat)
    {capacity : Nat}
    (hCapacity : 0 < capacity)
    (events : List Event) : DrainsOut batchSize capacity events := by
  constructor
  · intro steps hLeaves
    cases hFits : EvictionWorker.fits batchSize with
    | true => exact drained_of_leaves hFits hCapacity hLeaves
    | false =>
      exact absurd hLeaves
        (not_leaves_of_not_fits hFits capacity events steps)
  · exact exists_stopped batchSize capacity events
  · intro hFits
    exact exists_leaves hFits capacity events
  · intro q hGone
    exact EvictionWorker.drain_stops batchSize none hGone

/-
  Two of these reports overflow, one of them while the worker
  fills its batch. Another one does not concern the worker.
-/
def crowdedReports : List Event :=
  [ .report ⟨StreamId.ofNat 1, Address.ofNat 3⟩ .size,
    .report ⟨StreamId.ofNat 2, Address.ofNat 1⟩ .expired,
    .work,
    .report ⟨StreamId.ofNat 1, Address.ofNat 9⟩ .size,
    .report ⟨StreamId.ofNat 3, Address.ofNat 4⟩ .explicit,
    .report ⟨StreamId.ofNat 2, Address.ofNat 5⟩ .size ]

/- The worker leaves with its seventh step after these reports. -/
theorem crowdedReports_drainOut :
    0 < 1 ∧
      DrainsOut 2 1 crowdedReports ∧
      (runOut 2 1 crowdedReports 6).Leaves 2 ∧
      Drained 2 1 crowdedReports (runOut 2 1 crowdedReports 7) := by
  have hLeaves : (runOut 2 1 crowdedReports 6).Leaves 2 := by decide
  have hDrainsOut := run_drainsOut 2 Nat.one_pos crowdedReports
  exact ⟨Nat.one_pos, hDrainsOut, hLeaves, hDrainsOut.drained 6 hLeaves⟩

/- The evictions with which these reports have been dealt with. -/
example :
    (runOut 2 1 crowdedReports 7).calls =
      [ ⟨StreamId.ofNat 1, Address.ofNat 9⟩,
        ⟨StreamId.ofNat 2, Address.ofNat 5⟩ ] := by
  decide

end EvictionPipeline

end OrderedLog
