import OrderedLog.Eviction.Worker

/-
  This file says once what a step of the eviction worker can
  be, with what it takes for each kind of step and what comes
  of it. What holds of all steps is proved from this.

  Key definitions include:
    * `EvictionWorker.Moves`

  Key lemmas include:
    * `NoticeQueue.receive_cases`
    * `EvictionWorker.moves_step`
-/

namespace OrderedLog

/-
  The worker receives what was sent first, or finds that nothing
  was and leaves the queue as it is.
-/
theorem NoticeQueue.receive_cases
    (q : NoticeQueue) :
    (∃ id rest,
        q.pending = id :: rest ∧
        q.receive = (.got id, { q with pending := rest })) ∨
      (q.pending = [] ∧
        q.receive =
          (if q.senderGone then .disconnected else .timedOut, q)) := by
  unfold receive
  cases hPending : q.pending with
  | nil => exact Or.inr ⟨rfl, rfl⟩
  | cons id rest => exact Or.inl ⟨id, rest, rfl, rfl⟩

namespace EvictionWorker

/- The steps that there are, with what each of them takes. -/
inductive Moves
    (batchSize : Nat)
    (stopping : Bool)
    (q : NoticeQueue) : EvictionWorker → Progress → Prop where
  /- The worker is asked to stop. -/
  | asked
      (hStopping : stopping = true) :
      Moves batchSize stopping q waiting
        ⟨stopped, q.dropReceiver, none⟩
  /- A round begins with an identifier. -/
  | opened
      {id : VersionedId}
      {rest : List VersionedId}
      (hStopping : stopping = false)
      (hPending : q.pending = id :: rest) :
      Moves batchSize stopping q waiting
        ⟨filling [id], { q with pending := rest }, none⟩
  /- A round begins without one, to see to the overflow. -/
  | lapsed
      (hStopping : stopping = false)
      (hPending : q.pending = [])
      (hSender : q.senderGone = false) :
      Moves batchSize stopping q waiting ⟨filling [], q, none⟩
  /- Nothing is queued, and nobody will report anything. -/
  | left
      (hStopping : stopping = false)
      (hPending : q.pending = [])
      (hSender : q.senderGone = true) :
      Moves batchSize stopping q waiting
        ⟨stopped, q.dropReceiver, none⟩
  /- The batch has room for what is queued. -/
  | filled
      {batch : List VersionedId}
      {id : VersionedId}
      {rest : List VersionedId}
      (hRoom : batch.length < batchSize)
      (hPending : q.pending = id :: rest) :
      Moves batchSize stopping q (filling batch)
        ⟨filling (batch ++ [id]), { q with pending := rest }, none⟩
  /- The batch is full, or nothing is queued. -/
  | closed
      {batch : List VersionedId}
      (hFull : batchSize ≤ batch.length ∨ q.pending = []) :
      Moves batchSize stopping q (filling batch)
        ⟨draining batch, q, none⟩
  /- There is nothing to evict. -/
  | rested
      {batch : List VersionedId}
      (hNothing : batch ++ q.takeOverflow.1 = []) :
      Moves batchSize stopping q (draining batch)
        ⟨waiting, q.takeOverflow.2, none⟩
  /- The overflow joins the batch before the targets are made. -/
  | planned
      {batch : List VersionedId}
      (hSome : batch ++ q.takeOverflow.1 ≠ []) :
      Moves batchSize stopping q (draining batch)
        ⟨evicting (evictionTargets (batch ++ q.takeOverflow.1)),
          q.takeOverflow.2, none⟩
  /- All evictions of the round are done. -/
  | ended :
      Moves batchSize stopping q (evicting []) ⟨waiting, q, none⟩
  /- One eviction is asked for. -/
  | evicted
      {target : VersionedId}
      {targets : List VersionedId} :
      Moves batchSize stopping q (evicting (target :: targets))
        ⟨evicting targets, q, some target⟩
  /- Out of its loop the worker does nothing. -/
  | halted :
      Moves batchSize stopping q stopped ⟨stopped, q, none⟩

/- Each step is one of these. -/
theorem moves_step
    (batchSize : Nat)
    (stopping : Bool)
    (q : NoticeQueue)
    (w : EvictionWorker) :
    Moves batchSize stopping q w (step batchSize stopping q w) := by
  cases w with
  | waiting =>
    cases stopping with
    | true => exact .asked rfl
    | false =>
      rcases q.receive_cases with
        ⟨id, rest, hPending, hGot⟩ | ⟨hPending, hNone⟩
      · simp only [step, hGot, Bool.false_eq_true, if_false]
        exact .opened rfl hPending
      · cases hSender : q.senderGone with
        | true =>
          simp only [step, hNone, hSender, Bool.false_eq_true, if_false,
            if_true]
          exact .left rfl hPending hSender
        | false =>
          simp only [step, hNone, hSender, Bool.false_eq_true, if_false]
          exact .lapsed rfl hPending hSender
  | filling batch =>
    rw [step]
    split
    · next hRoom =>
      rcases q.receive_cases with
        ⟨id, rest, hPending, hGot⟩ | ⟨hPending, hNone⟩
      · simp only [hGot]
        exact .filled hRoom hPending
      · cases hSender : q.senderGone with
        | true =>
          simp only [hNone, hSender, if_true]
          exact .closed (Or.inr hPending)
        | false =>
          simp only [hNone, hSender, Bool.false_eq_true, if_false]
          exact .closed (Or.inr hPending)
    · next hFull => exact .closed (Or.inl (Nat.le_of_not_lt hFull))
  | draining batch =>
    simp only [step]
    split
    · next hNothing => exact .rested hNothing
    · next hSome => exact .planned hSome
  | evicting targets =>
    cases targets with
    | nil => exact .ended
    | cons target targets => exact .evicted
  | stopped => exact .halted

end EvictionWorker

end OrderedLog
