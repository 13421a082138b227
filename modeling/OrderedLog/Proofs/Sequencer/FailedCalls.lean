import OrderedLog.Proofs.Sequencer.Calls

/-
  This file proves that a call that fails leaves no trace, and
  an aborted transaction none but the count of its verdict. So
  no later call is answered in another way than it would have
  been without it.

  The counts of verdicts are written and never read. What is
  left of a sequencer without them decides, with every call, the
  answer and what is left of it afterwards.

  Key definitions include:
    * `ConflictCache.unjudged`
    * `Sequencer.unjudged`
    * `Sequencer.Reply.Fails`
    * `Sequencer.LeavesNoTrace`

  Key lemmas include:
    * `ConflictCache.evictWhile_unjudged`
    * `ConflictCache.enterInOrder_unjudged`
    * `Sequencer.answer_unjudged`
    * `Sequencer.answerAll_congr`
    * `Sequencer.unjudged_of_fails`

  Key theorems include:
    * `Sequencer.failures_leave_no_trace`
-/

namespace OrderedLog

------------------------------------------------------------
-- Caches without the counts of verdicts
------------------------------------------------------------

namespace ConflictCache

/- A cache as if it had not judged any transaction. -/
def unjudged (c : ConflictCache) : ConflictCache :=
  { c with stats := { c.stats with commits := 0, aborts := 0 } }

@[simp]
theorem unjudged_counted
    (c : ConflictCache)
    (verdict : Verdict) : (c.counted verdict).unjudged = c.unjudged := by
  cases verdict with
  | commit => rfl
  | abort reason => rfl

theorem detach_unjudged
    (c : ConflictCache)
    (key : ConflictKey)
    (address : Address) :
    c.unjudged.detach key address = (c.detach key address).unjudged := by
  unfold detach unjudged
  simp only
  cases c.window.get? address with
  | none => rfl
  | some keys =>
    simp only
    split
    · rfl
    · rfl

theorem move_unjudged
    (version : Address)
    (c : ConflictCache)
    (key : ConflictKey) :
    move version c.unjudged key = (move version c key).unjudged := by
  have hGet : c.unjudged.get? key = c.get? key := rfl
  unfold move
  rw [hGet]
  cases c.get? key with
  | none => rfl
  | some previous =>
    simp only [detach_unjudged]
    rfl

theorem foldl_move_unjudged
    (version : Address)
    (keys : List ConflictKey)
    (c : ConflictCache) :
    keys.foldl (move version) c.unjudged =
      (keys.foldl (move version) c).unjudged := by
  induction keys generalizing c with
  | nil => rfl
  | cons key keys ih =>
    rw [List.foldl_cons, move_unjudged, ih, List.foldl_cons]

theorem evictFirst_unjudged (c : ConflictCache) :
    c.unjudged.evictFirst =
      (c.evictFirst.1.unjudged, c.evictFirst.2) := by
  have hFirst : c.unjudged.window.first? = c.window.first? := rfl
  unfold evictFirst
  rw [hFirst]
  cases c.window.first? with
  | none => rfl
  | some first => rfl

/- Evictions are the same if their test does not read the counts. -/
theorem evictWhile_unjudged
    {more : ConflictCache → Bool}
    (hMore : ∀ c, more c.unjudged = more c)
    (rounds : Nat)
    (c : ConflictCache) :
    evictWhile more rounds c.unjudged =
      ((evictWhile more rounds c).1.unjudged,
        (evictWhile more rounds c).2) := by
  induction rounds generalizing c with
  | zero => rfl
  | succ rounds ih =>
    unfold evictWhile
    rw [hMore]
    split
    · simp only [evictFirst_unjudged, ih]
    · rfl

theorem shrink_unjudged (c : ConflictCache) :
    c.unjudged.shrink = c.shrink.unjudged :=
  congrArg Prod.fst (evictWhile_unjudged (fun _ => rfl) c.windowSize c)

theorem enterInOrder_unjudged
    (c : ConflictCache)
    (order : List ConflictKey)
    (version : Address) :
    c.unjudged.enterInOrder order version =
      (c.enterInOrder order version).unjudged := by
  unfold enterInOrder
  rw [foldl_move_unjudged]
  let moved := order.foldl (move version) c
  let entered : ConflictCache :=
    { moved with
      window := moved.window.insert version (SortedSet.ofList order) }
  exact congrArg measured entered.shrink_unjudged

theorem trimBelow_unjudged
    (c : ConflictCache)
    (mark : Address) :
    c.unjudged.trimBelow mark =
      ((c.trimBelow mark).1.unjudged, (c.trimBelow mark).2) := by
  unfold trimBelow
  rw [evictWhile_unjudged (fun _ => rfl)]
  rfl

end ConflictCache

------------------------------------------------------------
-- Sequencers without the counts of verdicts
------------------------------------------------------------

namespace Sequencer

/- A sequencer as if it had not judged any transaction. -/
def unjudged (s : Sequencer) : Sequencer :=
  { s with cache := s.cache.unjudged }

@[simp]
theorem unjudged_counted
    (s : Sequencer)
    (verdict : Verdict) : (s.counted verdict).unjudged = s.unjudged := by
  unfold counted unjudged
  rw [ConflictCache.unjudged_counted]

theorem issue_unjudged
    (s : Sequencer)
    (streams : List StreamId)
    (count : Nat) :
    s.unjudged.issue streams count =
      (s.issue streams count).map
        (fun issued => (issued.1, issued.2.unjudged)) := by
  have hNext : s.unjudged.next = s.next := rfl
  unfold issue
  rw [hNext]
  split
  · rfl
  · cases s.next.add? count with
    | none => rfl
    | some next => rfl

theorem restart_unjudged
    (s : Sequencer)
    (tails : Tails) : s.unjudged.restart tails = s.restart tails :=
  rfl

theorem handover_unjudged
    (s : Sequencer)
    (streams : List StreamId) :
    s.unjudged.handover streams = s.handover streams :=
  rfl

theorem trim_unjudged
    (s : Sequencer)
    (mark : Address) :
    s.unjudged.trim mark =
      ((s.trim mark).1, (s.trim mark).2.unjudged) := by
  have hCache : s.unjudged.cache = s.cache.unjudged := rfl
  unfold trim
  simp only [hCache, ConflictCache.trimBelow_unjudged]
  rfl

theorem appended_unjudged
    (s : Sequencer)
    (t : Transaction)
    (streams : List StreamId)
    (recorded : List ConflictKey)
    (next : Address) :
    s.unjudged.appended t streams recorded next =
      (s.appended t streams recorded next).unjudged := by
  have hCache : s.unjudged.cache = s.cache.unjudged := rfl
  have hNext : s.unjudged.next = s.next := rfl
  unfold appended
  rw [hCache, hNext, ConflictCache.enterInOrder_unjudged]
  split
  · rfl
  · rfl

/- A call is answered as it would be without the counts. -/
theorem answer_unjudged
    (s : Sequencer)
    (call : Call) :
    (s.unjudged.answer call).1 = (s.answer call).1 ∧
      (s.unjudged.answer call).2.unjudged =
        (s.answer call).2.unjudged := by
  rcases call with ⟨request, reads, writes, recorded⟩
  cases request with
  | token streams count =>
    simp only [answer, Call.perform, EStateM.run_bind, run_issueInPlace,
      issue_unjudged]
    cases s.issue streams count with
    | error refusal => exact ⟨rfl, rfl⟩
    | ok issued => exact ⟨rfl, rfl⟩
  | commit t streams =>
    have hJudge :
        s.unjudged.cache.judge t.snapshot reads writes =
          s.cache.judge t.snapshot reads writes := rfl
    have hNext : s.unjudged.next = s.next := rfl
    have hRefusal :
        s.unjudged.cache.refusal? recorded s.next =
          s.cache.refusal? recorded s.next := rfl
    simp only [answer, Call.perform, EStateM.run_bind, run_commitInPlace,
      hJudge, hNext, hRefusal]
    cases s.cache.judge t.snapshot reads writes with
    | abort reason => exact ⟨rfl, rfl⟩
    | commit =>
      cases s.next.next? with
      | none => exact ⟨rfl, rfl⟩
      | some next =>
        cases s.cache.refusal? recorded s.next with
        | some refusal => exact ⟨rfl, rfl⟩
        | none =>
          refine ⟨rfl, ?_⟩
          -- the verdict is counted on both sides, and forgotten again
          simp only [EStateM.run_pure]
          rw [← appended_unjudged, ← appended_unjudged, unjudged_counted,
            unjudged_counted]
          rfl
  | tails streams => exact ⟨rfl, rfl⟩
  | trim mark =>
    have hAnswer : ∀ d : Sequencer,
        d.answer ⟨.trim mark, reads, writes, recorded⟩ =
          (.evicted (d.trim mark).1, (d.trim mark).2) := fun _ => rfl
    rw [hAnswer, hAnswer, trim_unjudged]
    exact ⟨rfl, rfl⟩
  | restart tails =>
    simp only [answer, Call.perform, EStateM.run_bind,
      run_restartInPlace, restart_unjudged]
    cases s.restart tails with
    | error refusal => exact ⟨rfl, rfl⟩
    | ok next => exact ⟨rfl, rfl⟩
  | handover streams =>
    simp only [answer, Call.perform, EStateM.run_bind, EStateM.run_get,
      handover_unjudged]
    cases s.handover streams with
    | error refusal => exact ⟨rfl, rfl⟩
    | ok next => exact ⟨rfl, rfl⟩

/- Calls are answered alike where only the counts are different. -/
theorem answer_congr
    {s d : Sequencer}
    (h : s.unjudged = d.unjudged)
    (call : Call) :
    (s.answer call).1 = (d.answer call).1 ∧
      (s.answer call).2.unjudged = (d.answer call).2.unjudged := by
  rcases s.answer_unjudged call with ⟨hReply, hLeft⟩
  rcases d.answer_unjudged call with ⟨hOther, hRight⟩
  rw [← hReply, ← hLeft, h]
  exact ⟨hOther, hRight⟩

theorem answerAll_congr
    {s d : Sequencer}
    (h : s.unjudged = d.unjudged)
    (calls : List Call) :
    (s.answerAll calls).1 = (d.answerAll calls).1 ∧
      (s.answerAll calls).2.unjudged =
        (d.answerAll calls).2.unjudged := by
  induction calls generalizing s d with
  | nil => exact ⟨rfl, h⟩
  | cons call calls ih =>
    rcases answer_congr h call with ⟨hReply, hNext⟩
    rcases ih hNext with ⟨hReplies, hLast⟩
    unfold answerAll
    simp only
    rw [hReply, hReplies]
    exact ⟨rfl, hLast⟩

------------------------------------------------------------
-- Calls that fail
------------------------------------------------------------

/- A reply that tells of a failure, or of an abort. -/
def Reply.Fails : Reply → Prop
  | .refused _ => True
  | .outcome (.aborted _) => True
  | _ => False

variable {s left : Sequencer}
variable {t : Transaction}
variable {streams : List StreamId}
variable {reads writes recorded : List ConflictKey}
variable {refusal : Refusal}

theorem issueInPlace_failed
    {count : Nat}
    (h : (issueInPlace streams count).run s = .error refusal left) :
    left = s := by
  rw [run_issueInPlace] at h
  split at h
  · cases h
    rfl
  · cases h

theorem restartInPlace_failed
    {tails : Tails}
    (h : (restartInPlace tails).run s = .error refusal left) :
    left = s := by
  rw [run_restartInPlace] at h
  split at h
  · cases h
    rfl
  · cases h

/- What fails to commit has passed its verdict. -/
theorem commitInPlace_failed
    (h : (commitInPlace t streams reads writes recorded).run s =
      .error refusal left) :
    s.cache.judge t.snapshot reads writes = .commit ∧
      left = s.counted .commit := by
  rcases s.commitInPlace_cases t streams reads writes recorded with
    ⟨_, _, hRun⟩ | ⟨_, hJudge, hRun⟩ | ⟨_, _, hRun⟩
  · rw [h] at hRun
    cases hRun
  · rw [h] at hRun
    cases hRun
    exact ⟨hJudge, rfl⟩
  · rw [h] at hRun
    cases hRun

theorem commitInPlace_aborted
    {reason : AbortReason}
    (h : (commitInPlace t streams reads writes recorded).run s =
      .ok (.aborted reason) left) :
    s.cache.judge t.snapshot reads writes = .abort reason ∧
      left = s.counted (.abort reason) := by
  rcases s.commitInPlace_cases t streams reads writes recorded with
    ⟨_, hJudge, hRun⟩ | ⟨_, _, hRun⟩ | ⟨_, _, hRun⟩
  · rw [h] at hRun
    cases hRun
    exact ⟨hJudge, rfl⟩
  · rw [h] at hRun
    cases hRun
  · rw [h] at hRun
    cases hRun

/- A call that fails leaves all but the counts as it was. -/
theorem unjudged_of_fails
    {call : Call}
    (h : (s.answer call).1.Fails) :
    (s.answer call).2.unjudged = s.unjudged := by
  rcases call with ⟨request, reads, writes, recorded⟩
  cases request with
  | token streams count =>
    simp only [answer, Call.perform, EStateM.run_bind] at h ⊢
    cases hRun : (issueInPlace streams count).run s with
    | error refusal left => exact congrArg unjudged (issueInPlace_failed hRun)
    | ok token next =>
      rw [hRun] at h
      exact h.elim
  | commit t streams =>
    simp only [answer, Call.perform, EStateM.run_bind] at h ⊢
    cases hRun : (commitInPlace t streams reads writes recorded).run s with
    | error refusal left =>
      rw [(commitInPlace_failed hRun).2]
      exact s.unjudged_counted .commit
    | ok outcome next =>
      rw [hRun] at h
      cases outcome with
      | committed address => exact h.elim
      | aborted reason =>
        rw [(commitInPlace_aborted hRun).2]
        exact s.unjudged_counted (.abort reason)
  | tails streams => exact h.elim
  | trim mark => exact h.elim
  | restart tails =>
    simp only [answer, Call.perform, EStateM.run_bind] at h ⊢
    cases hRun : (restartInPlace tails).run s with
    | error refusal left =>
      exact congrArg unjudged (restartInPlace_failed hRun)
    | ok _ next =>
      rw [hRun] at h
      exact h.elim
  | handover streams =>
    simp only [answer, Call.perform, EStateM.run_bind, EStateM.run_get]
      at h ⊢
    cases hHandover : s.handover streams with
    | error refusal => rfl
    | ok next =>
      rw [hHandover] at h
      exact h.elim

/-
  What is left of a sequencer by a call that fails, and what is
  noticed of it later. The keys of a transaction may be looked
  at in any orders, for requests that are just served they are
  sorted.
-/
structure LeavesNoTrace (s : Sequencer) : Prop where
  token :
    ∀ streams count refusal left,
      (issueInPlace streams count).run s = .error refusal left → left = s
  restart :
    ∀ tails refusal left,
      (restartInPlace tails).run s = .error refusal left → left = s
  refused :
    ∀ t streams reads writes recorded refusal left,
      (commitInPlace t streams reads writes recorded).run s =
          .error refusal left →
        s.cache.judge t.snapshot reads writes = .commit ∧
          left = s.counted .commit
  aborted :
    ∀ t streams reads writes recorded reason left,
      (commitInPlace t streams reads writes recorded).run s =
          .ok (.aborted reason) left →
        s.cache.judge t.snapshot reads writes = .abort reason ∧
          left = s.counted (.abort reason)
  unnoticed :
    ∀ call, (s.answer call).1.Fails →
      ∀ later,
        ((s.answer call).2.answerAll later).1 = (s.answerAll later).1
  unserved :
    ∀ request, (s.serve request).1.Fails →
      ∀ later, ((s.serve request).2.run later).1 = (s.run later).1

/-
  A token request or a restart that fails has changed nothing. A
  transaction that fails or is aborted has been counted, and has
  changed nothing else. Whatever is asked for later is answered
  as if there had been no such call.
-/
theorem failures_leave_no_trace (s : Sequencer) : s.LeavesNoTrace := by
  have hUnnoticed : ∀ call, (s.answer call).1.Fails →
      ∀ later,
        ((s.answer call).2.answerAll later).1 = (s.answerAll later).1 := by
    intro call hFails later
    exact (answerAll_congr (unjudged_of_fails hFails) later).1
  constructor
  · intro streams count refusal left hRun
    exact issueInPlace_failed hRun
  · intro tails refusal left hRun
    exact restartInPlace_failed hRun
  · intro t streams reads writes recorded refusal left hRun
    exact commitInPlace_failed hRun
  · intro t streams reads writes recorded reason left hRun
    exact commitInPlace_aborted hRun
  · exact hUnnoticed
  · intro request hFails later
    rw [← answer_sorted] at hFails ⊢
    rw [← answerAll_sorted, ← answerAll_sorted]
    exact hUnnoticed (Call.sorted request) hFails (later.map Call.sorted)

/- A transaction that passes its verdict, but has no address left. -/
example :
    let s : Sequencer := { new 4 (by decide) with next := Address.last }
    let request : Request := .commit ⟨Address.zero, ∅, ∅⟩ []
    s.answer (Call.sorted request) =
      (.refused (.exhausted Address.last), s.counted .commit) := by
  decide

end Sequencer

end OrderedLog
