import OrderedLog.Proofs.ConflictCache.Trims
import OrderedLog.Proofs.Sequencer.Acceptance
import OrderedLog.Proofs.Sequencer.Attribution

/-
  This file proves how the counts of verdicts go with what the
  callers of a sequencer were told in an epoch. An aborted
  transaction is counted once, and so is a committed one. But
  the verdict is counted before an address is looked for. So a
  transaction that may commit when only the last address is left
  is refused, and counted as if it had committed.

  The counts agree with the outcomes for as long as no such
  transaction comes, and never again after that.

  Key definitions include:
    * `Sequencer.Exchange`
    * `Sequencer.trace`
    * `Sequencer.committing`
    * `Sequencer.aborting`
    * `Sequencer.failing`
    * `Sequencer.Counts`
    * `Sequencer.CountsOutcomes`
    * `Sequencer.MeetsEnd`

  Key lemmas include:
    * `ConflictCache.Tidy.verdicts_record`
    * `Sequencer.Consistent.verdicts_commit`
    * `Sequencer.Consistent.counts_serve`
    * `Sequencer.Consistent.counts_run`
    * `Sequencer.Consistent.meetsEnd_iff`
    * `Sequencer.Begins.counts_run`

  Key theorems include:
    * `Sequencer.counts_outcomes_iff`
-/

namespace OrderedLog

/- A write that is recorded changes no count of verdicts. -/
theorem ConflictCache.Tidy.verdicts_record
    {c next : ConflictCache}
    (h : c.Tidy)
    {keys : SortedSet ConflictKey}
    {version : Address}
    (hRecord : c.record keys version = .ok next) :
    next.stats.commits = c.stats.commits ∧
      next.stats.aborts = c.stats.aborts := by
  rcases record_cases_of_keys hRecord with
    ⟨_, hNext⟩ | ⟨hKeys, hVersion, hNext⟩
  · rw [hNext]
    exact ⟨rfl, rfl⟩
  · let write : ConflictCache.Write := ⟨keys, version⟩
    have hMinimal : ∃ evicted,
        EvictsMinimally c.capacity write evicted c (c.enter keys version) :=
      h.enter_evicts_minimally hKeys hVersion
    rcases hMinimal with ⟨evicted, hEvicts⟩
    rw [hNext]
    exact ⟨hEvicts.commits, hEvicts.aborts⟩

namespace Sequencer

variable {s : Sequencer}

------------------------------------------------------------
-- What callers are told
------------------------------------------------------------

/- A request and the reply to it. -/
abbrev Exchange : Type :=
  Request × Reply

/- The requests of a run with their replies, in their order. -/
def trace
    (s : Sequencer)
    (requests : List Request) : List Exchange :=
  requests.zip (s.run requests).1

/- A transaction is submitted, and it commits. -/
def committing : Exchange → Bool
  | (.commit _ _, .outcome (.committed _)) => true
  | _ => false

/- A transaction is submitted, and it is aborted. -/
def aborting : Exchange → Bool
  | (.commit _ _, .outcome (.aborted _)) => true
  | _ => false

/- A transaction is submitted, and there is an error. -/
def failing : Exchange → Bool
  | (.commit _ _, .refused _) => true
  | _ => false

theorem trace_cons
    (s : Sequencer)
    (request : Request)
    (requests : List Request) :
    s.trace (request :: requests) =
      (request, (s.serve request).1) ::
        (s.serve request).2.trace requests :=
  rfl

------------------------------------------------------------
-- What is counted
------------------------------------------------------------

/-
  What some requests add to the counts of verdicts. An error
  adds to the commits.
-/
structure Counts
    (s : Sequencer)
    (requests : List Request) : Prop where
  commits :
    (s.run requests).2.cache.stats.commits =
      s.cache.stats.commits + (s.trace requests).countP committing +
        (s.trace requests).countP failing
  aborts :
    (s.run requests).2.cache.stats.aborts =
      s.cache.stats.aborts + (s.trace requests).countP aborting

/- The counts of one request and of those after it add up. -/
theorem Counts.cons
    {request : Request}
    {requests : List Request}
    (h : s.Counts [request])
    (h' : (s.serve request).2.Counts requests) :
    s.Counts (request :: requests) := by
  have hTrace :
      s.trace (request :: requests) =
        s.trace [request] ++ (s.serve request).2.trace requests := rfl
  have hState :
      (s.run (request :: requests)).2 =
        ((s.serve request).2.run requests).2 := rfl
  have hFirst : (s.run [request]).2 = (s.serve request).2 := rfl
  have hCommits := h.commits
  have hAborts := h.aborts
  rw [hFirst] at hCommits hAborts
  constructor
  · rw [hState, hTrace, h'.commits, hCommits, List.countP_append,
      List.countP_append]
    omega
  · rw [hState, hTrace, h'.aborts, hAborts, List.countP_append]
    omega

/- The reply to a transaction is its outcome, or the error. -/
theorem reply_serve_commit
    (s : Sequencer)
    (t : Transaction)
    (streams : List StreamId) :
    (s.serve (.commit t streams)).1 =
      match (s.commit t streams).1 with
      | .ok outcome => .outcome outcome
      | .error refusal => .refused refusal := by
  rw [Sequencer.serve]
  rcases s.commit t streams with ⟨answer, next⟩
  cases answer with
  | ok outcome => rfl
  | error refusal => rfl

/- Whatever becomes of a transaction, its verdict is counted. -/
theorem Consistent.verdicts_commit
    (h : s.Consistent)
    (t : Transaction)
    (streams : List StreamId) :
    (s.commit t streams).2.cache.stats.commits =
        (s.cache.stats.recordVerdict (s.cache.verdict t)).commits ∧
      (s.commit t streams).2.cache.stats.aborts =
        (s.cache.stats.recordVerdict (s.cache.verdict t)).aborts := by
  rcases s.committed_or_ruled t streams with ⟨address, hCommit⟩ | hRuled
  · have hTidy : (s.cache.rule t).2.Tidy :=
      ConflictCache.WithinLog.tidy (h.ruled t)
    exact hTidy.verdicts_record (commit_cases hCommit).2.2.2
  · rw [hRuled]
    exact ⟨rfl, rfl⟩

theorem Consistent.counts_commit
    (h : s.Consistent)
    (t : Transaction)
    (streams : List StreamId) : s.Counts [.commit t streams] := by
  have hRun : (s.run [.commit t streams]).2 =
      (s.commit t streams).2 := s.state_serve_commit t streams
  have hTrace : s.trace [.commit t streams] =
      [(.commit t streams, (s.serve (.commit t streams)).1)] := rfl
  have hVerdicts := h.verdicts_commit t streams
  rw [← hRun] at hVerdicts
  rw [reply_serve_commit, h.answer_eq] at hTrace
  cases hVerdict : s.cache.verdict t with
  | abort reason =>
    rw [hVerdict] at hVerdicts hTrace
    constructor
    · rw [hVerdicts.1, hTrace]
      rfl
    · rw [hVerdicts.2, hTrace]
      rfl
  | commit =>
    rw [hVerdict] at hVerdicts hTrace
    by_cases hLast : s.next = Address.last
    · rw [if_pos hLast] at hTrace
      constructor
      · rw [hVerdicts.1, hTrace]
        rfl
      · rw [hVerdicts.2, hTrace]
        rfl
    · rw [if_neg hLast] at hTrace
      constructor
      · rw [hVerdicts.1, hTrace]
        rfl
      · rw [hVerdicts.2, hTrace]
        rfl

/- A request is counted if it is a transaction. -/
theorem Consistent.counts_serve
    (h : s.Consistent)
    {request : Request}
    (hEpoch : request.inEpoch = true) : s.Counts [request] := by
  cases request with
  | token streams count =>
    have hCache :
        (s.run [.token streams count]).2.cache = s.cache := by
      rw [Sequencer.run, Sequencer.run, Sequencer.serve]
      split
      · next hIssue => exact (issue_cases hIssue).2.1
      · rfl
    constructor
    · rw [hCache]
      rfl
    · rw [hCache]
      rfl
  | commit t streams => exact h.counts_commit t streams
  | tails streams => exact ⟨rfl, rfl⟩
  | trim mark =>
    have hTidy : s.cache.Tidy := ConflictCache.WithinLog.tidy h
    have hTrimmed := hTidy.trimmedTo mark
    exact ⟨hTrimmed.commits, hTrimmed.aborts⟩
  | restart tails => exact absurd hEpoch Bool.false_ne_true
  | handover streams => exact absurd hEpoch Bool.false_ne_true

theorem Consistent.counts_run
    (h : s.Consistent)
    {requests : List Request}
    (hEpoch : ∀ request ∈ requests, request.inEpoch = true) :
    s.Counts requests := by
  induction requests generalizing s with
  | nil => exact ⟨rfl, rfl⟩
  | cons request requests ih =>
    apply (h.counts_serve (hEpoch request List.mem_cons_self)).cons
    apply ih (h.serve request)
    intro other hOther
    exact hEpoch other (List.mem_cons_of_mem request hOther)

------------------------------------------------------------
-- The last address
------------------------------------------------------------

/- A transaction that may commit comes when no address is left. -/
def MeetsEnd
    (s : Sequencer)
    (requests : List Request) : Prop :=
  ∃ before t streams after,
    requests = before ++ .commit t streams :: after ∧
      (s.run before).2.next = Address.last ∧
        (s.run before).2.cache.verdict t = .commit

/- These are the only transactions that fail. -/
theorem Consistent.failing_iff
    (h : s.Consistent)
    (request : Request) :
    failing (request, (s.serve request).1) = true ↔
      ∃ t streams, request = .commit t streams ∧
        s.next = Address.last ∧ s.cache.verdict t = .commit := by
  cases request with
  | commit t streams =>
    have hError :
        failing (.commit t streams, (s.serve (.commit t streams)).1) =
            true ↔
          ∃ refusal, (s.commit t streams).1 = .error refusal := by
      rw [reply_serve_commit]
      cases (s.commit t streams).1 with
      | ok outcome => simp [failing]
      | error refusal => simp [failing]
    rw [hError]
    simp only [h.refused_iff]
    constructor
    · rintro ⟨refusal, hVerdict, hLast, _⟩
      exact ⟨t, streams, rfl, hLast, hVerdict⟩
    · rintro ⟨_, _, hSame, hLast, hVerdict⟩
      cases hSame
      exact ⟨_, hVerdict, hLast, rfl⟩
  | _ => simp [failing]

theorem Consistent.meetsEnd_iff
    (h : s.Consistent)
    (requests : List Request) :
    s.MeetsEnd requests ↔ ∃ told ∈ s.trace requests, failing told = true := by
  induction requests generalizing s with
  | nil =>
    constructor
    · rintro ⟨before, t, streams, after, hRequests, _⟩
      exact absurd hRequests.symm
        (List.append_ne_nil_of_right_ne_nil _ (List.cons_ne_nil _ _))
    · rintro ⟨told, hTold, _⟩
      exact absurd hTold List.not_mem_nil
  | cons request requests ih =>
    rw [trace_cons, List.exists_mem_cons_iff, h.failing_iff,
      ← ih (h.serve request)]
    constructor
    · rintro ⟨before, t, streams, after, hRequests, hEnd⟩
      cases before with
      | nil =>
        obtain ⟨rfl, _⟩ := List.cons.inj hRequests
        exact Or.inl ⟨t, streams, rfl, hEnd⟩
      | cons first before =>
        obtain ⟨rfl, hRest⟩ := List.cons.inj hRequests
        exact Or.inr ⟨before, t, streams, after, hRest, hEnd⟩
    · rintro (⟨t, streams, rfl, hEnd⟩ | ⟨before, t, streams, after, rfl, hEnd⟩)
      · exact ⟨[], t, streams, requests, rfl, hEnd⟩
      · exact ⟨request :: before, t, streams, after, rfl, hEnd⟩

------------------------------------------------------------
-- Agreement
------------------------------------------------------------

/- The counts are those of what the callers were told. -/
structure CountsOutcomes
    (s : Sequencer)
    (requests : List Request) : Prop where
  commits :
    (s.run requests).2.cache.stats.commits =
      (s.trace requests).countP committing
  aborts :
    (s.run requests).2.cache.stats.aborts =
      (s.trace requests).countP aborting

/- Nothing is counted when an epoch begins. -/
theorem Begins.stats_eq_zero
    (h : s.Begins) : s.cache.stats = ConflictStats.zero := by
  rcases h with ⟨_, _, rfl⟩ | ⟨_, _, hRestart⟩
  · rfl
  · rcases restart_cases hRestart with ⟨_, _, hCache⟩
    rw [hCache]
    rfl

/- So in an epoch the counts are those of what the callers were told. -/
theorem Begins.counts_run
    (h : s.Begins)
    {requests : List Request}
    (hEpoch : ∀ request ∈ requests, request.inEpoch = true) :
    (s.run requests).2.cache.stats.commits =
        (s.trace requests).countP committing +
          (s.trace requests).countP failing ∧
      (s.run requests).2.cache.stats.aborts =
        (s.trace requests).countP aborting := by
  have hCounts := h.consistent.counts_run hEpoch
  have hCommits := hCounts.commits
  have hAborts := hCounts.aborts
  rw [h.stats_eq_zero] at hCommits hAborts
  simp only [ConflictStats.zero, Nat.zero_add] at hCommits hAborts
  exact ⟨hCommits, hAborts⟩

/- Only errors keep them from agreeing with the outcomes. -/
theorem Begins.countsOutcomes_iff
    (h : s.Begins)
    {requests : List Request}
    (hEpoch : ∀ request ∈ requests, request.inEpoch = true) :
    s.CountsOutcomes requests ↔ ¬ s.MeetsEnd requests := by
  rcases h.counts_run hEpoch with ⟨hCommits, hAborts⟩
  rw [h.consistent.meetsEnd_iff, ← List.countP_pos_iff, Nat.not_lt,
    Nat.le_zero]
  constructor
  · intro hAgree
    have hTold := hAgree.commits
    omega
  · intro hNone
    refine ⟨?_, hAborts⟩
    omega

/-
  At every point of an epoch the counts of verdicts are those of
  the outcomes that the callers were told, exactly if no
  transaction that may commit comes when no address is left.
  Each one that does is counted as a commit.
-/
theorem counts_outcomes_iff
    {start : Sequencer}
    (hBegins : start.Begins)
    (requests : List Request)
    (hEpoch : ∀ request ∈ requests, request.inEpoch = true) :
    ((∀ before, before <+: requests → start.CountsOutcomes before) ↔
        ¬ start.MeetsEnd requests) ∧
      (start.run requests).2.cache.stats.commits =
        (start.trace requests).countP committing +
          (start.trace requests).countP failing ∧
      (start.run requests).2.cache.stats.aborts =
        (start.trace requests).countP aborting := by
  refine ⟨?_, hBegins.counts_run hEpoch⟩
  constructor
  · intro hAll
    exact (hBegins.countsOutcomes_iff hEpoch).mp
      (hAll requests (List.prefix_refl requests))
  · intro hNot before hBefore
    apply (hBegins.countsOutcomes_iff ?_).mpr
    · -- what comes in a part of the run comes in the whole run
      rintro ⟨first, t, streams, between, rfl, hEnd⟩
      rcases hBefore with ⟨after, rfl⟩
      apply hNot
      exact ⟨first, t, streams, between ++ after, by simp, hEnd⟩
    · intro request hRequest
      exact hEpoch request (hBefore.subset hRequest)

/-
  Two addresses are left. A transaction takes the first of them,
  and one that is behind it is aborted twice. No address is left
  for others then, but nobody who could commit comes.
-/
def closingRequests : List Request :=
  let keys := SortedSet.ofList [⟨StreamId.ofNat 7, [1]⟩]
  let tail := Address.ofNat (UInt64.size - 3)
  [ .commit ⟨tail, ∅, keys⟩ [],
    .commit ⟨tail, keys, ∅⟩ [],
    .token [] 1,
    .trim (Address.ofNat 5),
    .tails [StreamId.ofNat 7],
    .commit ⟨tail, keys, keys⟩ [] ]

def closing : Sequencer where
  cache := ConflictCache.new 6 (by decide) (Address.ofNat (UInt64.size - 3))
  next := Address.ofNat (UInt64.size - 2)
  tails := ∅

theorem closingRequests_counted :
    closing.Begins ∧
      (∀ request ∈ closingRequests, request.inEpoch = true) ∧
      (closing.run closingRequests).2.next = Address.last ∧
      (closing.run closingRequests).2.cache.stats.commits = 1 ∧
      (closing.run closingRequests).2.cache.stats.aborts = 2 ∧
      ∀ before, before <+: closingRequests →
        closing.CountsOutcomes before := by
  have hBegins : closing.Begins :=
    Or.inr
      ⟨new 6 (by decide), ⟨some (Address.ofNat (UInt64.size - 3)), ∅⟩, rfl⟩
  have hEpoch :
      ∀ request ∈ closingRequests, request.inEpoch = true := by decide
  have hNot : ¬ closing.MeetsEnd closingRequests := by
    rw [hBegins.consistent.meetsEnd_iff]
    decide
  have hCounted := counts_outcomes_iff hBegins closingRequests hEpoch
  exact ⟨hBegins, hEpoch, by decide, by decide, by decide,
    hCounted.1.mpr hNot⟩

/-
  All addresses but the last one are handed out. A transaction
  comes that may commit, and is refused. Nobody was told of a
  commit, but one is counted.
-/
theorem lastAddress_counted_as_commit :
    let requests : List Request :=
      [ .token [] (UInt64.size - 1),
        .commit
          ⟨Address.zero, ∅, SortedSet.ofList [⟨StreamId.ofNat 7, [1]⟩]⟩
          [] ]
    (∀ request ∈ requests, request.inEpoch = true) ∧
      ((new 10 (by decide)).run requests).1 =
        [ .token ⟨Address.zero, UInt64.size - 1⟩,
          .refused (.exhausted Address.last) ] ∧
      ((new 10 (by decide)).run requests).2.cache.stats.commits = 1 ∧
      ¬ (new 10 (by decide)).CountsOutcomes requests := by
  intro requests
  have hOne :
      ((new 10 (by decide)).run requests).2.cache.stats.commits = 1 := by
    decide
  have hNone :
      ((new 10 (by decide)).trace requests).countP committing = 0 := by
    decide
  refine ⟨by decide, by decide, hOne, ?_⟩
  intro hAgree
  have hCommits := hAgree.commits
  rw [hOne, hNone] at hCommits
  exact absurd hCommits Nat.one_ne_zero

end Sequencer

end OrderedLog
