import OrderedLog.Proofs.ConflictCache.Verdicts
import OrderedLog.Proofs.Sequencer.Extent
import OrderedLog.Proofs.Sequencer.Serializability

/-
  This file proves that the sequencer aborts no transaction
  without need. Within one epoch each write that the cache has
  is the last one of its key that committed. So a conflict that
  is reported did happen, and a transaction whose snapshot is
  not below the wildcard is aborted only because of one.

  Key definitions include:
    * `Sequencer.Begins`
    * `Sequencer.lastWrite?`
    * `Sequencer.Accounts`
    * `Sequencer.JudgedFairly`

  Key lemmas include:
    * `Sequencer.lastWrite?_append`
    * `Sequencer.Accounts.commit`
    * `Sequencer.Accounts.serve`
    * `Sequencer.Accounts.run`
    * `Sequencer.Accounts.judgedFairly`

  Key theorems include:
    * `Sequencer.run_judges_fairly`
-/

namespace OrderedLog

namespace Sequencer

------------------------------------------------------------
-- Epochs
------------------------------------------------------------

/- A sequencer that is new or has just been restarted. -/
def Begins (s : Sequencer) : Prop :=
  (∃ capacity capacity_pos, s = new capacity capacity_pos) ∨
    ∃ previous tails, restart previous tails = .ok s

/- Whether a request leaves the epoch as it is. -/
def Request.inEpoch : Request → Bool
  | .restart _ => false
  | .handover _ => false
  | _ => true

theorem Request.ordinary_of_inEpoch
    {request : Request}
    (h : request.inEpoch = true) : request.ordinary = true := by
  cases request with
  | restart tails => exact absurd h Bool.false_ne_true
  | _ => rfl

/- An epoch begins with an empty cache. -/
theorem Begins.latest
    {s : Sequencer}
    (h : s.Begins) : s.cache.latest = ∅ := by
  rcases h with ⟨_, _, rfl⟩ | ⟨_, _, hRestart⟩
  · rfl
  · rcases restart_cases hRestart with ⟨_, _, hCache⟩
    rw [hCache]
    rfl

theorem Begins.consistent
    {s : Sequencer}
    (h : s.Begins) : s.Consistent := by
  rcases h with ⟨capacity, capacity_pos, rfl⟩ | ⟨_, _, hRestart⟩
  · exact consistent_new capacity capacity_pos
  · exact consistent_restart hRestart

------------------------------------------------------------
-- The last write of a key
------------------------------------------------------------

/- Where the last of some transactions that wrote a key is. -/
def lastWrite?
    (history : List Committed)
    (key : ConflictKey) : Option Address :=
  ((history.filter
    (fun done => key ∈ done.transaction.writes)).getLast?).map
      Committed.address

theorem lastWrite?_append
    (history : List Committed)
    (done : Committed)
    (key : ConflictKey) :
    lastWrite? (history ++ [done]) key =
      if key ∈ done.transaction.writes then some done.address
      else lastWrite? history key := by
  unfold lastWrite?
  rw [List.filter_append]
  by_cases hKey : key ∈ done.transaction.writes
  · simp [hKey]
  · simp [hKey]

/- The last write of a key is a write of the key. -/
theorem exists_of_lastWrite?
    {history : List Committed}
    {key : ConflictKey}
    {address : Address}
    (h : lastWrite? history key = some address) :
    ∃ done ∈ history,
      key ∈ done.transaction.writes ∧ done.address = address := by
  unfold lastWrite? at h
  rw [Option.map_eq_some_iff] at h
  rcases h with ⟨done, hLast, hAddress⟩
  have hMem := List.mem_filter.mp (List.mem_of_getLast? hLast)
  exact ⟨done, hMem.1, of_decide_eq_true hMem.2, hAddress⟩

------------------------------------------------------------
-- The invariant
------------------------------------------------------------

/-
  All that the sequencer knows of latest writes is accounted for
  by the transactions that committed in its epoch, and it
  remembers each of their writes.
-/
structure Accounts
    (s : Sequencer)
    (history : List Committed) : Prop where
  consistent : s.Consistent
  keeps : s.Keeps history
  attributed :
    ∀ key address, s.cache.latest.get? key = some address →
      lastWrite? history key = some address

theorem Begins.accounts
    {s : Sequencer}
    (h : s.Begins) : s.Accounts [] where
  consistent := h.consistent
  keeps :=
    { coherent := h.consistent.tidy.coherent
      below := nofun
      remembered := nofun }
  attributed := by
    intro key address hLatest
    rw [h.latest] at hLatest
    exact absurd hLatest nofun

/- A committed transaction is the last one that wrote its keys. -/
theorem Accounts.commit
    {s next : Sequencer}
    {history : List Committed}
    (h : s.Accounts history)
    {t : Transaction}
    {streams : List StreamId}
    {address : Address}
    (hCommit : s.commit t streams = (.ok (.committed address), next))
    {key : ConflictKey}
    {latest : Address}
    (hLatest : next.cache.latest.get? key = some latest) :
    lastWrite? (history ++ [⟨t, address⟩]) key = some latest := by
  rcases commit_cases hCommit with ⟨rfl, _, _, hRecord⟩
  have hOld := ConflictCache.latest_of_record hRecord hLatest
  rw [lastWrite?_append]
  by_cases hKey : key ∈ t.writes
  · rw [if_pos hKey] at hOld ⊢
    exact hOld
  · rw [if_neg hKey] at hOld ⊢
    exact h.attributed key latest hOld

theorem Accounts.serve
    {s : Sequencer}
    {history : List Committed}
    (h : s.Accounts history)
    {request : Request}
    (hEpoch : request.inEpoch = true) :
    (s.serve request).2.Accounts
      (history ++
        (committed? request (s.serve request).1).toList) where
  consistent := h.consistent.serve request
  keeps := h.keeps.serve (Request.ordinary_of_inEpoch hEpoch)
  attributed := by
    intro key address
    cases request with
    | token streams count =>
      rw [Sequencer.serve]
      simp only [committed?, Option.toList_none, List.append_nil]
      split
      · next hIssue =>
        rw [(issue_cases hIssue).2.1]
        exact h.attributed key address
      · exact h.attributed key address
    | commit t streams =>
      rw [Sequencer.serve]
      split
      · next outcome next hCommit =>
        cases outcome with
        | committed done => exact h.commit hCommit
        | aborted reason =>
          simp only [committed?, Option.toList_none, List.append_nil]
          rw [commit_of_aborted hCommit]
          exact h.attributed key address
      · next refusal next hCommit =>
        simp only [committed?, Option.toList_none, List.append_nil]
        rw [commit_of_refused hCommit]
        exact h.attributed key address
    | tails streams =>
      simp only [committed?, Option.toList_none, List.append_nil]
      exact h.attributed key address
    | trim mark =>
      simp only [committed?, Option.toList_none, List.append_nil]
      intro hLatest
      exact h.attributed key address
        (ConflictCache.latest_of_trimBelow hLatest)
    | restart tails => exact absurd hEpoch Bool.false_ne_true
    | handover streams => exact absurd hEpoch Bool.false_ne_true

theorem Accounts.run
    {s : Sequencer}
    {history : List Committed}
    (h : s.Accounts history)
    {requests : List Request}
    (hEpoch : ∀ request ∈ requests, request.inEpoch = true) :
    (s.run requests).2.Accounts
      (history ++ commits requests (s.run requests).1) := by
  induction requests generalizing s history with
  | nil =>
    rw [Sequencer.run, commits, List.append_nil]
    exact h
  | cons request requests ih =>
    rw [Sequencer.run, commits, ← List.append_assoc]
    apply ih (h.serve (hEpoch request List.mem_cons_self))
    intro other hOther
    exact hEpoch other (List.mem_cons_of_mem request hOther)

------------------------------------------------------------
-- Fair verdicts
------------------------------------------------------------

/-
  What may be said of a transaction that is submitted when some
  others have committed in the epoch. The reason of an abort is
  one that is possible for some order of its keys.
-/
structure JudgedFairly
    (s : Sequencer)
    (history : List Committed)
    (t : Transaction)
    (streams : List StreamId) : Prop where
  possible :
    ∀ reason, (s.commit t streams).1 = .ok (.aborted reason) →
      s.cache.Possible t (.abort reason)
  /-
    Above the wildcard just those are aborted that name a key
    written after their snapshot, and for no other reason.
  -/
  aborted_iff :
    s.cache.wildcard ≤ t.snapshot →
      ((∃ reason, (s.commit t streams).1 = .ok (.aborted reason)) ↔
        ∃ done ∈ history, t.snapshot < done.address ∧
          ∃ key ∈ done.transaction.writes, t.Names key)
  conflict_only :
    s.cache.wildcard ≤ t.snapshot →
      ∀ reason, s.cache.Possible t (.abort reason) →
        ∃ key address, reason = .conflict key address
  /- A conflict is always with the last write of a key. -/
  conflict_real :
    ∀ key address, s.cache.Possible t (.abort (.conflict key address)) →
      t.Names key ∧ lastWrite? history key = some address ∧
        t.snapshot < address

/- A conflict that is reported is the last write of its key. -/
theorem Accounts.conflict_real
    {s : Sequencer}
    {history : List Committed}
    (h : s.Accounts history)
    {t : Transaction}
    {key : ConflictKey}
    {address : Address}
    (hPossible : s.cache.Possible t (.abort (.conflict key address))) :
    t.Names key ∧ lastWrite? history key = some address ∧
      t.snapshot < address := by
  rcases ConflictCache.possible_abort_cases hPossible with
    ⟨_, hReason⟩ | ⟨_, other, hNames, hOffence⟩
  · exact absurd hReason nofun
  · rcases ConflictCache.offence?_cases hOffence with
      ⟨latest, hLatest, hAfter, hReason⟩ | ⟨_, _, hReason⟩
    · rw [AbortReason.conflict.injEq] at hReason
      rcases hReason with ⟨rfl, rfl⟩
      exact ⟨hNames, h.attributed key address hLatest, hAfter⟩
    · exact absurd hReason nofun

/- Above the wildcard there are no other reasons. -/
theorem Accounts.conflict_only
    {s : Sequencer}
    {history : List Committed}
    (h : s.Accounts history)
    {t : Transaction}
    (hAbove : s.cache.wildcard ≤ t.snapshot)
    {reason : AbortReason}
    (hPossible : s.cache.Possible t (.abort reason)) :
    ∃ key address, reason = .conflict key address := by
  have hBound : s.cache.bound ≤ t.snapshot :=
    Address.le_trans h.consistent.bound_le hAbove
  rcases ConflictCache.possible_abort_cases hPossible with
    ⟨hPredates, _⟩ | ⟨_, key, _, hOffence⟩
  · exact absurd hBound (Address.not_le.mpr hPredates)
  · rcases ConflictCache.offence?_cases hOffence with
      ⟨address, _, _, hReason⟩ | ⟨_, hBelow, _⟩
    · exact ⟨key, address, hReason⟩
    · exact absurd hAbove (Address.not_le.mpr hBelow)

theorem Accounts.judgedFairly
    {s : Sequencer}
    {history : List Committed}
    (h : s.Accounts history)
    (t : Transaction)
    (streams : List StreamId) : s.JudgedFairly history t streams := by
  have hPossible : ∀ reason,
      (s.commit t streams).1 = .ok (.aborted reason) →
        s.cache.Possible t (.abort reason) := by
    intro reason hAborted
    rw [← commit_aborted_iff.mp hAborted]
    exact s.cache.possible_verdict t
  constructor
  · exact hPossible
  · intro hAbove
    constructor
    · rintro ⟨reason, hAborted⟩
      have hAbort := hPossible reason hAborted
      rcases h.conflict_only hAbove hAbort with ⟨key, address, rfl⟩
      rcases h.conflict_real hAbort with ⟨hNames, hLast, hAfter⟩
      rcases exists_of_lastWrite? hLast with ⟨done, hDone, hKey, rfl⟩
      exact ⟨done, hDone, hAfter, key, hKey, hNames⟩
    · rintro ⟨done, hDone, hAfter, key, hKey, hNames⟩
      simp only [commit_aborted_iff]
      rw [ConflictCache.exists_reason_iff,
        ConflictCache.verdict_ne_commit_iff]
      exact Or.inr ⟨key, done.address, hNames, hAfter,
        h.keeps.remembered done hDone key hKey⟩
  · intro hAbove reason
    exact h.conflict_only hAbove
  · intro key address
    exact h.conflict_real

/-
  In an epoch no transaction is aborted without need: one whose
  snapshot is not below the wildcard is aborted just if a key
  that it names was written after its snapshot, and every
  conflict that is reported is with the last write of a key.
-/
theorem run_judges_fairly
    {start : Sequencer}
    (hBegins : start.Begins)
    (requests : List Request)
    (hEpoch : ∀ request ∈ requests, request.inEpoch = true)
    (t : Transaction)
    (streams : List StreamId) :
    (start.run requests).2.JudgedFairly
      (commits requests (start.run requests).1) t streams :=
  (hBegins.accounts.run hEpoch).judgedFairly t streams

/-
  An epoch that starts after address 49, with room for one key.
  The second write evicts the first, and the last transaction
  is in conflict with the second at the very wildcard.
-/
def recovered : Sequencer where
  cache := ConflictCache.new 1 (by decide) (Address.ofNat 49)
  next := Address.ofNat 50
  tails := ∅

def recoveredRequests : List Request :=
  let stream := StreamId.ofNat 7
  [ .commit ⟨Address.ofNat 49, ∅, SortedSet.ofList [⟨stream, [1]⟩]⟩ [],
    .commit ⟨Address.ofNat 49, ∅, SortedSet.ofList [⟨stream, [2]⟩]⟩ [],
    .trim (Address.ofNat 51) ]

theorem recoveredRequests_judged_fairly :
    recovered.Begins ∧
      (∀ request ∈ recoveredRequests, request.inEpoch = true) ∧
      (recovered.run recoveredRequests).2.cache.wildcard =
        Address.ofNat 50 ∧
      (recovered.run recoveredRequests).2.JudgedFairly
        (commits recoveredRequests (recovered.run recoveredRequests).1)
        ⟨Address.ofNat 50,
          SortedSet.ofList [⟨StreamId.ofNat 7, [2]⟩], ∅⟩ [] := by
  have hBegins : recovered.Begins :=
    Or.inr ⟨new 1 (by decide), ⟨some (Address.ofNat 49), ∅⟩, rfl⟩
  exact ⟨hBegins, by decide, by decide,
    run_judges_fairly hBegins recoveredRequests (by decide) _ []⟩

end Sequencer

end OrderedLog
