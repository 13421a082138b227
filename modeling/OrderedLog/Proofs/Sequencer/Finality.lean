import OrderedLog.Proofs.ConflictCache.Verdicts
import OrderedLog.Proofs.Sequencer.Extent
import OrderedLog.Proofs.Sequencer.Serializability

/-
  This file proves that an abort is final: a transaction that
  was aborted is aborted again whenever it is tried with the
  same snapshot and at least the same keys.

  The reason may change from one attempt to the next. A key
  that was in conflict may be evicted, written again, or left
  behind by a handover. What remains is that the sequencer
  remembers a write of the key after the snapshot, or that the
  snapshot predates the sequencer.

  Key definitions include:
    * `Transaction.Retries`
    * `Sequencer.Bars`
    * `Sequencer.Final`

  Key lemmas include:
    * `Sequencer.bars_of_aborted`
    * `Sequencer.Bars.aborted`
    * `Sequencer.Bars.commit`
    * `Sequencer.Bars.handover`
    * `Sequencer.Bars.serve`
    * `Sequencer.Bars.run`

  Key theorems include:
    * `Sequencer.run_aborts_final`
-/

namespace OrderedLog

/- The same snapshot again, and at least the same keys. -/
structure Transaction.Retries
    (later earlier : Transaction) : Prop where
  snapshot : later.snapshot = earlier.snapshot
  reads : ∀ key ∈ earlier.reads, key ∈ later.reads
  writes : ∀ key ∈ earlier.writes, key ∈ later.writes

theorem Transaction.Retries.names
    {later earlier : Transaction}
    (h : later.Retries earlier)
    {key : ConflictKey}
    (hNames : earlier.Names key) : later.Names key := by
  rcases hNames with hRead | hWrite
  · exact Or.inl (h.reads key hRead)
  · exact Or.inr (h.writes key hWrite)

namespace Sequencer

------------------------------------------------------------
-- What bars a transaction
------------------------------------------------------------

/-
  The transaction predates the sequencer, or a write of one of
  its keys is remembered that is in the log after its snapshot.
-/
def Bars (s : Sequencer) (t : Transaction) : Prop :=
  t.snapshot < s.cache.bound ∨
    ∃ key address, t.Names key ∧ t.snapshot < address ∧
      address < s.next ∧ s.cache.Remembers key address

/- Whatever the reason of an abort, it bars the transaction. -/
theorem bars_of_aborted
    {s : Sequencer}
    (h : s.Consistent)
    {t : Transaction}
    {reason : AbortReason}
    (hVerdict : s.cache.verdict t = .abort reason) : s.Bars t := by
  have hNot := ConflictCache.exists_reason_iff.mp ⟨reason, hVerdict⟩
  rcases ConflictCache.verdict_ne_commit_iff.mp hNot with
    hPredates | ⟨key, address, hNames, hAfter, hRemembers⟩
  · exact Or.inl hPredates
  · have hNext :=
      ConflictCache.WithinLog.lt_of_remembers h hRemembers hAfter
    exact Or.inr ⟨key, address, hNames, hAfter, hNext, hRemembers⟩

/- A transaction that is barred is aborted at every attempt. -/
theorem Bars.aborted
    {s : Sequencer}
    {t later : Transaction}
    (h : s.Bars t)
    (hRetries : later.Retries t)
    (streams : List StreamId) :
    ∃ reason, (s.commit later streams).1 = .ok (.aborted reason) := by
  simp only [commit_aborted_iff]
  rw [ConflictCache.exists_reason_iff,
    ConflictCache.verdict_ne_commit_iff, hRetries.snapshot]
  rcases h with hPredates | ⟨key, address, hNames, hAfter, _, hRemembers⟩
  · exact Or.inl hPredates
  · exact Or.inr ⟨key, address, hRetries.names hNames, hAfter,
      hRemembers⟩

------------------------------------------------------------
-- Steps
------------------------------------------------------------

/- A later address and the same cache bar no less. -/
theorem Bars.advance
    {s next : Sequencer}
    {t : Transaction}
    (h : s.Bars t)
    (hCache : next.cache = s.cache)
    (hNext : s.next ≤ next.next) : next.Bars t := by
  unfold Bars
  rw [hCache]
  apply h.imp_right
  rintro ⟨key, address, hNames, hAfter, hLt, hRemembers⟩
  exact ⟨key, address, hNames, hAfter,
    Address.lt_of_lt_of_le hLt hNext, hRemembers⟩

/- A commit writes at the next address, after all that bars. -/
theorem Bars.commit
    {s : Sequencer}
    (hConsistent : s.Consistent)
    {t : Transaction}
    (h : s.Bars t)
    (other : Transaction)
    (streams : List StreamId) : (s.commit other streams).2.Bars t := by
  rcases s.committed_or_ruled other streams with ⟨_, hCommit⟩ | hRuled
  · rcases commit_cases hCommit with ⟨_, hNext, _, hRecord⟩
    have hBound := ConflictCache.bound_record hRecord
    have hTidy := (hConsistent.ruled other).tidy
    rcases h with hPredates | ⟨key, address, hNames, hAfter, hLt, hOld⟩
    · left
      rw [hBound]
      exact hPredates
    · right
      refine ⟨key, address, hNames, hAfter, ?_, ?_⟩
      · rw [Address.lt_iff_val_lt, hNext]
        exact Nat.lt_succ_of_lt hLt
      · have hRuled : (s.cache.rule other).2.Remembers key address := hOld
        exact hRuled.record hTidy.coherent hRecord (Nat.le_of_lt hLt)
  · rw [hRuled]
    exact h

theorem Bars.trim
    {s : Sequencer}
    (hConsistent : s.Consistent)
    {t : Transaction}
    (h : s.Bars t)
    (mark : Address) : (s.trim mark).2.Bars t := by
  unfold Sequencer.trim Bars
  simp only [ConflictCache.bound_trimBelow]
  apply h.imp_right
  rintro ⟨key, address, hNames, hAfter, hLt, hRemembers⟩
  exact ⟨key, address, hNames, hAfter, hLt,
    hRemembers.trimBelow hConsistent.tidy.coherent mark⟩

/- All that bars a transaction is before the new sequencer. -/
theorem Bars.handover
    {s next : Sequencer}
    (hConsistent : s.Consistent)
    {t : Transaction}
    (h : s.Bars t)
    {streams : List StreamId}
    (hHandover : s.handover streams = .ok next) : next.Bars t := by
  rcases handover_cases s streams with
    ⟨other, bound, hOther, _, hBound, hCache⟩
  rw [hHandover] at hOther
  cases hOther
  left
  rw [hCache]
  change t.snapshot < bound
  rcases h with hPredates | ⟨_, address, _, hAfter, hLt, _⟩
  · have hOld : s.cache.bound < s.next :=
      ConflictCache.WithinLog.bound_lt hConsistent hPredates
    exact Address.lt_of_lt_of_le hPredates (hBound _ hOld)
  · exact Address.lt_of_lt_of_le hAfter (hBound address hLt)

/- What is barred stays barred, whatever is asked for. -/
theorem Bars.serve
    {s : Sequencer}
    (hConsistent : s.Consistent)
    {t : Transaction}
    (h : s.Bars t)
    {request : Request}
    (hOrdinary : request.ordinary = true) :
    (s.serve request).2.Bars t := by
  cases request with
  | token streams count =>
    rw [Sequencer.serve]
    split
    · next hIssue =>
      rcases issue_cases hIssue with ⟨_, hCache, hNext⟩
      exact h.advance hCache hNext
    · exact h
  | commit transaction streams =>
    rw [state_serve_commit]
    exact h.commit hConsistent transaction streams
  | tails streams => exact h
  | trim mark => exact h.trim hConsistent mark
  | restart tails => exact absurd hOrdinary Bool.false_ne_true
  | handover streams =>
    rw [Sequencer.serve]
    split
    · next hHandover => exact h.handover hConsistent hHandover
    · exact h

------------------------------------------------------------
-- Runs
------------------------------------------------------------

/-
  If a request was answered by an abort, then a later one that
  retries the transaction is as well, for whatever reason.
-/
def Final (earlier later : Request × Reply) : Prop :=
  ∀ t streams reason retry others,
    earlier = (.commit t streams, .outcome (.aborted reason)) →
      later.1 = .commit retry others → retry.Retries t →
        ∃ other, later.2 = .outcome (.aborted other)

/- The reason that a reply gives for an abort. -/
def abortReason? : Reply → Option AbortReason
  | .outcome (.aborted reason) => some reason
  | _ => none

/- The reply to a transaction that is aborted. -/
theorem serve_commit_aborted_iff
    {s : Sequencer}
    {t : Transaction}
    {streams : List StreamId}
    {reason : AbortReason} :
    (s.serve (.commit t streams)).1 = .outcome (.aborted reason) ↔
      (s.commit t streams).1 = .ok (.aborted reason) := by
  rcases hCommit : s.commit t streams with ⟨result, next⟩
  rw [Sequencer.serve, hCommit]
  cases result with
  | ok outcome => simp
  | error refusal => simp

/- A barred transaction is aborted all along a run. -/
theorem Bars.run
    {s : Sequencer}
    (hConsistent : s.Consistent)
    {t retry : Transaction}
    (h : s.Bars t)
    (hRetries : retry.Retries t)
    {requests : List Request}
    (hOrdinary : ∀ request ∈ requests, request.ordinary = true)
    {others : List StreamId}
    {reply : Reply}
    (hMem :
      (.commit retry others, reply) ∈
        requests.zip (s.run requests).1) :
    ∃ reason, reply = .outcome (.aborted reason) := by
  induction requests generalizing s with
  | nil => exact absurd hMem List.not_mem_nil
  | cons request requests ih =>
    rw [Sequencer.run, List.zip_cons_cons, List.mem_cons] at hMem
    rcases hMem with hHead | hTail
    · rw [Prod.mk.injEq] at hHead
      rcases hHead with ⟨hRequest, hReply⟩
      rcases h.aborted hRetries others with ⟨reason, hAborted⟩
      refine ⟨reason, ?_⟩
      rw [hReply, ← hRequest]
      exact serve_commit_aborted_iff.mpr hAborted
    · exact ih (hConsistent.serve request)
        (h.serve hConsistent (hOrdinary request List.mem_cons_self))
        (fun other hOther =>
          hOrdinary other (List.mem_cons_of_mem request hOther))
        hTail

theorem Consistent.aborts_final
    {s : Sequencer}
    (h : s.Consistent)
    {requests : List Request}
    (hOrdinary : ∀ request ∈ requests, request.ordinary = true) :
    (requests.zip (s.run requests).1).Pairwise Final := by
  induction requests generalizing s with
  | nil => exact List.Pairwise.nil
  | cons request requests ih =>
    have hRest : ∀ other ∈ requests, other.ordinary = true :=
      fun other hOther =>
        hOrdinary other (List.mem_cons_of_mem request hOther)
    have hServed := h.serve request
    rw [Sequencer.run, List.zip_cons_cons, List.pairwise_cons]
    refine ⟨?_, ih hServed hRest⟩
    rintro ⟨_, reply⟩ hLater t streams reason retry others hEarlier rfl
      hRetries
    rw [Prod.mk.injEq] at hEarlier
    rcases hEarlier with ⟨rfl, hReply⟩
    rw [serve_commit_aborted_iff, commit_aborted_iff] at hReply
    have hBars := (bars_of_aborted h hReply).serve h
      (hOrdinary (.commit t streams) List.mem_cons_self)
    exact hBars.run hServed hRetries hRest hLater

/-
  An abort is final: once a transaction was aborted in a run of
  a fresh sequencer, it is aborted whenever it is tried again
  with the same snapshot and at least the same keys, whatever
  was committed, evicted, trimmed and handed over meanwhile.
-/
theorem run_aborts_final
    (capacity : Nat)
    (capacity_pos : 0 < capacity)
    (requests : List Request)
    (hOrdinary :
      ∀ request ∈ requests, request.ordinary = true) :
    (requests.zip
      ((new capacity capacity_pos).run requests).1).Pairwise Final :=
  (consistent_new capacity capacity_pos).aborts_final hOrdinary

/-
  One transaction is tried again and again on a cache with room
  for one key. Its key is in conflict, then evicted, then in
  conflict once more, then trimmed, and then left behind by a
  handover. The last attempt has one more key.
-/
def repeatedRequests : List Request :=
  let stream := StreamId.ofNat 7
  let one : SortedSet ConflictKey := SortedSet.ofList [⟨stream, [1]⟩]
  let two : SortedSet ConflictKey := SortedSet.ofList [⟨stream, [2]⟩]
  let attempt : Request := .commit ⟨Address.zero, one, ∅⟩ []
  [ .token [stream] 1,
    .commit ⟨Address.zero, ∅, one⟩ [],
    attempt,
    .commit ⟨Address.zero, ∅, two⟩ [],
    attempt,
    .commit ⟨Address.ofNat 2, ∅, one⟩ [],
    attempt,
    .trim (Address.ofNat 9),
    attempt,
    .handover [stream],
    attempt,
    .commit ⟨Address.ofNat 3, one, two⟩ [],
    .commit ⟨Address.zero, one, two⟩ [] ]

theorem repeatedRequests_aborts_final :
    (∀ request ∈ repeatedRequests, request.ordinary = true) ∧
      ((new 1 (by decide)).run repeatedRequests).1.filterMap
          abortReason? =
        [ .conflict ⟨StreamId.ofNat 7, [1]⟩ (Address.ofNat 1),
          .overflow ⟨StreamId.ofNat 7, [1]⟩ (Address.ofNat 1),
          .conflict ⟨StreamId.ofNat 7, [1]⟩ (Address.ofNat 3),
          .overflow ⟨StreamId.ofNat 7, [1]⟩ (Address.ofNat 3),
          .predates Address.zero (Address.ofNat 3),
          .predates Address.zero (Address.ofNat 3) ] ∧
      (repeatedRequests.zip
        ((new 1 (by decide)).run repeatedRequests).1).Pairwise Final :=
  ⟨by decide, by decide,
    run_aborts_final 1 (by decide) repeatedRequests (by decide)⟩

end Sequencer

end OrderedLog
