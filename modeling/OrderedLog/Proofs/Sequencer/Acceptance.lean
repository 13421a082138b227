import OrderedLog.Proofs.Sequencer.Extent

/-
  This file proves that the conflict cache never stands in the
  way of a commit. All addresses in its window lie before the
  next one, whatever was committed, evicted or trimmed, however
  many addresses were handed out without a write, and from
  whatever tails an epoch was started.

  So the next address is above all that a write is compared
  with. A transaction is refused if no address is left for it,
  and for no other reason.

  Key definitions include:
    * `Refusal.OfSequencer`
    * `Sequencer.AcceptsWrites`

  Key lemmas include:
    * `Sequencer.Consistent.window_lt`
    * `Sequencer.Consistent.answer_eq`
    * `Sequencer.Consistent.acceptsWrites`
    * `Sequencer.Consistent.ofSequencer_serve`
    * `Sequencer.Consistent.ofSequencer_run`

  Key theorems include:
    * `Sequencer.run_accepts_writes`
-/

namespace OrderedLog

/- A refusal by a sequencer itself, and not by a conflict cache. -/
def Refusal.OfSequencer : Refusal → Prop
  | .emptyToken _ => True
  | .exhausted _ => True
  | _ => False

namespace Sequencer

variable {s : Sequencer}

------------------------------------------------------------
-- Answers to a transaction
------------------------------------------------------------

/- Every address in the window is before the next one. -/
theorem Consistent.window_lt
    (h : s.Consistent)
    {address : Address}
    (hWindow : address ∈ s.cache.window) : address < s.next := by
  have hTidy : s.cache.Tidy := ConflictCache.WithinLog.tidy h
  rcases hTidy.mem_window_iff.mp hWindow with ⟨key, hLatest⟩
  exact ConflictCache.WithinLog.latest_lt h key address hLatest

/- Nothing but a verdict or the last address is in the way. -/
theorem Consistent.answer_eq
    (h : s.Consistent)
    (t : Transaction)
    (streams : List StreamId) :
    (s.commit t streams).1 =
      match s.cache.verdict t with
      | .abort reason => .ok (.aborted reason)
      | .commit =>
        if s.next = Address.last then .error (.exhausted s.next)
        else .ok (.committed s.next) := by
  rw [h.commit_eq]
  cases s.cache.verdict t with
  | abort reason => rfl
  | commit =>
    simp only [← Address.next?_eq_none_iff]
    cases s.next.next? with
    | none => rfl
    | some next => rfl

theorem Consistent.committed_iff
    (h : s.Consistent)
    (t : Transaction)
    (streams : List StreamId)
    (address : Address) :
    (s.commit t streams).1 = .ok (.committed address) ↔
      s.cache.verdict t = .commit ∧ s.next ≠ Address.last ∧
        address = s.next := by
  rw [h.answer_eq]
  cases s.cache.verdict t with
  | abort reason => simp
  | commit =>
    by_cases hLast : s.next = Address.last
    · simp [hLast]
    · simp [hLast, eq_comm]

theorem Consistent.refused_iff
    (h : s.Consistent)
    (t : Transaction)
    (streams : List StreamId)
    (refusal : Refusal) :
    (s.commit t streams).1 = .error refusal ↔
      s.cache.verdict t = .commit ∧ s.next = Address.last ∧
        refusal = .exhausted s.next := by
  rw [h.answer_eq]
  cases s.cache.verdict t with
  | abort reason => simp
  | commit =>
    by_cases hLast : s.next = Address.last
    · simp [hLast, eq_comm]
    · simp [hLast]

/-
  A sequencer that its cache leaves free to commit. What it has
  there is before the next address, and any write at that address
  is recorded.
-/
structure AcceptsWrites (s : Sequencer) : Prop where
  window_lt : ∀ address ∈ s.cache.window, address < s.next
  latest_lt :
    ∀ key address, s.cache.get? key = some address → address < s.next
  /- The cache is asked once it has judged the transaction. -/
  recorded :
    ∀ t : Transaction, ∃ cache,
      (s.cache.rule t).2.record t.writes s.next = .ok cache
  /- There are three answers to a transaction. -/
  answered :
    ∀ t streams,
      (s.commit t streams).1 = .ok (.committed s.next) ∨
        (∃ reason, (s.commit t streams).1 = .ok (.aborted reason)) ∨
          (s.commit t streams).1 = .error (.exhausted s.next)
  committed_iff :
    ∀ t streams address,
      (s.commit t streams).1 = .ok (.committed address) ↔
        s.cache.verdict t = .commit ∧ s.next ≠ Address.last ∧
          address = s.next
  aborted_iff :
    ∀ t streams reason,
      (s.commit t streams).1 = .ok (.aborted reason) ↔
        s.cache.verdict t = .abort reason
  refused_iff :
    ∀ t streams refusal,
      (s.commit t streams).1 = .error refusal ↔
        s.cache.verdict t = .commit ∧ s.next = Address.last ∧
          refusal = .exhausted s.next

theorem Consistent.acceptsWrites
    (h : s.Consistent) : s.AcceptsWrites where
  window_lt := fun _ => h.window_lt
  latest_lt := ConflictCache.WithinLog.latest_lt h
  recorded := fun t => ⟨_, (h.ruled t).record_eq t.writes⟩
  answered := by
    intro t streams
    rw [h.answer_eq]
    cases s.cache.verdict t with
    | abort reason => exact Or.inr (Or.inl ⟨reason, rfl⟩)
    | commit =>
      simp only
      split
      · exact Or.inr (Or.inr rfl)
      · exact Or.inl rfl
  committed_iff := h.committed_iff
  aborted_iff := fun _ _ _ => commit_aborted_iff
  refused_iff := h.refused_iff

------------------------------------------------------------
-- Refusals
------------------------------------------------------------

theorem ofSequencer_issue
    {streams : List StreamId}
    {count : Nat}
    {refusal : Refusal}
    (h : s.issue streams count = .error refusal) :
    refusal.OfSequencer := by
  unfold issue at h
  split at h
  · cases h
    exact trivial
  · split at h
    · cases h
      exact trivial
    · cases h

theorem ofSequencer_restart
    {tails : Tails}
    {refusal : Refusal}
    (h : s.restart tails = .error refusal) : refusal.OfSequencer := by
  unfold restart at h
  simp only at h
  split at h
  · cases h
  · split at h
    · cases h
      exact trivial
    · cases h

/- What is refused is refused by the sequencer. -/
theorem Consistent.ofSequencer_serve
    (h : s.Consistent)
    {request : Request}
    {refusal : Refusal}
    (hRefused : (s.serve request).1 = .refused refusal) :
    refusal.OfSequencer := by
  cases request with
  | token streams count =>
    rw [Sequencer.serve] at hRefused
    split at hRefused
    · cases hRefused
    · next hIssue =>
      obtain rfl := Reply.refused.inj hRefused
      exact ofSequencer_issue hIssue
  | commit t streams =>
    rw [Sequencer.serve] at hRefused
    split at hRefused
    · cases hRefused
    · next hCommit =>
      obtain rfl := Reply.refused.inj hRefused
      have hAnswer := congrArg Prod.fst hCommit
      rcases (h.refused_iff t streams _).mp hAnswer with ⟨_, _, rfl⟩
      exact trivial
  | tails streams => cases hRefused
  | trim mark => cases hRefused
  | restart tails =>
    rw [Sequencer.serve] at hRefused
    split at hRefused
    · cases hRefused
    · next hRestart =>
      obtain rfl := Reply.refused.inj hRefused
      exact ofSequencer_restart hRestart
  | handover streams =>
    rcases s.handover_eq streams with ⟨bound, hHandover, _⟩
    rw [Sequencer.serve, hHandover] at hRefused
    cases hRefused

theorem Consistent.ofSequencer_run
    (h : s.Consistent)
    {requests : List Request}
    {refusal : Refusal}
    (hRefused : .refused refusal ∈ (s.run requests).1) :
    refusal.OfSequencer := by
  induction requests generalizing s with
  | nil => exact absurd hRefused List.not_mem_nil
  | cons request requests ih =>
    rcases List.mem_cons.mp hRefused with hHere | hLater
    · exact h.ofSequencer_serve hHere.symm
    · exact ih (h.serve request) hLater

------------------------------------------------------------
-- All sequencers there are
------------------------------------------------------------

/-
  After any requests, among them new epochs from any tails, even
  from such as are behind what was handed out before, the cache
  accepts whatever may commit. And nothing that was asked for on
  the way was refused by it.
-/
theorem run_accepts_writes
    (capacity : Nat)
    (capacity_pos : 0 < capacity)
    (requests : List Request) :
    ((new capacity capacity_pos).run requests).2.AcceptsWrites ∧
      ∀ refusal,
        .refused refusal ∈ ((new capacity capacity_pos).run requests).1 →
          refusal.OfSequencer := by
  constructor
  · exact (consistent_run_new capacity capacity_pos requests).acceptsWrites
  · intro refusal hRefused
    exact (consistent_new capacity capacity_pos).ofSequencer_run hRefused

/-
  Room for one key. The second epoch is behind the first one, and
  writes more keys than there is room for, at an address where the
  first one wrote, too. The third one has a single address left,
  which a commit takes that writes nothing.
-/
def epochRequests : List Request :=
  let stream := StreamId.ofNat 7
  let keys := fun (params : List UInt8) =>
    SortedSet.ofList
      (params.map (fun param => (⟨stream, [param]⟩ : ConflictKey)))
  [ .token [stream] 5,
    .commit ⟨Address.ofNat 4, ∅, keys [1]⟩ [],
    .restart ⟨some (Address.ofNat 2), ∅⟩,
    .token [] 2,
    .commit ⟨Address.ofNat 4, keys [1], keys [1, 2, 3]⟩ [],
    .commit ⟨Address.ofNat 3, ∅, keys [1]⟩ [],
    .restart ⟨some (Address.ofNat (UInt64.size - 3)), ∅⟩,
    .commit ⟨Address.last, ∅, ∅⟩ [stream],
    .commit ⟨Address.last, ∅, keys [1]⟩ [] ]

theorem epochRequests_accept_writes :
    ((new 1 (by decide)).run epochRequests).1.drop 4 =
        [ .outcome (.committed (Address.ofNat 5)),
          .outcome (.aborted (.overflow ⟨StreamId.ofNat 7, [1]⟩ (Address.ofNat 5))),
          .started,
          .outcome (.committed (Address.ofNat (UInt64.size - 2))),
          .refused (.exhausted Address.last) ] ∧
      ((new 1 (by decide)).run epochRequests).2.AcceptsWrites :=
  ⟨by decide, (run_accepts_writes 1 (by decide) epochRequests).1⟩

end Sequencer

end OrderedLog
