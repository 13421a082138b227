import OrderedLog.Proofs.ConflictCache.Extent
import OrderedLog.Proofs.Sequencer.Steps
import OrderedLog.Sequencer.Request

/-
  This file proves that whatever a sequencer is asked to do,
  all that its cache knows of lies before the next address.
  This holds for new epochs from any tails as well.

  Key definitions include:
    * `Sequencer.Consistent`
    * `Sequencer.Fresh`

  Key lemmas include:
    * `Sequencer.fresh_iff_sees`
    * `Sequencer.state_serve_commit`
    * `Sequencer.Consistent.serve`
    * `Sequencer.Consistent.run`
    * `Sequencer.consistent_run_new`
    * `Sequencer.Consistent.commit_eq`
    * `Sequencer.Consistent.exists_commit`
-/

namespace OrderedLog

namespace Sequencer

/- The cache knows of nothing from the next address on. -/
def Consistent (s : Sequencer) : Prop :=
  s.cache.WithinLog s.next

/-
  A snapshot that is not before the tail. Any snapshot will do
  when the log is empty.
-/
def Fresh (s : Sequencer) (snapshot : Address) : Prop :=
  ∀ tail ∈ s.tail?, tail ≤ snapshot

instance (s : Sequencer) (snapshot : Address) :
    Decidable (s.Fresh snapshot) :=
  inferInstanceAs (Decidable (∀ tail ∈ s.tail?, tail ≤ snapshot))

/- A fresh snapshot sees all of the log so far. -/
theorem fresh_iff_sees
    {s : Sequencer}
    {snapshot : Address} : s.Fresh snapshot ↔ snapshot.Sees s.next := by
  symm
  constructor
  · intro hSees tail hTail
    apply hSees
    rw [Address.lt_iff_val_lt]
    have hVal := Address.pred?_eq_some_iff.mp hTail
    omega
  · intro hTail address hLt
    cases hPred : s.next.pred? with
    | none =>
      rw [Address.pred?_eq_none_iff.mp hPred] at hLt
      exact absurd hLt (Nat.not_lt_zero _)
    | some tail =>
      have hVal := Address.pred?_eq_some_iff.mp hPred
      have hLe := hTail tail hPred
      rw [Address.lt_iff_val_lt] at hLt
      rw [Address.le_iff_val_le] at hLe ⊢
      omega

theorem consistent_new
    (capacity : Nat)
    (capacity_pos : 0 < capacity) :
    (new capacity capacity_pos).Consistent :=
  ConflictCache.withinLog_new capacity capacity_pos (Or.inr rfl)

------------------------------------------------------------
-- Steps
------------------------------------------------------------

theorem Consistent.ruled
    {s : Sequencer}
    (h : s.Consistent)
    (t : Transaction) :
    Consistent { s with cache := (s.cache.rule t).2 } :=
  ConflictCache.WithinLog.ruled h t

theorem Consistent.issue
    {s next : Sequencer}
    (h : s.Consistent)
    {streams : List StreamId}
    {count : Nat}
    {token : Token}
    (hIssue : s.issue streams count = .ok (token, next)) :
    next.Consistent := by
  rcases issue_cases hIssue with ⟨_, hCache, hNext⟩
  unfold Consistent
  rw [hCache]
  exact ConflictCache.WithinLog.mono h hNext

theorem Consistent.commit
    {s : Sequencer}
    (h : s.Consistent)
    (t : Transaction)
    (streams : List StreamId) : (s.commit t streams).2.Consistent := by
  rcases s.committed_or_ruled t streams with ⟨_, hCommit⟩ | hRuled
  · rcases commit_cases hCommit with ⟨_, hNext, _, hRecord⟩
    apply ConflictCache.WithinLog.record (h.ruled t) hRecord
    · rw [Address.lt_iff_val_lt, hNext]
      exact Nat.lt_succ_self _
    · rw [Address.le_iff_val_le, hNext]
      exact Nat.le_succ _
  · rw [hRuled]
    exact h.ruled t

theorem Consistent.trim
    {s : Sequencer}
    (h : s.Consistent)
    (mark : Address) : (s.trim mark).2.Consistent :=
  ConflictCache.WithinLog.trimBelow h mark

theorem consistent_restart
    {s next : Sequencer}
    {tails : Tails}
    (hRestart : s.restart tails = .ok next) : next.Consistent := by
  rcases restart_cases hRestart with ⟨bound, hBound, hCache⟩
  unfold Consistent
  rw [hCache]
  exact ConflictCache.withinLog_new _ _ hBound

/- The reply to a commit leaves what the commit leaves. -/
theorem state_serve_commit
    (s : Sequencer)
    (t : Transaction)
    (streams : List StreamId) :
    (s.serve (.commit t streams)).2 = (s.commit t streams).2 := by
  rw [serve]
  split
  · next hCommit => rw [hCommit]
  · next hCommit => rw [hCommit]

/- Whatever is asked for, the cache stays behind the log. -/
theorem Consistent.serve
    {s : Sequencer}
    (h : s.Consistent)
    (request : Request) : (s.serve request).2.Consistent := by
  cases request with
  | token streams count =>
    rw [Sequencer.serve]
    split
    · next hIssue => exact h.issue hIssue
    · exact h
  | commit transaction streams =>
    rw [state_serve_commit]
    exact h.commit transaction streams
  | tails streams => exact h
  | trim mark => exact h.trim mark
  | restart tails =>
    rw [Sequencer.serve]
    split
    · next hRestart => exact consistent_restart hRestart
    · exact h
  | handover streams =>
    rw [Sequencer.serve]
    split
    · next hHandover => exact consistent_restart hHandover
    · exact h

theorem Consistent.run
    {s : Sequencer}
    (h : s.Consistent)
    (requests : List Request) : (s.run requests).2.Consistent := by
  induction requests generalizing s with
  | nil => exact h
  | cons request requests ih => exact ih (h.serve request)

/- The sequencers that a new one may turn into. -/
theorem consistent_run_new
    (capacity : Nat)
    (capacity_pos : 0 < capacity)
    (requests : List Request) :
    ((new capacity capacity_pos).run requests).2.Consistent :=
  (consistent_new capacity capacity_pos).run requests

------------------------------------------------------------
-- Commits
------------------------------------------------------------

/-
  A transaction commits exactly if its verdict says so and
  there is an address after the next one. Its write is never
  refused.
-/
theorem Consistent.commit_eq
    {s : Sequencer}
    (h : s.Consistent)
    (t : Transaction)
    (streams : List StreamId) :
    s.commit t streams =
      (let judged := { s with cache := (s.cache.rule t).2 }
      match s.cache.verdict t, s.next.next? with
      | .abort reason, _ => (.ok (.aborted reason), judged)
      | .commit, none => (.error (.exhausted s.next), judged)
      | .commit, some next =>
        (.ok (.committed s.next),
          { cache :=
              if t.writes.isEmpty then judged.cache
              else judged.cache.enter t.writes s.next
            next := next
            tails := raise s.tails (written t streams).toList s.next })) := by
  have hRecord := (h.ruled t).record_eq t.writes
  unfold Sequencer.commit
  simp only
  cases hVerdict : s.cache.verdict t with
  | abort reason =>
    have hRuled : (s.cache.rule t).1 = .abort reason := hVerdict
    rw [hRuled]
  | commit =>
    have hRuled : (s.cache.rule t).1 = .commit := hVerdict
    rw [hRuled]
    cases hNext : s.next.next? with
    | none => rfl
    | some next =>
      simp only at hRecord ⊢
      rw [hRecord]

theorem Consistent.exists_commit
    {s : Sequencer}
    (h : s.Consistent)
    {t : Transaction}
    (hVerdict : s.cache.verdict t = .commit)
    (hRoom : s.next ≠ Address.last)
    (streams : List StreamId) :
    ∃ next, s.commit t streams = (.ok (.committed s.next), next) := by
  rw [h.commit_eq, hVerdict]
  cases hNext : s.next.next? with
  | none => exact absurd (Address.next?_eq_none_iff.mp hNext) hRoom
  | some next => exact ⟨_, rfl⟩

end Sequencer

end OrderedLog
