import OrderedLog.Proofs.Sequencer.Assignment
import OrderedLog.Proofs.Sequencer.Attribution

/-
  This file proves when the first committer wins. Two clients
  that ask for the tail at the same moment take it as the
  snapshot of their transactions. If both write some key, only
  the first of them that is submitted may commit.

  There is no snapshot that tells that the log is empty. A client
  that finds it so has to take the first address of all, which
  no transaction has seen and which is handed out next. A write
  there is not after that snapshot. So the first committer wins
  exactly if there was a tail, and without one only the commit
  at the first address fails to win.

  Key definitions include:
    * `Sequencer.observed`
    * `Sequencer.Committed.Rivals`
    * `Sequencer.FirstCommitterWins`

  Key lemmas include:
    * `Sequencer.next_le_of_mem_commits`
    * `Sequencer.Consistent.rivals_commit`
    * `Sequencer.Consistent.committed_of_sees`
    * `Sequencer.Consistent.commits_twins`

  Key theorems include:
    * `Sequencer.first_committer_wins_iff`
-/

namespace OrderedLog

namespace Sequencer

------------------------------------------------------------
-- Rivals
------------------------------------------------------------

/-
  The snapshot of a client who asks for the tail. Without a tail
  the first address of all has to do.
-/
def observed (s : Sequencer) : Address :=
  s.tail?.getD Address.zero

/- Two transactions at one snapshot that write a common key. -/
structure Committed.Rivals
    (snapshot : Address)
    (earlier later : Committed) : Prop where
  earlier_snapshot : earlier.transaction.snapshot = snapshot
  later_snapshot : later.transaction.snapshot = snapshot
  common :
    ∃ key ∈ earlier.transaction.writes, key ∈ later.transaction.writes

/-
  Of the transactions whose snapshot was taken before some
  requests no two rivals are committed by these.
-/
def FirstCommitterWins
    (s : Sequencer)
    (requests : List Request) : Prop :=
  (commits requests (s.run requests).1).Pairwise
    (fun earlier later => ¬ Committed.Rivals s.observed earlier later)

theorem mem_of_mem_commits
    {requests : List Request}
    {replies : List Reply}
    {done : Committed}
    (h : done ∈ commits requests replies) :
    .outcome (.committed done.address) ∈ replies := by
  induction requests generalizing replies with
  | nil => exact absurd h List.not_mem_nil
  | cons request requests ih =>
    cases replies with
    | nil => exact absurd h List.not_mem_nil
    | cons reply replies =>
      rw [commits, List.mem_append, Option.mem_toList] at h
      rcases h with hHere | hLater
      · unfold committed? at hHere
        split at hHere
        · cases hHere
          exact List.mem_cons_self
        · cases hHere
      · exact List.mem_cons_of_mem reply (ih hLater)

/- What a run commits is at addresses that it hands out. -/
theorem next_le_of_mem_commits
    {s : Sequencer}
    {requests : List Request}
    (hOrdinary : ∀ request ∈ requests, request.ordinary = true)
    {done : Committed}
    (h : done ∈ commits requests (s.run requests).1) :
    s.next ≤ done.address := by
  have hSpan :
      ⟨done.address, done.address⟩ ∈ spans (s.run requests).1 :=
    List.mem_filterMap.mpr
      ⟨.outcome (.committed done.address), mem_of_mem_commits h, rfl⟩
  exact ((s.tiles_run hOrdinary).bounds hSpan).1

/-
  Rivals do not both commit, unless the log was empty and the
  earlier one is at the first address.
-/
theorem Consistent.rivals_commit
    {s : Sequencer}
    (h : s.Consistent)
    {requests : List Request}
    (hOrdinary : ∀ request ∈ requests, request.ordinary = true) :
    (commits requests (s.run requests).1).Pairwise
      (fun earlier later =>
        Committed.Rivals s.observed earlier later →
          s.tail? = none ∧ earlier.address = Address.zero) := by
  have hKeeps : s.Keeps [] :=
    { coherent := h.tidy.coherent
      below := nofun
      remembered := nofun }
  have hClears := hKeeps.run hOrdinary List.Pairwise.nil
  rw [List.nil_append] at hClears
  apply hClears.imp_of_mem
  intro earlier later hEarlier _ hClear hRivals
  have hNext := next_le_of_mem_commits hOrdinary hEarlier
  have hSeen : earlier.address ≤ s.observed := by
    apply Address.not_lt.mp
    intro hAfter
    rcases hRivals.common with ⟨key, hKey, hCommon⟩
    rw [← hRivals.later_snapshot] at hAfter
    exact (hClear hAfter key hKey).2 hCommon
  unfold observed at hSeen
  cases hTail : s.tail? with
  | none =>
    rw [hTail] at hSeen
    exact ⟨rfl, Address.eq_of_val_eq (Nat.le_zero.mp hSeen)⟩
  | some tail =>
    have hVal := Address.pred?_eq_some_iff.mp hTail
    rw [hTail, Option.getD_some] at hSeen
    rw [Address.le_iff_val_le] at hNext hSeen
    omega

------------------------------------------------------------
-- An empty log
------------------------------------------------------------

/- A transaction that has seen the whole log commits. -/
theorem Consistent.committed_of_sees
    {s : Sequencer}
    (h : s.Consistent)
    {t : Transaction}
    (hSees : t.snapshot.Sees s.next)
    (hRoom : s.next ≠ Address.last)
    (streams : List StreamId) :
    (s.serve (.commit t streams)).1 = .outcome (.committed s.next) := by
  have hVerdict : s.cache.verdict t = .commit := by
    apply ConflictCache.verdict_eq_commit_of_seen
    · exact ConflictCache.WithinLog.bound_le_of_sees h hSees
    · intro key address hRemembers
      by_contra hNot
      have hAfter := Address.not_le.mp hNot
      have hLt := ConflictCache.WithinLog.lt_of_remembers h hRemembers hAfter
      exact hNot (hSees address hLt)
  rcases h.exists_commit hVerdict hRoom streams with ⟨next, hCommit⟩
  rw [Sequencer.serve, hCommit]

/-
  On an empty log a transaction at the first address commits
  twice: the second time it is taken to have seen the first.
-/
theorem Consistent.commits_twins
    {s : Sequencer}
    (h : s.Consistent)
    (hEmpty : s.tail? = none)
    {t : Transaction}
    (hSnapshot : t.snapshot = Address.zero)
    (streams : List StreamId) :
    commits [.commit t streams, .commit t streams]
        (s.run [.commit t streams, .commit t streams]).1 =
      [⟨t, Address.zero⟩, ⟨t, Address.ofNat 1⟩] := by
  have hSees : ∀ next : Address, next.val ≤ 1 → t.snapshot.Sees next := by
    intro next hNext address hLt
    rw [Address.lt_iff_val_lt] at hLt
    rw [hSnapshot, Address.le_iff_val_le, Address.val_zero]
    omega
  have hZero : s.next = Address.zero := Address.pred?_eq_none_iff.mp hEmpty
  have hFirst :
      (s.serve (.commit t streams)).1 =
        .outcome (.committed Address.zero) := by
    rw [← hZero]
    apply h.committed_of_sees
    · exact hSees s.next (by simp [hZero])
    · rw [hZero]
      decide
  have hOrdinary : (Request.commit t streams).ordinary = true := rfl
  have hTiles := s.tiles_serve hOrdinary
  rw [hFirst] at hTiles
  have hOne :
      (s.serve (.commit t streams)).2.next = Address.ofNat 1 :=
    Address.eq_of_val_eq hTiles.2.2.symm
  have hSecond :
      ((s.serve (.commit t streams)).2.serve (.commit t streams)).1 =
        .outcome (.committed (Address.ofNat 1)) := by
    rw [← hOne]
    apply (h.serve (.commit t streams)).committed_of_sees
    · exact hSees _ (by rw [hOne]; decide)
    · rw [hOne]
      decide
  simp only [Sequencer.run, commits, hFirst, hSecond, committed?,
    Option.toList_some, List.append_nil, List.singleton_append]

------------------------------------------------------------
-- The first committer
------------------------------------------------------------

/- The transaction of a client that writes one key. -/
def twin : Transaction :=
  ⟨Address.zero, ∅, SortedSet.ofList [⟨StreamId.ofNat 7, [1]⟩]⟩

theorem twin_rivals
    (earlier later : Address) :
    Committed.Rivals Address.zero ⟨twin, earlier⟩ ⟨twin, later⟩ := by
  have hKey : ⟨StreamId.ofNat 7, [1]⟩ ∈ twin.writes := by decide
  exact ⟨rfl, rfl, ⟨_, hKey, hKey⟩⟩

/-
  After any run of a fresh sequencer: the first committer wins
  among all transactions that take their snapshot then, exactly
  if the log is not empty. On an empty log as well, it does not
  win but in one case: it was given the first address.
-/
theorem first_committer_wins_iff
    (capacity : Nat)
    (capacity_pos : 0 < capacity)
    (before : List Request) :
    ((∀ after, (∀ request ∈ after, request.inEpoch = true) →
        ((new capacity capacity_pos).run before).2.FirstCommitterWins
          after) ↔
      ((new capacity capacity_pos).run before).2.tail? ≠ none) ∧
      ∀ after, (∀ request ∈ after, request.inEpoch = true) →
        (commits after
          (((new capacity capacity_pos).run before).2.run after).1).Pairwise
          (fun earlier later =>
            Committed.Rivals
                ((new capacity capacity_pos).run before).2.observed
                earlier later →
              earlier.address = Address.zero) := by
  have hConsistent := consistent_run_new capacity capacity_pos before
  generalize ((new capacity capacity_pos).run before).2 = s at hConsistent
  have hRivals : ∀ after, (∀ request ∈ after, request.inEpoch = true) →
      (commits after (s.run after).1).Pairwise
        (fun earlier later =>
          Committed.Rivals s.observed earlier later →
            s.tail? = none ∧ earlier.address = Address.zero) := by
    intro after hEpoch
    apply hConsistent.rivals_commit
    intro request hRequest
    exact Request.ordinary_of_inEpoch (hEpoch request hRequest)
  refine ⟨⟨?_, ?_⟩, ?_⟩
  · intro hWins hEmpty
    have hTwins := hWins [.commit twin [], .commit twin []] (by decide)
    unfold FirstCommitterWins observed at hTwins
    rw [hConsistent.commits_twins hEmpty rfl, hEmpty,
      List.pairwise_pair] at hTwins
    exact hTwins (twin_rivals _ _)
  · intro hTail after hEpoch
    apply (hRivals after hEpoch).imp
    intro earlier later hCases hBoth
    exact hTail (hCases hBoth).1
  · intro after hEpoch
    apply (hRivals after hEpoch).imp
    intro earlier later hCases hBoth
    exact (hCases hBoth).2

/-
  A token is issued first, so that both clients have seen the
  first address of all. Now one of them commits, even if all
  that the sequencer knows is trimmed in between.
-/
def guardedTwins : List Request :=
  [.commit twin [], .trim Address.last, .commit twin []]

theorem guardedTwins_one_commits :
    let s := ((new 10 (by decide)).run [.token [] 1]).2
    0 < 10 ∧ s.tail? ≠ none ∧ twin.snapshot = s.observed ∧
      (∀ request ∈ guardedTwins, request.inEpoch = true) ∧
      commits guardedTwins (s.run guardedTwins).1 =
        [⟨twin, Address.ofNat 1⟩] ∧
      s.FirstCommitterWins guardedTwins := by
  intro s
  have hTail : s.tail? ≠ none := by decide
  have hEpoch : ∀ request ∈ guardedTwins, request.inEpoch = true := by
    decide
  have hWins :=
    (first_committer_wins_iff 10 (by decide) [.token [] 1]).1.mpr hTail
  exact ⟨by decide, hTail, by decide, hEpoch, by decide,
    hWins guardedTwins hEpoch⟩

/-
  Two clients find the log empty and write the same key. Both
  commit, and the write of the first one is lost to the second.
-/
theorem emptyLog_not_firstCommitterWins :
    (new 10 (by decide)).tail? = none ∧
      twin.snapshot = (new 10 (by decide)).observed ∧
      commits [.commit twin [], .commit twin []]
          ((new 10 (by decide)).run
            [.commit twin [], .commit twin []]).1 =
        [⟨twin, Address.zero⟩, ⟨twin, Address.ofNat 1⟩] ∧
      ¬ (new 10 (by decide)).FirstCommitterWins
        [.commit twin [], .commit twin []] := by
  have hCommits :
      commits [.commit twin [], .commit twin []]
          ((new 10 (by decide)).run
            [.commit twin [], .commit twin []]).1 =
        [⟨twin, Address.zero⟩, ⟨twin, Address.ofNat 1⟩] := by decide
  refine ⟨by decide, by decide, hCommits, ?_⟩
  intro hWins
  unfold FirstCommitterWins at hWins
  rw [hCommits, List.pairwise_pair] at hWins
  exact hWins (twin_rivals _ _)

end Sequencer

end OrderedLog
