import OrderedLog.Sequencer.Basic
import OrderedLog.SortedMap.Lemmas

/-
  This file proves what the sequencer did when it handed out
  addresses, committed or aborted a transaction, started a new
  epoch or gave way to a new sequencer, and which tails it
  reports.

  Key definitions include:
    * `Sequencer.Opening`
    * `Sequencer.Opening.sequencer?`

  Key lemmas include:
    * `Sequencer.issue_eq`
    * `Sequencer.issue_cases`
    * `Sequencer.exists_issue`
    * `Sequencer.commit_cases`
    * `Sequencer.tails_of_committed`
    * `Sequencer.commit_of_not_committed`
    * `Sequencer.commit_of_aborted`
    * `Sequencer.commit_of_refused`
    * `Sequencer.committed_or_ruled`
    * `Sequencer.commit_aborted_iff`
    * `Sequencer.restart_cases`
    * `Sequencer.restart_eq`
    * `Sequencer.exists_restart`
    * `Sequencer.restart_tailsOf_eq`
    * `Sequencer.handover_eq`
    * `Sequencer.handover_cases`
    * `Sequencer.Opening.sequencer?_eq`
    * `Sequencer.get?_raise`
    * `Sequencer.get?_raise_congr`
    * `Sequencer.get?_streams_tailsOf`
    * `Sequencer.tailsOf_congr`
-/

namespace OrderedLog

namespace Sequencer

------------------------------------------------------------
-- Handing out addresses
------------------------------------------------------------

/-
  A token has as many addresses as were asked for, from the next
  one on, and its streams are raised to the last of them.
-/
theorem issue_eq
    {s next : Sequencer}
    {streams : List StreamId}
    {count : Nat}
    {token : Token}
    (h : s.issue streams count = .ok (token, next)) :
    0 < count ∧ token = ⟨s.next, count⟩ ∧
      next.next.val = s.next.val + count ∧ next.cache = s.cache ∧
      next.tails = raise s.tails streams token.last := by
  unfold issue at h
  split at h
  · cases h
  · next hCount =>
    split at h
    · cases h
    · next hNext =>
      cases h
      exact ⟨Nat.pos_of_ne_zero hCount, rfl,
        Address.add?_eq_some_iff.mp hNext, rfl, rfl⟩

/-
  A token starts at the next address, and the one after it is
  never below that.
-/
theorem issue_cases
    {s next : Sequencer}
    {streams : List StreamId}
    {count : Nat}
    {token : Token}
    (h : s.issue streams count = .ok (token, next)) :
    token.start = s.next ∧ next.cache = s.cache ∧
      s.next ≤ next.next := by
  rcases issue_eq h with ⟨_, rfl, hNext, hCache, _⟩
  refine ⟨rfl, hCache, ?_⟩
  rw [Address.le_iff_val_le, hNext]
  exact Nat.le_add_right _ _

/- A token is issued if it is not empty and there is room. -/
theorem exists_issue
    (s : Sequencer)
    (streams : List StreamId)
    {count : Nat}
    (hCount : 0 < count)
    (hRoom : s.next.val + count < UInt64.size) :
    ∃ next, s.issue streams count = .ok (⟨s.next, count⟩, next) := by
  have hNext : s.next.add? count = some ⟨s.next.val + count, hRoom⟩ :=
    Address.add?_eq_some_iff.mpr rfl
  unfold issue
  rw [if_neg (Nat.ne_of_gt hCount), hNext]
  exact ⟨_, rfl⟩

/-
  A transaction that commits passed its verdict, was given the
  next address and had its writes recorded there.
-/
theorem commit_cases
    {s next : Sequencer}
    {t : Transaction}
    {streams : List StreamId}
    {address : Address}
    (h : s.commit t streams = (.ok (.committed address), next)) :
    address = s.next ∧ next.next.val = s.next.val + 1 ∧
      s.cache.verdict t = .commit ∧
      (s.cache.rule t).2.record t.writes s.next = .ok next.cache := by
  unfold commit at h
  simp only at h
  split at h
  · cases h
  · next hVerdict =>
    split at h
    · cases h
    · next hNext =>
      split at h
      · cases h
      · next hRecord =>
        cases h
        exact ⟨rfl, Address.next?_eq_some_iff.mp hNext, hVerdict,
          hRecord⟩

/- A commit raises the streams that it is appended to. -/
theorem tails_of_committed
    {s next : Sequencer}
    {t : Transaction}
    {streams : List StreamId}
    {address : Address}
    (h : s.commit t streams = (.ok (.committed address), next)) :
    next.tails = raise s.tails (written t streams).toList address := by
  unfold commit at h
  simp only at h
  split at h
  · cases h
  · split at h
    · cases h
    · split at h
      · cases h
      · cases h
        rfl

/- A transaction that does not commit is counted at most. -/
theorem commit_of_not_committed
    {s next : Sequencer}
    {t : Transaction}
    {streams : List StreamId}
    {result : Except Refusal Outcome}
    (h : s.commit t streams = (result, next))
    (hResult : ∀ address, result ≠ .ok (.committed address)) :
    next = { s with cache := (s.cache.rule t).2 } := by
  unfold commit at h
  simp only at h
  split at h
  · cases h
    rfl
  · split at h
    · cases h
      rfl
    · split at h
      · cases h
        rfl
      · cases h
        exact absurd rfl (hResult s.next)

theorem commit_of_aborted
    {s next : Sequencer}
    {t : Transaction}
    {streams : List StreamId}
    {reason : AbortReason}
    (h : s.commit t streams = (.ok (.aborted reason), next)) :
    next = { s with cache := (s.cache.rule t).2 } :=
  commit_of_not_committed h nofun

theorem commit_of_refused
    {s next : Sequencer}
    {t : Transaction}
    {streams : List StreamId}
    {refusal : Refusal}
    (h : s.commit t streams = (.error refusal, next)) :
    next = { s with cache := (s.cache.rule t).2 } :=
  commit_of_not_committed h nofun

/- A transaction commits, or it is counted at most. -/
theorem committed_or_ruled
    (s : Sequencer)
    (t : Transaction)
    (streams : List StreamId) :
    (∃ address,
        s.commit t streams =
          (.ok (.committed address), (s.commit t streams).2)) ∨
      (s.commit t streams).2 = { s with cache := (s.cache.rule t).2 } := by
  by_cases hResult :
      ∃ address, (s.commit t streams).1 = .ok (.committed address)
  · rcases hResult with ⟨address, hCommitted⟩
    exact Or.inl ⟨address, Prod.ext hCommitted rfl⟩
  · right
    apply commit_of_not_committed rfl
    intro address hCommitted
    exact hResult ⟨address, hCommitted⟩

/- A transaction is aborted for the reason of its verdict. -/
theorem commit_aborted_iff
    {s : Sequencer}
    {t : Transaction}
    {streams : List StreamId}
    {reason : AbortReason} :
    (s.commit t streams).1 = .ok (.aborted reason) ↔
      s.cache.verdict t = .abort reason := by
  have hRuled : (s.cache.rule t).1 = s.cache.verdict t := rfl
  unfold commit
  simp only
  rw [hRuled]
  cases s.cache.verdict t with
  | abort other => simp
  | commit =>
    simp only [reduceCtorEq, iff_false]
    split
    · simp
    · split <;> simp

------------------------------------------------------------
-- Starting an epoch
------------------------------------------------------------

/-
  A new epoch starts with an empty cache. Its bound is below
  the next address, or both are the first address of all.
-/
theorem restart_cases
    {s next : Sequencer}
    {tails : Tails}
    (h : s.restart tails = .ok next) :
    ∃ bound,
      (bound < next.next ∨ bound = Address.zero) ∧
      next.cache =
        ConflictCache.new s.cache.capacity s.cache.capacity_pos bound := by
  unfold restart at h
  simp only at h
  split at h
  · cases h
    exact ⟨Address.zero, Or.inr rfl, rfl⟩
  · next tail _ =>
    split at h
    · cases h
    · next hNext =>
      cases h
      refine ⟨tail, Or.inl ?_, rfl⟩
      rw [Address.lt_iff_val_lt, Address.next?_eq_some_iff.mp hNext]
      exact Nat.lt_succ_self _

/- A new epoch has the recovered tails and continues after them. -/
theorem restart_eq
    {s next : Sequencer}
    {tails : Tails}
    (h : s.restart tails = .ok next) :
    next.tails = tails.streams ∧
      next.next.val = tails.global.elim 0 (fun tail => tail.val + 1) := by
  unfold restart at h
  simp only at h
  split at h
  · next hGlobal =>
    cases h
    rw [hGlobal]
    exact ⟨rfl, rfl⟩
  · next tail hGlobal =>
    split at h
    · cases h
    · next hNext =>
      cases h
      rw [hGlobal]
      exact ⟨rfl, Address.next?_eq_some_iff.mp hNext⟩

/- A new epoch may start after any tail but the last address. -/
theorem exists_restart
    (s : Sequencer)
    {tails : Tails}
    (h : tails.global ≠ some Address.last) :
    ∃ next, s.restart tails = .ok next := by
  unfold restart
  simp only
  cases hGlobal : tails.global with
  | none => exact ⟨_, rfl⟩
  | some tail =>
    simp only
    cases hNext : tail.next? with
    | none =>
      rw [Address.next?_eq_none_iff.mp hNext] at hGlobal
      exact absurd hGlobal h
    | some next => exact ⟨_, rfl⟩

/-
  A sequencer may always be restarted from what another one
  reports. It continues at the same address with the tails that
  were asked for and an empty cache, whose wildcard is the last
  address handed out.
-/
theorem restart_tailsOf_eq
    (successor s : Sequencer)
    (streams : List StreamId) :
    ∃ bound,
      successor.restart (s.tailsOf streams) = .ok
        { cache :=
            ConflictCache.new successor.cache.capacity
              successor.cache.capacity_pos bound
          next := s.next
          tails := (s.tailsOf streams).streams } ∧
      (bound < s.next ∨ bound = Address.zero) ∧
      ∀ address, address < s.next → address ≤ bound := by
  unfold restart tailsOf
  simp only
  cases hTail : s.tail? with
  | none =>
    have hZero : s.next = Address.zero :=
      Address.pred?_eq_none_iff.mp hTail
    rw [hZero]
    refine ⟨Address.zero, rfl, Or.inr rfl, ?_⟩
    intro address hLt
    exact absurd hLt (Nat.not_lt_zero _)
  | some tail =>
    have hVal := Address.pred?_eq_some_iff.mp hTail
    have hNext : tail.next? = some s.next :=
      Address.next?_eq_some_iff.mpr hVal.symm
    simp only [hNext]
    refine ⟨tail, rfl, Or.inl ?_, ?_⟩
    · rw [Address.lt_iff_val_lt]
      omega
    · intro address hLt
      rw [Address.lt_iff_val_lt] at hLt
      rw [Address.le_iff_val_le]
      omega

/- A handover is to a new sequencer with a cache of that size. -/
theorem handover_eq
    (s : Sequencer)
    (streams : List StreamId) :
    ∃ bound,
      s.handover streams = .ok
        { cache :=
            ConflictCache.new s.cache.capacity s.cache.capacity_pos bound
          next := s.next
          tails := (s.tailsOf streams).streams } ∧
      (bound < s.next ∨ bound = Address.zero) ∧
      ∀ address, address < s.next → address ≤ bound :=
  restart_tailsOf_eq (new s.cache.capacity s.cache.capacity_pos) s streams

/- What of a handover does not concern the tails. -/
theorem handover_cases
    (s : Sequencer)
    (streams : List StreamId) :
    ∃ next bound,
      s.handover streams = .ok next ∧ next.next = s.next ∧
      (∀ address, address < s.next → address ≤ bound) ∧
      next.cache =
        ConflictCache.new s.cache.capacity s.cache.capacity_pos bound := by
  rcases s.handover_eq streams with ⟨bound, hHandover, _, hBound⟩
  exact ⟨_, bound, hHandover, rfl, hBound, rfl⟩

/- How an epoch opens: on a fresh log, or from recovered tails. -/
inductive Opening where
  | fresh
      (capacity : Nat)
      (capacity_pos : 0 < capacity)
  | recovery
      (previous : Sequencer)
      (tails : Tails)

namespace Opening

/- The sequencer that an epoch opens with. -/
def sequencer? : Opening → Except Refusal Sequencer
  | fresh capacity capacity_pos => .ok (new capacity capacity_pos)
  | recovery previous tails => previous.restart tails

/- The tails that are known when an epoch opens. -/
def tails : Opening → Tails
  | fresh _ _ => ⟨none, ∅⟩
  | recovery _ tails => tails

/- The first position that is handed out in an epoch. -/
def first (opening : Opening) : Nat :=
  opening.tails.global.elim 0 (fun tail => tail.val + 1)

theorem sequencer?_eq
    {opening : Opening}
    {s : Sequencer}
    (h : opening.sequencer? = .ok s) :
    s.tails = opening.tails.streams ∧ s.next.val = opening.first := by
  cases opening with
  | fresh capacity capacity_pos =>
    cases h
    exact ⟨rfl, rfl⟩
  | recovery previous tails => exact restart_eq h

/- An epoch opens if there is an address after the global tail. -/
theorem exists_sequencer
    {opening : Opening}
    (h : opening.tails.global ≠ some Address.last) :
    ∃ s, opening.sequencer? = .ok s := by
  cases opening with
  | fresh capacity capacity_pos => exact ⟨_, rfl⟩
  | recovery previous tails => exact exists_restart previous h

end Opening

------------------------------------------------------------
-- Tails
------------------------------------------------------------

/-
  A stream that is raised has its tail raised to the address, or
  gets one. It does not matter how often the stream is listed.
-/
theorem get?_raise
    (tails : SortedMap StreamId Address)
    (streams : List StreamId)
    (address : Address)
    (stream : StreamId) :
    (raise tails streams address).get? stream =
      if stream ∈ streams then
        some ((tails.get? stream).elim address
          (fun tail => tail.max address))
      else
        tails.get? stream := by
  induction streams generalizing tails with
  | nil => simp [raise]
  | cons raised streams ih =>
    have hRaised :
        raise tails (raised :: streams) address =
          raise (tails.insertWith Address.max raised address) streams
            address := rfl
    rw [hRaised, ih, SortedMap.get?_insertWith]
    by_cases hSame : stream = raised
    · -- a tail that has been raised is not raised any further
      have hReached :
          ((tails.get? stream).elim address
              (fun tail => tail.max address)).max address =
            (tails.get? stream).elim address
              (fun tail => tail.max address) := by
        apply Address.max_eq_left
        cases tails.get? stream with
        | none => exact Address.le_refl address
        | some tail => exact Address.le_max_right tail address
      rw [if_pos hSame, ← hSame, if_pos List.mem_cons_self,
        Option.elim_some, hReached, ite_self]
    · rw [if_neg hSame]
      simp only [List.mem_cons, hSame, false_or]

/-
  What raised tails say of a stream depends on nothing but what
  they said of it before.
-/
theorem get?_raise_congr
    {a b : SortedMap StreamId Address}
    {stream : StreamId}
    (h : a.get? stream = b.get? stream)
    (streams : List StreamId)
    (address : Address) :
    (raise a streams address).get? stream =
      (raise b streams address).get? stream := by
  rw [get?_raise, get?_raise, h]

/- A report has the tails of the streams that it is about. -/
theorem get?_streams_tailsOf
    (s : Sequencer)
    (streams : List StreamId)
    (stream : StreamId) :
    (s.tailsOf streams).streams.get? stream =
      if stream ∈ streams then s.tails.get? stream else none := by
  unfold tailsOf
  simp only
  -- tails that were found before are reported as well
  have hBefore : s.tails.get? stream =
      (s.tails.get? stream).or
        ((∅ : SortedMap StreamId Address).get? stream) := by
    simp
  have hNone : (none : Option Address) =
      (∅ : SortedMap StreamId Address).get? stream := rfl
  rw [hBefore, hNone]
  generalize (∅ : SortedMap StreamId Address) = found
  induction streams generalizing found with
  | nil => simp
  | cons asked streams ih =>
    rw [List.foldl_cons, ih]
    by_cases hSame : stream = asked
    · subst hSame
      cases s.tails.get? stream with
      | none => simp
      | some tail => simp [SortedMap.get?_insert]
    · cases s.tails.get? asked with
      | none => simp [hSame]
      | some tail => simp [SortedMap.get?_insert, hSame]

/- Sequencers at the same address with the same tails. -/
theorem tailsOf_congr
    {s t : Sequencer}
    {streams : List StreamId}
    (hNext : s.next = t.next)
    (hTails : ∀ stream ∈ streams,
      s.tails.get? stream = t.tails.get? stream) :
    s.tailsOf streams = t.tailsOf streams := by
  have hStreams :
      (s.tailsOf streams).streams = (t.tailsOf streams).streams := by
    apply SortedMap.eq_of_get?_eq
    intro stream
    rw [get?_streams_tailsOf, get?_streams_tailsOf]
    by_cases hMem : stream ∈ streams
    · rw [if_pos hMem, if_pos hMem]
      exact hTails stream hMem
    · rw [if_neg hMem, if_neg hMem]
  have hGlobal : s.tail? = t.tail? := by
    unfold tail?
    rw [hNext]
  unfold tailsOf at hStreams ⊢
  simp only at hStreams
  rw [hGlobal, hStreams]

end Sequencer

end OrderedLog
