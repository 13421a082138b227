import OrderedLog.Proofs.ConflictCache.Memory
import OrderedLog.Proofs.Sequencer.Steps
import OrderedLog.Sequencer.Request

/-
  This file proves that the sequencer serializes transactions:
  none commits if a key that it read or writes was written
  after its snapshot, whatever the cache has evicted, trimmed
  or left to a new sequencer since.

  The invariant is that the cache remembers every write of
  every committed transaction, and that each of these has an
  address below the next one.

  Key definitions include:
    * `Sequencer.Committed`
    * `Sequencer.Committed.Clears`
    * `Sequencer.commits`
    * `Sequencer.Keeps`

  Key lemmas include:
    * `Sequencer.Keeps.commit`
    * `Sequencer.Keeps.handover`
    * `Sequencer.Keeps.serve`
    * `Sequencer.Keeps.run`

  Key theorems include:
    * `Sequencer.run_serializable`
-/

namespace OrderedLog

namespace Sequencer

------------------------------------------------------------
-- Committed transactions
------------------------------------------------------------

/- A transaction that committed, and where in the log. -/
structure Committed where
  transaction : Transaction
  address : Address
deriving DecidableEq

/-
  If the first transaction wrote after the snapshot of the
  second, the second has no business with the keys it wrote.
-/
def Committed.Clears
    (earlier later : Committed) : Prop :=
  later.transaction.snapshot < earlier.address →
    ∀ key ∈ earlier.transaction.writes,
      key ∉ later.transaction.reads ∧ key ∉ later.transaction.writes

/- What a reply says was committed by its request. -/
def committed? : Request → Reply → Option Committed
  | .commit transaction _, .outcome (.committed address) =>
    some ⟨transaction, address⟩
  | _, _ => none

/- The transactions that committed, in the order they did. -/
def commits : List Request → List Reply → List Committed
  | [], _ => []
  | _ :: _, [] => []
  | request :: requests, reply :: replies =>
    (committed? request reply).toList ++ commits requests replies

/-
  Whether a request is one of a running system. A restart from
  tails that no sequencer has reported is not.
-/
def Request.ordinary : Request → Bool
  | .restart _ => false
  | _ => true

------------------------------------------------------------
-- The invariant
------------------------------------------------------------

/- The sequencer keeps track of some committed transactions. -/
structure Keeps
    (s : Sequencer)
    (history : List Committed) : Prop where
  coherent : s.cache.Coherent
  below : ∀ done ∈ history, done.address < s.next
  remembered :
    ∀ done ∈ history, ∀ key ∈ done.transaction.writes,
      s.cache.Remembers key done.address

theorem keeps_new
    (capacity : Nat)
    (capacity_pos : 0 < capacity) :
    (new capacity capacity_pos).Keeps [] where
  coherent := ConflictCache.coherent_new capacity capacity_pos _
  below := nofun
  remembered := nofun

/- The statistics of the cache have no part in the invariant. -/
theorem Keeps.ruled
    {s : Sequencer}
    {history : List Committed}
    (h : s.Keeps history)
    (t : Transaction) :
    Keeps { s with cache := (s.cache.rule t).2 } history :=
  ⟨h.coherent, h.below, h.remembered⟩

theorem Keeps.issue
    {s next : Sequencer}
    {history : List Committed}
    (h : s.Keeps history)
    {streams : List StreamId}
    {count : Nat}
    {token : Token}
    (hIssue : s.issue streams count = .ok (token, next)) :
    next.Keeps history := by
  rcases issue_cases hIssue with ⟨_, hCache, hNext⟩
  constructor
  · rw [hCache]
    exact h.coherent
  · intro done hDone
    exact Nat.lt_of_lt_of_le (h.below done hDone) hNext
  · rw [hCache]
    exact h.remembered

/- A commit is added to the history. -/
theorem Keeps.commit
    {s next : Sequencer}
    {history : List Committed}
    (h : s.Keeps history)
    {t : Transaction}
    {streams : List StreamId}
    {address : Address}
    (hCommit : s.commit t streams = (.ok (.committed address), next)) :
    next.Keeps (history ++ [⟨t, address⟩]) := by
  rcases commit_cases hCommit with ⟨rfl, hNext, _, hRecord⟩
  have hCoherent := (h.ruled t).coherent
  constructor
  · exact hCoherent.record hRecord
  · intro done hDone
    rw [Address.lt_iff_val_lt, hNext]
    rw [List.mem_append, List.mem_singleton] at hDone
    rcases hDone with hOld | rfl
    · exact Nat.lt_succ_of_lt (h.below done hOld)
    · exact Nat.lt_succ_self _
  · intro done hDone key hKey
    rw [List.mem_append, List.mem_singleton] at hDone
    rcases hDone with hOld | rfl
    · have hRemembered := (h.ruled t).remembered done hOld key hKey
      exact hRemembered.record hCoherent hRecord
        (Nat.le_of_lt (h.below done hOld))
    · exact ConflictCache.remembers_recorded hCoherent hRecord hKey

theorem Keeps.trim
    {s : Sequencer}
    {history : List Committed}
    (h : s.Keeps history)
    (mark : Address) : (s.trim mark).2.Keeps history where
  coherent := h.coherent.trimBelow mark
  below := h.below
  remembered := fun done hDone key hKey =>
    (h.remembered done hDone key hKey).trimBelow h.coherent mark

/- The new sequencer knows of every commit by its wildcard. -/
theorem Keeps.handover
    {s next : Sequencer}
    {history : List Committed}
    (h : s.Keeps history)
    {streams : List StreamId}
    (hHandover : s.handover streams = .ok next) :
    next.Keeps history := by
  rcases handover_cases s streams with
    ⟨other, bound, hOther, hNext, hBound, hCache⟩
  rw [hHandover] at hOther
  cases hOther
  constructor
  · rw [hCache]
    exact ConflictCache.coherent_new _ _ _
  · intro done hDone
    rw [hNext]
    exact h.below done hDone
  · intro done hDone key _
    rw [hCache]
    exact ConflictCache.remembers_new _ _
      (hBound done.address (h.below done hDone)) key

------------------------------------------------------------
-- Steps and runs
------------------------------------------------------------

/- What one request commits is added to the history. -/
theorem Keeps.serve
    {s : Sequencer}
    {history : List Committed}
    (h : s.Keeps history)
    {request : Request}
    (hOrdinary : request.ordinary = true) :
    (s.serve request).2.Keeps
      (history ++
        (committed? request (s.serve request).1).toList) := by
  cases request with
  | token streams count =>
    rw [Sequencer.serve]
    simp only [committed?, Option.toList_none, List.append_nil]
    split
    · next hIssue => exact h.issue hIssue
    · exact h
  | commit transaction streams =>
    rw [Sequencer.serve]
    split
    · next outcome next hCommit =>
      cases outcome with
      | committed address =>
        exact h.commit hCommit
      | aborted reason =>
        simp only [committed?, Option.toList_none, List.append_nil]
        rw [commit_of_aborted hCommit]
        exact h.ruled transaction
    · next refusal next hCommit =>
      simp only [committed?, Option.toList_none, List.append_nil]
      rw [commit_of_refused hCommit]
      exact h.ruled transaction
  | tails streams =>
    simp only [committed?, Option.toList_none, List.append_nil]
    exact h
  | trim mark =>
    simp only [committed?, Option.toList_none, List.append_nil]
    exact h.trim mark
  | restart tails => cases hOrdinary
  | handover streams =>
    rw [Sequencer.serve]
    simp only [committed?, Option.toList_none, List.append_nil]
    split
    · next hHandover => exact h.handover hHandover
    · exact h

/-
  A transaction that commits next clears all of the history:
  it has seen each write of its keys that is remembered.
-/
theorem Keeps.clears
    {s : Sequencer}
    {history : List Committed}
    (h : s.Keeps history)
    {request : Request}
    {later : Committed}
    (hLater : committed? request (s.serve request).1 = some later)
    {earlier : Committed}
    (hEarlier : earlier ∈ history) : earlier.Clears later := by
  cases request with
  | commit transaction streams =>
    rw [Sequencer.serve] at hLater
    split at hLater
    · next outcome next hCommit =>
      cases outcome with
      | committed address =>
        cases hLater
        rcases commit_cases hCommit with ⟨_, _, hVerdict, _⟩
        intro hSnapshot key hKey
        have hRemembered := h.remembered earlier hEarlier key hKey
        constructor
        · intro hRead
          have hSeen := hRemembered.le_snapshot hVerdict (Or.inl hRead)
          exact Address.not_lt.mpr hSeen hSnapshot
        · intro hWrite
          have hSeen := hRemembered.le_snapshot hVerdict (Or.inr hWrite)
          exact Address.not_lt.mpr hSeen hSnapshot
      | aborted reason => cases hLater
    · cases hLater
  | token streams count => cases hLater
  | tails streams => cases hLater
  | trim mark => cases hLater
  | restart tails => cases hLater
  | handover streams => cases hLater

/-
  All that commits in a run is cleared by the history, and by
  what committed before it in the run.
-/
theorem Keeps.run
    {s : Sequencer}
    {history : List Committed}
    (h : s.Keeps history)
    {requests : List Request}
    (hOrdinary :
      ∀ request ∈ requests, request.ordinary = true)
    (hHistory : history.Pairwise Committed.Clears) :
    (history ++ commits requests (s.run requests).1).Pairwise
      Committed.Clears := by
  induction requests generalizing s history with
  | nil =>
    rw [Sequencer.run, commits, List.append_nil]
    exact hHistory
  | cons request requests ih =>
    have hServed := h.serve (hOrdinary request List.mem_cons_self)
    rw [Sequencer.run, commits, ← List.append_assoc]
    apply ih hServed
    · intro other hOther
      exact hOrdinary other (List.mem_cons_of_mem request hOther)
    · rw [List.pairwise_append]
      refine ⟨hHistory, ?_, ?_⟩
      · cases committed? request (s.serve request).1 with
        | none => exact List.Pairwise.nil
        | some later => exact List.pairwise_singleton _ later
      · intro earlier hEarlier later hLater
        rw [Option.mem_toList] at hLater
        exact h.clears hLater hEarlier

/-
  Serializability: of two transactions that commit in a run of
  a fresh sequencer, the later one neither read nor writes a
  key that the earlier one wrote after the later's snapshot.
-/
theorem run_serializable
    (capacity : Nat)
    (capacity_pos : 0 < capacity)
    (requests : List Request)
    (hOrdinary :
      ∀ request ∈ requests, request.ordinary = true) :
    (commits requests
      ((new capacity capacity_pos).run requests).1).Pairwise
      Committed.Clears :=
  (keeps_new capacity capacity_pos).run hOrdinary List.Pairwise.nil

/-
  A run on a cache with room for one key: the second write
  pushes out the first, the trim takes the second, and two
  transactions whose keys are gone are turned away before the
  new sequencer accepts two more.
-/
def crowdedRequests : List Request :=
  let stream := StreamId.ofNat 7
  let one : SortedSet ConflictKey := SortedSet.ofList [⟨stream, [1]⟩]
  let two : SortedSet ConflictKey := SortedSet.ofList [⟨stream, [2]⟩]
  [ .commit ⟨Address.zero, ∅, one⟩ [],
    .commit ⟨Address.zero, ∅, two⟩ [],
    .token [stream] 2,
    .commit ⟨Address.zero, one, ∅⟩ [],
    .trim (Address.ofNat 3),
    .commit ⟨Address.zero, ∅, two⟩ [],
    .handover [stream],
    .commit ⟨Address.ofNat 2, two, one⟩ [],
    .commit ⟨Address.ofNat 3, two, one⟩ [],
    .commit ⟨Address.ofNat 4, one, ∅⟩ [] ]

theorem crowdedRequests_serializable :
    (∀ request ∈ crowdedRequests, request.ordinary = true) ∧
      (commits crowdedRequests
        ((new 1 (by decide)).run crowdedRequests).1).map
          (fun done => done.address.val) = [0, 1, 4, 5] ∧
      (commits crowdedRequests
        ((new 1 (by decide)).run crowdedRequests).1).Pairwise
        Committed.Clears :=
  ⟨by decide, by decide,
    run_serializable 1 (by decide) crowdedRequests (by decide)⟩

end Sequencer

end OrderedLog
