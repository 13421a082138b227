import OrderedLog.Proofs.ConflictCache.Verdicts
import OrderedLog.Proofs.ConflictCache.Window

/-
  This file proves that a transaction may commit only if its
  snapshot is not before the last write of any key it names,
  whatever the cache was asked to record. Versions may come in
  any order: a write may land in the middle of the window or,
  once the window is empty, below the wildcard, and a key may be
  written at a lower version than before.

  The invariant is that the cache remembers the last accepted
  write of each key. What a request evicts lies up to a floor,
  and the wildcard is not below that.

  Key definitions include:
    * `ConflictCache.acceptedWrites`
    * `ConflictCache.Retains`

  Key lemmas include:
    * `ConflictCache.Leaves.remembers_write`
    * `ConflictCache.Leaves.remembers_of_same`
    * `ConflictCache.Retains.serve`
    * `ConflictCache.Retains.run`
    * `ConflictCache.seen_of_remembers`

  Key theorems include:
    * `ConflictCache.run_commits_after_last_writes`
-/

namespace OrderedLog

namespace ConflictCache

------------------------------------------------------------
-- Accepted writes
------------------------------------------------------------

/- The writes of some requests that were accepted, in order. -/
def acceptedWrites
    (requests : List Request)
    (replies : List Reply) : List Write :=
  (requests.zip replies).filterMap
    (fun served => accepted? served.1 served.2)

theorem acceptedWrites_cons
    (request : Request)
    (requests : List Request)
    (reply : Reply)
    (replies : List Reply) :
    acceptedWrites (request :: requests) (reply :: replies) =
      (accepted? request reply).toList ++
        acceptedWrites requests replies := by
  unfold acceptedWrites
  simp only [List.zip_cons_cons, List.filterMap_eq_flatMap_toList,
    List.flatMap_cons]

------------------------------------------------------------
-- Evictions
------------------------------------------------------------

theorem Remembers.of_le
    {c : ConflictCache}
    {key : ConflictKey}
    {address later : Address}
    (h : c.Remembers key later)
    (hLe : address ≤ later) : c.Remembers key address := by
  unfold Remembers at h ⊢
  split at h
  · exact Address.le_trans hLe h
  · exact Address.le_trans hLe h

variable {written : ConflictKey → Option Address}
variable {floor : Option Address}
variable {c d : ConflictCache}
variable {key : ConflictKey}
variable {address : Address}

/- A write is cached after evictions, or else covered by them. -/
theorem Leaves.remembers_write
    (h : Leaves written floor c d)
    (hWrite : written key = some address) : d.Remembers key address := by
  by_cases hKept : address.Above floor
  · have hLatest := (h.latest key address).mpr ⟨hWrite, hKept⟩
    exact (remembers_of_some hLatest).mpr (Address.le_refl address)
  · rcases Address.not_above_iff.mp hKept with ⟨other, hOther, hLe⟩
    have hForgotten := (h.forgotten_iff hWrite).mpr ⟨other, hOther, hLe⟩
    apply (remembers_of_none hForgotten).mpr
    exact Address.le_trans hLe (h.floor_le hOther)

/- What is remembered of a key that is not written stays so. -/
theorem Leaves.remembers_of_same
    (h : Leaves written floor c d)
    (hSame : written key = c.latest.get? key)
    (hRemembers : c.Remembers key address) : d.Remembers key address := by
  cases hLatest : c.latest.get? key with
  | some latest =>
    rw [remembers_of_some hLatest] at hRemembers
    rw [hLatest] at hSame
    exact (h.remembers_write hSame).of_le hRemembers
  | none =>
    rw [remembers_of_none hLatest] at hRemembers
    rw [hLatest] at hSame
    apply (remembers_of_none (h.latest_of_none hSame)).mpr
    exact Address.le_trans hRemembers h.wildcard_le

------------------------------------------------------------
-- The invariant
------------------------------------------------------------

/- The cache remembers the last of some writes of each key. -/
def Retains
    (c : ConflictCache)
    (history : List Write) : Prop :=
  ∀ key version, lastWrite? history key = some version →
    c.Remembers key version

variable {history : List Write}

theorem retains_nil (c : ConflictCache) : c.Retains [] :=
  nofun

/-
  A request that is accepted makes its keys remembered where it
  writes them, even if that is before their previous write.
-/
theorem Retains.serve
    (hSettled : c.Settled)
    (h : c.Retains history)
    (request : Request) :
    (c.serve request).2.Retains
      (history ++ (accepted? request (c.serve request).1).toList) := by
  rcases hSettled.leaves_serve request with ⟨_, hLeaves, _⟩
  intro key version hLast
  cases hAccepted : accepted? request (c.serve request).1 with
  | none =>
    rw [hAccepted, Option.toList_none, List.append_nil] at hLast
    rw [pending_of_not_accepted hAccepted] at hLeaves
    exact hLeaves.remembers_of_same rfl (h key version hLast)
  | some write =>
    rw [hAccepted, Option.toList_some, lastWrite?_append] at hLast
    rw [pending_of_accepted hAccepted] at hLeaves
    by_cases hKey : key ∈ write.keys
    · rw [if_pos hKey] at hLast
      apply hLeaves.remembers_write
      rw [← hLast]
      exact if_pos hKey
    · rw [if_neg hKey] at hLast
      exact hLeaves.remembers_of_same (if_neg hKey) (h key version hLast)

theorem Retains.run
    (hSettled : c.Settled)
    (h : c.Retains history)
    (requests : List Request) :
    (c.run requests).2.Retains
      (history ++ acceptedWrites requests (c.run requests).1) := by
  induction requests generalizing c history with
  | nil =>
    rw [acceptedWrites, List.zip_nil_left, List.filterMap_nil,
      List.append_nil]
    exact h
  | cons request requests ih =>
    rw [ConflictCache.run, acceptedWrites_cons, ← List.append_assoc]
    exact ih (hSettled.serve request) (h.serve hSettled request)

------------------------------------------------------------
-- Commits
------------------------------------------------------------

variable {capacity : Nat}
variable {bound : Address}
variable {requests : List Request}

/- What is remembered is before the bound or some write. -/
theorem seen_of_remembers
    (capacity_pos : 0 < capacity)
    {snapshot : Address}
    (hBound : bound ≤ snapshot)
    (hSeen : ∀ write ∈ writes requests, write.version ≤ snapshot)
    (hRemembers :
      ((new capacity capacity_pos bound).run requests).2.Remembers key
        address) :
    address ≤ snapshot := by
  unfold Remembers at hRemembers
  split at hRemembers
  · next hLatest =>
    rcases exists_write_of_latest hLatest with ⟨write, hWrite, _, rfl⟩
    exact Address.le_trans hRemembers (hSeen write hWrite)
  · apply Address.le_trans hRemembers
    rcases wildcard_run_cases capacity_pos bound requests with
      hSame | ⟨write, hWrite, hVersion⟩
    · rw [hSame]
      exact hBound
    · rw [← hVersion]
      exact hSeen write hWrite

/-
  Whatever a cache was asked to record and to trim, and whatever
  of it was accepted: a transaction that it lets commit, in some
  order of its keys, has a snapshot that is neither before the
  bound nor before the last write of any key that it names. And
  it does let commit all that have seen the bound and every write.
-/
theorem run_commits_after_last_writes
    (capacity : Nat)
    (capacity_pos : 0 < capacity)
    (bound : Address)
    (requests : List Request)
    (t : Transaction) :
    (((new capacity capacity_pos bound).run requests).2.Possible t
        .commit →
      bound ≤ t.snapshot ∧
        ∀ key, t.Names key → ∀ version,
          lastWrite?
              (acceptedWrites requests
                ((new capacity capacity_pos bound).run requests).1) key
            = some version →
          version ≤ t.snapshot) ∧
      (bound ≤ t.snapshot →
        (∀ write ∈ writes requests, write.version ≤ t.snapshot) →
        ((new capacity capacity_pos bound).run requests).2.Possible t
          .commit) := by
  have hSettled := settled_new capacity capacity_pos bound
  have hRetains :=
    (retains_nil (new capacity capacity_pos bound)).run hSettled requests
  have hRunBound :
      ((new capacity capacity_pos bound).run requests).2.bound = bound :=
    bound_run hSettled requests
  rw [List.nil_append] at hRetains
  rw [possible_commit_iff]
  constructor
  · intro hVerdict
    constructor
    · rw [← hRunBound]
      exact (verdict_eq_commit_iff.mp hVerdict).1
    · intro key hNames version hLast
      exact (hRetains key version hLast).le_snapshot hVerdict hNames
  · intro hBound hSeen
    apply verdict_eq_commit_of_seen
    · rw [hRunBound]
      exact hBound
    · intro key address hRemembers
      exact seen_of_remembers capacity_pos hBound hSeen hRemembers

/-
  Room for two keys. The trim empties the window, so that the
  first key may be written again below the wildcard. The third
  one lands in the middle of the window and evicts the first.
  Two more writes are refused.
-/
def disorderedWrites : List Request :=
  let keys := keysOf (StreamId.ofNat 7)
  [ .record (keys [1]) (Address.ofNat 5),
    .trim (Address.ofNat 9),
    .record (keys [1]) (Address.ofNat 4),
    .record (keys [2]) (Address.ofNat 8),
    .record (keys [3]) (Address.ofNat 6),
    .record (keys [2]) (Address.ofNat 7),
    .record (keys [1]) (Address.ofNat 3) ]

theorem disorderedWrites_seen :
    let served := (new 2 (by decide) (Address.ofNat 2)).run
      disorderedWrites
    let history := acceptedWrites disorderedWrites served.1
    let t : Transaction :=
      ⟨Address.ofNat 6, keysOf (StreamId.ofNat 7) [1],
        keysOf (StreamId.ofNat 7) [3]⟩
    0 < 2 ∧ served.2.Possible t .commit ∧
      lastWrite? history ⟨StreamId.ofNat 7, [1]⟩ =
        some (Address.ofNat 4) ∧
      served.2.get? ⟨StreamId.ofNat 7, [1]⟩ = none ∧
      Address.ofNat 2 ≤ t.snapshot ∧
      ∀ key, t.Names key → ∀ version,
        lastWrite? history key = some version → version ≤ t.snapshot := by
  intro served history t
  have hCommit : served.2.Possible t .commit :=
    possible_commit_iff.mpr (by decide)
  have hJudged := run_commits_after_last_writes 2 (by decide)
    (Address.ofNat 2) disorderedWrites t
  exact ⟨by decide, hCommit, by decide, by decide, hJudged.1 hCommit⟩

end ConflictCache

end OrderedLog
