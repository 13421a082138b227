import Mathlib.Order.Bounds.Defs
import OrderedLog.Proofs.ConflictCache.Requests

/-
  This file proves that the window of the conflict cache has no
  holes. As long as the versions increase, the history of all
  writes and the wildcard alone tell what is cached: the last
  write of each key, if it is above the wildcard. And the
  wildcard is the highest address that was ever evicted, unless
  the bound is higher.

  Both rest on the floor that a request leaves behind. What is
  not above it was evicted, and the wildcard is never below it.

  Key definitions include:
    * `ConflictCache.lastWrite?`
    * `ConflictCache.Evicts`
    * `ConflictCache.EvictsIn`
    * `ConflictCache.WithoutHoles`

  Key lemmas include:
    * `ConflictCache.lastWrite?_append`
    * `ConflictCache.Settled.isGreatest_wildcard_serve`
    * `ConflictCache.isGreatest_wildcard_run`
    * `ConflictCache.wildcard_lt_version`
    * `ConflictCache.pending_eq_some_iff`
    * `ConflictCache.latest_run_iff`

  Key theorems include:
    * `ConflictCache.run_withoutHoles`
-/

namespace OrderedLog

namespace ConflictCache

------------------------------------------------------------
-- Histories
------------------------------------------------------------

/- The version of the last of some writes that has a key. -/
def lastWrite?
    (history : List Write)
    (key : ConflictKey) : Option Address :=
  (history.reverse.find? (fun write => key ∈ write.keys)).map
    Write.version

theorem lastWrite?_append
    (history : List Write)
    (write : Write)
    (key : ConflictKey) :
    lastWrite? (history ++ [write]) key =
      if key ∈ write.keys then some write.version
      else lastWrite? history key := by
  unfold lastWrite?
  rw [List.reverse_append]
  by_cases hKey : key ∈ write.keys
  · simp [hKey]
  · simp [hKey]

------------------------------------------------------------
-- Evicted addresses
------------------------------------------------------------

/-
  A request evicts an address: there was a key whose latest
  write was there, and after the request it is not cached.
-/
def Evicts
    (c : ConflictCache)
    (request : Request)
    (address : Address) : Prop :=
  ∃ key,
    c.pending request key = some address ∧
      (c.serve request).2.get? key = none

/- Some request of a run evicts an address. -/
def EvictsIn
    (c : ConflictCache) : List Request → Address → Prop
  | [], _ => False
  | request :: requests, address =>
    c.Evicts request address ∨
      EvictsIn (c.serve request).2 requests address

theorem evictsIn_concat
    (c : ConflictCache)
    (requests : List Request)
    (request : Request)
    (address : Address) :
    c.EvictsIn (requests ++ [request]) address ↔
      c.EvictsIn requests address ∨
        (c.run requests).2.Evicts request address := by
  induction requests generalizing c with
  | nil => simp [EvictsIn, run]
  | cons first requests ih =>
    rw [List.cons_append, EvictsIn, ih, EvictsIn, run, or_assoc]

variable {c : ConflictCache}

/- A request raises the wildcard to the highest evicted address. -/
theorem Settled.isGreatest_wildcard_serve
    (h : c.Settled)
    (request : Request) :
    IsGreatest {address | address = c.wildcard ∨ c.Evicts request address}
      (c.serve request).2.wildcard := by
  rcases h.leaves_serve request with ⟨floor, hLeaves, _⟩
  constructor
  · apply hLeaves.wildcard_cases.imp_right
    intro hFloor
    rcases hLeaves.reached _ hFloor with ⟨key, hWrite⟩
    exact ⟨key, hWrite, (hLeaves.forgotten_iff hWrite).mpr
      ⟨_, hFloor, Address.le_refl _⟩⟩
  · rintro address (rfl | ⟨key, hWrite, hForgotten⟩)
    · exact hLeaves.wildcard_le
    · rcases (hLeaves.forgotten_iff hWrite).mp hForgotten with
        ⟨other, hOther, hLe⟩
      exact Address.le_trans hLe (hLeaves.floor_le hOther)

theorem isGreatest_wildcard_run
    (h : c.Settled)
    (requests : List Request) :
    IsGreatest {address | address = c.wildcard ∨ c.EvictsIn requests address}
      (c.run requests).2.wildcard := by
  induction requests using List.reverseRecOn with
  | nil =>
    constructor
    · exact Or.inl rfl
    · rintro address (rfl | hNever)
      · exact Address.le_refl _
      · exact hNever.elim
  | append_singleton requests request ih =>
    have hServe :=
      (settled_run h requests).isGreatest_wildcard_serve request
    rw [run_concat]
    simp only [evictsIn_concat]
    constructor
    · rcases hServe.1 with hSame | hEvicted
      · rw [hSame]
        exact ih.1.imp_right Or.inl
      · exact Or.inr (Or.inr hEvicted)
    · rintro address (hBefore | hBefore | hNow)
      · exact Address.le_trans (ih.2 (Or.inl hBefore))
          (hServe.2 (Or.inl rfl))
      · exact Address.le_trans (ih.2 (Or.inr hBefore))
          (hServe.2 (Or.inl rfl))
      · exact hServe.2 (Or.inr hNow)

------------------------------------------------------------
-- Runs at increasing versions
------------------------------------------------------------

variable {capacity : Nat}
variable {capacity_pos : 0 < capacity}
variable {bound : Address}
variable {requests : List Request}
variable {request : Request}

/- The wildcard is the bound or the version of some write. -/
theorem wildcard_run_cases
    (capacity_pos : 0 < capacity)
    (bound : Address)
    (requests : List Request) :
    ((new capacity capacity_pos bound).run requests).2.wildcard = bound ∨
      ∃ write ∈ writes requests,
        write.version =
          ((new capacity capacity_pos bound).run requests).2.wildcard := by
  induction requests using List.reverseRecOn with
  | nil => exact Or.inl rfl
  | append_singleton requests request ih =>
    have hSettled :=
      settled_run (settled_new capacity capacity_pos bound) requests
    rw [run_concat]
    rcases (hSettled.isGreatest_wildcard_serve request).1 with
      hSame | ⟨key, hWrite, _⟩
    · rw [hSame, writes_concat]
      apply ih.imp_right
      rintro ⟨write, hWrite, hVersion⟩
      exact ⟨write, List.mem_append_left _ hWrite, hVersion⟩
    · rcases exists_write_of_pending hWrite with ⟨write, hWrite, _, hVersion⟩
      exact Or.inr ⟨write, hWrite, hVersion⟩

/- The next version is above the wildcard. -/
theorem wildcard_lt_version
    (hAscending : Ascending (requests ++ [request]))
    (hBound : ∀ write ∈ writes (requests ++ [request]),
      bound < write.version)
    {write : Write}
    (hWrite : request.write? = some write) :
    ((new capacity capacity_pos bound).run requests).2.wildcard
      < write.version := by
  rcases wildcard_run_cases capacity_pos bound requests with
    hSame | ⟨earlier, hEarlier, hVersion⟩
  · rw [hSame]
    apply hBound
    rw [writes_concat, hWrite]
    exact List.mem_append_right _ (List.mem_singleton_self write)
  · rw [← hVersion]
    exact hAscending.of_concat.2 write hWrite earlier hEarlier

/-
  What is pending before the evictions of a request is told by
  the history and the wildcard, if this is true of the cache.
-/
theorem pending_eq_some_iff
    {history : List Write}
    (hLatest : ∀ key address,
      c.latest.get? key = some address ↔
        lastWrite? history key = some address ∧ c.wildcard < address)
    (hAccepted : accepted? request (c.serve request).1 = request.write?)
    (hNewer : ∀ write ∈ request.write?, c.wildcard < write.version)
    (key : ConflictKey)
    (address : Address) :
    c.pending request key = some address ↔
      lastWrite? (history ++ request.write?.toList) key = some address ∧
        c.wildcard < address := by
  cases hWrite : request.write? with
  | none =>
    rw [hWrite] at hAccepted
    rw [pending_of_not_accepted hAccepted, Option.toList_none,
      List.append_nil]
    exact hLatest key address
  | some write =>
    rw [hWrite] at hAccepted
    rw [pending_of_accepted hAccepted, Option.toList_some,
      lastWrite?_append, overwritten]
    by_cases hKey : key ∈ write.keys
    · rw [if_pos hKey, if_pos hKey, iff_self_and, Option.some_inj]
      rintro rfl
      exact hNewer write hWrite
    · rw [if_neg hKey, if_neg hKey]
      exact hLatest key address

/- A key is cached at its last write if the wildcard is below. -/
theorem latest_run_iff
    (capacity_pos : 0 < capacity)
    (hAscending : Ascending requests)
    (hBound : ∀ write ∈ writes requests, bound < write.version)
    (key : ConflictKey)
    (address : Address) :
    ((new capacity capacity_pos bound).run requests).2.latest.get? key
        = some address ↔
      lastWrite? (writes requests) key = some address ∧
        ((new capacity capacity_pos bound).run requests).2.wildcard
          < address := by
  induction requests using List.reverseRecOn generalizing key address with
  | nil =>
    constructor
    · nofun
    · rintro ⟨hNothing, _⟩
      cases hNothing
  | append_singleton requests request ih =>
    have hSettled :=
      settled_run (settled_new capacity capacity_pos bound) requests
    rcases hSettled.leaves_serve request with ⟨floor, hLeaves, _⟩
    have hBefore : ∀ write ∈ writes requests, bound < write.version := by
      intro write hWrite
      apply hBound
      rw [writes_concat]
      exact List.mem_append_left _ hWrite
    have hPending := pending_eq_some_iff
      (ih hAscending.of_concat.1 hBefore) hAscending.accepted?_eq
      (fun _ => wildcard_lt_version hAscending hBound) key address
    rw [run_concat, hLeaves.latest, hPending, writes_concat,
      hLeaves.wildcard_lt_iff, and_assoc]

------------------------------------------------------------
-- The window
------------------------------------------------------------

/-
  A window without holes: it has the last writes of a history
  that are above the wildcard. The wildcard is the highest of
  the evicted addresses and the bound.
-/
structure WithoutHoles
    (history : List Write)
    (bound : Address)
    (evicted : Address → Prop)
    (c : ConflictCache) : Prop where
  get_iff :
    ∀ key address,
      c.get? key = some address ↔
        lastWrite? history key = some address ∧ c.wildcard < address
  mem_keysAt_iff :
    ∀ address keys, c.keysAt? address = some keys →
      ∀ key, key ∈ keys ↔ lastWrite? history key = some address
  keysAt_eq_none_iff :
    ∀ address,
      c.keysAt? address = none ↔
        ¬ (c.wildcard < address ∧
          ∃ key, lastWrite? history key = some address)
  wildcard_lt_first :
    ∀ first, c.firstAddress? = some first → c.wildcard < first
  wildcard :
    IsGreatest {address | address = bound ∨ evicted address} c.wildcard

/-
  After any writes at increasing versions above the bound and
  any trims, all of them accepted, the window has no holes.
-/
theorem run_withoutHoles
    (capacity : Nat)
    (capacity_pos : 0 < capacity)
    (bound : Address)
    (requests : List Request)
    (hAscending : Ascending requests)
    (hBound : ∀ write ∈ writes requests, bound < write.version) :
    (∀ refusal,
        .refused refusal ∉
          ((new capacity capacity_pos bound).run requests).1) ∧
      ((new capacity capacity_pos bound).run requests).2.WithoutHoles
        (writes requests) bound
        ((new capacity capacity_pos bound).EvictsIn requests) := by
  refine ⟨hAscending.not_refused, ?_⟩
  have hNew := settled_new capacity capacity_pos bound
  have hTidy := (settled_run hNew requests).tidy
  have hLatest := latest_run_iff capacity_pos hAscending hBound
  constructor
  · exact hLatest
  · intro address keys hKeys key
    rw [← holds_iff_of_window hKeys, hTidy.coherent, hLatest,
      and_iff_left_iff_imp]
    intro _
    rcases hTidy.populated address keys hKeys with ⟨other, hOther⟩
    have hHolds := (holds_iff_of_window hKeys other).mpr hOther
    exact ((hLatest other address).mp
      ((hTidy.coherent address other).mp hHolds)).2
  · intro address
    unfold keysAt?
    rw [SortedMap.get?_eq_none_iff, hTidy.mem_window_iff, not_iff_not]
    simp only [hLatest]
    rw [exists_and_right, and_comm]
  · intro first hFirst
    rcases firstAddress?_eq_some_iff.mp hFirst with ⟨_, hBucket⟩
    rcases hTidy.exists_latest hBucket with ⟨key, hKey⟩
    exact ((hLatest key first).mp hKey).2
  · exact isGreatest_wildcard_run hNew requests

/-
  Room for two keys. The second write takes a key over from the
  first, the third evicts what is left of the first, and the
  trim evicts the second. The fourth has more keys than there is
  room for and evicts all, itself included.
-/
def oversizedWrites : List Request :=
  let keys := keysOf (StreamId.ofNat 7)
  [ .record (keys [1, 2]) (Address.ofNat 5),
    .record (keys [1]) (Address.ofNat 8),
    .record (keys [3]) (Address.ofNat 9),
    .trim (Address.ofNat 9),
    .record (keys [1, 2, 4]) (Address.ofNat 12),
    .record (keys [4]) (Address.ofNat 15) ]

theorem oversizedWrites_withoutHoles :
    let c := (new 2 (by decide) (Address.ofNat 3)).run oversizedWrites
    Ascending oversizedWrites ∧
      (∀ write ∈ writes oversizedWrites,
        Address.ofNat 3 < write.version) ∧
      c.2.wildcard = Address.ofNat 12 ∧
      c.2.firstAddress? = some (Address.ofNat 15) ∧
      (∀ refusal, .refused refusal ∉ c.1) ∧
      c.2.WithoutHoles (writes oversizedWrites) (Address.ofNat 3)
        ((new 2 (by decide) (Address.ofNat 3)).EvictsIn
          oversizedWrites) :=
  have hAscending : Ascending oversizedWrites := by decide
  have hBound : ∀ write ∈ writes oversizedWrites,
      Address.ofNat 3 < write.version := by decide
  ⟨hAscending, hBound, by decide, by decide,
    run_withoutHoles 2 (by decide) (Address.ofNat 3) oversizedWrites
      hAscending hBound⟩

end ConflictCache

end OrderedLog
