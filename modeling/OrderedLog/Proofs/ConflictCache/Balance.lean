import OrderedLog.Proofs.ConflictCache.LastWrites
import OrderedLog.Proofs.ConflictCache.Trims

/-
  This file proves that the statistics of a conflict cache
  balance with what it was asked to do. Keys and buckets come in
  by accepted writes alone. Keys leave by evictions, which are
  made by trims or for want of room. Buckets leave by evictions,
  too, or because a write takes their last key over, which is
  not counted as an eviction.

  A write is booked in two parts. Before any eviction the cache
  has its old keys and the new ones, and one bucket more than
  before, less those that were emptied. From this the evictions
  drop the first buckets with all their keys.

  Key definitions include:
    * `ConflictCache.freshKeys`
    * `ConflictCache.emptiedBuckets`
    * `ConflictCache.crowdedKeys`
    * `ConflictCache.overWrites`
    * `ConflictCache.Books`
    * `ConflictCache.Balanced`

  Key lemmas include:
    * `ConflictCache.size_entered`
    * `ConflictCache.length_overlaid`
    * `ConflictCache.length_crowdedKeys`
    * `ConflictCache.Tidy.books_of_evicts`
    * `ConflictCache.Settled.books_serve`
    * `ConflictCache.Settled.books_run`

  Key theorems include:
    * `ConflictCache.run_balanced`
-/

namespace OrderedLog

namespace ConflictCache

variable {c : ConflictCache}
variable {write : Write}

------------------------------------------------------------
-- What a write brings and takes
------------------------------------------------------------

/- The keys of a write that are not cached. -/
def freshKeys
    (c : ConflictCache)
    (write : Write) : List ConflictKey :=
  write.keys.toList.filter (fun key => key ∉ c.latest)

/- The buckets that have no keys but those of a write. -/
def emptiedBuckets
    (c : ConflictCache)
    (write : Write) : List Bucket :=
  c.window.entries.filter
    (fun bucket => ∀ key ∈ bucket.2.toList, key ∈ write.keys)

/-
  The keys, cached before a write or written by it, that the
  cache which the write leaves has no more.
-/
def crowdedKeys
    (c : ConflictCache)
    (write : Write)
    (next : ConflictCache) : List ConflictKey :=
  (c.latest.keys ++ c.freshKeys write).filter
    (fun key => key ∉ next.latest)

/- Before any eviction there are the old keys and the new ones. -/
theorem mem_latest_entered_iff
    {key : ConflictKey} :
    key ∈ (c.entered write).latest ↔
      key ∈ write.keys ∨ key ∈ c.latest := by
  have hLatest : (c.entered write).latest.get? key =
      if key ∈ write.keys then some write.version
      else c.latest.get? key := by
    simp only [entered, latest_foldl_move, SortedSet.mem_toList_iff]
  have hEntered :
      key ∈ (c.entered write).latest ↔
        ∃ address, (c.entered write).latest.get? key = some address :=
    SortedMap.mem_iff_exists
  rw [hEntered, hLatest]
  by_cases hKey : key ∈ write.keys
  · simp [hKey]
  · rw [if_neg hKey, or_iff_right hKey, SortedMap.mem_iff_exists]

theorem keys_entered_perm
    (c : ConflictCache)
    (write : Write) :
    (c.entered write).latest.keys.Perm
      (c.latest.keys ++ c.freshKeys write) := by
  have hNodup : (c.latest.keys ++ c.freshKeys write).Nodup := by
    rw [List.nodup_append']
    refine ⟨c.latest.keys_nodup, write.keys.keys_nodup.filter _, ?_⟩
    intro key hOld hFresh
    rw [SortedMap.mem_keys_iff] at hOld
    exact of_decide_eq_true (List.mem_filter.mp hFresh).2 hOld
  rw [List.perm_ext_iff_of_nodup (SortedMap.keys_nodup _) hNodup]
  intro key
  rw [SortedMap.mem_keys_iff, mem_latest_entered_iff, List.mem_append,
    SortedMap.mem_keys_iff, freshKeys, List.mem_filter,
    SortedSet.mem_toList_iff, decide_eq_true_eq]
  by_cases hOld : key ∈ c.latest
  · simp [hOld]
  · simp [hOld]

theorem size_entered
    (c : ConflictCache)
    (write : Write) :
    (c.entered write).size = c.size + (c.freshKeys write).length := by
  unfold size
  rw [SortedMap.size_eq_length_keys, SortedMap.size_eq_length_keys,
    (c.keys_entered_perm write).length_eq, List.length_append]

/- An entry of a new key is one entry more. -/
theorem length_insertEntry
    {address : Address}
    {buckets : List Bucket}
    (hNew : ∀ bucket ∈ buckets, bucket.1 ≠ address)
    (keys : SortedSet ConflictKey) :
    (SortedMap.insertEntry address keys buckets).length =
      buckets.length + 1 := by
  induction buckets with
  | nil => rfl
  | cons first buckets ih =>
    rcases first with ⟨other, others⟩
    have hFirst := hNew (other, others) List.mem_cons_self
    rw [SortedMap.insertEntry]
    split
    · rw [List.length_cons, List.length_cons,
        ih (fun bucket hMem => hNew bucket (List.mem_cons_of_mem _ hMem))]
    · split
      · rfl
      · next hNotLt hNotGt =>
        exact absurd (KeyOrder.connected hNotLt hNotGt) hFirst

/- A bucket without a write's keys is none if they are all it has. -/
theorem withoutKeys_eq_none_iff
    {keys : SortedSet ConflictKey}
    {bucket : Bucket} :
    withoutKeys keys bucket = none ↔ ∀ key ∈ bucket.2.toList, key ∈ keys := by
  unfold withoutKeys
  simp only [ite_eq_left_iff, reduceCtorEq, imp_false, not_not,
    SortedMap.isEmpty_iff, SortedSet.mem_toList_iff]
  constructor
  · intro hEmpty key hKey
    by_contra hNot
    have hLeft : key ∈ bucket.2.filterKeys (fun key => key ∉ keys) :=
      SortedMap.mem_filterKeys_iff.mpr ⟨hKey, decide_eq_true hNot⟩
    rw [hEmpty] at hLeft
    exact SortedMap.not_mem_empty key hLeft
  · intro hAll
    apply SortedSet.eq_of_mem_iff
    intro key
    rw [SortedMap.mem_filterKeys_iff, decide_eq_true_eq]
    constructor
    · intro hBoth
      exact absurd (hAll key hBoth.1) hBoth.2
    · intro hNone
      exact absurd hNone (SortedMap.not_mem_empty key)

/- The write adds its bucket, and those that it empties are gone. -/
theorem length_overlaid
    (hVersion : c.window.get? write.version = none) :
    (overlaid write c.window.entries).length +
        (c.emptiedBuckets write).length =
      c.windowSize + 1 := by
  have hNew : ∀ left ∈
      c.window.entries.filterMap (withoutKeys write.keys),
      left.1 ≠ write.version := by
    intro left hMem hSame
    rcases List.mem_filterMap.mp hMem with ⟨bucket, hBucket, hLeft⟩
    have hAddress := (withoutKeys_eq_some_iff.mp hLeft).1
    have hGet := SortedMap.get?_eq_some_iff.mpr hBucket
    rw [hAddress, hSame, hVersion] at hGet
    exact absurd hGet nofun
  have hInserted := length_insertEntry hNew write.keys
  have hEmptied : c.emptiedBuckets write =
      c.window.entries.filter
        (fun bucket => ¬ (withoutKeys write.keys bucket).isSome) := by
    apply List.filter_congr
    intro bucket _
    simp [withoutKeys_eq_none_iff]
  have hSplit := List.length_eq_countP_add_countP
    (fun bucket => (withoutKeys write.keys bucket).isSome)
    (l := c.window.entries)
  unfold overlaid windowSize
  rw [SortedMap.size_eq_length, hEmptied, ← List.countP_eq_length_filter]
  rw [List.length_filterMap_eq_countP] at hInserted
  omega

/-
  A key that is cached or that a write brings is in the cache
  after the write, or it is counted as crowded out.
-/
theorem length_crowdedKeys
    {next : ConflictCache}
    (hKept : ∀ key, key ∈ next.latest → key ∈ (c.entered write).latest) :
    (c.crowdedKeys write next).length + next.size =
      c.size + (c.freshKeys write).length := by
  have hPerm := c.keys_entered_perm write
  have hSize := c.size_entered write
  unfold size at hSize ⊢
  rw [SortedMap.size_eq_length_keys, hPerm.length_eq] at hSize
  have hLeft :
      ((c.latest.keys ++ c.freshKeys write).filter
        (fun key => key ∈ next.latest)).Perm next.latest.keys := by
    have hNodup := hPerm.nodup_iff.mp (SortedMap.keys_nodup _)
    rw [List.perm_ext_iff_of_nodup (hNodup.filter _)
      next.latest.keys_nodup]
    intro key
    rw [List.mem_filter, ← hPerm.mem_iff, SortedMap.mem_keys_iff,
      SortedMap.mem_keys_iff, decide_eq_true_eq]
    exact and_iff_right_of_imp (hKept key)
  have hSplit := List.length_eq_length_filter_add
    (l := c.latest.keys ++ c.freshKeys write)
    (fun key => key ∈ next.latest)
  have hGone :
      (c.latest.keys ++ c.freshKeys write).filter
          (fun key => !decide (key ∈ next.latest)) =
        c.crowdedKeys write next := by
    unfold crowdedKeys
    simp only [decide_not]
  rw [hLeft.length_eq, hGone, hSize,
    ← SortedMap.size_eq_length_keys] at hSplit
  omega

------------------------------------------------------------
-- Sums over a run
------------------------------------------------------------

/-
  A quantity of a write, of the cache that it meets and of the
  one that it leaves, if a request is a write that is accepted.
-/
def ofWrite
    (amount : ConflictCache → Write → ConflictCache → Nat)
    (c : ConflictCache)
    (request : Request) : Nat :=
  match accepted? request (c.serve request).1 with
  | some write => amount c write (c.serve request).2
  | none => 0

/- Its sum over the accepted writes among some requests. -/
def overWrites
    (amount : ConflictCache → Write → ConflictCache → Nat) :
    ConflictCache → List Request → Nat
  | _, [] => 0
  | c, request :: requests =>
    ofWrite amount c request +
      overWrites amount (c.serve request).2 requests

/- How many keys accepted writes brought that were not cached. -/
def broughtKeys : ConflictCache → List Request → Nat :=
  overWrites (fun c write _ => (c.freshKeys write).length)

/- How many buckets accepted writes emptied. -/
def emptiedCount : ConflictCache → List Request → Nat :=
  overWrites (fun c write _ => (c.emptiedBuckets write).length)

/- How many keys were evicted for want of room. -/
def crowdedCount : ConflictCache → List Request → Nat :=
  overWrites (fun c write next => (c.crowdedKeys write next).length)

/- How many accepted writes had keys. -/
def enteredCount
    (requests : List Request)
    (replies : List Reply) : Nat :=
  (acceptedWrites requests replies).countP
    (fun write => !write.keys.isEmpty)

/- What trims said that they have evicted, all together. -/
def trimmedCount (replies : List Reply) : Nat :=
  (replies.map (fun reply =>
    match reply with
    | .evicted keys => keys
    | _ => 0)).sum

/- How many transactions were to be judged. -/
def ruledCount (requests : List Request) : Nat :=
  requests.countP (fun request =>
    match request with
    | .rule _ => true
    | _ => false)

/-
  What some requests make of the sizes and the counters of a
  cache. Nothing comes from nowhere and nothing gets lost.
-/
structure Books
    (c : ConflictCache)
    (requests : List Request) : Prop where
  keys :
    (c.run requests).2.size + (c.run requests).2.stats.evictedKeys =
      c.size + c.stats.evictedKeys + broughtKeys c requests
  buckets :
    (c.run requests).2.windowSize +
        (c.run requests).2.stats.evictedAddresses +
        emptiedCount c requests =
      c.windowSize + c.stats.evictedAddresses +
        enteredCount requests (c.run requests).1
  evictions :
    (c.run requests).2.stats.evictedKeys =
      c.stats.evictedKeys + trimmedCount (c.run requests).1 +
        crowdedCount c requests
  verdicts :
    (c.run requests).2.stats.commits + (c.run requests).2.stats.aborts =
      c.stats.commits + c.stats.aborts + ruledCount requests

theorem books_nil (c : ConflictCache) : Books c [] :=
  ⟨rfl, rfl, rfl, rfl⟩

/- The books of one request and of those after it make up one. -/
theorem Books.cons
    {request : Request}
    {requests : List Request}
    (h : Books c [request])
    (h' : Books (c.run [request]).2 requests) :
    Books c (request :: requests) := by
  -- each sum is that over the first request and that over the others
  have hBrought :
      broughtKeys c (request :: requests) =
        broughtKeys c [request] +
          broughtKeys (c.run [request]).2 requests := rfl
  have hEmptied :
      emptiedCount c (request :: requests) =
        emptiedCount c [request] +
          emptiedCount (c.run [request]).2 requests := rfl
  have hCrowded :
      crowdedCount c (request :: requests) =
        crowdedCount c [request] +
          crowdedCount (c.run [request]).2 requests := rfl
  have hEntered :
      enteredCount (request :: requests) (c.run (request :: requests)).1 =
        enteredCount [request] (c.run [request]).1 +
          enteredCount requests ((c.run [request]).2.run requests).1 := by
    simp only [enteredCount, run, acceptedWrites_cons, List.countP_append]
    rfl
  have hTrimmed :
      trimmedCount (c.run (request :: requests)).1 =
        trimmedCount (c.run [request]).1 +
          trimmedCount ((c.run [request]).2.run requests).1 := rfl
  have hRuled :
      ruledCount (request :: requests) =
        ruledCount [request] + ruledCount requests := by
    unfold ruledCount
    rw [← List.singleton_append, List.countP_append]
  have hLast :
      (c.run (request :: requests)).2 =
        ((c.run [request]).2.run requests).2 := rfl
  constructor
  · rw [hBrought, hLast, h'.keys, h.keys, Nat.add_assoc]
  · have hOne := h.buckets
    have hOthers := h'.buckets
    rw [hEmptied, hEntered, hLast]
    omega
  · have hOne := h.evictions
    have hOthers := h'.evictions
    rw [hTrimmed, hCrowded, hLast]
    omega
  · rw [hRuled, hLast, h'.verdicts, h.verdicts, Nat.add_assoc]

------------------------------------------------------------
-- One request
------------------------------------------------------------

/- A request that is no accepted write has no part in sums over them. -/
theorem ofWrite_of_not_accepted
    (amount : ConflictCache → Write → ConflictCache → Nat)
    {request : Request}
    (h : accepted? request (c.serve request).1 = none) :
    ofWrite amount c request = 0 := by
  unfold ofWrite
  rw [h]

theorem ofWrite_of_accepted
    (amount : ConflictCache → Write → ConflictCache → Nat)
    {request : Request}
    (h : accepted? request (c.serve request).1 = some write) :
    ofWrite amount c request = amount c write (c.serve request).2 := by
  unfold ofWrite
  rw [h]

/- Evictions add no key to those there are before them. -/
theorem EvictsMinimally.kept
    {capacity : Nat}
    {evicted : List Bucket}
    {next : ConflictCache}
    (h : EvictsMinimally capacity write evicted c next)
    (hTidy : (c.entered write).Tidy)
    (hEntries :
      (c.entered write).window.entries = overlaid write c.window.entries)
    {key : ConflictKey}
    (hKey : key ∈ next.latest) : key ∈ (c.entered write).latest := by
  rcases SortedMap.mem_iff_exists.mp hKey with ⟨address, hLatest⟩
  rcases (h.latest key address).mp hLatest with
    ⟨bucket, hBucket, hAddress, hMem⟩
  have hEntered : bucket ∈ (c.entered write).window.entries := by
    rw [hEntries, h.window]
    exact List.mem_append_right _ hBucket
  exact SortedMap.mem_iff_exists.mpr
    ⟨address, (hTidy.latest_iff key address).mpr
      ⟨bucket, hEntered, hAddress, hMem⟩⟩

/- What an accepted write of some keys makes of sizes and counters. -/
theorem Tidy.books_of_evicts
    (h : c.Tidy)
    (hKeys : write.keys ≠ ∅)
    (hVersion : c.window.get? write.version = none)
    {capacity : Nat}
    {evicted : List Bucket}
    {next : ConflictCache}
    (hEvicts : EvictsMinimally capacity write evicted c next) :
    next.size + next.stats.evictedKeys =
        c.size + c.stats.evictedKeys + (c.freshKeys write).length ∧
      next.windowSize + next.stats.evictedAddresses +
          (c.emptiedBuckets write).length =
        c.windowSize + c.stats.evictedAddresses + 1 ∧
      next.stats.evictedKeys =
        c.stats.evictedKeys + (c.crowdedKeys write next).length := by
  have hTidy : (c.entered write).Tidy := tidy_entered h hKeys hVersion
  have hEntries := entries_entered h hVersion
  have hWindow := hEvicts.window
  have hCount : keyCount evicted + next.size =
      c.size + (c.freshKeys write).length := by
    have hEntered := hTidy.keyCount_window
    rw [hEntries, hWindow, size_entered] at hEntered
    rw [← hEntered, hEvicts.conflictKeys.2]
    simp [keyCount]
  have hLength : evicted.length + next.windowSize +
      (c.emptiedBuckets write).length = c.windowSize + 1 := by
    have hOverlaid := length_overlaid hVersion
    rw [hWindow, List.length_append] at hOverlaid
    rw [hEvicts.windowSize.2]
    exact hOverlaid
  have hCrowded := length_crowdedKeys
    (fun key hKey => hEvicts.kept hTidy hEntries hKey)
  rw [hEvicts.evictedKeys, hEvicts.evictedAddresses]
  refine ⟨by omega, by omega, by omega⟩

/- A write of no keys neither brings nor takes anything. -/
theorem Tidy.books_of_empty
    (h : c.Tidy)
    (hKeys : write.keys = ∅) :
    c.freshKeys write = [] ∧ c.emptiedBuckets write = [] ∧
      c.crowdedKeys write c = [] := by
  have hFresh : c.freshKeys write = [] := by
    unfold freshKeys
    rw [hKeys]
    rfl
  refine ⟨hFresh, ?_, ?_⟩
  · unfold emptiedBuckets
    rw [List.filter_eq_nil_iff]
    intro bucket hBucket
    rcases h.populated bucket.1 bucket.2
        (SortedMap.get?_eq_some_iff.mpr hBucket) with ⟨key, hKey⟩
    rw [decide_eq_true_eq]
    intro hAll
    have hMem := hAll key (SortedSet.mem_toList_iff.mpr hKey)
    rw [hKeys] at hMem
    exact SortedMap.not_mem_empty key hMem
  · unfold crowdedKeys
    rw [hFresh, List.append_nil, List.filter_eq_nil_iff]
    intro key hKey
    rw [decide_eq_true_eq, not_not]
    exact SortedMap.mem_keys_iff.mp hKey

/- The books of a write that is accepted. -/
theorem Tidy.books_accepted
    (h : c.Tidy)
    (write : Write)
    {next : ConflictCache}
    (hRecord : c.record write.keys write.version = .ok next) :
    Books c [.record write.keys write.version] := by
  have hServe := serve_record_of_ok hRecord
  have hAccepted :
      accepted? (.record write.keys write.version)
          (c.serve (.record write.keys write.version)).1 =
        some write := by
    rw [hServe]
    rfl
  have hRun : c.run [.record write.keys write.version] =
      ([.accepted], next) := by
    rw [run, run, hServe]
  have hAmount : ∀ amount,
      overWrites amount c [.record write.keys write.version] =
        amount c write next := by
    intro amount
    rw [overWrites, overWrites, ofWrite_of_accepted amount hAccepted,
      hServe, Nat.add_zero]
  have hEntered :
      enteredCount [.record write.keys write.version] [.accepted] =
        if write.keys.isEmpty then 0 else 1 := by
    have hWrites : acceptedWrites [.record write.keys write.version]
        [.accepted] = [write] := rfl
    unfold enteredCount
    rw [hWrites, List.countP_singleton]
    cases write.keys.isEmpty with
    | true => rfl
    | false => rfl
  rcases record_cases_of_keys hRecord with
    ⟨hEmpty, hNext⟩ | ⟨hKeys, hVersion, hNext⟩
  · rcases h.books_of_empty hEmpty with ⟨hFresh, hEmptied, hCrowded⟩
    rw [if_pos (SortedMap.isEmpty_iff.mpr hEmpty)] at hEntered
    subst hNext
    constructor
    · rw [hRun, broughtKeys, hAmount, hFresh]
      rfl
    · rw [hRun, emptiedCount, hAmount, hEmptied, hEntered]
      rfl
    · rw [hRun, crowdedCount, hAmount, hCrowded]
      rfl
    · rw [hRun]
      rfl
  · rw [if_neg (fun hNone => hKeys (SortedMap.isEmpty_iff.mp hNone))]
      at hEntered
    rcases h.enter_evicts_minimally hKeys hVersion with
      ⟨evicted, hEvicts⟩
    rw [← hNext] at hEvicts
    rcases h.books_of_evicts hKeys hVersion hEvicts with
      ⟨hBrought, hBuckets, hEvictions⟩
    constructor
    · rw [hRun, broughtKeys, hAmount]
      exact hBrought
    · rw [hRun, emptiedCount, hAmount, hEntered]
      exact hBuckets
    · rw [hRun, crowdedCount, hAmount]
      exact hEvictions
    · rw [hRun]
      change next.stats.commits + next.stats.aborts = _
      rw [hEvicts.commits, hEvicts.aborts]
      rfl

/-
  The books of a request that is no accepted write. It brings
  nothing in, and what it takes out is in its reply.
-/
theorem books_of_not_accepted
    {request : Request}
    {reply : Reply}
    {next : ConflictCache}
    (hServe : c.serve request = (reply, next))
    (hAccepted : accepted? request reply = none)
    (hKeys :
      next.size + next.stats.evictedKeys =
        c.size + c.stats.evictedKeys)
    (hBuckets :
      next.windowSize + next.stats.evictedAddresses =
        c.windowSize + c.stats.evictedAddresses)
    (hEvictions :
      next.stats.evictedKeys =
        c.stats.evictedKeys + trimmedCount [reply])
    (hVerdicts :
      next.stats.commits + next.stats.aborts =
        c.stats.commits + c.stats.aborts + ruledCount [request]) :
    Books c [request] := by
  have hRun : c.run [request] = ([reply], next) := by
    rw [run, run, hServe]
  have hAmount : ∀ amount, overWrites amount c [request] = 0 := by
    intro amount
    rw [overWrites, overWrites, ofWrite_of_not_accepted amount]
    rw [hServe]
    exact hAccepted
  have hEntered : enteredCount [request] [reply] = 0 := by
    unfold enteredCount
    rw [acceptedWrites_cons, hAccepted]
    rfl
  constructor
  · rw [hRun, broughtKeys, hAmount]
    exact hKeys
  · rw [hRun, emptiedCount, hAmount, hEntered]
    exact hBuckets
  · rw [hRun, crowdedCount, hAmount]
    exact hEvictions
  · rw [hRun]
    exact hVerdicts

theorem Settled.books_serve
    (h : c.Settled)
    (request : Request) : Books c [request] := by
  cases request with
  | record keys version =>
    cases hRecord : c.record keys version with
    | ok next => exact h.tidy.books_accepted ⟨keys, version⟩ hRecord
    | error refusal =>
      exact books_of_not_accepted (serve_record_of_error hRecord) rfl
        rfl rfl rfl rfl
  | trim mark =>
    have hServe : c.serve (.trim mark) =
        (.evicted (c.trimBelow mark).2, (c.trimBelow mark).1) := rfl
    have hTrimmed := h.tidy.trimmedTo mark
    have hKeys := hTrimmed.keys
    have hEvicted := hTrimmed.evictedKeys
    apply books_of_not_accepted hServe rfl
    · omega
    · rw [Nat.add_comm, hTrimmed.evictedAddresses, Nat.add_comm]
    · exact hEvicted
    · rw [hTrimmed.commits, hTrimmed.aborts]
      rfl
  | rule transaction =>
    cases hVerdict : c.verdict transaction with
    | commit =>
      have hServe : c.serve (.rule transaction) =
          (.ruled .commit,
            { c with stats := c.stats.recordVerdict .commit }) := by
        rw [← hVerdict]
        rfl
      exact books_of_not_accepted hServe rfl rfl rfl rfl
        (Nat.add_right_comm _ _ _)
    | abort reason =>
      have hServe : c.serve (.rule transaction) =
          (.ruled (.abort reason),
            { c with stats := c.stats.recordVerdict (.abort reason) }) := by
        rw [← hVerdict]
        rfl
      exact books_of_not_accepted hServe rfl rfl rfl rfl rfl

------------------------------------------------------------
-- Runs
------------------------------------------------------------

theorem Settled.books_run
    (h : c.Settled)
    (requests : List Request) : Books c requests := by
  induction requests generalizing c with
  | nil => exact books_nil c
  | cons request requests ih =>
    exact (h.books_serve request).cons (ih (h.serve request))

/-
  The statistics of a cache that was new before some requests
  agree with these requests and their replies.
-/
structure Balanced
    (start : ConflictCache)
    (requests : List Request) : Prop where
  /- The gauges show the sizes. -/
  conflictKeys :
    (start.run requests).2.stats.conflictKeys =
      (start.run requests).2.size
  windowSize :
    (start.run requests).2.stats.windowSize =
      (start.run requests).2.windowSize
  /- A key that was brought is cached or was evicted. -/
  keys :
    (start.run requests).2.size +
        (start.run requests).2.stats.evictedKeys =
      broughtKeys start requests
  /- A bucket is there, was evicted, or was emptied by writes. -/
  buckets :
    (start.run requests).2.windowSize +
        (start.run requests).2.stats.evictedAddresses +
        emptiedCount start requests =
      enteredCount requests (start.run requests).1
  /- What trims did not evict was evicted for want of room. -/
  trims :
    trimmedCount (start.run requests).1 ≤
        (start.run requests).2.stats.evictedKeys ∧
      (start.run requests).2.stats.evictedKeys -
          trimmedCount (start.run requests).1 =
        crowdedCount start requests
  verdicts :
    (start.run requests).2.stats.commits +
        (start.run requests).2.stats.aborts =
      ruledCount requests

/-
  Whatever a cache is asked for, in whatever order, and whether
  it is granted or refused, the statistics balance after it.
-/
theorem run_balanced
    (capacity : Nat)
    (capacity_pos : 0 < capacity)
    (bound : Address)
    (requests : List Request) :
    Balanced (new capacity capacity_pos bound) requests := by
  have hBooks :=
    (settled_new capacity capacity_pos bound).books_run requests
  have hGauged := gauged_run capacity capacity_pos bound requests
  -- the sizes and the counters of a new cache are zero
  have hNoKeys : (new capacity capacity_pos bound).size = 0 := rfl
  have hNoBuckets : (new capacity capacity_pos bound).windowSize = 0 := rfl
  have hNoCounts :
      (new capacity capacity_pos bound).stats = ConflictStats.zero := rfl
  have hKeys := hBooks.keys
  have hBuckets := hBooks.buckets
  have hEvictions := hBooks.evictions
  have hVerdicts := hBooks.verdicts
  simp only [hNoKeys, hNoBuckets, hNoCounts, ConflictStats.zero,
    Nat.zero_add] at hKeys hBuckets hEvictions hVerdicts
  constructor
  · exact hGauged.conflictKeys
  · exact hGauged.windowSize
  · exact hKeys
  · exact hBuckets
  · constructor
    · omega
    · omega
  · exact hVerdicts

/-
  Room for three keys. The second write is refused, the third
  takes both keys of the first over, and the fourth has none. The
  sixth takes the key of the fifth over, and evicts the two keys
  of the third to make room.
-/
def variedRequests : List Request :=
  let keys := keysOf (StreamId.ofNat 7)
  [ .record (keys [1, 2]) (Address.ofNat 5),
    .record (keys [1]) (Address.ofNat 5),
    .record (keys [1, 2]) (Address.ofNat 9),
    .record (keys []) (Address.ofNat 12),
    .record (keys [3]) (Address.ofNat 10),
    .record (keys [3, 4]) (Address.ofNat 20),
    .rule ⟨Address.zero, keys [1], keys [2]⟩,
    .rule ⟨Address.ofNat 20, keys [3], keys [1]⟩,
    .trim (Address.ofNat 21),
    .record (keys [5]) (Address.ofNat 30) ]

theorem variedRequests_balanced :
    let start := new 3 (by decide) Address.zero
    (start.run variedRequests).2.stats = ⟨1, 1, 4, 2, 1, 1⟩ ∧
      broughtKeys start variedRequests = 5 ∧
      emptiedCount start variedRequests = 2 ∧
      enteredCount variedRequests (start.run variedRequests).1 = 5 ∧
      trimmedCount (start.run variedRequests).1 = 2 ∧
      crowdedCount start variedRequests = 2 ∧
      Balanced start variedRequests :=
  ⟨by decide, by decide, by decide, by decide, by decide, by decide,
    run_balanced 3 (by decide) Address.zero variedRequests⟩

end ConflictCache

end OrderedLog
