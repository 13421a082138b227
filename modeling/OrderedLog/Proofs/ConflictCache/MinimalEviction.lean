import OrderedLog.Proofs.ConflictCache.Representation

/-
  This file proves what an accepted write does to the window of
  a conflict cache, bucket by bucket. Its keys leave the buckets
  they were in, and a bucket goes with the last of its keys.
  The keys then make up the bucket of the version. Only after
  that are buckets evicted, from the first one on and no more
  of them than the room for keys calls for.

  An eviction is asked for as long as the buckets that are left
  have too many keys. So whoever drops fewer of the first ones
  is left with one of the caches that asked for an eviction.

  Key definitions include:
    * `ConflictCache.Bucket`
    * `ConflictCache.keyCount`
    * `ConflictCache.withoutKeys`
    * `ConflictCache.overlaid`
    * `ConflictCache.Drops`
    * `ConflictCache.EvictsMinimally`

  Key lemmas include:
    * `ConflictCache.Tidy.keyCount_window`
    * `ConflictCache.entries_moved`
    * `ConflictCache.entries_entered`
    * `ConflictCache.Drops.evictFirst`
    * `ConflictCache.Tidy.drops_evictWhile`

  Key theorems include:
    * `ConflictCache.run_evicts_minimally`
-/

namespace OrderedLog

namespace ConflictCache

variable {c d : ConflictCache}
variable {write : Write}

------------------------------------------------------------
-- Buckets
------------------------------------------------------------

/- An address and the keys that were last written there. -/
abbrev Bucket : Type :=
  Address × SortedSet ConflictKey

/- The number of keys in some buckets. -/
def keyCount (buckets : List Bucket) : Nat :=
  (buckets.map (fun bucket => bucket.2.size)).sum

/- The cached keys are those in the buckets of the window. -/
theorem Tidy.keyCount_window
    (h : c.Tidy) : keyCount c.window.entries = c.size := by
  have hSizes := h.sum_sizes
  unfold SortedMap.values at hSizes
  simpa [keyCount, Function.comp_def] using hSizes

/- What is left of a bucket, if it is not empty, without some keys. -/
def withoutKeys
    (keys : SortedSet ConflictKey)
    (bucket : Bucket) : Option Bucket :=
  let left := bucket.2.filterKeys (fun key => key ∉ keys)
  if left.isEmpty then none else some (bucket.1, left)

/-
  The buckets of a window once a write is among them, and its
  keys in no other one.
-/
def overlaid
    (write : Write)
    (buckets : List Bucket) : List Bucket :=
  SortedMap.insertEntry write.version write.keys
    (buckets.filterMap (withoutKeys write.keys))

theorem withoutKeys_eq_some_iff
    {keys : SortedSet ConflictKey}
    {bucket left : Bucket} :
    withoutKeys keys bucket = some left ↔
      bucket.1 = left.1 ∧ (∃ key, key ∈ left.2) ∧
        ∀ key, key ∈ left.2 ↔ key ∈ bucket.2 ∧ key ∉ keys := by
  have hMem : ∀ key,
      key ∈ bucket.2.filterKeys (fun key => key ∉ keys) ↔
        key ∈ bucket.2 ∧ key ∉ keys := by
    intro key
    simp [SortedMap.mem_filterKeys_iff]
  unfold withoutKeys
  simp only [Option.ite_none_left_eq_some, SortedMap.isEmpty_iff]
  constructor
  · intro h
    rcases h with ⟨hSome, hLeft⟩
    obtain rfl := Option.some_inj.mp hLeft
    exact ⟨rfl, SortedMap.exists_mem_of_ne_empty hSome, hMem⟩
  · intro h
    rcases h with ⟨hAddress, ⟨key, hKey⟩, hKeys⟩
    have hSame : bucket.2.filterKeys (fun key => key ∉ keys) = left.2 := by
      apply SortedSet.eq_of_mem_iff
      intro other
      exact (hMem other).trans (hKeys other).symm
    constructor
    · rw [hSame]
      exact SortedMap.ne_empty_of_mem hKey
    · rw [hSame, hAddress]

theorem withoutKeys_sorted
    (keys : SortedSet ConflictKey)
    (window : SortedMap Address (SortedSet ConflictKey)) :
    (window.entries.filterMap (withoutKeys keys)).Pairwise
      (fun lower higher => lower.1 < higher.1) := by
  apply List.Pairwise.filterMap _ _ window.entries_sorted
  intro lower higher hLt left hLeft right hRight
  rw [← (withoutKeys_eq_some_iff.mp hLeft).1,
    ← (withoutKeys_eq_some_iff.mp hRight).1]
  exact hLt

------------------------------------------------------------
-- Entering a write
------------------------------------------------------------

/- The buckets of a window are the keys held at its addresses. -/
theorem Populated.mem_entries_iff
    (h : c.Populated)
    {bucket : Bucket} :
    bucket ∈ c.window.entries ↔
      (∃ key, key ∈ bucket.2) ∧
        ∀ key, key ∈ bucket.2 ↔ c.Holds bucket.1 key := by
  constructor
  · intro hBucket
    exact ⟨h _ _ (SortedMap.get?_eq_some_iff.mpr hBucket),
      fun key => (holds_of_mem_entries hBucket key).symm⟩
  · intro hHeld
    rcases hHeld with ⟨⟨key, hKey⟩, hKeys⟩
    rcases (hKeys key).mp hKey with ⟨others, hOthers, _⟩
    have hSame : bucket.2 = others := by
      apply SortedSet.eq_of_mem_iff
      intro other
      rw [hKeys, holds_iff_of_window hOthers]
    rw [← hSame] at hOthers
    exact SortedMap.get?_eq_some_iff.mp hOthers

/- Keys that move leave their buckets, and no others do. -/
theorem holds_moved_iff
    (h : c.Tidy)
    (hVersion : c.window.get? write.version = none)
    (address : Address)
    (key : ConflictKey) :
    (write.keys.toList.foldl (move write.version) c).Holds address key ↔
      c.Holds address key ∧ key ∉ write.keys := by
  have hApart := (h.coherent.apart hVersion).foldl_move write.keys.toList
  have hOld := h.coherent.apart hVersion address key
  simp only [hApart address key, latest_foldl_move,
    SortedSet.mem_toList_iff, hOld]
  by_cases hKey : key ∈ write.keys
  · simp [hKey, eq_comm]
  · simp [hKey]

theorem entries_moved
    (h : c.Tidy)
    (hVersion : c.window.get? write.version = none) :
    (write.keys.toList.foldl (move write.version) c).window.entries =
      c.window.entries.filterMap (withoutKeys write.keys) := by
  have hPopulated :=
    h.populated.foldl_move write.version write.keys.toList
  apply SortedMap.eq_of_sorted (SortedMap.entries_sorted _)
    (withoutKeys_sorted write.keys c.window)
  intro left
  simp only [hPopulated.mem_entries_iff, holds_moved_iff h hVersion,
    List.mem_filterMap, withoutKeys_eq_some_iff]
  constructor
  · intro hLeft
    rcases hLeft with ⟨⟨key, hKey⟩, hKeys⟩
    rcases ((hKeys key).mp hKey).1 with ⟨others, hOthers, _⟩
    refine ⟨(left.1, others), SortedMap.get?_eq_some_iff.mp hOthers, rfl,
      ⟨key, hKey⟩, ?_⟩
    intro other
    rw [hKeys, holds_iff_of_window hOthers]
  · intro hBucket
    rcases hBucket with ⟨bucket, hBucket, hAddress, hSome, hKeys⟩
    refine ⟨hSome, ?_⟩
    intro key
    rw [hKeys, ← holds_of_mem_entries hBucket, hAddress]

/- Before any eviction the window is that with the write in it. -/
theorem entries_entered
    (h : c.Tidy)
    (hVersion : c.window.get? write.version = none) :
    (c.entered write).window.entries =
      overlaid write c.window.entries := by
  unfold entered overlaid
  simp only [SortedMap.entries_insert, entries_moved h hVersion]

------------------------------------------------------------
-- Dropping buckets
------------------------------------------------------------

/-
  The second cache is what is left of the first one after it
  has dropped some buckets, which were the first of its window.
-/
structure Drops
    (dropped : List Bucket)
    (c d : ConflictCache) : Prop where
  tidy : d.Tidy
  window : c.window.entries = dropped ++ d.window.entries
  wildcard :
    IsGreatest
      {address |
        address = c.wildcard ∨ ∃ bucket ∈ dropped, bucket.1 = address}
      d.wildcard
  evictedKeys :
    d.stats.evictedKeys = c.stats.evictedKeys + keyCount dropped
  evictedAddresses :
    d.stats.evictedAddresses = c.stats.evictedAddresses + dropped.length
  commits : d.stats.commits = c.stats.commits
  aborts : d.stats.aborts = c.stats.aborts
  capacity : d.capacity = c.capacity
  bound : d.bound = c.bound

theorem drops_refl (h : c.Tidy) : Drops [] c c where
  tidy := h
  window := rfl
  wildcard := by
    constructor
    · exact Or.inl rfl
    · intro address hAddress
      rcases hAddress with hSame | ⟨bucket, hBucket, _⟩
      · rw [hSame]
        exact Address.le_refl _
      · exact absurd hBucket List.not_mem_nil
  evictedKeys := rfl
  evictedAddresses := rfl
  commits := rfl
  aborts := rfl
  capacity := rfl
  bound := rfl

/- One more eviction drops the first bucket that is left. -/
theorem Drops.evictFirst
    {dropped : List Bucket}
    (h : Drops dropped c d)
    {first : Bucket}
    (hFirst : d.window.first? = some first) :
    Drops (dropped ++ [first]) c d.evictFirst.1 := by
  have hTidy := h.tidy.evictFirst
  rw [evictFirst_of_first? hFirst] at hTidy ⊢
  constructor
  · exact hTidy
  · rw [h.window, SortedMap.entries_of_first? hFirst]
    simp
  · have hMax := Address.isGreatest_max h.wildcard first.1
    simpa [or_assoc, or_and_right, exists_or, eq_comm] using hMax
  · simp [ConflictStats.recordEviction, h.evictedKeys, keyCount,
      Nat.add_assoc]
  · simp [ConflictStats.recordEviction, h.evictedAddresses,
      Nat.add_assoc]
  · exact h.commits
  · exact h.aborts
  · exact h.capacity
  · exact h.bound

/- What is not overfull has no more keys than there is room for. -/
theorem Drops.keyCount_le
    {dropped : List Bucket}
    (h : Drops dropped c d)
    (hFits : d.overfull = false) :
    keyCount d.window.entries ≤ c.capacity := by
  unfold overfull at hFits
  rw [h.tidy.keyCount_window, ← h.capacity]
  exact Nat.not_lt.mp (of_decide_eq_false hFits)

/-
  Evictions for want of room drop as few buckets as possible.
  Whatever first ones are dropped, if the keys of the rest fit,
  then these are no fewer.
-/
theorem Tidy.drops_evictWhile
    (h : c.Tidy)
    (rounds : Nat) :
    ∃ dropped,
      Drops dropped c (ConflictCache.evictWhile overfull rounds c).1 ∧
        ∀ front back,
          c.window.entries = front ++ back →
            keyCount back ≤ c.capacity →
              dropped.length ≤ front.length := by
  apply evictWhile_induction_of_more
    (P := fun d =>
      ∃ dropped, Drops dropped c d ∧
        ∀ front back,
          c.window.entries = front ++ back →
            keyCount back ≤ c.capacity →
              dropped.length ≤ front.length)
  · intro d hDrops hMore
    rcases hDrops with ⟨dropped, hDrops, hShortest⟩
    rcases pressing_overfull.first d hDrops.tidy hMore with
      ⟨first, hFirst⟩
    refine ⟨dropped ++ [first], hDrops.evictFirst hFirst, ?_⟩
    intro front back hSplit hFits
    have hLe := hShortest front back hSplit hFits
    -- dropping as many as before leaves a cache that is overfull
    have hNe : dropped.length ≠ front.length := by
      intro hLength
      rw [hDrops.window] at hSplit
      have hBack := (List.append_inj hSplit hLength).2
      rw [← hBack, hDrops.tidy.keyCount_window, ← hDrops.capacity] at hFits
      unfold overfull at hMore
      exact absurd (of_decide_eq_true hMore) (Nat.not_lt.mpr hFits)
    rw [List.length_append, List.length_singleton]
    omega
  · exact ⟨[], drops_refl h, fun _ _ _ _ => Nat.zero_le _⟩

------------------------------------------------------------
-- Accepted writes
------------------------------------------------------------

/-
  A write turns a cache with room for some keys into another
  one, and some buckets are evicted by that.
-/
structure EvictsMinimally
    (capacity : Nat)
    (write : Write)
    (evicted : List Bucket)
    (c next : ConflictCache) : Prop where
  /- The first buckets of the window with the write are evicted. -/
  window :
    overlaid write c.window.entries = evicted ++ next.window.entries
  fits : keyCount next.window.entries ≤ capacity
  /- No fewer of the first buckets leave a rest that fits. -/
  shortest :
    ∀ front back,
      overlaid write c.window.entries = front ++ back →
        keyCount back ≤ capacity →
          evicted.length ≤ front.length
  /- The other view has just the keys of these buckets. -/
  latest :
    ∀ key address,
      next.get? key = some address ↔
        ∃ bucket ∈ next.window.entries,
          bucket.1 = address ∧ key ∈ bucket.2
  wildcard :
    IsGreatest
      {address |
        address = c.wildcard ∨ ∃ bucket ∈ evicted, bucket.1 = address}
      next.wildcard
  evictedKeys :
    next.stats.evictedKeys = c.stats.evictedKeys + keyCount evicted
  evictedAddresses :
    next.stats.evictedAddresses =
      c.stats.evictedAddresses + evicted.length
  /- The gauges show the sizes of both views. -/
  conflictKeys :
    next.stats.conflictKeys = next.size ∧
      next.size = keyCount next.window.entries
  windowSize :
    next.stats.windowSize = next.windowSize ∧
      next.windowSize = next.window.entries.length
  commits : next.stats.commits = c.stats.commits
  aborts : next.stats.aborts = c.stats.aborts
  same_capacity : c.capacity = capacity ∧ next.capacity = capacity
  same_bound : next.bound = c.bound

/- In a tidy cache a latest write is a key of some bucket. -/
theorem Tidy.latest_iff
    (h : c.Tidy)
    (key : ConflictKey)
    (address : Address) :
    c.get? key = some address ↔
      ∃ bucket ∈ c.window.entries,
        bucket.1 = address ∧ key ∈ bucket.2 := by
  unfold get?
  rw [← h.coherent address key]
  constructor
  · intro hHolds
    rcases hHolds with ⟨keys, hKeys, hKey⟩
    exact ⟨(address, keys), SortedMap.get?_eq_some_iff.mp hKeys, rfl, hKey⟩
  · intro hBucket
    rcases hBucket with ⟨bucket, hBucket, rfl, hKey⟩
    exact (holds_of_mem_entries hBucket key).mpr hKey

/- Before any eviction nothing has changed but the two views. -/
theorem entered_eq
    (c : ConflictCache)
    (write : Write) :
    ∃ latest window, c.entered write = { c with latest, window } := by
  rcases foldl_move_eq write.version write.keys.toList c with
    ⟨latest, window, hMoved⟩
  unfold entered
  exact ⟨latest, window.insert write.version write.keys, by rw [hMoved]⟩

theorem Tidy.enter_evicts_minimally
    (h : c.Tidy)
    (hKeys : write.keys ≠ ∅)
    (hVersion : c.window.get? write.version = none) :
    ∃ evicted,
      EvictsMinimally c.capacity write evicted c
        (c.enter write.keys write.version) := by
  have hTidy : (c.entered write).Tidy := tidy_entered h hKeys hVersion
  have hEntries := entries_entered h hVersion
  have hFits := pressing_overfull.satisfied hTidy (Nat.le_refl _)
  rcases hTidy.drops_evictWhile (c.entered write).windowSize with
    ⟨evicted, hDrops, hShortest⟩
  rcases c.entered_eq write with ⟨latest, window, hEntered⟩
  rw [enter_eq]
  rw [hEntered] at hEntries hFits hDrops hShortest ⊢
  refine ⟨evicted, ?_⟩
  constructor
  · exact hEntries.symm.trans hDrops.window
  · exact hDrops.keyCount_le hFits
  · intro front back hSplit
    exact hShortest front back (hEntries.trans hSplit)
  · exact hDrops.tidy.latest_iff
  · exact hDrops.wildcard
  · exact hDrops.evictedKeys
  · exact hDrops.evictedAddresses
  · exact ⟨rfl, hDrops.tidy.keyCount_window.symm⟩
  · exact ⟨rfl, SortedMap.size_eq_length _⟩
  · exact hDrops.commits
  · exact hDrops.aborts
  · exact ⟨rfl, hDrops.capacity⟩
  · exact hDrops.bound

/-
  An accepted write of at least one key evicts as few buckets as
  possible, whatever requests came before, at whatever version
  it is, and even if its keys alone are too many.
-/
theorem run_evicts_minimally
    (capacity : Nat)
    (capacity_pos : 0 < capacity)
    (bound : Address)
    (requests : List Request)
    (write : Write)
    (hKeys : write.keys ≠ ∅)
    (next : ConflictCache)
    (hAccepted :
      ((new capacity capacity_pos bound).run requests).2.record
        write.keys write.version = .ok next) :
    ∃ evicted,
      EvictsMinimally capacity write evicted
        ((new capacity capacity_pos bound).run requests).2 next := by
  have hNew := settled_new capacity capacity_pos bound
  have hTidy := (settled_run hNew requests).tidy
  have hCapacity := capacity_run hNew requests
  rcases record_cases_of_keys hAccepted with
    ⟨hNone, _⟩ | ⟨_, hVersion, hNext⟩
  · exact absurd hNone hKeys
  · have hEnter := hTidy.enter_evicts_minimally hKeys hVersion
    rw [hCapacity, ← hNext] at hEnter
    exact hEnter

/-
  Room for five keys. The write comes between the last two
  versions and empties the bucket before it, which is not an
  eviction. The two keys of the first bucket are evicted, though
  one would do.
-/
def crowdedRequests : List Request :=
  let keys := keysOf (StreamId.ofNat 7)
  [ .record (keys [1, 2]) (Address.ofNat 5),
    .record (keys [3]) (Address.ofNat 9),
    .record (keys [4]) (Address.ofNat 12) ]

def crowdedCache : ConflictCache :=
  ((new 5 (by decide) Address.zero).run crowdedRequests).2

def crowdingWrite : Write :=
  ⟨keysOf (StreamId.ofNat 7) [3, 5, 6], Address.ofNat 10⟩

theorem crowdedRequests_evict_minimally :
    ∃ next evicted,
      crowdedCache.record crowdingWrite.keys crowdingWrite.version =
        .ok next ∧
      next.window.entries =
        [ (Address.ofNat 10, keysOf (StreamId.ofNat 7) [3, 5, 6]),
          (Address.ofNat 12, keysOf (StreamId.ofNat 7) [4]) ] ∧
      next.stats.evictedKeys = 2 ∧
      next.stats.evictedAddresses = 1 ∧
      EvictsMinimally 5 crowdingWrite evicted crowdedCache next := by
  have hAccepted :
      crowdedCache.record crowdingWrite.keys crowdingWrite.version =
        .ok (crowdedCache.enter crowdingWrite.keys
          crowdingWrite.version) := by
    decide
  rcases run_evicts_minimally 5 (by decide) Address.zero crowdedRequests
      crowdingWrite (by decide) _ hAccepted with
    ⟨evicted, hEvicts⟩
  exact ⟨_, evicted, hAccepted, by decide, by decide, by decide, hEvicts⟩

end ConflictCache

end OrderedLog
