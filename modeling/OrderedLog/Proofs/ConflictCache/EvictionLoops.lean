import OrderedLog.Proofs.ConflictCache.MinimalEviction

/-
  This file proves that the loops that evict buckets come to an
  end. A loop is taken here without a bound on its iterations,
  as it may go on for as long as its test asks for it.

  One test counts keys, while an eviction looks for a bucket. So
  a loop would go round without end if there were keys but no
  bucket, or buckets without keys. Tidy caches have neither, and
  they stay tidy from one iteration to the next. The cache is
  tidy already when the keys of a write are entered and nothing
  was evicted yet.

  Key definitions include:
    * `ConflictCache.Iterates`
    * `ConflictCache.EvictsBucket`
    * `ConflictCache.LoopEnds`
    * `ConflictCache.NeverHangs`

  Key lemmas include:
    * `ConflictCache.Tidy.evictsBucket`
    * `ConflictCache.Iterates.tidy`
    * `ConflictCache.Iterates.add_windowSize`
    * `ConflictCache.exists_iterates`
    * `ConflictCache.Pressing.loopEnds`
    * `ConflictCache.Tidy.neverHangs`

  Key theorems include:
    * `ConflictCache.run_never_hangs`
-/

namespace OrderedLog

namespace ConflictCache

variable {more : ConflictCache → Bool}
variable {c d : ConflictCache}
variable {n : Nat}

------------------------------------------------------------
-- Loops
------------------------------------------------------------

/-
  What is left of a cache when a loop starts its next iteration,
  or ends, after it has evicted the first bucket some number of
  times. Each time its test asked for it.
-/
inductive Iterates
    (more : ConflictCache → Bool)
    (c : ConflictCache) : Nat → ConflictCache → Prop where
  | start : Iterates more c 0 c
  | again
      {n : Nat}
      {d : ConflictCache}
      (before : Iterates more c n d)
      (asked : more d = true) : Iterates more c (n + 1) d.evictFirst.1

/- An eviction finds a bucket and takes it out with all its keys. -/
structure EvictsBucket (c : ConflictCache) : Prop where
  /- The first bucket goes, and no other. -/
  bucket :
    ∃ first,
      c.window.first? = some first ∧
        c.window.entries = first :: c.evictFirst.1.window.entries
  /- There are as many keys less as the eviction says. -/
  keys : c.evictFirst.1.size + c.evictFirst.2 = c.size
  someKey : 0 < c.evictFirst.2

/- A loop ends with some cache, and no later than it runs out of buckets. -/
structure LoopEnds
    (more : ConflictCache → Bool)
    (c left : ConflictCache) : Prop where
  /- No iteration is without a bucket to evict. -/
  progress :
    ∀ n d, Iterates more c n d → more d = true → d.EvictsBucket
  bounded : ∀ n d, Iterates more c n d → n ≤ c.windowSize
  ends : ∃ n, Iterates more c n left ∧ more left = false

------------------------------------------------------------
-- Iterations
------------------------------------------------------------

/- A tidy cache that has a bucket loses keys with it. -/
theorem Tidy.evictsBucket
    (h : c.Tidy)
    {first : Bucket}
    (hFirst : c.window.first? = some first) : c.EvictsBucket := by
  have hEntries := SortedMap.entries_of_first? hFirst
  have hBefore := h.keyCount_window
  have hAfter := h.evictFirst.keyCount_window
  rcases h.populated _ _ (SortedMap.get?_of_first? hFirst) with ⟨key, hKey⟩
  have hPositive : 0 < first.2.size := by
    rw [SortedMap.size_eq_length_keys]
    exact List.length_pos_of_mem (SortedSet.mem_toList_iff.mpr hKey)
  rw [hEntries] at hBefore
  rw [evictFirst_of_first? hFirst] at hAfter
  constructor
  · rw [evictFirst_of_first? hFirst]
    exact ⟨first, hFirst, hEntries⟩
  · rw [evictFirst_of_first? hFirst, ← hBefore, ← hAfter]
    exact Nat.add_comm _ _
  · rw [evictFirst_of_first? hFirst]
    exact hPositive

theorem Iterates.tidy
    (h : Iterates more c n d)
    (hTidy : c.Tidy) : d.Tidy := by
  induction h with
  | start => exact hTidy
  | again _ _ ih => exact ih.evictFirst

/- As many buckets are gone as there were iterations. -/
theorem Iterates.add_windowSize
    (hMore : Pressing more)
    (h : Iterates more c n d)
    (hTidy : c.Tidy) : n + d.windowSize = c.windowSize := by
  induction h with
  | start => exact Nat.zero_add _
  | again before asked ih =>
    rcases hMore.first _ (before.tidy hTidy) asked with ⟨first, hFirst⟩
    have hSize := windowSize_evictFirst hFirst
    omega

/- Evictions that are bounded in number are iterations of the loop. -/
theorem exists_iterates
    (more : ConflictCache → Bool)
    (rounds : Nat)
    (c : ConflictCache) :
    ∃ n, Iterates more c n (evictWhile more rounds c).1 := by
  apply evictWhile_induction_of_more (P := fun d => ∃ n, Iterates more c n d)
  · rintro d ⟨n, hIterates⟩ hAsked
    exact ⟨n + 1, hIterates.again hAsked⟩
  · exact ⟨0, Iterates.start⟩

/-
  A loop on a tidy cache ends if its test asks for evictions
  only while there is a bucket. Bounding its iterations by the
  number of buckets does not cut it short.
-/
theorem Pressing.loopEnds
    (hMore : Pressing more)
    (hTidy : c.Tidy) :
    LoopEnds more c (ConflictCache.evictWhile more c.windowSize c).1 where
  progress := by
    intro n d hIterates hAsked
    have hLeft := hIterates.tidy hTidy
    rcases hMore.first d hLeft hAsked with ⟨first, hFirst⟩
    exact hLeft.evictsBucket hFirst
  bounded := by
    intro n d hIterates
    rw [← hIterates.add_windowSize hMore hTidy]
    exact Nat.le_add_right n d.windowSize
  ends := by
    rcases exists_iterates more c.windowSize c with ⟨n, hIterates⟩
    exact ⟨n, hIterates, hMore.satisfied hTidy (Nat.le_refl _)⟩

------------------------------------------------------------
-- Writes and trims
------------------------------------------------------------

/- The loops of all writes that a cache accepts, and of all trims, end. -/
structure NeverHangs (c : ConflictCache) : Prop where
  /- The loop of a write starts when the keys are at their version. -/
  record :
    ∀ write next,
      write.keys ≠ ∅ →
        c.record write.keys write.version = .ok next →
          ∃ left,
            LoopEnds overfull (c.entered write) left ∧
              next = left.measured
  trim :
    ∀ mark, ∃ left,
      LoopEnds (startsBelow mark) c left ∧
        (c.trimBelow mark).1 = left.measured

theorem Tidy.neverHangs (h : c.Tidy) : c.NeverHangs where
  record := by
    intro write next hKeys hAccepted
    rcases record_cases_of_keys hAccepted with
      ⟨hNone, _⟩ | ⟨_, hVersion, hNext⟩
    · exact absurd hNone hKeys
    · have hEntered : (c.entered write).Tidy :=
        tidy_entered h hKeys hVersion
      exact ⟨_, pressing_overfull.loopEnds hEntered, hNext⟩
  trim := by
    intro mark
    exact ⟨_, (pressing_startsBelow mark).loopEnds h, rfl⟩

/-
  The loops of any accepted write and of any trim end, whatever
  requests came before.
-/
theorem run_never_hangs
    (capacity : Nat)
    (capacity_pos : 0 < capacity)
    (bound : Address)
    (requests : List Request) :
    ((new capacity capacity_pos bound).run requests).2.NeverHangs :=
  (settled_run (settled_new capacity capacity_pos bound)
    requests).tidy.neverHangs

/-
  Room for two keys. The write takes over the only key of the
  first bucket, which goes with it. Its own bucket is evicted as
  the last one of two, as its keys alone are too many.
-/
def narrowRequests : List Request :=
  let keys := keysOf (StreamId.ofNat 7)
  [ .record (keys [1]) (Address.ofNat 5),
    .record (keys [2]) (Address.ofNat 9) ]

def wideWrite : Write :=
  ⟨keysOf (StreamId.ofNat 7) [1, 3, 4], Address.ofNat 12⟩

theorem narrowRequests_never_hang :
    let c := ((new 2 (by decide) Address.zero).run narrowRequests).2
    (c.entered wideWrite).size = 4 ∧
      (c.entered wideWrite).windowSize = 2 ∧
      (∃ next,
        c.record wideWrite.keys wideWrite.version = .ok next ∧
          next.size = 0 ∧ next.stats.evictedAddresses = 2) ∧
      c.NeverHangs :=
  ⟨by decide, by decide, ⟨_, rfl, by decide, by decide⟩,
    run_never_hangs 2 (by decide) Address.zero narrowRequests⟩

end ConflictCache

end OrderedLog
