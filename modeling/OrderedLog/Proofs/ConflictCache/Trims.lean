import OrderedLog.Proofs.ConflictCache.MinimalEviction

/-
  This file proves what a trim leaves of a conflict cache: the
  buckets from its mark on, each with all its keys. What goes is
  counted, and the wildcard covers it.

  This description determines the cache that is left, and the
  descriptions of two trims, one after the other, make up that
  of a trim at the higher mark. So neither the order of trims
  nor their number matters, but only the highest mark.

  Key definitions include:
    * `ConflictCache.TrimmedTo`
    * `ConflictCache.Gauged`
    * `ConflictCache.TrimsExactly`

  Key lemmas include:
    * `ConflictCache.Drops.trimmedTo`
    * `ConflictCache.Tidy.trimmedTo`
    * `ConflictCache.TrimmedTo.unique`
    * `ConflictCache.TrimmedTo.trans`
    * `ConflictCache.gauged_run`

  Key theorems include:
    * `ConflictCache.run_trims_exactly`
-/

namespace OrderedLog

namespace ConflictCache

attribute [ext] ConflictStats ConflictCache

variable {c d e : ConflictCache}
variable {mark other : Address}
variable {evicted more : Nat}

------------------------------------------------------------
-- What a trim leaves
------------------------------------------------------------

/-
  The second cache is what a trim at a mark leaves of the first
  one, when it evicts some number of keys.
-/
structure TrimmedTo
    (mark : Address)
    (c d : ConflictCache)
    (evicted : Nat) : Prop where
  /- The buckets from the mark on are left as they were. -/
  window : d.window = c.window.filterKeys (fun address => mark ≤ address)
  latest :
    ∀ key address,
      d.get? key = some address ↔
        c.get? key = some address ∧ mark ≤ address
  keys : evicted + d.size = c.size
  /- The wildcard is raised to the highest evicted address. -/
  wildcard :
    IsGreatest
      {address |
        address = c.wildcard ∨ (address ∈ c.window ∧ address < mark)}
      d.wildcard
  evictedKeys : d.stats.evictedKeys = c.stats.evictedKeys + evicted
  evictedAddresses :
    d.stats.evictedAddresses + d.windowSize =
      c.stats.evictedAddresses + c.windowSize
  /- The gauges show the sizes of what is left. -/
  conflictKeys : d.stats.conflictKeys = d.size
  windowSize : d.stats.windowSize = d.windowSize
  commits : d.stats.commits = c.stats.commits
  aborts : d.stats.aborts = c.stats.aborts
  capacity : d.capacity = c.capacity
  bound : d.bound = c.bound

/- All keys that are evicted are counted. -/
theorem evictedKeys_evictWhile
    (more : ConflictCache → Bool)
    (rounds : Nat)
    (c : ConflictCache) :
    (evictWhile more rounds c).1.stats.evictedKeys =
      c.stats.evictedKeys + (evictWhile more rounds c).2 := by
  induction rounds generalizing c with
  | zero => rfl
  | succ rounds ih =>
    have hFirst : c.evictFirst.1.stats.evictedKeys =
        c.stats.evictedKeys + c.evictFirst.2 := by
      unfold evictFirst
      split
      · rfl
      · rfl
    unfold evictWhile
    split
    · simp only [ih, hFirst, Nat.add_assoc]
    · rfl

/- The evictions of a trim drop buckets below its mark only. -/
theorem Tidy.drops_startsBelow
    (h : c.Tidy)
    (mark : Address)
    (rounds : Nat) :
    ∃ dropped,
      Drops dropped c
          (ConflictCache.evictWhile (startsBelow mark) rounds c).1 ∧
        ∀ bucket ∈ dropped, bucket.1 < mark := by
  apply evictWhile_induction_of_more
    (P := fun d =>
      ∃ dropped, Drops dropped c d ∧
        ∀ bucket ∈ dropped, bucket.1 < mark)
  · intro d hDrops hMore
    rcases hDrops with ⟨dropped, hDrops, hBelow⟩
    rcases startsBelow_iff.mp hMore with ⟨first, hFirst, hLt⟩
    refine ⟨dropped ++ [first], hDrops.evictFirst hFirst, ?_⟩
    intro bucket hBucket
    rcases List.mem_append.mp hBucket with hBefore | hNow
    · exact hBelow bucket hBefore
    · rw [List.mem_singleton.mp hNow]
      exact hLt
  · exact ⟨[], drops_refl h, nofun⟩

/- No bucket is below a mark that the window starts from. -/
theorem le_of_not_startsBelow
    (h : startsBelow mark c = false)
    {bucket : Bucket}
    (hBucket : bucket ∈ c.window.entries) : mark ≤ bucket.1 := by
  rw [← Address.not_lt]
  intro hLt
  rw [← Bool.not_eq_true, startsBelow_iff] at h
  have hMem : bucket.1 ∈ c.window :=
    SortedMap.mem_iff_exists.mpr
      ⟨bucket.2, SortedMap.get?_eq_some_iff.mpr hBucket⟩
  cases hFirst : c.window.first? with
  | none =>
    rw [SortedMap.eq_empty_of_first? hFirst] at hMem
    exact SortedMap.not_mem_empty bucket.1 hMem
  | some first =>
    apply h
    refine ⟨first, hFirst, ?_⟩
    rcases SortedMap.le_of_first? hFirst hMem with hSame | hBelow
    · exact hSame ▸ hLt
    · exact KeyOrder.trans hBelow hLt

section Split

variable {dropped : List Bucket}

/- The buckets that are left are those from the mark on. -/
theorem Drops.mem_left_iff
    (h : Drops dropped c d)
    (hBelow : ∀ bucket ∈ dropped, bucket.1 < mark)
    (hFrom : ∀ bucket ∈ d.window.entries, mark ≤ bucket.1)
    {bucket : Bucket} :
    bucket ∈ d.window.entries ↔
      bucket ∈ c.window.entries ∧ mark ≤ bucket.1 := by
  rw [h.window, List.mem_append]
  constructor
  · intro hLeft
    exact ⟨Or.inr hLeft, hFrom bucket hLeft⟩
  · intro hBoth
    rcases hBoth with ⟨hDropped | hLeft, hLe⟩
    · exact absurd (hBelow bucket hDropped) (Address.not_lt.mpr hLe)
    · exact hLeft

/- The addresses that went are those below the mark. -/
theorem Drops.exists_dropped_iff
    (h : Drops dropped c d)
    (hBelow : ∀ bucket ∈ dropped, bucket.1 < mark)
    (hFrom : ∀ bucket ∈ d.window.entries, mark ≤ bucket.1)
    {address : Address} :
    (∃ bucket ∈ dropped, bucket.1 = address) ↔
      address ∈ c.window ∧ address < mark := by
  rw [SortedMap.mem_iff_exists]
  simp only [SortedMap.get?_eq_some_iff, h.window, List.mem_append]
  constructor
  · intro hDropped
    rcases hDropped with ⟨bucket, hBucket, hSame⟩
    rw [← hSame]
    exact ⟨⟨bucket.2, Or.inl hBucket⟩, hBelow bucket hBucket⟩
  · intro hWindow
    rcases hWindow with ⟨⟨keys, hDropped | hLeft⟩, hLt⟩
    · exact ⟨(address, keys), hDropped, rfl⟩
    · exact absurd hLt (Address.not_lt.mpr (hFrom _ hLeft))

/- Buckets below a mark are dropped, and none from it on. -/
theorem Drops.trimmedTo
    (h : Drops dropped c d)
    (hTidy : c.Tidy)
    (hBelow : ∀ bucket ∈ dropped, bucket.1 < mark)
    (hFrom : ∀ bucket ∈ d.window.entries, mark ≤ bucket.1) :
    TrimmedTo mark c d.measured (keyCount dropped) := by
  have hLeft := @Drops.mem_left_iff c d mark dropped h hBelow hFrom
  have hSize : keyCount dropped + d.size = c.size := by
    rw [← h.tidy.keyCount_window, ← hTidy.keyCount_window, h.window]
    simp [keyCount]
  have hWindowSize : dropped.length + d.windowSize = c.windowSize := by
    unfold ConflictCache.windowSize
    rw [SortedMap.size_eq_length, SortedMap.size_eq_length, h.window,
      List.length_append]
  constructor
  · apply SortedMap.eq_of_entries_eq
    apply SortedMap.eq_of_sorted d.window.entries_sorted
      (SortedMap.entries_sorted _)
    intro bucket
    rw [hLeft, SortedMap.entries_filterKeys, List.mem_filter,
      decide_eq_true_eq]
  · intro key address
    change d.get? key = some address ↔ _
    rw [h.tidy.latest_iff, hTidy.latest_iff]
    constructor
    · intro hBucket
      rcases hBucket with ⟨bucket, hBucket, rfl, hKey⟩
      rcases hLeft.mp hBucket with ⟨hMem, hLe⟩
      exact ⟨⟨bucket, hMem, rfl, hKey⟩, hLe⟩
    · intro hBucket
      rcases hBucket with ⟨⟨bucket, hMem, rfl, hKey⟩, hLe⟩
      exact ⟨bucket, hLeft.mpr ⟨hMem, hLe⟩, rfl, hKey⟩
  · exact hSize
  · have hGreatest := h.wildcard
    simp only [h.exists_dropped_iff hBelow hFrom] at hGreatest
    exact hGreatest
  · exact h.evictedKeys
  · change d.stats.evictedAddresses + d.windowSize = _
    rw [h.evictedAddresses]
    omega
  · rfl
  · rfl
  · exact h.commits
  · exact h.aborts
  · exact h.capacity
  · exact h.bound

end Split

/- A trim evicts what is below its mark, and nothing else. -/
theorem Tidy.trimmedTo
    (h : c.Tidy)
    (mark : Address) :
    TrimmedTo mark c (c.trimBelow mark).1 (c.trimBelow mark).2 := by
  rcases h.drops_startsBelow mark c.windowSize with
    ⟨dropped, hDrops, hBelow⟩
  have hDone := (pressing_startsBelow mark).satisfied h (Nat.le_refl _)
  have hTrimmed := hDrops.trimmedTo h hBelow
    (fun _ hBucket => le_of_not_startsBelow hDone hBucket)
  have hCount : keyCount dropped = (c.trimBelow mark).2 := by
    have hCounted :=
      evictedKeys_evictWhile (startsBelow mark) c.windowSize c
    rw [hDrops.evictedKeys] at hCounted
    exact Nat.add_left_cancel hCounted
  rw [← hCount]
  exact hTrimmed

------------------------------------------------------------
-- Trims after one another
------------------------------------------------------------

/- There is at most one highest address. -/
theorem eq_of_isGreatest
    {reached : Set Address}
    {a b : Address}
    (hA : IsGreatest reached a)
    (hB : IsGreatest reached b) : a = b :=
  Address.le_antisymm (hB.2 hA.1) (hA.2 hB.1)

/- A trim leaves nothing open. -/
theorem TrimmedTo.unique
    (hD : TrimmedTo mark c d evicted)
    (hE : TrimmedTo mark c e more) : d = e ∧ evicted = more := by
  have hLatest : d.latest = e.latest := by
    apply SortedMap.eq_of_get?_eq
    intro key
    apply Option.ext
    intro address
    exact (hD.latest key address).trans (hE.latest key address).symm
  have hWindow : d.window = e.window := hD.window.trans hE.window.symm
  have hSize : d.size = e.size := by
    unfold size
    rw [hLatest]
  have hWindowSize : d.windowSize = e.windowSize := by
    unfold ConflictCache.windowSize
    rw [hWindow]
  have hEvicted : evicted = more := by
    have hLeft := hD.keys
    have hRight := hE.keys
    omega
  have hAddresses : d.stats.evictedAddresses = e.stats.evictedAddresses := by
    have hLeft := hD.evictedAddresses
    have hRight := hE.evictedAddresses
    omega
  refine ⟨?_, hEvicted⟩
  apply ConflictCache.ext
  · exact hLatest
  · exact hWindow
  · exact hD.capacity.trans hE.capacity.symm
  · exact eq_of_isGreatest hD.wildcard hE.wildcard
  · exact hD.bound.trans hE.bound.symm
  · apply ConflictStats.ext
    · rw [hD.conflictKeys, hE.conflictKeys, hSize]
    · rw [hD.windowSize, hE.windowSize, hWindowSize]
    · rw [hD.evictedKeys, hE.evictedKeys, hEvicted]
    · exact hAddresses
    · exact hD.commits.trans hE.commits.symm
    · exact hD.aborts.trans hE.aborts.symm

/- Addresses from a mark on are those that a trim at it leaves. -/
theorem TrimmedTo.mem_window_iff
    (h : TrimmedTo mark c d evicted)
    {address : Address} :
    address ∈ d.window ↔ address ∈ c.window ∧ mark ≤ address := by
  rw [h.window, SortedMap.mem_filterKeys_iff, decide_eq_true_eq]

/- The wildcard covers what either of two trims has evicted. -/
theorem TrimmedTo.wildcard_trans
    (hD : TrimmedTo mark c d evicted)
    (hE : TrimmedTo other d e more) :
    IsGreatest
      {address |
        address = c.wildcard ∨
          (address ∈ c.window ∧ address < mark.max other)}
      e.wildcard := by
  have hRaised : d.wildcard ≤ e.wildcard := hE.wildcard.2 (Or.inl rfl)
  constructor
  · rcases hE.wildcard.1 with hSame | ⟨hMem, hLt⟩
    · rw [hSame]
      apply hD.wildcard.1.imp_right
      intro hEvicted
      exact ⟨hEvicted.1,
        Address.lt_of_lt_of_le hEvicted.2 (Address.le_max_left _ _)⟩
    · right
      exact ⟨(hD.mem_window_iff.mp hMem).1,
        Address.lt_of_lt_of_le hLt (Address.le_max_right _ _)⟩
  · intro address hAddress
    rcases hAddress with hSame | ⟨hMem, hLt⟩
    · exact Address.le_trans (hD.wildcard.2 (Or.inl hSame)) hRaised
    · by_cases hFirst : address < mark
      · exact Address.le_trans (hD.wildcard.2 (Or.inr ⟨hMem, hFirst⟩))
          hRaised
      · -- what the first trim has left below the higher mark
        have hLe : mark ≤ address := Address.not_lt.mp hFirst
        have hBelow : address < other := by
          rw [← Address.not_le]
          intro hOther
          exact Address.not_le.mpr hLt (Address.max_le_iff.mpr ⟨hLe, hOther⟩)
        exact hE.wildcard.2
          (Or.inr ⟨hD.mem_window_iff.mpr ⟨hMem, hLe⟩, hBelow⟩)

/- Two trims make up one at the higher mark. -/
theorem TrimmedTo.trans
    (hD : TrimmedTo mark c d evicted)
    (hE : TrimmedTo other d e more) :
    TrimmedTo (mark.max other) c e (evicted + more) where
  window := by
    apply SortedMap.eq_of_get?_eq
    intro address
    simp only [hE.window, hD.window, SortedMap.get?_filterKeys,
      decide_eq_true_eq, Address.max_le_iff]
    by_cases hMark : mark ≤ address
    · simp [hMark]
    · simp [hMark]
  latest := by
    intro key address
    rw [hE.latest, hD.latest, Address.max_le_iff, and_assoc]
  keys := by
    rw [← hD.keys, ← hE.keys, Nat.add_assoc]
  wildcard := hD.wildcard_trans hE
  evictedKeys := by
    rw [hE.evictedKeys, hD.evictedKeys, Nat.add_assoc]
  evictedAddresses := hE.evictedAddresses.trans hD.evictedAddresses
  conflictKeys := hE.conflictKeys
  windowSize := hE.windowSize
  commits := hE.commits.trans hD.commits
  aborts := hE.aborts.trans hD.aborts
  capacity := hE.capacity.trans hD.capacity
  bound := hE.bound.trans hD.bound

/- A trim after another one does what the higher of them does. -/
theorem Tidy.trimBelow_trimBelow
    (h : c.Tidy)
    (mark other : Address) :
    ((c.trimBelow mark).1.trimBelow other).1 =
        (c.trimBelow (mark.max other)).1 ∧
      (c.trimBelow mark).2 + ((c.trimBelow mark).1.trimBelow other).2 =
        (c.trimBelow (mark.max other)).2 := by
  have hFirst := h.trimmedTo mark
  have hSecond := (h.trimBelow mark).trimmedTo other
  exact (hFirst.trans hSecond).unique (h.trimmedTo (mark.max other))

------------------------------------------------------------
-- Gauges
------------------------------------------------------------

/- The gauges show the present sizes. -/
structure Gauged (c : ConflictCache) : Prop where
  conflictKeys : c.stats.conflictKeys = c.size
  windowSize : c.stats.windowSize = c.windowSize

theorem gauged_measured (c : ConflictCache) : c.measured.Gauged :=
  ⟨rfl, rfl⟩

theorem Gauged.serve
    (h : c.Gauged)
    (request : Request) : (c.serve request).2.Gauged := by
  cases request with
  | record keys version =>
    cases hRecord : c.record keys version with
    | error refusal =>
      rw [serve_record_of_error hRecord]
      exact h
    | ok next =>
      rw [serve_record_of_ok hRecord]
      rcases record_cases hRecord with ⟨_, hNext⟩ | ⟨_, hNext⟩
      · rw [hNext]
        exact h
      · rw [hNext]
        exact gauged_measured _
  | trim mark => exact gauged_measured _
  | rule transaction =>
    unfold ConflictCache.serve rule
    simp only
    cases c.verdict transaction with
    | commit => exact ⟨h.conflictKeys, h.windowSize⟩
    | abort reason => exact ⟨h.conflictKeys, h.windowSize⟩

theorem gauged_run
    (capacity : Nat)
    (capacity_pos : 0 < capacity)
    (bound : Address)
    (requests : List Request) :
    ((new capacity capacity_pos bound).run requests).2.Gauged :=
  (settled_new capacity capacity_pos bound).run_induction
    (fun _ request _ hGauged => hGauged.serve request)
    ⟨rfl, rfl⟩ requests

/- A trim that has nothing to evict changes nothing at all. -/
theorem Gauged.trimmedTo
    (h : c.Gauged)
    (hFrom : ∀ address ∈ c.window, mark ≤ address)
    (hTidy : c.Tidy) : TrimmedTo mark c c 0 where
  window := by
    apply SortedMap.eq_of_get?_eq
    intro address
    rw [SortedMap.get?_filterKeys]
    split
    · rfl
    · next hNot =>
      rw [SortedMap.get?_eq_none_iff]
      intro hMem
      exact hNot (decide_eq_true (hFrom address hMem))
  latest := by
    intro key address
    rw [iff_self_and]
    intro hLatest
    exact hFrom address (hTidy.mem_window_iff.mpr ⟨key, hLatest⟩)
  keys := Nat.zero_add c.size
  wildcard := by
    constructor
    · exact Or.inl rfl
    · intro address hAddress
      rcases hAddress with hSame | ⟨hMem, hLt⟩
      · rw [hSame]
        exact Address.le_refl _
      · exact absurd hLt (Address.not_lt.mpr (hFrom address hMem))
  evictedKeys := rfl
  evictedAddresses := rfl
  conflictKeys := h.conflictKeys
  windowSize := h.windowSize
  commits := rfl
  aborts := rfl
  capacity := rfl
  bound := rfl

------------------------------------------------------------
-- All caches there are
------------------------------------------------------------

/- What trims do to a cache, alone and one after the other. -/
structure TrimsExactly (c : ConflictCache) : Prop where
  trimmed :
    ∀ mark, TrimmedTo mark c (c.trimBelow mark).1 (c.trimBelow mark).2
  idle :
    ∀ mark, (∀ address ∈ c.window, mark ≤ address) →
      c.trimBelow mark = (c, 0)
  composed :
    ∀ a b,
      ((c.trimBelow a).1.trimBelow b).1 = (c.trimBelow (a.max b)).1 ∧
        (c.trimBelow a).2 + ((c.trimBelow a).1.trimBelow b).2 =
          (c.trimBelow (a.max b)).2
  idempotent :
    ∀ mark,
      (c.trimBelow mark).1.trimBelow mark = ((c.trimBelow mark).1, 0)
  commuting :
    ∀ a b,
      ((c.trimBelow a).1.trimBelow b).1 =
          ((c.trimBelow b).1.trimBelow a).1 ∧
        (c.trimBelow a).2 + ((c.trimBelow a).1.trimBelow b).2 =
          (c.trimBelow b).2 + ((c.trimBelow b).1.trimBelow a).2

theorem Tidy.trimsExactly
    (h : c.Tidy)
    (hGauged : c.Gauged) : c.TrimsExactly where
  trimmed := h.trimmedTo
  idle := by
    intro mark hFrom
    have hSame :=
      (h.trimmedTo mark).unique (hGauged.trimmedTo hFrom h)
    exact Prod.ext hSame.1 hSame.2
  composed := h.trimBelow_trimBelow
  idempotent := by
    intro mark
    have hTwice := h.trimBelow_trimBelow mark mark
    rw [Address.max_self] at hTwice
    exact Prod.ext hTwice.1 (Nat.add_eq_left.mp hTwice.2)
  commuting := by
    intro a b
    have hOne := h.trimBelow_trimBelow a b
    have hOther := h.trimBelow_trimBelow b a
    rw [Address.max_comm b a] at hOther
    exact ⟨hOne.1.trans hOther.1.symm, hOne.2.trans hOther.2.symm⟩

/-
  Whatever was asked for before, even at versions out of order,
  trims evict just what is below the highest of their marks.
-/
theorem run_trims_exactly
    (capacity : Nat)
    (capacity_pos : 0 < capacity)
    (bound : Address)
    (requests : List Request) :
    ((new capacity capacity_pos bound).run requests).2.TrimsExactly := by
  have hSettled :=
    settled_run (settled_new capacity capacity_pos bound) requests
  exact hSettled.tidy.trimsExactly
    (gauged_run capacity capacity_pos bound requests)

/-
  The third write lands in the middle of the window, and the last
  one takes a key over from the first bucket.
-/
def scatteredWrites : List Request :=
  let keys := keysOf (StreamId.ofNat 7)
  [ .record (keys [1, 2]) (Address.ofNat 5),
    .record (keys [3]) (Address.ofNat 12),
    .record (keys [4, 5]) (Address.ofNat 9),
    .record (keys [1]) (Address.ofNat 10) ]

theorem scatteredWrites_trim_exactly :
    let c := ((new 5 (by decide) (Address.ofNat 2)).run scatteredWrites).2
    (c.trimBelow (Address.ofNat 10)).2 = 3 ∧
      (c.trimBelow (Address.ofNat 10)).1.wildcard = Address.ofNat 9 ∧
      (c.trimBelow (Address.ofNat 12)).2 = 4 ∧
      c.TrimsExactly :=
  ⟨by decide, by decide, by decide,
    run_trims_exactly 5 (by decide) (Address.ofNat 2) scatteredWrites⟩

end ConflictCache

end OrderedLog
