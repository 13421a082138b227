import OrderedLog.Proofs.ConflictCache.Evictions
import OrderedLog.Proofs.ConflictCache.Extent

/-
  This file proves that what a conflict cache knows from some
  mark on does not depend on what it knows from before. Two
  caches are compared: one that has older keys as well, and
  one that has nothing but the recent part of the first.

  Evictions go from the smallest address up. So the first cache
  evicts a recent address only once it has no older ones, and
  then both caches have the same keys. Up to that moment the
  second cache has room for all that it has.

  Key definitions include:
    * `ConflictCache.RecentPart`

  Key lemmas include:
    * `ConflictCache.recentPart_new`
    * `ConflictCache.RecentPart.evictOlder`
    * `ConflictCache.RecentPart.evictBoth`
    * `ConflictCache.RecentPart.satisfied`
    * `ConflictCache.RecentPart.evictWhile`
    * `ConflictCache.RecentPart.enter`
    * `ConflictCache.RecentPart.trimBelow`
    * `ConflictCache.RecentPart.offence?_eq`
-/

namespace OrderedLog

namespace ConflictCache

------------------------------------------------------------
-- The recent part of a cache
------------------------------------------------------------

/-
  The second cache has just what the first one has from a mark
  on. The wildcards are of no interest as long as both are
  below the mark. After that there is nothing left in the first
  cache from before the mark, and the wildcards are the same.
-/
structure RecentPart
    (mark : Address)
    (c d : ConflictCache) : Prop where
  wholeTidy : c.Tidy
  partTidy : d.Tidy
  capacity : c.capacity = d.capacity
  latest :
    ∀ key,
      d.latest.get? key =
        (c.latest.get? key).filter (fun address => mark ≤ address)
  wildcard :
    (c.wildcard < mark ∧ d.wildcard < mark) ∨
      (c.wildcard = d.wildcard ∧
        ∀ key address,
          c.latest.get? key = some address → mark ≤ address)

variable {mark : Address} {c d : ConflictCache}

/- An empty cache is what there is from the next address on. -/
theorem recentPart_new
    {next bound : Address}
    (h : c.WithinLog next)
    (hBound : bound < next ∨ bound = Address.zero) :
    c.RecentPart next (new c.capacity c.capacity_pos bound) where
  wholeTidy := h.tidy
  partTidy := tidy_new _ _ _
  capacity := rfl
  latest := by
    intro key
    change none = _
    cases hLatest : c.latest.get? key with
    | none => rfl
    | some address =>
      have hLt := h.latest_lt key address hLatest
      symm
      rw [Option.filter_eq_none_iff]
      intro _ hSame hLe
      cases hSame
      exact Address.not_le.mpr hLt (of_decide_eq_true hLe)
  wildcard := by
    change _ ∧ bound < next ∨ c.wildcard = bound ∧ _
    by_cases hZero : next = Address.zero
    · -- the log is empty, so that there is nothing to compare
      subst hZero
      have hNothing : ∀ address : Address, ¬ address < Address.zero :=
        fun address => Nat.not_lt_zero address.val
      right
      constructor
      · rw [h.wildcard_lt.resolve_left (hNothing _),
          hBound.resolve_left (hNothing _)]
      · intro key address hLatest
        exact absurd (h.latest_lt key address hLatest) (hNothing address)
    · have hPos : Address.zero < next := by
        rcases KeyOrder.lt_or_lt_of_ne hZero with hLt | hLt
        · exact absurd hLt (Nat.not_lt_zero _)
        · exact hLt
      have hReached : ∀ {address : Address},
          address < next ∨ address = Address.zero → address < next := by
        intro address hEither
        rcases hEither with hLt | hSame
        · exact hLt
        · rw [hSame]
          exact hPos
      exact Or.inl ⟨hReached h.wildcard_lt, hReached hBound⟩

/- All that the part knows the whole knows as well. -/
theorem RecentPart.latest_of_part
    (h : RecentPart mark c d)
    {key : ConflictKey}
    {address : Address}
    (hLatest : d.latest.get? key = some address) :
    c.latest.get? key = some address := by
  rw [h.latest, Option.filter_eq_some_iff] at hLatest
  exact hLatest.1

/- Without anything from before the mark both know the same. -/
theorem RecentPart.latest_eq
    (h : RecentPart mark c d)
    (hRecent : ∀ key address,
      c.latest.get? key = some address → mark ≤ address) :
    c.latest = d.latest := by
  apply SortedMap.eq_of_get?_eq
  intro key
  rw [h.latest]
  cases hLatest : c.latest.get? key with
  | none => rfl
  | some address =>
    rw [Option.filter_some,
      if_pos (decide_eq_true (hRecent key address hLatest))]

theorem RecentPart.measured
    (h : RecentPart mark c d) :
    RecentPart mark c.measured d.measured where
  wholeTidy := tidy_measured.mpr h.wholeTidy
  partTidy := tidy_measured.mpr h.partTidy
  capacity := h.capacity
  latest := h.latest
  wildcard := h.wildcard

theorem RecentPart.ruled
    (h : RecentPart mark c d)
    (t : Transaction) :
    RecentPart mark (c.rule t).2 (d.rule t).2 where
  wholeTidy := ⟨h.wholeTidy.coherent, h.wholeTidy.populated⟩
  partTidy := ⟨h.partTidy.coherent, h.partTidy.populated⟩
  capacity := h.capacity
  latest := h.latest
  wildcard := h.wildcard

------------------------------------------------------------
-- Evictions
------------------------------------------------------------

/- The whole evicts an address from before the mark. -/
theorem RecentPart.evictOlder
    (h : RecentPart mark c d)
    {first : Address × SortedSet ConflictKey}
    (hFirst : c.window.first? = some first)
    (hOlder : first.1 < mark) :
    RecentPart mark c.evictFirst.1 d := by
  have hKeys : c.window.get? first.1 = some first.2 :=
    SortedMap.get?_of_first? hFirst
  have hTidy := h.wholeTidy.evictFirst
  rw [evictFirst_of_first? hFirst] at hTidy ⊢
  constructor
  · exact hTidy
  · exact h.partTidy
  · exact h.capacity
  · intro key
    simp only [SortedMap.get?_eraseAll, SortedSet.mem_toList_iff]
    rw [h.latest]
    by_cases hMem : key ∈ first.2
    · have hLatest : c.latest.get? key = some first.1 :=
        (h.wholeTidy.coherent first.1 key).mp ⟨first.2, hKeys, hMem⟩
      rw [if_pos hMem, hLatest, Option.filter_none,
        Option.filter_some,
        if_neg (by simpa using Address.not_le.mpr hOlder)]
    · rw [if_neg hMem]
  · left
    rcases h.wildcard with ⟨hWhole, hPart⟩ | ⟨_, hRecent⟩
    · refine ⟨?_, hPart⟩
      rcases Address.max_eq_or c.wildcard first.1 with hMax | hMax
      · simp only [hMax]
        exact hWhole
      · simp only [hMax]
        exact hOlder
    · rcases h.wholeTidy.exists_latest hFirst with ⟨key, hLatest⟩
      exact absurd hOlder (Address.not_lt.mpr (hRecent key _ hLatest))

/-
  Both evict the same address, once the first address of the
  whole is not from before the mark.
-/
theorem RecentPart.evictBoth
    (h : RecentPart mark c d)
    (hSame : c.latest = d.latest)
    {first : Address × SortedSet ConflictKey}
    (hFirst : c.window.first? = some first)
    (hRecent : mark ≤ first.1) :
    RecentPart mark c.evictFirst.1 d.evictFirst.1 := by
  have hWindow : c.window = d.window :=
    h.wholeTidy.window_eq_of_latest h.partTidy hSame
  have hOther : d.window.first? = some first := hWindow ▸ hFirst
  have hWholeTidy := h.wholeTidy.evictFirst
  have hPartTidy := h.partTidy.evictFirst
  rw [evictFirst_of_first? hFirst] at hWholeTidy ⊢
  rw [evictFirst_of_first? hOther] at hPartTidy ⊢
  constructor
  · exact hWholeTidy
  · exact hPartTidy
  · exact h.capacity
  · intro key
    simp only [SortedMap.get?_eraseAll]
    rw [h.latest]
    split <;> rfl
  · right
    constructor
    · simp only
      rcases h.wildcard with ⟨hWhole, hPart⟩ | ⟨hWildcard, _⟩
      · have hAbove : ∀ wildcard : Address, wildcard < mark →
            wildcard.max first.1 = first.1 := by
          intro wildcard hLt
          unfold Address.max
          exact if_pos
            (Nat.le_of_lt (Address.lt_of_lt_of_le hLt hRecent))
        rw [hAbove _ hWhole, hAbove _ hPart]
      · rw [hWildcard]
    · intro key address hLatest
      simp only [SortedMap.get?_eraseAll] at hLatest
      split at hLatest
      · cases hLatest
      · exact Address.le_trans hRecent
          (h.wholeTidy.first_le hFirst hLatest)

/- The part is not asked for more once the whole is not. -/
theorem RecentPart.satisfied
    {more : ConflictCache → Bool}
    (hMore : Pressing more)
    (h : RecentPart mark c d)
    (hWhole : more c = false) : more d = false := by
  rw [← Bool.not_eq_true] at hWhole ⊢
  intro hAsked
  exact hWhole (hMore.mono c d h.wholeTidy h.partTidy h.capacity
    (fun _ _ => h.latest_of_part) hAsked)

/-
  Both evict until the test is satisfied. The whole may take
  more rounds, as it has to evict its older addresses first.
-/
theorem RecentPart.evictWhile
    {more : ConflictCache → Bool}
    (hMore : Pressing more)
    (h : RecentPart mark c d)
    {n m : Nat}
    (hN : c.windowSize ≤ n)
    (hM : d.windowSize ≤ m) :
    RecentPart mark
      (ConflictCache.evictWhile more n c).1
      (ConflictCache.evictWhile more m d).1 := by
  induction n generalizing c d m with
  | zero =>
    have hWhole : more c = false := by
      rw [← Bool.not_eq_true]
      intro hAsked
      rcases hMore.first c h.wholeTidy hAsked with ⟨first, hFirst⟩
      have hSize := windowSize_evictFirst hFirst
      omega
    rw [evictWhile_of_not hWhole,
      evictWhile_of_not (h.satisfied hMore hWhole)]
    exact h
  | succ n ih =>
    by_cases hWhole : more c = true
    · rcases hMore.first c h.wholeTidy hWhole with ⟨first, hFirst⟩
      have hSize := windowSize_evictFirst hFirst
      rw [evictWhile_of_more hWhole]
      by_cases hOlder : first.1 < mark
      · exact ih (h.evictOlder hFirst hOlder) (by omega) hM
      · -- nothing is left from before the mark
        have hRecent : ∀ key address,
            c.latest.get? key = some address → mark ≤ address := by
          intro key address hLatest
          exact Address.le_trans (Address.not_lt.mp hOlder)
            (h.wholeTidy.first_le hFirst hLatest)
        have hSame := h.latest_eq hRecent
        have hPart : more d = true :=
          hMore.mono d c h.partTidy h.wholeTidy h.capacity.symm
            (fun key address hLatest => hSame ▸ hLatest) hWhole
        rcases hMore.first d h.partTidy hPart with ⟨other, hOther⟩
        have hOtherSize := windowSize_evictFirst hOther
        cases m with
        | zero => omega
        | succ m =>
          rw [evictWhile_of_more hPart]
          exact ih
            (h.evictBoth hSame hFirst (Address.not_lt.mp hOlder))
            (by omega) (by omega)
    · rw [Bool.not_eq_true] at hWhole
      rw [evictWhile_of_not hWhole,
        evictWhile_of_not (h.satisfied hMore hWhole)]
      exact h

theorem RecentPart.trimBelow
    (h : RecentPart mark c d)
    (trimMark : Address) :
    RecentPart mark (c.trimBelow trimMark).1 (d.trimBelow trimMark).1 := by
  unfold ConflictCache.trimBelow
  exact (h.evictWhile (pressing_startsBelow trimMark) (Nat.le_refl _)
    (Nat.le_refl _)).measured

------------------------------------------------------------
-- Writes
------------------------------------------------------------

/- Both enter a write that is not from before the mark. -/
theorem RecentPart.enter
    (h : RecentPart mark c d)
    {keys : SortedSet ConflictKey}
    (hKeys : keys ≠ ∅)
    {version : Address}
    (hVersion : mark ≤ version)
    (hWhole : c.window.get? version = none)
    (hPart : d.window.get? version = none) :
    RecentPart mark (c.enter keys version) (d.enter keys version) := by
  have hWholeTidy := tidy_entered h.wholeTidy hKeys hWhole
  have hPartTidy := tidy_entered h.partTidy hKeys hPart
  have hWholeLatest := latest_foldl_move version keys.toList c
  have hPartLatest := latest_foldl_move version keys.toList d
  rcases foldl_move_eq version keys.toList c with ⟨_, _, hWholeEq⟩
  rcases foldl_move_eq version keys.toList d with ⟨_, _, hPartEq⟩
  unfold ConflictCache.enter shrink
  apply RecentPart.measured
  refine RecentPart.evictWhile pressing_overfull ?_ (Nat.le_refl _)
    (Nat.le_refl _)
  constructor
  · exact hWholeTidy
  · exact hPartTidy
  · rw [hWholeEq, hPartEq]
    exact h.capacity
  · intro key
    simp only [hWholeLatest, hPartLatest]
    split
    · rw [Option.filter_some, if_pos (decide_eq_true hVersion)]
    · exact h.latest key
  · simp only [wildcard_foldl_move]
    refine h.wildcard.imp_right ?_
    rintro ⟨hWildcard, hRecent⟩
    refine ⟨hWildcard, ?_⟩
    intro key address hLatest
    rw [hWholeLatest] at hLatest
    split at hLatest
    · cases hLatest
      exact hVersion
    · exact hRecent key address hLatest

------------------------------------------------------------
-- Verdicts
------------------------------------------------------------

/-
  Both have the same against a key, if the snapshot sees all
  that is from before the mark.
-/
theorem RecentPart.offence?_eq
    (h : RecentPart mark c d)
    {snapshot : Address}
    (hSees : snapshot.Sees mark)
    (key : ConflictKey) :
    c.offence? snapshot key = d.offence? snapshot key := by
  have hLatest := h.latest key
  unfold offence? get?
  cases hWhole : c.latest.get? key with
  | some address =>
    rw [hWhole, Option.filter_some] at hLatest
    by_cases hRecent : mark ≤ address
    · rw [if_pos (decide_eq_true hRecent)] at hLatest
      rw [hLatest]
    · -- an older write, which the snapshot sees
      have hOlder := Address.not_le.mp hRecent
      rw [if_neg (by simpa using hRecent)] at hLatest
      rw [hLatest]
      simp only
      rw [if_neg (Address.not_lt.mpr (hSees address hOlder))]
      rcases h.wildcard with ⟨_, hPart⟩ | ⟨_, hAll⟩
      · rw [if_neg (Address.not_lt.mpr (hSees d.wildcard hPart))]
      · exact absurd (hAll key address hWhole) hRecent
  | none =>
    rw [hWhole, Option.filter_none] at hLatest
    rw [hLatest]
    simp only
    rcases h.wildcard with ⟨hBefore, hPart⟩ | ⟨hWildcard, _⟩
    · rw [if_neg (Address.not_lt.mpr (hSees c.wildcard hBefore)),
        if_neg (Address.not_lt.mpr (hSees d.wildcard hPart))]
    · rw [hWildcard]

end ConflictCache

end OrderedLog
