import Mathlib.Order.Bounds.Defs
import OrderedLog.Proofs.ConflictCache.Tidiness

/-
  This file proves what evictions leave of a conflict cache.
  They go from the smallest address up and take an address with
  all its keys. So what is left is just what lies above a floor,
  the last address that was evicted, and the wildcard rises to
  the floor if it was below.

  How far the floor rises depends on the test that asks for the
  evictions: it asked for one more while the floor was still in
  the window, and it asks for no more after that.

  Key definitions include:
    * `Address.Above`
    * `ConflictCache.Pressing`
    * `ConflictCache.Leaves`
    * `ConflictCache.Asked`

  Key lemmas include:
    * `Address.isGreatest_max`
    * `ConflictCache.overfull_of_latest`
    * `ConflictCache.startsBelow_of_latest`
    * `ConflictCache.Pressing.satisfied`
    * `ConflictCache.Leaves.evictFirst`
    * `ConflictCache.Leaves.evictWhile`
    * `ConflictCache.Leaves.wildcard_lt_iff`
    * `ConflictCache.Leaves.forgotten_iff`
-/

namespace OrderedLog

------------------------------------------------------------
-- Floors
------------------------------------------------------------

/- An address above a floor. All are if there is no floor. -/
def Address.Above
    (address : Address)
    (floor : Option Address) : Prop :=
  ∀ other ∈ floor, other < address

theorem Address.above_none (address : Address) : address.Above none :=
  nofun

theorem Address.above_some_iff
    {address floor : Address} :
    address.Above (some floor) ↔ floor < address := by
  simp [Above]

theorem Address.not_above_iff
    {address : Address}
    {floor : Option Address} :
    ¬ address.Above floor ↔ ∃ other ∈ floor, address ≤ other := by
  simp [Above, Address.not_lt]

/- What is not below an address above a floor is above it, too. -/
theorem Address.Above.mono
    {address higher : Address}
    {floor : Option Address}
    (h : address.Above floor)
    (hHigher : address ≤ higher) : higher.Above floor :=
  fun other hOther => Address.lt_of_lt_of_le (h other hOther) hHigher

/- Above two floors is above the higher one of them. -/
theorem Address.above_or_iff
    {higher lower : Option Address}
    (h : ∀ other ∈ higher, other.Above lower)
    {address : Address} :
    address.Above (higher.or lower) ↔
      address.Above higher ∧ address.Above lower := by
  cases higher with
  | none =>
    rw [Option.none_or]
    exact (and_iff_right address.above_none).symm
  | some other =>
    rw [Option.some_or, iff_self_and, Address.above_some_iff]
    intro hLt
    exact (h other rfl).mono (Nat.le_of_lt hLt)

/- One more address raises the highest one to itself, or not. -/
theorem Address.isGreatest_max
    {reached : Address → Prop}
    {highest : Address}
    (h : IsGreatest {address | reached address} highest)
    (other : Address) :
    IsGreatest {address | reached address ∨ address = other}
      (highest.max other) := by
  constructor
  · rcases Address.max_eq_or highest other with hMax | hMax
    · left
      rw [hMax]
      exact h.1
    · exact Or.inr hMax
  · intro address hAddress
    rcases hAddress with hReached | hSame
    · exact Address.le_trans (h.2 hReached) (Address.le_max_left _ _)
    · rw [hSame]
      exact Address.le_max_right _ _

namespace ConflictCache

------------------------------------------------------------
-- Tests for evictions
------------------------------------------------------------

/- The statistics have no part in how many keys there are. -/
theorem overfull_measured
    (c : ConflictCache) : c.measured.overfull = c.overfull :=
  rfl

/- More keys and no more room keep a cache overfull. -/
theorem overfull_of_latest
    {c d : ConflictCache}
    (hCapacity : c.capacity ≤ d.capacity)
    (hLatest : ∀ key address,
      d.latest.get? key = some address →
        c.latest.get? key = some address)
    (h : overfull d = true) : overfull c = true := by
  have hSize : d.size ≤ c.size := by
    apply size_le_of_latest
    intro key hKey
    rcases SortedMap.mem_iff_exists.mp hKey with ⟨address, hAddress⟩
    exact SortedMap.mem_iff_exists.mpr
      ⟨address, hLatest key address hAddress⟩
  unfold overfull at h ⊢
  rw [decide_eq_true_eq] at h ⊢
  omega

theorem startsBelow_iff
    {c : ConflictCache}
    {mark : Address} :
    startsBelow mark c = true ↔
      ∃ first, c.window.first? = some first ∧ first.1 < mark := by
  unfold startsBelow firstAddress?
  cases c.window.first? with
  | none => simp
  | some first => simp

/- More keys do not make a cache start later. -/
theorem startsBelow_of_latest
    {c d : ConflictCache}
    {mark : Address}
    (hC : c.Tidy)
    (hD : d.Tidy)
    (hLatest : ∀ key address,
      d.latest.get? key = some address →
        c.latest.get? key = some address)
    (h : startsBelow mark d = true) : startsBelow mark c = true := by
  rw [startsBelow_iff] at h ⊢
  rcases h with ⟨first, hFirst, hLt⟩
  rcases hD.exists_latest hFirst with ⟨key, hKey⟩
  rcases hC.exists_first (hLatest key first.1 hKey) with
    ⟨other, hOther, hLe⟩
  exact ⟨other, hOther, Nat.lt_of_le_of_lt hLe hLt⟩

/-
  A test for evictions that asks for one only if there is an
  address to evict, and that asks for no fewer when there are
  more keys.
-/
structure Pressing (more : ConflictCache → Bool) : Prop where
  mono :
    ∀ c d, c.Tidy → d.Tidy → c.capacity = d.capacity →
      (∀ key address,
        d.latest.get? key = some address →
          c.latest.get? key = some address) →
      more d = true → more c = true
  first :
    ∀ c, c.Tidy → more c = true →
      ∃ first, c.window.first? = some first

theorem pressing_overfull : Pressing overfull where
  mono := by
    intro c d _ _ hCapacity hLatest hMore
    exact overfull_of_latest (Nat.le_of_eq hCapacity) hLatest hMore
  first := by
    intro c hTidy hMore
    have hNonempty : c.latest ≠ ∅ := by
      intro hEmpty
      unfold overfull size at hMore
      rw [decide_eq_true_eq, hEmpty] at hMore
      exact Nat.not_lt_zero _ hMore
    rcases SortedMap.exists_mem_of_ne_empty hNonempty with ⟨key, hKey⟩
    rcases SortedMap.mem_iff_exists.mp hKey with ⟨address, hAddress⟩
    rcases hTidy.exists_first hAddress with ⟨first, hFirst, _⟩
    exact ⟨first, hFirst⟩

theorem pressing_startsBelow (mark : Address) :
    Pressing (startsBelow mark) where
  mono := by
    intro c d hC hD _ hLatest hMore
    exact startsBelow_of_latest hC hD hLatest hMore
  first := by
    intro c _ hMore
    rw [startsBelow_iff] at hMore
    rcases hMore with ⟨first, hFirst, _⟩
    exact ⟨first, hFirst⟩

/- Nothing is evicted when nothing is asked for. -/
theorem evictWhile_of_not
    {more : ConflictCache → Bool}
    {c : ConflictCache}
    (h : more c = false)
    (rounds : Nat) : (evictWhile more rounds c).1 = c := by
  cases rounds with
  | zero => rfl
  | succ rounds => rw [evictWhile, h, if_neg Bool.false_ne_true]

/- One round of an eviction that is asked for. -/
theorem evictWhile_of_more
    {more : ConflictCache → Bool}
    {c : ConflictCache}
    (h : more c = true)
    (rounds : Nat) :
    (evictWhile more (rounds + 1) c).1 =
      (evictWhile more rounds c.evictFirst.1).1 := by
  rw [evictWhile, if_pos h]

/- As many rounds as there are addresses satisfy the test. -/
theorem Pressing.satisfied
    {more : ConflictCache → Bool}
    (hMore : Pressing more)
    {c : ConflictCache}
    (hTidy : c.Tidy)
    {rounds : Nat}
    (hRounds : c.windowSize ≤ rounds) :
    more (ConflictCache.evictWhile more rounds c).1 = false := by
  induction rounds generalizing c with
  | zero =>
    change more c = false
    rw [← Bool.not_eq_true]
    intro hAsked
    rcases hMore.first c hTidy hAsked with ⟨first, hFirst⟩
    have hSize := windowSize_evictFirst hFirst
    omega
  | succ rounds ih =>
    by_cases hAsked : more c = true
    · rcases hMore.first c hTidy hAsked with ⟨first, hFirst⟩
      have hSize := windowSize_evictFirst hFirst
      rw [evictWhile_of_more hAsked]
      exact ih hTidy.evictFirst (by omega)
    · rw [Bool.not_eq_true] at hAsked
      rw [evictWhile_of_not hAsked]
      exact hAsked

------------------------------------------------------------
-- What evictions leave
------------------------------------------------------------

/-
  The second cache is what evictions up to a floor have left of
  some writes. The first one is the cache before these writes
  and evictions.
-/
structure Leaves
    (writes : ConflictKey → Option Address)
    (floor : Option Address)
    (c d : ConflictCache) : Prop where
  tidy : d.Tidy
  latest :
    ∀ key address,
      d.latest.get? key = some address ↔
        writes key = some address ∧ address.Above floor
  /- A floor was the address of a write. -/
  reached : ∀ address ∈ floor, ∃ key, writes key = some address
  wildcard : d.wildcard = floor.elim c.wildcard c.wildcard.max
  capacity : d.capacity = c.capacity
  bound : d.bound = c.bound

/-
  A test asked for an eviction while the floor was still the
  first address of the window.
-/
def Asked
    (more : ConflictCache → Bool)
    (writes : ConflictKey → Option Address)
    (floor : Option Address)
    (c : ConflictCache) : Prop :=
  ∀ address ∈ floor, ∃ lower d,
    Leaves writes lower c d ∧ d.firstAddress? = some address ∧
      more d = true

theorem asked_none
    (more : ConflictCache → Bool)
    (writes : ConflictKey → Option Address)
    (c : ConflictCache) : Asked more writes none c :=
  nofun

variable {writes : ConflictKey → Option Address}
variable {floor : Option Address}
variable {c d : ConflictCache}

/- Without evictions all writes are left. -/
theorem leaves_refl (h : c.Tidy) : Leaves c.latest.get? none c c where
  tidy := h
  latest := fun _ address => (and_iff_left address.above_none).symm
  reached := nofun
  wildcard := rfl
  capacity := rfl
  bound := rfl

/- The statistics have no part in it. -/
theorem Leaves.counted
    (h : Leaves writes floor c d)
    (stats : ConflictStats) :
    Leaves writes floor c { d with stats } where
  tidy := ⟨h.tidy.coherent, h.tidy.populated⟩
  latest := h.latest
  reached := h.reached
  wildcard := h.wildcard
  capacity := h.capacity
  bound := h.bound

theorem Leaves.measured
    (h : Leaves writes floor c d) : Leaves writes floor c d.measured :=
  h.counted _

/- One more eviction raises the floor to the first address. -/
theorem Leaves.evictFirst
    (h : Leaves writes floor c d)
    {first : Address × SortedSet ConflictKey}
    (hFirst : d.window.first? = some first) :
    Leaves writes (some first.1) c d.evictFirst.1 := by
  have hTidy := h.tidy.evictFirst
  have hKeys : d.window.get? first.1 = some first.2 :=
    SortedMap.get?_of_first? hFirst
  have hEvicted : ∀ key,
      key ∈ first.2 ↔ d.latest.get? key = some first.1 := by
    intro key
    rw [← holds_iff_of_window hKeys]
    exact h.tidy.coherent first.1 key
  rcases h.tidy.exists_latest hFirst with ⟨found, hFound⟩
  rcases (h.latest found first.1).mp hFound with ⟨hWrite, hAbove⟩
  rw [evictFirst_of_first? hFirst] at hTidy ⊢
  constructor
  · exact hTidy
  · intro key address
    simp only [SortedMap.get?_eraseAll, SortedSet.mem_toList_iff,
      Option.ite_none_left_eq_some, Address.above_some_iff, hEvicted]
    constructor
    · rintro ⟨hKept, hLatest⟩
      refine ⟨((h.latest key address).mp hLatest).1, ?_⟩
      have hLe : first.1 ≤ address := h.tidy.first_le hFirst hLatest
      apply Nat.lt_of_le_of_ne hLe
      intro hSame
      rw [Address.eq_of_val_eq hSame] at hKept
      exact hKept hLatest
    · rintro ⟨hWritten, hLt⟩
      have hLatest := (h.latest key address).mpr
        ⟨hWritten, hAbove.mono (Nat.le_of_lt hLt)⟩
      refine ⟨?_, hLatest⟩
      rw [hLatest, Option.some_inj]
      exact (KeyOrder.ne_of_lt hLt).symm
  · intro address hAddress
    cases hAddress
    exact ⟨found, hWrite⟩
  · change d.wildcard.max first.1 = c.wildcard.max first.1
    rw [h.wildcard]
    cases floor with
    | none => rfl
    | some lower =>
      have hLt : lower < first.1 := Address.above_some_iff.mp hAbove
      apply Address.eq_of_val_eq
      simp only [Option.elim_some, Address.val_max, Nat.max_assoc]
      rw [Nat.max_eq_right (Nat.le_of_lt hLt)]
  · exact h.capacity
  · exact h.bound

/-
  A run of evictions leaves what lies above a floor, where its
  test is satisfied and was not before.
-/
theorem Leaves.evictWhile
    {more : ConflictCache → Bool}
    (hMore : Pressing more)
    (h : Leaves writes none c d)
    {rounds : Nat}
    (hRounds : d.windowSize ≤ rounds) :
    ∃ floor,
      Leaves writes floor c
          (ConflictCache.evictWhile more rounds d).1 ∧
        more (ConflictCache.evictWhile more rounds d).1 = false ∧
        Asked more writes floor c := by
  have hFloor : ∃ floor,
      Leaves writes floor c
          (ConflictCache.evictWhile more rounds d).1 ∧
        Asked more writes floor c := by
    apply evictWhile_induction_of_more
      (P := fun e =>
        ∃ floor, Leaves writes floor c e ∧ Asked more writes floor c)
    · rintro e ⟨lower, hLeaves, _⟩ hAsked
      rcases hMore.first e hLeaves.tidy hAsked with ⟨first, hFirst⟩
      refine ⟨some first.1, hLeaves.evictFirst hFirst, ?_⟩
      intro address hAddress
      cases hAddress
      exact ⟨lower, e, hLeaves,
        firstAddress?_eq_some_iff.mpr ⟨first.2, hFirst⟩, hAsked⟩
    · exact ⟨none, h, asked_none more writes c⟩
  rcases hFloor with ⟨floor, hLeaves, hAsked⟩
  exact ⟨floor, hLeaves, hMore.satisfied h.tidy hRounds, hAsked⟩

------------------------------------------------------------
-- What is known of the rest
------------------------------------------------------------

theorem Leaves.wildcard_le
    (h : Leaves writes floor c d) : c.wildcard ≤ d.wildcard := by
  rw [h.wildcard]
  cases floor with
  | none => exact Address.le_refl _
  | some address => exact Address.le_max_left _ _

/- The wildcard covers all that was evicted. -/
theorem Leaves.floor_le
    (h : Leaves writes floor c d)
    {address : Address}
    (hAddress : address ∈ floor) : address ≤ d.wildcard := by
  cases hAddress
  rw [h.wildcard]
  exact Address.le_max_right _ _

/- The wildcard rises to nothing but the floor. -/
theorem Leaves.wildcard_cases
    (h : Leaves writes floor c d) :
    d.wildcard = c.wildcard ∨ d.wildcard ∈ floor := by
  rw [h.wildcard]
  cases floor with
  | none => exact Or.inl rfl
  | some address =>
    apply (Address.max_eq_or c.wildcard address).imp_right
    intro hMax
    exact congrArg some hMax.symm

/- An address beyond the wildcard is one beyond the floor, too. -/
theorem Leaves.wildcard_lt_iff
    (h : Leaves writes floor c d)
    {address : Address} :
    d.wildcard < address ↔ c.wildcard < address ∧ address.Above floor := by
  constructor
  · intro hLt
    constructor
    · exact Nat.lt_of_le_of_lt h.wildcard_le hLt
    · intro other hOther
      exact Nat.lt_of_le_of_lt (h.floor_le hOther) hLt
  · rintro ⟨hLt, hAbove⟩
    rcases h.wildcard_cases with hSame | hFloor
    · rw [hSame]
      exact hLt
    · exact hAbove d.wildcard hFloor

/- A key is forgotten if its write is not above the floor. -/
theorem Leaves.forgotten_iff
    (h : Leaves writes floor c d)
    {key : ConflictKey}
    {address : Address}
    (hWrite : writes key = some address) :
    d.latest.get? key = none ↔ ∃ other ∈ floor, address ≤ other := by
  rw [← Address.not_above_iff, Option.eq_none_iff_forall_ne_some]
  constructor
  · intro hNone hAbove
    exact hNone address ((h.latest key address).mpr ⟨hWrite, hAbove⟩)
  · intro hNot other hOther
    rcases (h.latest key other).mp hOther with ⟨hSame, hAbove⟩
    rw [hWrite, Option.some_inj] at hSame
    exact hNot (hSame ▸ hAbove)

/- What was never written is not there. -/
theorem Leaves.latest_of_none
    (h : Leaves writes floor c d)
    {key : ConflictKey}
    (hWrite : writes key = none) : d.latest.get? key = none := by
  rw [Option.eq_none_iff_forall_ne_some]
  intro address hLatest
  have hWritten := ((h.latest key address).mp hLatest).1
  rw [hWrite] at hWritten
  cases hWritten

/- From the first address on all writes are left. -/
theorem Leaves.latest_of_le
    (h : Leaves writes floor c d)
    {first : Address}
    (hFirst : d.firstAddress? = some first)
    {key : ConflictKey}
    {address : Address} :
    d.latest.get? key = some address ↔
      writes key = some address ∧ first ≤ address := by
  rcases firstAddress?_eq_some_iff.mp hFirst with ⟨_, hBucket⟩
  constructor
  · intro hLatest
    exact ⟨((h.latest key address).mp hLatest).1,
      h.tidy.first_le hBucket hLatest⟩
  · rintro ⟨hWrite, hLe⟩
    rcases h.tidy.exists_latest hBucket with ⟨found, hFound⟩
    have hAbove := ((h.latest found first).mp hFound).2
    exact (h.latest key address).mpr ⟨hWrite, hAbove.mono hLe⟩

end ConflictCache

end OrderedLog
