import Mathlib.Tactic.Common
import OrderedLog.ConflictCache.Verdict
import OrderedLog.SortedMap.Lemmas

/-
  This file proves that the two views of the conflict cache
  describe one relation between keys and addresses, whatever
  is recorded and trimmed.

  A record moves keys one by one, and meanwhile the views
  disagree about the new version. `CoherentApart` is what
  remains true of them until its keys are entered.

  Key definitions include:
    * `ConflictCache.Holds`
    * `ConflictCache.Coherent`
    * `ConflictCache.CoherentApart`

  Key lemmas include:
    * `ConflictCache.latest_foldl_move`
    * `ConflictCache.coherent_entered`
    * `ConflictCache.Coherent.evictFirst`
    * `ConflictCache.evictWhile_induction`
    * `ConflictCache.refusal?_eq_none_iff`
    * `ConflictCache.Coherent.record`
    * `ConflictCache.Coherent.trimBelow`
-/

namespace OrderedLog

namespace ConflictCache

------------------------------------------------------------
-- The two views
------------------------------------------------------------

/- A key is among those last written at an address. -/
def Holds
    (c : ConflictCache)
    (address : Address)
    (key : ConflictKey) : Prop :=
  ∃ keys, c.window.get? address = some keys ∧ key ∈ keys

/- Both views describe the same latest writes. -/
def Coherent (c : ConflictCache) : Prop :=
  ∀ address key,
    c.Holds address key ↔ c.latest.get? key = some address

/-
  Both views describe the same latest writes, but that the
  window has nothing at one version.
-/
def CoherentApart
    (version : Address)
    (c : ConflictCache) : Prop :=
  ∀ address key,
    c.Holds address key ↔
      c.latest.get? key = some address ∧ address ≠ version

theorem holds_iff_of_window
    {c : ConflictCache}
    {address : Address}
    {keys : SortedSet ConflictKey}
    (h : c.window.get? address = some keys)
    (key : ConflictKey) : c.Holds address key ↔ key ∈ keys := by
  constructor
  · rintro ⟨others, hOthers, hMem⟩
    rw [h] at hOthers
    cases hOthers
    exact hMem
  · intro hMem
    exact ⟨keys, h, hMem⟩

theorem not_holds_of_window
    {c : ConflictCache}
    {address : Address}
    (h : c.window.get? address = none)
    (key : ConflictKey) : ¬ c.Holds address key := by
  rintro ⟨keys, hKeys, _⟩
  rw [h] at hKeys
  cases hKeys

/- A new cache has nothing in either view. -/
theorem coherent_new
    (capacity : Nat)
    (capacity_pos : 0 < capacity)
    (bound : Address) :
    (new capacity capacity_pos bound).Coherent := by
  intro address key
  constructor
  · rintro ⟨keys, hKeys, _⟩
    cases hKeys
  · intro hLatest
    cases hLatest

------------------------------------------------------------
-- Moving keys
------------------------------------------------------------

@[simp]
theorem latest_detach
    (c : ConflictCache)
    (key : ConflictKey)
    (address : Address) : (c.detach key address).latest = c.latest := by
  rw [detach]
  split
  · rfl
  · simp only
    split <;> rfl

@[simp]
theorem wildcard_detach
    (c : ConflictCache)
    (key : ConflictKey)
    (address : Address) :
    (c.detach key address).wildcard = c.wildcard := by
  rw [detach]
  split
  · rfl
  · simp only
    split <;> rfl

/- Detaching takes one key from one address. -/
theorem holds_detach_iff
    (c : ConflictCache)
    (key : ConflictKey)
    (address a : Address)
    (k : ConflictKey) :
    (c.detach key address).Holds a k ↔
      c.Holds a k ∧ ¬ (a = address ∧ k = key) := by
  rw [detach]
  split
  · next hNone =>
    constructor
    · intro hHolds
      refine ⟨hHolds, ?_⟩
      rintro ⟨rfl, _⟩
      exact not_holds_of_window hNone k hHolds
    · intro h
      exact h.1
  · next keys hKeys =>
    have hHolds := holds_iff_of_window hKeys
    simp only
    split
    · next hEmpty =>
      have hLeft : ∀ k', k' ∈ keys → k' = key := by
        intro k' hMem
        by_contra hNe
        have hKept : k' ∈ keys.erase key :=
          SortedMap.mem_erase_iff.mpr ⟨hNe, hMem⟩
        rw [SortedMap.isEmpty_iff.mp hEmpty] at hKept
        exact SortedMap.not_mem_empty k' hKept
      by_cases hA : a = address
      · subst hA
        simp only [Holds, SortedMap.get?_erase]
        constructor
        · rintro ⟨others, hOthers, _⟩
          simp at hOthers
        · rintro ⟨hOld, hNot⟩
          have hMem := (hHolds k).mp hOld
          exact absurd ⟨trivial, hLeft k hMem⟩ hNot
      · simp [Holds, hA]
    · by_cases hA : a = address
      · subst hA
        rw [hHolds k]
        simp [Holds, SortedMap.get?_insert, SortedMap.mem_erase_iff,
          and_comm]
      · simp [Holds, SortedMap.get?_insert, hA]

/- A move changes the latest write of its key alone. -/
theorem latest_move
    (version : Address)
    (c : ConflictCache)
    (key k : ConflictKey) :
    (move version c key).latest.get? k
      = if k = key then some version else c.latest.get? k := by
  rw [move]
  simp only [SortedMap.get?_insert]
  split
  · rfl
  · split
    · rw [latest_detach]
    · rfl

/- After some moves their keys are at the version. -/
theorem latest_foldl_move
    (version : Address)
    (keys : List ConflictKey)
    (c : ConflictCache)
    (k : ConflictKey) :
    (keys.foldl (move version) c).latest.get? k
      = if k ∈ keys then some version else c.latest.get? k := by
  induction keys generalizing c with
  | nil => simp
  | cons key keys ih =>
    rw [List.foldl_cons, ih, latest_move]
    by_cases hRest : k ∈ keys
    · simp [hRest]
    · by_cases hKey : k = key
      · simp [hKey]
      · simp [hRest, hKey]

@[simp]
theorem wildcard_move
    (version : Address)
    (c : ConflictCache)
    (key : ConflictKey) : (move version c key).wildcard = c.wildcard := by
  rw [move]
  simp only
  split
  · exact wildcard_detach c key _
  · rfl

@[simp]
theorem wildcard_foldl_move
    (version : Address)
    (keys : List ConflictKey)
    (c : ConflictCache) :
    (keys.foldl (move version) c).wildcard = c.wildcard := by
  induction keys generalizing c with
  | nil => rfl
  | cons key keys ih => rw [List.foldl_cons, ih, wildcard_move]

/- Moving a key keeps the views as they were apart from it. -/
theorem CoherentApart.move
    {version : Address}
    {c : ConflictCache}
    (h : c.CoherentApart version)
    (key : ConflictKey) :
    (ConflictCache.move version c key).CoherentApart version := by
  intro a k
  rw [latest_move]
  -- the moved key is nowhere in the window any more
  have hHolds :
      (ConflictCache.move version c key).Holds a k ↔
        c.Holds a k ∧ k ≠ key := by
    rw [ConflictCache.move]
    cases hOld : c.get? key with
    | none =>
      change c.Holds a k ↔ _
      constructor
      · intro hHolds
        refine ⟨hHolds, ?_⟩
        rintro rfl
        have hLatest := ((h a k).mp hHolds).1
        rw [get?, hLatest] at hOld
        cases hOld
      · intro hBoth
        exact hBoth.1
    | some previous =>
      change (c.detach key previous).Holds a k ↔ _
      rw [holds_detach_iff]
      constructor
      · rintro ⟨hHolds, hNot⟩
        refine ⟨hHolds, ?_⟩
        rintro rfl
        have hLatest := ((h a k).mp hHolds).1
        rw [get?, hLatest] at hOld
        cases hOld
        exact hNot ⟨rfl, rfl⟩
      · rintro ⟨hHolds, hNe⟩
        exact ⟨hHolds, fun hBoth => hNe hBoth.2⟩
  rw [hHolds, h a k]
  by_cases hKey : k = key
  · subst hKey
    simp [eq_comm]
  · simp [hKey]

theorem CoherentApart.foldl_move
    {version : Address}
    {c : ConflictCache}
    (h : c.CoherentApart version)
    (keys : List ConflictKey) :
    (keys.foldl (ConflictCache.move version) c).CoherentApart version := by
  induction keys generalizing c with
  | nil => exact h
  | cons key keys ih => exact ih (h.move key)

/- A version that is not in the window is apart from it. -/
theorem Coherent.apart
    {c : ConflictCache}
    (h : c.Coherent)
    {version : Address}
    (hVersion : c.window.get? version = none) :
    c.CoherentApart version := by
  intro a k
  constructor
  · intro hHolds
    refine ⟨(h a k).mp hHolds, ?_⟩
    rintro rfl
    exact not_holds_of_window hVersion k hHolds
  · intro hBoth
    exact (h a k).mpr hBoth.1

/-
  Once all keys have moved and are entered at their version,
  the views agree again.
-/
theorem coherent_entered
    {c : ConflictCache}
    (h : c.Coherent)
    (keys : SortedSet ConflictKey)
    {version : Address}
    (hVersion : c.window.get? version = none) :
    let moved := keys.toList.foldl (move version) c
    Coherent
      { moved with window := moved.window.insert version keys } := by
  intro moved a k
  have hApart : moved.CoherentApart version :=
    (h.apart hVersion).foldl_move keys.toList
  have hLatest : moved.latest.get? k
      = if k ∈ keys then some version else c.latest.get? k := by
    rw [latest_foldl_move]
    simp only [SortedSet.mem_toList_iff]
  by_cases hA : a = version
  · subst hA
    have hOld : c.latest.get? k ≠ some a := fun hSome =>
      not_holds_of_window hVersion k ((h a k).mpr hSome)
    simp only [Holds, SortedMap.get?_insert, if_true, Option.some_inj,
      exists_eq_left', hLatest]
    by_cases hMem : k ∈ keys
    · simp [hMem]
    · simp [hMem, hOld]
  · have hSame := hApart a k
    simp only [Holds, SortedMap.get?_insert, if_neg hA]
    simp only [Holds] at hSame
    rw [hSame]
    simp [hA]

------------------------------------------------------------
-- Evicting addresses
------------------------------------------------------------

/- What one eviction does to a cache whose window is not empty. -/
theorem evictFirst_of_first?
    {c : ConflictCache}
    {address : Address}
    {keys : SortedSet ConflictKey}
    (h : c.window.first? = some (address, keys)) :
    c.evictFirst =
      ({ c with
          latest := c.latest.eraseAll keys.toList
          window := c.window.rest
          wildcard := c.wildcard.max address
          stats := c.stats.recordEviction keys.size },
        keys.size) := by
  rw [evictFirst, h]

/- An eviction forgets the keys of its address in both views. -/
theorem Coherent.evictFirst
    {c : ConflictCache}
    (h : c.Coherent) : c.evictFirst.1.Coherent := by
  cases hFirst : c.window.first? with
  | none =>
    rw [ConflictCache.evictFirst, hFirst]
    exact h
  | some first =>
    rcases first with ⟨address, keys⟩
    rw [evictFirst_of_first? hFirst]
    have hKeys : c.window.get? address = some keys :=
      SortedMap.get?_of_first? hFirst
    intro a k
    simp only [Holds, SortedMap.get?_rest hFirst,
      SortedMap.get?_eraseAll, SortedSet.mem_toList_iff]
    have hOld := h a k
    have hBucket := h address k
    rw [holds_iff_of_window hKeys] at hBucket
    by_cases hA : a = address
    · subst hA
      simp only [if_true]
      by_cases hMem : k ∈ keys
      · simp [hMem]
      · simp [hMem, ← hBucket]
    · simp only [if_neg hA]
      by_cases hMem : k ∈ keys
      · have hLatest := hBucket.mp hMem
        rw [hLatest] at hOld
        simp only [hMem, if_true, reduceCtorEq, iff_false]
        intro hHolds
        exact hA (Option.some_inj.mp (hOld.mp hHolds)).symm
      · simp only [hMem, if_false]
        exact hOld

/- What an eviction keeps that is asked for, several of them keep. -/
theorem evictWhile_induction_of_more
    {more : ConflictCache → Bool}
    {P : ConflictCache → Prop}
    (hStep : ∀ c, P c → more c = true → P c.evictFirst.1)
    (rounds : Nat)
    {c : ConflictCache}
    (h : P c) : P (evictWhile more rounds c).1 := by
  induction rounds generalizing c with
  | zero => exact h
  | succ rounds ih =>
    rw [evictWhile]
    split
    · next hAsked => exact ih (hStep c h hAsked)
    · exact h

/- What an eviction keeps, several of them keep. -/
theorem evictWhile_induction
    {P : ConflictCache → Prop}
    (hStep : ∀ c, P c → P c.evictFirst.1)
    (more : ConflictCache → Bool)
    (rounds : Nat)
    {c : ConflictCache}
    (h : P c) : P (evictWhile more rounds c).1 :=
  evictWhile_induction_of_more (fun d hD _ => hStep d hD) rounds h

theorem Coherent.evictWhile
    {c : ConflictCache}
    (h : c.Coherent)
    (more : ConflictCache → Bool)
    (rounds : Nat) :
    (ConflictCache.evictWhile more rounds c).1.Coherent := by
  apply evictWhile_induction
  · intro d hD
    exact hD.evictFirst
  · exact h

------------------------------------------------------------
-- Recording and trimming
------------------------------------------------------------

/- The statistics have no part in the views. -/
theorem coherent_measured
    {c : ConflictCache} : c.measured.Coherent ↔ c.Coherent :=
  Iff.rfl

/- No key speaks against a version above its latest write. -/
theorem regression?_eq_none_iff
    {c : ConflictCache}
    {version : Address}
    {keys : List ConflictKey} :
    c.regression? version keys = none ↔
      ∀ key ∈ keys, ∀ previous,
        c.latest.get? key = some previous → previous < version := by
  unfold regression? get?
  rw [List.findSome?_eq_none_iff]
  apply forall₂_congr
  intro key _
  cases c.latest.get? key with
  | none => simp
  | some previous => simp [Address.not_le]

/-
  A write is accepted if its version is a new one after the
  first address and above the latest write of each of its keys.
-/
theorem refusal?_eq_none_iff
    {c : ConflictCache}
    {keys : List ConflictKey}
    {version : Address} :
    c.refusal? keys version = none ↔
      version ∉ c.window ∧
        (∀ first, c.firstAddress? = some first → first < version) ∧
        ∀ key ∈ keys, ∀ previous,
          c.latest.get? key = some previous → previous < version := by
  have hContains : c.window.contains version = true ↔
      version ∈ c.window := Iff.rfl
  rw [← regression?_eq_none_iff, ← hContains]
  unfold refusal?
  by_cases hWindow : c.window.contains version = true
  · simp [hWindow]
  · cases c.firstAddress? with
    | none => simp [hWindow]
    | some first =>
      by_cases hLe : version ≤ first
      · simp [hWindow, hLe, Address.not_lt.mpr hLe]
      · simp [hWindow, hLe, Address.not_le.mp hLe]

/- What becomes of a write that nothing speaks against. -/
theorem record_of_refusal?
    {c : ConflictCache}
    {keys : SortedSet ConflictKey}
    {version : Address}
    (h : c.refusal? keys.toList version = none) :
    c.record keys version =
      .ok (if keys.isEmpty then c else c.enter keys version) := by
  unfold record
  rw [h]
  simp only
  split <;> rfl

/-
  An accepted record leaves the cache as it was, if it is of
  no keys, and else enters its keys at a version that is not
  in the window.
-/
theorem record_cases
    {c next : ConflictCache}
    {keys : SortedSet ConflictKey}
    {version : Address}
    (h : c.record keys version = .ok next) :
    (keys = ∅ ∧ next = c) ∨
      (c.window.get? version = none ∧ next = c.enter keys version) := by
  rw [record] at h
  split at h
  · cases h
  · next hAccepted =>
    split at h
    · next hEmpty =>
      cases h
      exact Or.inl ⟨SortedMap.isEmpty_iff.mp hEmpty, rfl⟩
    · cases h
      refine Or.inr ⟨?_, rfl⟩
      rw [SortedMap.get?_eq_none_iff]
      intro hMem
      have hContains : c.window.contains version = true := hMem
      rw [refusal?, if_pos hContains] at hAccepted
      cases hAccepted

theorem Coherent.record
    {c next : ConflictCache}
    (h : c.Coherent)
    {keys : SortedSet ConflictKey}
    {version : Address}
    (hRecord : c.record keys version = .ok next) : next.Coherent := by
  rcases record_cases hRecord with ⟨_, hNext⟩ | ⟨hVersion, hNext⟩
  · rw [hNext]
    exact h
  · have hEntered := coherent_entered h keys hVersion
    rw [hNext]
    unfold enter shrink
    apply coherent_measured.mpr
    exact hEntered.evictWhile _ _

theorem Coherent.trimBelow
    {c : ConflictCache}
    (h : c.Coherent)
    (mark : Address) : (c.trimBelow mark).1.Coherent := by
  unfold ConflictCache.trimBelow
  apply coherent_measured.mpr
  exact h.evictWhile _ _

end ConflictCache

end OrderedLog
