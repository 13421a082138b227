import OrderedLog.Proofs.ConflictCache.Coherence

/-
  This file proves that the conflict cache never forgets that
  a key was written: what it no longer knows about a key it
  covers by the wildcard. A transaction that may commit has
  therefore seen every write of its keys.

  Key definitions include:
    * `ConflictCache.Remembers`

  Key lemmas include:
    * `ConflictCache.Remembers.evictFirst`
    * `ConflictCache.Remembers.record`
    * `ConflictCache.remembers_recorded`
    * `ConflictCache.Remembers.trimBelow`
    * `ConflictCache.Remembers.le_snapshot`
-/

namespace OrderedLog

namespace ConflictCache

------------------------------------------------------------
-- Remembered writes
------------------------------------------------------------

/-
  The cache knows that a key may have been written at an
  address: the latest write it has for the key is not before
  that address or, if it has none, the wildcard is not.
-/
def Remembers
    (c : ConflictCache)
    (key : ConflictKey)
    (address : Address) : Prop :=
  match c.latest.get? key with
  | some latest => address ≤ latest
  | none => address ≤ c.wildcard

theorem remembers_of_some
    {c : ConflictCache}
    {key : ConflictKey}
    {address latest : Address}
    (hLatest : c.latest.get? key = some latest) :
    c.Remembers key address ↔ address ≤ latest := by
  unfold Remembers
  rw [hLatest]

theorem remembers_of_none
    {c : ConflictCache}
    {key : ConflictKey}
    {address : Address}
    (hLatest : c.latest.get? key = none) :
    c.Remembers key address ↔ address ≤ c.wildcard := by
  unfold Remembers
  rw [hLatest]

/- A cache that knows nothing more of a key remembers as much. -/
theorem Remembers.mono
    {c d : ConflictCache}
    {key : ConflictKey}
    {address : Address}
    (h : c.Remembers key address)
    (hLatest : d.latest.get? key = c.latest.get? key)
    (hWildcard : c.wildcard ≤ d.wildcard) :
    d.Remembers key address := by
  cases hOld : c.latest.get? key with
  | some latest =>
    rw [hOld] at hLatest
    rw [remembers_of_some hOld] at h
    rw [remembers_of_some hLatest]
    exact h
  | none =>
    rw [hOld] at hLatest
    rw [remembers_of_none hOld] at h
    rw [remembers_of_none hLatest]
    exact Address.le_trans h hWildcard

/- The statistics have no part in what is remembered. -/
theorem remembers_measured
    {c : ConflictCache}
    {key : ConflictKey}
    {address : Address} :
    c.measured.Remembers key address ↔ c.Remembers key address :=
  Iff.rfl

/-
  An empty cache remembers every write up to the bound it was
  created with.
-/
theorem remembers_new
    (capacity : Nat)
    (capacity_pos : 0 < capacity)
    {bound address : Address}
    (h : address ≤ bound)
    (key : ConflictKey) :
    (new capacity capacity_pos bound).Remembers key address :=
  h

------------------------------------------------------------
-- Evictions
------------------------------------------------------------

/-
  An eviction forgets the latest write of a key only together
  with its address, which the wildcard then covers.
-/
theorem Remembers.evictFirst
    {c : ConflictCache}
    {key : ConflictKey}
    {address : Address}
    (hCoherent : c.Coherent)
    (h : c.Remembers key address) :
    c.evictFirst.1.Remembers key address := by
  cases hFirst : c.window.first? with
  | none =>
    rw [ConflictCache.evictFirst, hFirst]
    exact h
  | some first =>
    rcases first with ⟨smallest, keys⟩
    rw [evictFirst_of_first? hFirst]
    have hKeys : c.window.get? smallest = some keys :=
      SortedMap.get?_of_first? hFirst
    by_cases hMem : key ∈ keys
    · have hLatest : c.latest.get? key = some smallest :=
        (hCoherent smallest key).mp
          ((holds_iff_of_window hKeys key).mpr hMem)
      rw [remembers_of_some hLatest] at h
      have hGone :
          (c.latest.eraseAll keys.toList).get? key = none := by
        rw [SortedMap.get?_eraseAll]
        simp [SortedSet.mem_toList_iff, hMem]
      apply (remembers_of_none hGone).mpr
      exact Address.le_trans h (Address.le_max_right _ _)
    · apply h.mono
      · simp [SortedMap.get?_eraseAll, SortedSet.mem_toList_iff, hMem]
      · exact Address.le_max_left _ _

theorem Remembers.evictWhile
    {c : ConflictCache}
    {key : ConflictKey}
    {address : Address}
    (hCoherent : c.Coherent)
    (h : c.Remembers key address)
    (more : ConflictCache → Bool)
    (rounds : Nat) :
    (ConflictCache.evictWhile more rounds c).1.Remembers key address := by
  have hBoth :=
    evictWhile_induction
      (P := fun d => d.Coherent ∧ d.Remembers key address)
      (fun _ hD => ⟨hD.1.evictFirst, hD.2.evictFirst hD.1⟩)
      more rounds ⟨hCoherent, h⟩
  exact hBoth.2

theorem Remembers.trimBelow
    {c : ConflictCache}
    {key : ConflictKey}
    {address : Address}
    (hCoherent : c.Coherent)
    (h : c.Remembers key address)
    (mark : Address) :
    (c.trimBelow mark).1.Remembers key address := by
  unfold ConflictCache.trimBelow
  apply remembers_measured.mpr
  exact h.evictWhile hCoherent _ _

------------------------------------------------------------
-- Writes
------------------------------------------------------------

/-
  Once keys were entered at a version, each of them and each
  key remembered before is remembered, as long as the version
  is not below what was remembered.
-/
theorem remembers_enter
    {c : ConflictCache}
    (hCoherent : c.Coherent)
    {keys : SortedSet ConflictKey}
    {version : Address}
    (hVersion : c.window.get? version = none)
    {key : ConflictKey}
    {address : Address}
    (hAddress : address ≤ version)
    (h : key ∈ keys ∨ c.Remembers key address) :
    (c.enter keys version).Remembers key address := by
  have hEntered := coherent_entered hCoherent keys hVersion
  unfold enter shrink
  apply remembers_measured.mpr
  apply Remembers.evictWhile hEntered
  have hLatest := latest_foldl_move version keys.toList c key
  simp only [SortedSet.mem_toList_iff] at hLatest
  by_cases hMem : key ∈ keys
  · rw [if_pos hMem] at hLatest
    exact (remembers_of_some hLatest).mpr hAddress
  · rw [if_neg hMem] at hLatest
    rcases h with hKey | hOld
    · exact absurd hKey hMem
    · apply hOld.mono hLatest
      rw [wildcard_foldl_move]
      exact Address.le_refl _

/- A record keeps what was remembered up to its version. -/
theorem Remembers.record
    {c next : ConflictCache}
    {key : ConflictKey}
    {address version : Address}
    {keys : SortedSet ConflictKey}
    (hCoherent : c.Coherent)
    (h : c.Remembers key address)
    (hRecord : c.record keys version = .ok next)
    (hAddress : address ≤ version) : next.Remembers key address := by
  rcases record_cases hRecord with ⟨_, hNext⟩ | ⟨hVersion, hNext⟩
  · rw [hNext]
    exact h
  · rw [hNext]
    exact remembers_enter hCoherent hVersion hAddress (Or.inr h)

/- A record makes the cache remember its keys at its version. -/
theorem remembers_recorded
    {c next : ConflictCache}
    {key : ConflictKey}
    {version : Address}
    {keys : SortedSet ConflictKey}
    (hCoherent : c.Coherent)
    (hRecord : c.record keys version = .ok next)
    (hKey : key ∈ keys) : next.Remembers key version := by
  rcases record_cases hRecord with ⟨hEmpty, _⟩ | ⟨hVersion, hNext⟩
  · rw [hEmpty] at hKey
    exact absurd hKey (SortedMap.not_mem_empty key)
  · rw [hNext]
    exact remembers_enter hCoherent hVersion (Address.le_refl _)
      (Or.inl hKey)

------------------------------------------------------------
-- Verdicts
------------------------------------------------------------

/- Every key that was read or is written is examined. -/
theorem mem_examined_iff
    {reads writes : List ConflictKey}
    {key : ConflictKey} :
    key ∈ examined reads writes ↔ key ∈ reads ∨ key ∈ writes := by
  unfold examined
  rw [List.mem_append, List.mem_filter]
  by_cases hRead : key ∈ reads
  · simp [hRead]
  · simp [hRead]

/- A key has nothing against snapshots that saw its writes only. -/
theorem Remembers.le_snapshot_of_offence?
    {c : ConflictCache}
    {key : ConflictKey}
    {address snapshot : Address}
    (h : c.Remembers key address)
    (hOffence : c.offence? snapshot key = none) :
    address ≤ snapshot := by
  unfold offence? get? at hOffence
  cases hLatest : c.latest.get? key with
  | some latest =>
    rw [remembers_of_some hLatest] at h
    simp only [hLatest, ite_eq_right_iff, reduceCtorEq, imp_false]
      at hOffence
    exact Address.le_trans h (Address.not_lt.mp hOffence)
  | none =>
    rw [remembers_of_none hLatest] at h
    simp only [hLatest, ite_eq_right_iff, reduceCtorEq, imp_false]
      at hOffence
    exact Address.le_trans h (Address.not_lt.mp hOffence)

/-
  A transaction that may commit took its snapshot after every
  remembered write of the keys that it read or writes.
-/
theorem Remembers.le_snapshot
    {c : ConflictCache}
    {key : ConflictKey}
    {address : Address}
    {t : Transaction}
    (h : c.Remembers key address)
    (hVerdict : c.verdict t = .commit)
    (hKey : key ∈ t.reads ∨ key ∈ t.writes) :
    address ≤ t.snapshot := by
  unfold verdict judge at hVerdict
  split at hVerdict
  · cases hVerdict
  · split at hVerdict
    · cases hVerdict
    · next hNone =>
      have hExamined :
          key ∈ examined t.reads.toList t.writes.toList := by
        rw [mem_examined_iff, SortedSet.mem_toList_iff,
          SortedSet.mem_toList_iff]
        exact hKey
      have hOffence : c.offence? t.snapshot key = none :=
        List.findSome?_eq_none_iff.mp hNone key hExamined
      exact h.le_snapshot_of_offence? hOffence

end ConflictCache

end OrderedLog
