import Mathlib.Data.List.Perm.Subperm
import OrderedLog.Proofs.ConflictCache.Coherence

/-
  This file proves that the window of a conflict cache never
  has an address without keys, whatever is recorded and
  trimmed. As both views also describe the same latest writes,
  one of them determines the other, and a cache that has keys
  has an address to evict.

  Key definitions include:
    * `ConflictCache.Populated`
    * `ConflictCache.Tidy`

  Key lemmas include:
    * `ConflictCache.foldl_move_eq`
    * `ConflictCache.latest_of_evictWhile`
    * `ConflictCache.latest_of_record`
    * `ConflictCache.Tidy.evictFirst`
    * `ConflictCache.Tidy.trimBelow`
    * `ConflictCache.record_cases_of_keys`
    * `ConflictCache.Tidy.window_eq`
    * `ConflictCache.Tidy.first_le`
    * `ConflictCache.Tidy.exists_first`
    * `ConflictCache.Tidy.refusal?_eq_none`
    * `ConflictCache.size_le_of_latest`
-/

namespace OrderedLog

namespace ConflictCache

------------------------------------------------------------
-- What a move leaves alone
------------------------------------------------------------

/- Detaching a key changes nothing but the window. -/
theorem detach_eq
    (c : ConflictCache)
    (key : ConflictKey)
    (address : Address) :
    ∃ window, c.detach key address = { c with window } := by
  unfold detach
  split
  · exact ⟨c.window, rfl⟩
  · simp only
    split
    · exact ⟨_, rfl⟩
    · exact ⟨_, rfl⟩

/- A move changes nothing but the two views. -/
theorem move_eq
    (version : Address)
    (c : ConflictCache)
    (key : ConflictKey) :
    ∃ latest window, move version c key = { c with latest, window } := by
  let insert (d : ConflictCache) : ConflictCache :=
    { d with latest := d.latest.insert key version }
  unfold move
  simp only
  split
  · next previous _ =>
    rcases c.detach_eq key previous with ⟨window, hDetach⟩
    exact ⟨_, window, congrArg insert hDetach⟩
  · exact ⟨_, c.window, rfl⟩

theorem foldl_move_eq
    (version : Address)
    (keys : List ConflictKey)
    (c : ConflictCache) :
    ∃ latest window,
      keys.foldl (move version) c = { c with latest, window } := by
  induction keys generalizing c with
  | nil => exact ⟨c.latest, c.window, rfl⟩
  | cons key keys ih =>
    rcases move_eq version c key with ⟨_, _, hMove⟩
    rcases ih (move version c key) with ⟨latest, window, hMoves⟩
    refine ⟨latest, window, ?_⟩
    rw [List.foldl_cons, hMoves, hMove]

------------------------------------------------------------
-- What evictions and writes leave of the latest writes
------------------------------------------------------------

/- An eviction forgets latest writes and makes up none. -/
theorem latest_of_evictFirst
    {c : ConflictCache}
    {key : ConflictKey}
    {address : Address}
    (h : c.evictFirst.1.latest.get? key = some address) :
    c.latest.get? key = some address := by
  cases hFirst : c.window.first? with
  | none =>
    rw [evictFirst, hFirst] at h
    exact h
  | some first =>
    rw [evictFirst_of_first? hFirst] at h
    simp only [SortedMap.get?_eraseAll,
      Option.ite_none_left_eq_some] at h
    exact h.2

theorem latest_of_evictWhile
    {more : ConflictCache → Bool}
    {rounds : Nat}
    {c : ConflictCache}
    {key : ConflictKey}
    {address : Address}
    (h : (evictWhile more rounds c).1.latest.get? key = some address) :
    c.latest.get? key = some address := by
  revert h
  apply evictWhile_induction
    (P := fun d =>
      d.latest.get? key = some address →
        c.latest.get? key = some address)
  · intro d hD hEvicted
    exact hD (latest_of_evictFirst hEvicted)
  · exact id

theorem latest_of_trimBelow
    {c : ConflictCache}
    {mark : Address}
    {key : ConflictKey}
    {address : Address}
    (h : (c.trimBelow mark).1.latest.get? key = some address) :
    c.latest.get? key = some address :=
  latest_of_evictWhile h

/-
  After a write the latest write of a key is this one, if it is
  of the key, and else the one from before.
-/
theorem latest_of_record
    {c next : ConflictCache}
    {keys : SortedSet ConflictKey}
    {version : Address}
    (h : c.record keys version = .ok next)
    {key : ConflictKey}
    {address : Address}
    (hLatest : next.latest.get? key = some address) :
    (if key ∈ keys then some version else c.latest.get? key) =
      some address := by
  rcases record_cases h with ⟨hEmpty, hNext⟩ | ⟨_, hNext⟩
  · rw [hEmpty, if_neg (SortedMap.not_mem_empty key), ← hNext]
    exact hLatest
  · rw [hNext] at hLatest
    have hEntered := latest_of_evictWhile hLatest
    simp only [latest_foldl_move, SortedSet.mem_toList_iff] at hEntered
    exact hEntered

------------------------------------------------------------
-- Addresses without keys
------------------------------------------------------------

/- No address of the window is without keys. -/
def Populated (c : ConflictCache) : Prop :=
  ∀ address keys,
    c.window.get? address = some keys → ∃ key, key ∈ keys

theorem populated_new
    (capacity : Nat)
    (capacity_pos : 0 < capacity)
    (bound : Address) :
    (new capacity capacity_pos bound).Populated :=
  nofun

/- An address goes with the last of its keys. -/
theorem Populated.detach
    {c : ConflictCache}
    (h : c.Populated)
    (key : ConflictKey)
    (address : Address) : (c.detach key address).Populated := by
  unfold ConflictCache.detach
  split
  · exact h
  · next keys hKeys =>
    intro a others hOthers
    simp only at hOthers
    split at hOthers
    · simp only [SortedMap.get?_erase] at hOthers
      split at hOthers
      · cases hOthers
      · exact h a others hOthers
    · next hLeft =>
      simp only [SortedMap.get?_insert] at hOthers
      split at hOthers
      · cases hOthers
        apply SortedMap.exists_mem_of_ne_empty
        intro hEmpty
        exact hLeft (SortedMap.isEmpty_iff.mpr hEmpty)
      · exact h a others hOthers

theorem Populated.move
    {c : ConflictCache}
    (h : c.Populated)
    (version : Address)
    (key : ConflictKey) :
    (ConflictCache.move version c key).Populated := by
  unfold ConflictCache.move
  simp only
  split
  · next previous _ => exact h.detach key previous
  · exact h

theorem Populated.foldl_move
    {c : ConflictCache}
    (h : c.Populated)
    (version : Address)
    (keys : List ConflictKey) :
    (keys.foldl (ConflictCache.move version) c).Populated := by
  induction keys generalizing c with
  | nil => exact h
  | cons key keys ih => exact ih (h.move version key)

------------------------------------------------------------
-- Tidiness
------------------------------------------------------------

/-
  Both views describe the same latest writes, and the window
  has an address only for the keys there.
-/
structure Tidy (c : ConflictCache) : Prop where
  coherent : c.Coherent
  populated : c.Populated

theorem tidy_new
    (capacity : Nat)
    (capacity_pos : 0 < capacity)
    (bound : Address) : (new capacity capacity_pos bound).Tidy where
  coherent := coherent_new capacity capacity_pos bound
  populated := populated_new capacity capacity_pos bound

/- A write of at least one key, before any eviction. -/
theorem tidy_entered
    {c : ConflictCache}
    (h : c.Tidy)
    {keys : SortedSet ConflictKey}
    (hKeys : keys ≠ ∅)
    {version : Address}
    (hVersion : c.window.get? version = none) :
    let moved := keys.toList.foldl (move version) c
    Tidy { moved with window := moved.window.insert version keys } := by
  intro moved
  constructor
  · exact coherent_entered h.coherent keys hVersion
  · intro address others hOthers
    simp only [SortedMap.get?_insert] at hOthers
    split at hOthers
    · cases hOthers
      exact SortedMap.exists_mem_of_ne_empty hKeys
    · exact h.populated.foldl_move version keys.toList address others
        hOthers

theorem Tidy.evictFirst
    {c : ConflictCache}
    (h : c.Tidy) : c.evictFirst.1.Tidy := by
  constructor
  · exact h.coherent.evictFirst
  · cases hFirst : c.window.first? with
    | none =>
      rw [ConflictCache.evictFirst, hFirst]
      exact h.populated
    | some first =>
      rw [evictFirst_of_first? hFirst]
      intro address keys hKeys
      simp only [SortedMap.get?_rest hFirst] at hKeys
      split at hKeys
      · cases hKeys
      · exact h.populated address keys hKeys

theorem Tidy.evictWhile
    {c : ConflictCache}
    (h : c.Tidy)
    (more : ConflictCache → Bool)
    (rounds : Nat) : (ConflictCache.evictWhile more rounds c).1.Tidy := by
  apply evictWhile_induction
  · intro d hD
    exact hD.evictFirst
  · exact h

/- The statistics have no part in tidiness. -/
theorem tidy_measured
    {c : ConflictCache} : c.measured.Tidy ↔ c.Tidy :=
  ⟨fun h => ⟨h.coherent, h.populated⟩,
    fun h => ⟨h.coherent, h.populated⟩⟩

theorem Tidy.trimBelow
    {c : ConflictCache}
    (h : c.Tidy)
    (mark : Address) : (c.trimBelow mark).1.Tidy := by
  unfold ConflictCache.trimBelow
  apply tidy_measured.mpr
  exact h.evictWhile _ _

/-
  An accepted write leaves the cache alone, if it is of no
  keys, and else enters them at a version outside the window.
-/
theorem record_cases_of_keys
    {c next : ConflictCache}
    {keys : SortedSet ConflictKey}
    {version : Address}
    (h : c.record keys version = .ok next) :
    (keys = ∅ ∧ next = c) ∨
      (keys ≠ ∅ ∧ c.window.get? version = none ∧
        next = c.enter keys version) := by
  by_cases hEmpty : keys = ∅
  · left
    refine ⟨hEmpty, ?_⟩
    rw [record] at h
    split at h
    · cases h
    · rw [if_pos (SortedMap.isEmpty_iff.mpr hEmpty)] at h
      cases h
      rfl
  · right
    rcases record_cases h with ⟨hNone, _⟩ | ⟨hVersion, hNext⟩
    · exact absurd hNone hEmpty
    · exact ⟨hEmpty, hVersion, hNext⟩

------------------------------------------------------------
-- One view from the other
------------------------------------------------------------

/- An address is in the window if it is a latest write. -/
theorem Tidy.mem_window_iff
    {c : ConflictCache}
    (h : c.Tidy)
    {address : Address} :
    address ∈ c.window ↔ ∃ key, c.latest.get? key = some address := by
  rw [SortedMap.mem_iff_exists]
  constructor
  · rintro ⟨keys, hKeys⟩
    rcases h.populated address keys hKeys with ⟨key, hKey⟩
    exact ⟨key, (h.coherent address key).mp ⟨keys, hKeys, hKey⟩⟩
  · rintro ⟨key, hLatest⟩
    rcases (h.coherent address key).mpr hLatest with ⟨keys, hKeys, _⟩
    exact ⟨keys, hKeys⟩

/- Caches with the same latest writes at an address. -/
theorem Tidy.window_eq
    {c d : ConflictCache}
    (hC : c.Tidy)
    (hD : d.Tidy)
    {address : Address}
    (h : ∀ key,
      c.latest.get? key = some address ↔
        d.latest.get? key = some address) :
    c.window.get? address = d.window.get? address := by
  have hMem : address ∈ c.window ↔ address ∈ d.window := by
    rw [hC.mem_window_iff, hD.mem_window_iff]
    exact exists_congr h
  cases hKeys : c.window.get? address with
  | none =>
    rw [SortedMap.get?_eq_none_iff, hMem] at hKeys
    exact (SortedMap.get?_eq_none_iff.mpr hKeys).symm
  | some keys =>
    rcases SortedMap.mem_iff_exists.mp
        (hMem.mp (SortedMap.mem_iff_exists.mpr ⟨keys, hKeys⟩)) with
      ⟨others, hOthers⟩
    rw [hOthers, Option.some_inj]
    apply SortedSet.eq_of_mem_iff
    intro key
    rw [← holds_iff_of_window hKeys, ← holds_iff_of_window hOthers,
      hC.coherent, hD.coherent]
    exact h key

theorem Tidy.window_eq_of_latest
    {c d : ConflictCache}
    (hC : c.Tidy)
    (hD : d.Tidy)
    (h : c.latest = d.latest) : c.window = d.window := by
  apply SortedMap.eq_of_get?_eq
  intro address
  apply hC.window_eq hD
  intro key
  rw [h]

------------------------------------------------------------
-- The start of the window
------------------------------------------------------------

theorem firstAddress?_eq_some_iff
    {c : ConflictCache}
    {address : Address} :
    c.firstAddress? = some address ↔
      ∃ keys, c.window.first? = some (address, keys) := by
  simp [firstAddress?]

/- No latest write is before the first address. -/
theorem Tidy.first_le
    {c : ConflictCache}
    (h : c.Tidy)
    {first : Address × SortedSet ConflictKey}
    (hFirst : c.window.first? = some first)
    {key : ConflictKey}
    {address : Address}
    (hLatest : c.latest.get? key = some address) :
    first.1 ≤ address := by
  have hMem : address ∈ c.window := h.mem_window_iff.mpr ⟨key, hLatest⟩
  rcases SortedMap.le_of_first? hFirst hMem with hSame | hLt
  · rw [hSame]
    exact Address.le_refl _
  · exact Nat.le_of_lt hLt

/- A latest write is in the window, so there is a first address. -/
theorem Tidy.exists_first
    {c : ConflictCache}
    (h : c.Tidy)
    {key : ConflictKey}
    {address : Address}
    (hLatest : c.latest.get? key = some address) :
    ∃ first, c.window.first? = some first ∧ first.1 ≤ address := by
  have hMem : address ∈ c.window := h.mem_window_iff.mpr ⟨key, hLatest⟩
  cases hFirst : c.window.first? with
  | none =>
    rw [SortedMap.eq_empty_of_first? hFirst] at hMem
    exact absurd hMem (SortedMap.not_mem_empty address)
  | some first => exact ⟨first, rfl, h.first_le hFirst hLatest⟩

/- The first address is the latest write of some key. -/
theorem Tidy.exists_latest
    {c : ConflictCache}
    (h : c.Tidy)
    {first : Address × SortedSet ConflictKey}
    (hFirst : c.window.first? = some first) :
    ∃ key, c.latest.get? key = some first.1 := by
  apply h.mem_window_iff.mp
  exact SortedMap.mem_iff_exists.mpr
    ⟨first.2, SortedMap.get?_of_first? hFirst⟩

/- Nothing speaks against a write above all latest ones. -/
theorem Tidy.refusal?_eq_none
    {c : ConflictCache}
    (h : c.Tidy)
    {version : Address}
    (hLatest :
      ∀ key address,
        c.latest.get? key = some address → address < version)
    (keys : List ConflictKey) : c.refusal? keys version = none := by
  rw [refusal?_eq_none_iff]
  refine ⟨?_, ?_, fun key _ previous => hLatest key previous⟩
  · intro hMem
    rcases h.mem_window_iff.mp hMem with ⟨key, hKey⟩
    exact KeyOrder.irrefl version (hLatest key version hKey)
  · intro first hFirst
    rcases firstAddress?_eq_some_iff.mp hFirst with ⟨_, hBucket⟩
    rcases h.exists_latest hBucket with ⟨key, hKey⟩
    exact hLatest key first hKey

/- An eviction takes one address out of the window. -/
theorem windowSize_evictFirst
    {c : ConflictCache}
    {first : Address × SortedSet ConflictKey}
    (hFirst : c.window.first? = some first) :
    c.evictFirst.1.windowSize + 1 = c.windowSize := by
  rw [evictFirst_of_first? hFirst]
  unfold windowSize
  simp only [SortedMap.size_eq_length, SortedMap.entries_rest]
  rw [SortedMap.first?_eq_head?] at hFirst
  cases hEntries : c.window.entries with
  | nil =>
    rw [hEntries] at hFirst
    cases hFirst
  | cons head rest => rfl

------------------------------------------------------------
-- Sizes
------------------------------------------------------------

/- A cache with the keys of another one is no smaller. -/
theorem size_le_of_latest
    {c d : ConflictCache}
    (h : ∀ key, key ∈ d.latest → key ∈ c.latest) :
    d.size ≤ c.size := by
  have hSubset : d.latest.keys ⊆ c.latest.keys := by
    intro key hKey
    rw [SortedMap.mem_keys_iff] at hKey ⊢
    exact h key hKey
  unfold size
  rw [SortedMap.size_eq_length_keys, SortedMap.size_eq_length_keys]
  exact (List.subperm_of_subset d.latest.keys_nodup hSubset).length_le

end ConflictCache

end OrderedLog
