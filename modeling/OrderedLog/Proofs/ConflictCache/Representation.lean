import Mathlib.Algebra.GroupWithZero.Nat
import Mathlib.Data.List.Nodup
import OrderedLog.Proofs.ConflictCache.Requests

/-
  This file proves the representation invariant of the conflict
  cache. After every request the two views describe the same
  latest writes, the window has no address without keys, and
  the keys fit into the cache, whatever was written at whatever
  version, refused, evicted or trimmed.

  The sizes in both views agree because the keys at the
  addresses of the window, one after another, are the cached
  keys in another order.

  Key definitions include:
    * `ConflictCache.WellFormed`

  Key lemmas include:
    * `ConflictCache.Tidy.keys_perm`
    * `ConflictCache.Tidy.sum_sizes`
    * `ConflictCache.Settled.wildcard_le_serve`
    * `ConflictCache.wildcard_le_run`

  Key theorems include:
    * `ConflictCache.run_wellFormed`
-/

namespace OrderedLog

namespace ConflictCache

variable {c : ConflictCache}

------------------------------------------------------------
-- Sizes
------------------------------------------------------------

/- A key is at no two addresses. -/
theorem Coherent.address_unique
    (h : c.Coherent)
    {a b : Address}
    {key : ConflictKey}
    (hA : c.Holds a key)
    (hB : c.Holds b key) : a = b := by
  have hLatest := (h a key).mp hA
  rw [(h b key).mp hB] at hLatest
  exact (Option.some_inj.mp hLatest).symm

/- The keys of an entry of the window are held at its address. -/
theorem holds_of_mem_entries
    {bucket : Address × SortedSet ConflictKey}
    (hBucket : bucket ∈ c.window.entries)
    (key : ConflictKey) :
    c.Holds bucket.1 key ↔ key ∈ bucket.2 :=
  holds_iff_of_window (SortedMap.get?_eq_some_iff.mpr hBucket) key

/-
  The keys at all addresses of the window are the cached keys,
  each of them once.
-/
theorem Tidy.keys_perm
    (h : c.Tidy) :
    (c.window.entries.flatMap (fun bucket => bucket.2.toList)).Perm
      c.latest.keys := by
  have hNodup :
      (c.window.entries.flatMap (fun bucket => bucket.2.toList)).Nodup := by
    rw [List.nodup_flatMap]
    refine ⟨fun bucket _ => bucket.2.keys_nodup, ?_⟩
    apply List.Pairwise.imp_of_mem _ c.window.entries_sorted
    intro lower higher hLower hHigher hLt key hKey hOther
    rw [SortedSet.mem_toList_iff] at hKey hOther
    have hSame := h.coherent.address_unique
      ((holds_of_mem_entries hLower key).mpr hKey)
      ((holds_of_mem_entries hHigher key).mpr hOther)
    exact KeyOrder.ne_of_lt hLt hSame
  rw [List.perm_ext_iff_of_nodup hNodup c.latest.keys_nodup]
  intro key
  rw [List.mem_flatMap, SortedMap.mem_keys_iff,
    SortedMap.mem_iff_exists]
  constructor
  · rintro ⟨bucket, hBucket, hKey⟩
    rw [SortedSet.mem_toList_iff] at hKey
    have hHolds := (holds_of_mem_entries hBucket key).mpr hKey
    exact ⟨bucket.1, (h.coherent bucket.1 key).mp hHolds⟩
  · rintro ⟨address, hLatest⟩
    rcases (h.coherent address key).mpr hLatest with ⟨keys, hKeys, hKey⟩
    exact ⟨(address, keys), SortedMap.get?_eq_some_iff.mp hKeys,
      SortedSet.mem_toList_iff.mpr hKey⟩

/- The addresses of the window have as many keys as the cache. -/
theorem Tidy.sum_sizes
    (h : c.Tidy) :
    (c.window.values.map SortedMap.size).sum = c.size := by
  have hLength := h.keys_perm.length_eq
  rw [List.length_flatMap, ← SortedMap.size_eq_length_keys] at hLength
  unfold size
  rw [← hLength]
  unfold SortedMap.values
  rw [List.map_map]
  apply congrArg List.sum
  apply List.map_congr_left
  intro bucket _
  exact bucket.2.size_eq_length_keys

------------------------------------------------------------
-- The wildcard
------------------------------------------------------------

/- No request lowers the wildcard. -/
theorem Settled.wildcard_le_serve
    (h : c.Settled)
    (request : Request) : c.wildcard ≤ (c.serve request).2.wildcard := by
  rcases h.leaves_serve request with ⟨_, hLeaves, _⟩
  exact hLeaves.wildcard_le

theorem wildcard_le_run
    (h : c.Settled)
    (requests : List Request) :
    c.wildcard ≤ (c.run requests).2.wildcard := by
  apply h.run_induction (P := fun d => c.wildcard ≤ d.wildcard) _
    (Address.le_refl _)
  intro d request hD hLe
  exact Address.le_trans hLe (hD.wildcard_le_serve request)

------------------------------------------------------------
-- The invariant
------------------------------------------------------------

/-
  What is true of a conflict cache with room for some keys, for
  a sequencer that started above a bound.
-/
structure WellFormed
    (capacity : Nat)
    (bound : Address)
    (c : ConflictCache) : Prop where
  /- A key is at an address if this is its latest write. -/
  same_relation :
    ∀ address key, c.Holds address key ↔ c.get? key = some address
  no_empty_address :
    ∀ address keys,
      c.keysAt? address = some keys → ∃ key, key ∈ keys
  address_unique :
    ∀ a b key, c.Holds a key → c.Holds b key → a = b
  same_size : (c.window.values.map SortedMap.size).sum = c.size
  size_le : c.size ≤ capacity
  same_bound : c.bound = bound
  bound_le_wildcard : c.bound ≤ c.wildcard

/-
  The representation invariant holds all along a run of any
  requests, and no request lowers the wildcard.
-/
theorem run_wellFormed
    (capacity : Nat)
    (capacity_pos : 0 < capacity)
    (bound : Address)
    (requests : List Request) :
    let c := ((new capacity capacity_pos bound).run requests).2
    c.WellFormed capacity bound ∧
      ∀ request, c.wildcard ≤ (c.serve request).2.wildcard := by
  intro c
  have hNew := settled_new capacity capacity_pos bound
  have hSettled : c.Settled := settled_run hNew requests
  have hCapacity : c.capacity = capacity := capacity_run hNew requests
  have hBound : c.bound = bound := bound_run hNew requests
  refine ⟨?_, hSettled.wildcard_le_serve⟩
  constructor
  · exact hSettled.tidy.coherent
  · exact hSettled.tidy.populated
  · intro a b key
    exact hSettled.tidy.coherent.address_unique
  · exact hSettled.tidy.sum_sizes
  · have hFits := hSettled.fits
    unfold overfull at hFits
    rw [decide_eq_false_iff_not, hCapacity] at hFits
    exact Nat.not_lt.mp hFits
  · exact hBound
  · rw [hBound]
    exact wildcard_le_run hNew requests

/-
  Room for two keys. The second write evicts the first, the
  third is refused, and the fifth lands in the middle of the
  window. The sixth has more keys than there is room for and
  leaves nothing, so that the seventh is accepted again.
-/
def unorderedWrites : List Request :=
  let keys := keysOf (StreamId.ofNat 7)
  [ .record (keys [1, 2]) (Address.ofNat 5),
    .record (keys [3]) (Address.ofNat 9),
    .record (keys [4]) (Address.ofNat 3),
    .record (keys [1]) (Address.ofNat 12),
    .record (keys [2]) (Address.ofNat 10),
    .record (keys [1, 3, 4]) (Address.ofNat 20),
    .record (keys [1, 4]) (Address.ofNat 7),
    .trim (Address.ofNat 7) ]

theorem unorderedWrites_wellFormed :
    ((new 2 (by decide) Address.zero).run unorderedWrites).1 =
        [ .accepted, .accepted,
          .refused (.belowWindow (Address.ofNat 3) (Address.ofNat 9)),
          .accepted, .accepted, .accepted, .accepted, .evicted 0 ] ∧
      ((new 2 (by decide) Address.zero).run unorderedWrites).2.wildcard
        = Address.ofNat 20 ∧
      ((new 2 (by decide) Address.zero).run unorderedWrites).2.size = 2 ∧
      ((new 2 (by decide) Address.zero).run
        unorderedWrites).2.WellFormed 2 Address.zero :=
  ⟨by decide, by decide, by decide,
    (run_wellFormed 2 (by decide) Address.zero unorderedWrites).1⟩

end ConflictCache

end OrderedLog
