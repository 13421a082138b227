import OrderedLog.Proofs.ConflictCache.Requests
import OrderedLog.Proofs.ConflictCache.Verdicts

/-
  This file proves that more room never makes a conflict cache
  stricter. Two caches of different capacities serve the same
  requests. Then the smaller one has just what the larger one
  has above some floor, and its wildcard covers the rest.

  Each of them may evict more than the other at a request. But
  the larger one stops before it takes an address that the
  smaller one keeps: just before that it would have no more
  keys than the smaller one has in the end, and these are not
  too many even for the smaller one.

  Key definitions include:
    * `ConflictCache.Trails`
    * `ConflictCache.NoStricter`

  Key lemmas include:
    * `ConflictCache.Request.test_of_latest`
    * `ConflictCache.Trails.pending_iff`
    * `ConflictCache.above_of_asked`
    * `ConflictCache.Trails.serve`
    * `ConflictCache.trails_run`
    * `ConflictCache.Trails.remembers`
    * `ConflictCache.Trails.noStricter`

  Key theorems include:
    * `ConflictCache.run_noStricter`
-/

namespace OrderedLog

namespace ConflictCache

------------------------------------------------------------
-- A smaller and a larger cache
------------------------------------------------------------

/-
  The first cache has no more room than the second one. It has
  what the second one has above a floor, and its wildcard is
  below neither the floor nor the other wildcard.
-/
structure Trails
    (floor : Option Address)
    (c d : ConflictCache) : Prop where
  smaller : c.Settled
  larger : d.Settled
  capacity : c.capacity ≤ d.capacity
  bound : c.bound = d.bound
  latest :
    ∀ key address,
      c.latest.get? key = some address ↔
        d.latest.get? key = some address ∧ address.Above floor
  wildcard : d.wildcard ≤ c.wildcard
  covered : ∀ address ∈ floor, address ≤ c.wildcard

/- Empty caches know the same, whatever room they have. -/
theorem trails_new
    {smaller larger : Nat}
    (smaller_pos : 0 < smaller)
    (larger_pos : 0 < larger)
    (hCapacity : smaller ≤ larger)
    (bound : Address) :
    Trails none (new smaller smaller_pos bound)
      (new larger larger_pos bound) where
  smaller := settled_new smaller smaller_pos bound
  larger := settled_new larger larger_pos bound
  capacity := hCapacity
  bound := rfl
  latest := fun _ address => (and_iff_left address.above_none).symm
  wildcard := Address.le_refl bound
  covered := nofun

------------------------------------------------------------
-- One request
------------------------------------------------------------

/- A cache with more keys and no more room has more to evict. -/
theorem Request.test_of_latest
    {c d : ConflictCache}
    (hC : c.Tidy)
    (hD : d.Tidy)
    (hCapacity : c.capacity ≤ d.capacity)
    (hLatest : ∀ key address,
      d.latest.get? key = some address →
        c.latest.get? key = some address)
    {request : Request}
    (h : request.test d = true) : request.test c = true := by
  cases request with
  | record keys version => exact overfull_of_latest hCapacity hLatest h
  | trim mark => exact startsBelow_of_latest hC hD hLatest h
  | rule transaction => exact absurd h Bool.false_ne_true

variable {floor : Option Address}
variable {c d : ConflictCache}
variable {request : Request}

/- A write that both accept is above the floor. -/
theorem Trails.pending_iff
    (h : Trails floor c d)
    (hSmaller : accepted? request (c.serve request).1 = request.write?)
    (hLarger : accepted? request (d.serve request).1 = request.write?)
    (hNewer : ∀ write ∈ request.write?, write.version.Above floor)
    (key : ConflictKey)
    (address : Address) :
    c.pending request key = some address ↔
      d.pending request key = some address ∧ address.Above floor := by
  cases hWrite : request.write? with
  | none =>
    rw [hWrite] at hSmaller hLarger
    rw [pending_of_not_accepted hSmaller, pending_of_not_accepted hLarger]
    exact h.latest key address
  | some write =>
    rw [hWrite] at hSmaller hLarger
    rw [pending_of_accepted hSmaller, pending_of_accepted hLarger]
    unfold overwritten
    by_cases hKey : key ∈ write.keys
    · rw [if_pos hKey, if_pos hKey, iff_self_and, Option.some_inj]
      intro hSame
      exact hSame ▸ hNewer write hWrite
    · rw [if_neg hKey, if_neg hKey]
      exact h.latest key address

/-
  What is above the floor and above all that the smaller cache
  has evicted, the larger cache has not evicted either. Else the
  smaller cache would have all the keys that made the test ask
  the larger one, and would be asked as well.
-/
theorem above_of_asked
    {ours theirs : ConflictKey → Option Address}
    {ourFloor theirFloor : Option Address}
    {next : ConflictCache}
    (hCapacity : c.capacity ≤ d.capacity)
    (hWrites : ∀ key address,
      ours key = some address ↔
        theirs key = some address ∧ address.Above floor)
    (hLeaves : Leaves ours ourFloor c next)
    (hDone : request.test next = false)
    (hAsked : Asked request.test theirs theirFloor d)
    {address : Address}
    (hOurs : address.Above ourFloor)
    (hFloor : address.Above floor) : address.Above theirFloor := by
  intro evicted hEvicted
  by_contra hNot
  have hReached : address ≤ evicted := Address.not_lt.mp hNot
  rcases hAsked evicted hEvicted with
    ⟨lower, before, hBefore, hFirst, hTest⟩
  have hKept : ∀ key latest,
      before.latest.get? key = some latest →
        next.latest.get? key = some latest := by
    intro key latest hLatest
    rcases (hBefore.latest_of_le hFirst).mp hLatest with ⟨hWrite, hLe⟩
    have hAddress : address ≤ latest := Address.le_trans hReached hLe
    have hOurWrite := (hWrites key latest).mpr
      ⟨hWrite, hFloor.mono hAddress⟩
    exact (hLeaves.latest key latest).mpr
      ⟨hOurWrite, hOurs.mono hAddress⟩
  have hRoom : next.capacity ≤ before.capacity := by
    rw [hLeaves.capacity, hBefore.capacity]
    exact hCapacity
  have hMore := Request.test_of_latest hLeaves.tidy hBefore.tidy hRoom
    hKept hTest
  rw [hDone] at hMore
  exact Bool.false_ne_true hMore

/-
  After a request that both accept the smaller cache has what
  the larger one has above a floor, which is the old one or is
  what the smaller cache has evicted.
-/
theorem Trails.serve
    (h : Trails floor c d)
    (hSmaller : accepted? request (c.serve request).1 = request.write?)
    (hLarger : accepted? request (d.serve request).1 = request.write?)
    (hNewer : ∀ write ∈ request.write?, write.version.Above floor) :
    ∃ next,
      Trails next (c.serve request).2 (d.serve request).2 ∧
        ∀ address ∈ next,
          address ∈ floor ∨ ∃ key, c.pending request key = some address := by
  have hWrites := h.pending_iff hSmaller hLarger hNewer
  rcases h.smaller.leaves_serve request with ⟨ours, hOurs, hDone, _⟩
  rcases h.larger.leaves_serve request with
    ⟨theirs, hTheirs, _, hAsked⟩
  have hRaised : ∀ address ∈ ours, address.Above floor := by
    intro address hAddress
    rcases hOurs.reached address hAddress with ⟨key, hWrite⟩
    exact ((hWrites key address).mp hWrite).2
  have hCovered : ∀ address ∈ ours.or floor,
      address ≤ (c.serve request).2.wildcard := by
    intro address hAddress
    rcases Option.or_eq_some_iff.mp hAddress with hNow | ⟨_, hBefore⟩
    · exact hOurs.floor_le hNow
    · exact Address.le_trans (h.covered address hBefore)
        hOurs.wildcard_le
  -- the larger cache has evicted nothing above the new floor
  have hKept : ∀ address : Address,
      address.Above ours → address.Above floor → address.Above theirs :=
    fun _ => above_of_asked h.capacity hWrites hOurs hDone hAsked
  refine ⟨ours.or floor, ?_, ?_⟩
  · constructor
    · exact h.smaller.serve request
    · exact h.larger.serve request
    · rw [hOurs.capacity, hTheirs.capacity]
      exact h.capacity
    · rw [hOurs.bound, hTheirs.bound]
      exact h.bound
    · intro key address
      rw [hOurs.latest, hTheirs.latest, hWrites,
        Address.above_or_iff hRaised]
      constructor
      · rintro ⟨⟨hWrite, hFloor⟩, hOurFloor⟩
        exact ⟨⟨hWrite, hKept address hOurFloor hFloor⟩,
          hOurFloor, hFloor⟩
      · rintro ⟨⟨hWrite, _⟩, hOurFloor, hFloor⟩
        exact ⟨⟨hWrite, hFloor⟩, hOurFloor⟩
    · rcases hTheirs.wildcard_cases with hSame | hEvicted
      · rw [hSame]
        exact Address.le_trans h.wildcard hOurs.wildcard_le
      · have hNotAbove :
            ¬ (d.serve request).2.wildcard.Above (ours.or floor) := by
          rw [Address.above_or_iff hRaised]
          intro hAbove
          exact KeyOrder.irrefl _
            (hKept _ hAbove.1 hAbove.2 _ hEvicted)
        rcases Address.not_above_iff.mp hNotAbove with
          ⟨other, hOther, hLe⟩
        exact Address.le_trans hLe (hCovered other hOther)
    · exact hCovered
  · intro address hAddress
    rcases Option.or_eq_some_iff.mp hAddress with hNow | ⟨_, hBefore⟩
    · exact Or.inr (hOurs.reached address hNow)
    · exact Or.inl hBefore

------------------------------------------------------------
-- Runs
------------------------------------------------------------

/- Over a run the floor is the version of some write. -/
theorem trails_run
    {smaller larger : Nat}
    (smaller_pos : 0 < smaller)
    (larger_pos : 0 < larger)
    (hCapacity : smaller ≤ larger)
    (bound : Address)
    {requests : List Request}
    (hAscending : Ascending requests) :
    ∃ floor,
      Trails floor ((new smaller smaller_pos bound).run requests).2
          ((new larger larger_pos bound).run requests).2 ∧
        ∀ address ∈ floor,
          ∃ write ∈ writes requests, write.version = address := by
  induction requests using List.reverseRecOn with
  | nil =>
    exact ⟨none, trails_new smaller_pos larger_pos hCapacity bound, nofun⟩
  | append_singleton requests request ih =>
    rcases hAscending.of_concat with ⟨hBefore, hLater⟩
    rcases ih hBefore with ⟨floor, hTrails, hFloor⟩
    have hNewer : ∀ write ∈ request.write?,
        write.version.Above floor := by
      intro write hWrite address hAddress
      rcases hFloor address hAddress with ⟨earlier, hEarlier, rfl⟩
      exact hLater write hWrite earlier hEarlier
    rcases hTrails.serve hAscending.accepted?_eq hAscending.accepted?_eq
        hNewer with ⟨next, hNext, hReached⟩
    rw [run_concat, run_concat]
    refine ⟨next, hNext, ?_⟩
    intro address hAddress
    rcases hReached address hAddress with hOld | ⟨key, hWrite⟩
    · rcases hFloor address hOld with ⟨write, hWrite, hVersion⟩
      rw [writes_concat]
      exact ⟨write, List.mem_append_left _ hWrite, hVersion⟩
    · rcases exists_write_of_pending hWrite with
        ⟨write, hWrite, _, hVersion⟩
      exact ⟨write, hWrite, hVersion⟩

------------------------------------------------------------
-- Verdicts
------------------------------------------------------------

/- The smaller cache remembers all that the larger one does. -/
theorem Trails.remembers
    (h : Trails floor c d)
    {key : ConflictKey}
    {address : Address}
    (hRemembers : d.Remembers key address) : c.Remembers key address := by
  cases hOurs : c.latest.get? key with
  | some latest =>
    have hTheirs := ((h.latest key latest).mp hOurs).1
    rw [remembers_of_some hTheirs] at hRemembers
    exact (remembers_of_some hOurs).mpr hRemembers
  | none =>
    rw [remembers_of_none hOurs]
    cases hTheirs : d.latest.get? key with
    | none =>
      rw [remembers_of_none hTheirs] at hRemembers
      exact Address.le_trans hRemembers h.wildcard
    | some latest =>
      rw [remembers_of_some hTheirs] at hRemembers
      have hBelow : ¬ latest.Above floor := by
        intro hAbove
        have hSome := (h.latest key latest).mpr ⟨hTheirs, hAbove⟩
        rw [hOurs] at hSome
        cases hSome
      rcases Address.not_above_iff.mp hBelow with ⟨other, hOther, hLe⟩
      exact Address.le_trans hRemembers
        (Address.le_trans hLe (h.covered other hOther))

/-
  The second cache is not stricter than the first one, which has
  a part of it that lies above some address, or all of it.
-/
structure NoStricter (c d : ConflictCache) : Prop where
  part :
    ∃ floor : Option Address, ∀ key address,
      c.get? key = some address ↔
        d.get? key = some address ∧ address.Above floor
  wildcard_le : d.wildcard ≤ c.wildcard
  commits : ∀ t, c.verdict t = .commit → d.verdict t = .commit

theorem Trails.noStricter
    (h : Trails floor c d) : NoStricter c d where
  part := ⟨floor, h.latest⟩
  wildcard_le := h.wildcard
  commits := by
    intro t hCommit
    by_contra hAbort
    apply verdict_ne_commit_iff.mpr _ hCommit
    rcases verdict_ne_commit_iff.mp hAbort with
      hBound | ⟨key, address, hNames, hLt, hRemembers⟩
    · rw [h.bound]
      exact Or.inl hBound
    · exact Or.inr ⟨key, address, hNames, hLt, h.remembers hRemembers⟩

/-
  Two caches serve any writes at increasing versions and any
  trims. Both accept every write, and the one with more room is
  not stricter than the other.
-/
theorem run_noStricter
    (smaller larger : Nat)
    (smaller_pos : 0 < smaller)
    (hCapacity : smaller ≤ larger)
    (bound : Address)
    (requests : List Request)
    (hAscending : Ascending requests) :
    let larger_pos := Nat.lt_of_lt_of_le smaller_pos hCapacity
    let c := (new smaller smaller_pos bound).run requests
    let d := (new larger larger_pos bound).run requests
    (∀ refusal, .refused refusal ∉ c.1 ∧ .refused refusal ∉ d.1) ∧
      NoStricter c.2 d.2 := by
  intro larger_pos c d
  rcases trails_run smaller_pos larger_pos hCapacity bound hAscending with
    ⟨floor, hTrails, _⟩
  refine ⟨?_, hTrails.noStricter⟩
  intro refusal
  exact ⟨hAscending.not_refused refusal, hAscending.not_refused refusal⟩

/-
  With room for two keys the last write evicts what is left of
  the first one. With room for three keys it evicts nothing.
-/
def crowdedWrites : List Request :=
  let keys := keysOf (StreamId.ofNat 7)
  [ .record (keys [1, 2]) (Address.ofNat 5),
    .trim (Address.ofNat 5),
    .record (keys [1]) (Address.ofNat 8),
    .record (keys [3]) (Address.ofNat 9) ]

theorem crowdedWrites_noStricter :
    let c := (new 2 (by decide) (Address.ofNat 1)).run crowdedWrites
    let d := (new 3 (by decide) (Address.ofNat 1)).run crowdedWrites
    Ascending crowdedWrites ∧
      c.2.wildcard = Address.ofNat 5 ∧ c.2.size = 2 ∧
      d.2.wildcard = Address.ofNat 1 ∧ d.2.size = 3 ∧
      (∀ refusal, .refused refusal ∉ c.1 ∧ .refused refusal ∉ d.1) ∧
      NoStricter c.2 d.2 :=
  have hAscending : Ascending crowdedWrites := by decide
  ⟨hAscending, by decide, by decide, by decide, by decide,
    run_noStricter 2 3 (by decide) (by decide) (Address.ofNat 1)
      crowdedWrites hAscending⟩

end ConflictCache

end OrderedLog
