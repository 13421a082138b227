import OrderedLog.Journal.Counter
import OrderedLog.Proofs.Journal.Sums
import OrderedLog.Proofs.SnapshotCache.Values

/-
  This file proves that a counter reads the same through the
  cache as from the log. Whatever is cached is right: it was
  handed out before, and its value is the sum up to there. So
  an exact snapshot, an older one with the entries since, and
  all entries lead to one value.

  Key definitions include:
    * `Counter.Right`
    * `Counter.RightBase`

  Key lemmas include:
    * `Counter.Right.exact`
    * `Counter.Right.base`
    * `Counter.RightBase.add_replay`

  Key theorems include:
    * `Counter.Right.readCached`
-/

namespace OrderedLog

------------------------------------------------------------
-- Right values
------------------------------------------------------------

namespace Counter

/-
  Every cached value is the sum up to its version, which was
  handed out before.
-/
def Right
    (c : CounterCache)
    (j : Journal) : Prop :=
  ∀ id value, c.valueAt? id = some value →
    j.Settled id.version ∧ value = j.sumUpTo id.object id.version

/- Where to replay from is the sum up to there, or the start. -/
def RightBase
    (j : Journal)
    (id : VersionedId)
    (start : Int)
    (after : Option Address) : Prop :=
  match after with
  | none => start = 0
  | some version =>
    version ≤ id.version ∧ j.Settled version ∧
      start = j.sumUpTo id.object version

theorem right_empty (j : Journal) : Right SnapshotCache.empty j := by
  intro id value hValue
  cases hValue

theorem Right.within
    {c d : CounterCache}
    {j : Journal}
    (h : Right c j)
    (hWithin : d.Within c) : Right d j :=
  fun id value hValue => h id value (hWithin id value hValue)

/- What is right stays so as the log grows. -/
theorem Right.grows
    {c : CounterCache}
    {j k : Journal}
    (h : Right c j)
    (hGrows : j.Grows k) : Right c k := by
  intro id value hValue
  rcases h id value hValue with ⟨hSettled, hSum⟩
  refine ⟨hGrows.settled _ hSettled, ?_⟩
  rw [hGrows.sums _ _ hSettled]
  exact hSum

theorem RightBase.grows
    {j k : Journal}
    {id : VersionedId}
    {start : Int}
    {after : Option Address}
    (h : RightBase j id start after)
    (hGrows : j.Grows k) : RightBase k id start after := by
  cases after with
  | none => exact h
  | some version =>
    rcases h with ⟨hBelow, hSettled, hSum⟩
    refine ⟨hBelow, hGrows.settled _ hSettled, ?_⟩
    rw [hGrows.sums _ _ hSettled]
    exact hSum

/- A right value may be stored. -/
theorem Right.insertSnapshot
    {c : CounterCache}
    {j : Journal}
    (h : Right c j)
    (id : VersionedId)
    (hSettled : j.Settled id.version) :
    Right (c.insertSnapshot id (j.sumUpTo id.object id.version)) j := by
  intro other value hValue
  rw [SnapshotCache.valueAt?_insertSnapshot] at hValue
  by_cases hSame : other = id
  · rw [if_pos hSame] at hValue
    cases hValue
    rw [hSame]
    exact ⟨hSettled, rfl⟩
  · rw [if_neg hSame] at hValue
    exact h other value hValue

------------------------------------------------------------
-- Lookups and replays
------------------------------------------------------------

/- An exact hit is the sum up to the version. -/
theorem Right.exact
    {c : CounterCache}
    {j : Journal}
    (h : Right c j)
    (id : VersionedId) :
    Right (Counter.exact id c).2 j ∧
      ∀ value, (Counter.exact id c).1 = some value →
        value = j.sumUpTo id.object id.version := by
  unfold Counter.exact
  rcases c.get_cases id with
    ⟨handle, next, found, hGet, hFound, hValue, hWithin⟩ |
    ⟨next, hGet, hWithin⟩
  · simp only [hGet]
    refine ⟨h.within ((next.within_release _).trans hWithin), ?_⟩
    intro value hSome
    cases hSome
    rw [hValue]
    exact (h id found hFound).2
  · simp only [hGet]
    refine ⟨h.within hWithin, ?_⟩
    intro value hSome
    cases hSome

/- A read starts from a right value. -/
theorem Right.base
    {c : CounterCache}
    {j : Journal}
    (h : Right c j)
    (id : VersionedId) :
    Right (Counter.base id c).2 j ∧
      RightBase j id (Counter.base id c).1.1 (Counter.base id c).1.2 := by
  unfold Counter.base
  rcases c.floor_cases id with
    ⟨handle, next, version, found, hFloor, hBelow, hFound, hVersion,
      hValue, hWithin⟩ |
    ⟨next, hFloor, hWithin⟩
  · simp only [hFloor]
    refine ⟨h.within ((next.within_release _).trans hWithin), ?_⟩
    rw [hVersion, hValue]
    exact ⟨hBelow, h _ found hFound⟩
  · simp only [hFloor]
    exact ⟨h.within hWithin, rfl⟩

/- The entries since a right value complete it. -/
theorem RightBase.add_replay
    {j : Journal}
    {id : VersionedId}
    {start : Int}
    {after : Option Address}
    (h : RightBase j id start after) :
    start + (j.replay id.object after id.version).1 =
      j.sumUpTo id.object id.version := by
  rw [Journal.replay_eq_sumOver]
  cases after with
  | none =>
    have hStart : start = 0 := h
    rw [hStart, Int.zero_add]
    rfl
  | some version =>
    rcases h with ⟨hBelow, _, hSum⟩
    rw [hSum]
    exact j.sumUpTo_add_sumOver id.object hBelow

/-
  A read through the cache at an address that was handed out
  yields the sum up to there, and leaves right values.
-/
theorem Right.readCached
    {c : CounterCache}
    {j : Journal}
    (h : Right c j)
    {object : StreamId}
    {snapshot : Address}
    (hSettled : j.Settled snapshot) :
    (Counter.readCached object snapshot (c, j)).1 =
        j.sumUpTo object snapshot ∧
      Right (Counter.readCached object snapshot (c, j)).2.1
        (Counter.readCached object snapshot (c, j)).2.2 := by
  have hExact := h.exact ⟨object, snapshot⟩
  unfold Counter.readCached
  rcases hLookup : Counter.exact ⟨object, snapshot⟩ c with ⟨found, cache⟩
  rw [hLookup] at hExact
  cases found with
  | some value =>
    simp only [hLookup]
    exact ⟨hExact.2 value rfl, hExact.1⟩
  | none =>
    have hBase := hExact.1.base ⟨object, snapshot⟩
    rcases hFloor : Counter.base ⟨object, snapshot⟩ cache with
      ⟨⟨start, after⟩, later⟩
    rw [hFloor] at hBase
    simp only [hLookup, hFloor]
    have hSum := hBase.2.add_replay
    have hGrows := j.grows_replay object after snapshot
    rcases hReplay : j.replay object after snapshot with ⟨added, journal⟩
    rw [hReplay] at hSum hGrows
    simp only at hSum hGrows ⊢
    refine ⟨hSum, ?_⟩
    rw [hSum]
    have hStored := hBase.1.insertSnapshot ⟨object, snapshot⟩ hSettled
    exact hStored.grows hGrows

end Counter

end OrderedLog
