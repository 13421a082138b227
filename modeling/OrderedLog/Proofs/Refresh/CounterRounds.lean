import OrderedLog.Proofs.Journal.ReadValues
import OrderedLog.Proofs.Refresh.Orders

/-
  This file proves that counters are refreshed by means of what
  belongs to them: the snapshots of a counter itself, and the
  log, which no refresh changes. So a round over counters reads
  those that are behind, and rounds that go through them in
  different orders cannot be told apart.

  Key definitions include:
    * `Counter.logOf`
    * `Counter.searched`
    * `Counter.counterWork`

  Key lemmas include:
    * `Counter.readCached_of_some`
    * `Counter.readCached_of_none`
    * `Counter.refreshTarget_confined`
    * `Counter.refreshTarget_actsOn`

  Key theorems include:
    * `Counter.rounds_refresh_behind`
    * `Counter.rounds_agree`
-/

namespace OrderedLog

namespace Counter

open RefreshTarget

------------------------------------------------------------
-- Reads that are counted
------------------------------------------------------------

/- The log, but for the number of entries that were replayed. -/
def logOf
    (_ : StreamId)
    (j : Journal) : Journal :=
  { j with replayed := 0 }

/- A replay reads the log and counts, and the count has no part in it. -/
theorem logOf_replay
    (object stream : StreamId)
    (j : Journal)
    (lower : Option Address)
    (upper : Address) :
    logOf object (j.replay stream lower upper).2 = logOf object j := by
  unfold Journal.replay
  split
  · rfl
  · rfl

theorem replay_logOf
    (object stream : StreamId)
    (j : Journal)
    (lower : Option Address)
    (upper : Address) :
    ((logOf object j).replay stream lower upper).1 =
      (j.replay stream lower upper).1 := by
  unfold Journal.replay
  split
  · rfl
  · rfl

/- What is counted when there is no snapshot at the very version. -/
def searched
    (stats : CacheStats)
    (found : Bool) : CacheStats :=
  let looked :=
    if found then stats.recordMiss.recordFloorHit
    else stats.recordMiss.recordFloorMiss
  looked.recordPut

theorem searched_eq_plus
    (stats : CacheStats)
    (found : Bool) :
    searched stats found = stats.plus (searched CacheStats.zero found) := by
  cases found with
  | true => rfl
  | false => rfl

/- An exact lookup is counted as a hit or as a miss. -/
theorem counted_exact
    (id : VersionedId)
    (c : CounterCache) :
    (exact id c).2.registry = c.registry ∧
      (exact id c).2.stats =
        if (c.valueAt? id).isSome then c.stats.recordHit
        else c.stats.recordMiss := by
  unfold exact SnapshotCache.get SnapshotCache.valueAt?
  cases c.live.get? id with
  | none => exact ⟨rfl, rfl⟩
  | some entry => exact ⟨rfl, rfl⟩

/- A floor lookup is counted in the same way. -/
theorem counted_base
    (id : VersionedId)
    (c : CounterCache) :
    (base id c).2.registry = c.registry ∧
      (base id c).2.stats =
        if (baseOf id c).2.isSome then c.stats.recordFloorHit
        else c.stats.recordFloorMiss := by
  unfold base baseOf SnapshotCache.floor SnapshotCache.valueAt?
  cases c.floorVersion? id with
  | none => exact ⟨rfl, rfl⟩
  | some version =>
    cases hEntry : c.live.get? (id.withVersion version) with
    | none => simp [hEntry]
    | some entry => simp [hEntry, SnapshotCache.issue,
        SnapshotCache.register, SnapshotCache.release]

/- To read a value that is cached changes what is counted alone. -/
theorem readCached_of_some
    {id : VersionedId}
    {c : CounterCache}
    {value : Int}
    (hValue : c.valueAt? id = some value)
    (j : Journal) :
    (readCached id.object id.version (c, j)).2.1.SameContents c ∧
      (readCached id.object id.version (c, j)).2.1.registry =
        c.registry ∧
      (readCached id.object id.version (c, j)).2.1.stats =
        c.stats.recordHit ∧
      (readCached id.object id.version (c, j)).2.2 = j := by
  have hExact := exact_eq id c
  have hCounted := counted_exact id c
  unfold readCached
  rcases hLookup : exact id c with ⟨found, cache⟩
  rw [hLookup, hValue] at hExact hCounted
  rcases hExact with ⟨hFound, hSame⟩
  simp only at hFound
  subst hFound
  simp only [hLookup]
  exact ⟨hSame, hCounted.1, hCounted.2, trivial⟩

/- A value that is not cached is put there, and the log is read. -/
theorem readCached_of_none
    {id : VersionedId}
    {c : CounterCache}
    (hValue : c.valueAt? id = none)
    (j : Journal) :
    (readCached id.object id.version (c, j)).2.1.index =
        c.index.insert id.object
          ((c.versions id.object).add id.version) ∧
      (readCached id.object id.version (c, j)).2.1.registry =
        c.registry ∧
      (readCached id.object id.version (c, j)).2.1.stats =
        searched c.stats (baseOf id c).2.isSome ∧
      logOf id.object (readCached id.object id.version (c, j)).2.2 =
        logOf id.object j := by
  have hExact := exact_eq id c
  have hCounted := counted_exact id c
  unfold readCached
  rcases hLookup : exact id c with ⟨found, cache⟩
  rw [hLookup, hValue] at hExact hCounted
  rcases hExact with ⟨hFound, hSame⟩
  simp only at hFound
  subst hFound
  have hBase := base_eq id cache
  have hCountedBase := counted_base id cache
  rcases hFloor : base id cache with ⟨start, later⟩
  rw [hFloor, baseOf_congr hSame] at hBase hCountedBase
  rcases hBase with ⟨hStart, hLater⟩
  simp only at hStart
  subst hStart
  have hIndex : later.index = c.index := hLater.index.trans hSame.index
  simp only [hLookup, hFloor]
  refine ⟨?_, hCountedBase.1.trans hCounted.1, ?_, ?_⟩
  · simp [SnapshotCache.put, SnapshotCache.indexVersion,
      SnapshotCache.insertSnapshot, SnapshotCache.versions, hIndex]
  · have hMissed : cache.stats = c.stats.recordMiss := hCounted.2
    have hLooked := hCountedBase.2
    rw [hMissed] at hLooked
    exact congrArg CacheStats.recordPut hLooked
  · exact logOf_replay id.object id.object j (baseOf id c).2 id.version

------------------------------------------------------------
-- Refreshes of counters
------------------------------------------------------------

/- Where a read starts, by what belongs to a counter. -/
def startOf
    (tail : Address)
    (cell : Cell Int Journal) : Int × Option Address :=
  let upTo :=
    (cell.versions.getD ∅).toList.filter (fun v => v ≤ tail)
  (upTo.getLast?.bind (fun version =>
    (cell.value? version).map (fun value =>
      (value, some version)))).getD (0, none)

/- How a counter is refreshed. -/
def counterWork
    (object : StreamId)
    (_ : Unit)
    (tail : Address)
    (cell : Cell Int Journal) : Work Int Journal :=
  match cell.value? tail with
  | some _ => ⟨true, cell, CacheStats.zero.recordHit⟩
  | none =>
    let start := startOf tail cell
    let value := start.1 + (cell.share.replay object start.2 tail).1
    { succeeded := true
      cell :=
        { versions := some ((cell.versions.getD ∅).add tail)
          value? := fun version =>
            if version = tail then some value else cell.value? version
          share := cell.share }
      spent := searched CacheStats.zero start.2.isSome }

/- What belongs to a counter is enough to know where a read starts. -/
theorem startOf_cellOf
    (id : VersionedId)
    (c : CounterCache)
    (j : Journal) :
    startOf id.version (cellOf logOf id.object (c, j)) = baseOf id c :=
  rfl

/- What is read is what the work of the counter comes to. -/
theorem readValue_of_none
    {id : VersionedId}
    {c : CounterCache}
    (hValue : c.valueAt? id = none)
    (j : Journal) :
    readValue id c j =
      (baseOf id c).1 +
        ((logOf id.object j).replay id.object (baseOf id c).2
          id.version).1 := by
  rw [readValue, hValue, Option.getD_none, replay_logOf]

/- A refresh leaves what belongs to the other counters as it is. -/
theorem cellOf_readCached_of_ne
    {id : VersionedId}
    {other : StreamId}
    (hOther : other ≠ id.object)
    (c : CounterCache)
    (j : Journal) :
    cellOf logOf other (readCached id.object id.version (c, j)).2 =
      cellOf logOf other (c, j) := by
  have hLeaves := (readCached_eq id c j).2
  have hValues : ∀ version,
      (readCached id.object id.version (c, j)).2.1.valueAt?
          ⟨other, version⟩ =
        c.valueAt? ⟨other, version⟩ := by
    intro version
    rw [hLeaves.values, if_neg]
    intro hSame
    exact hOther (congrArg VersionedId.object hSame)
  cases hValue : c.valueAt? id with
  | some value =>
    rcases readCached_of_some hValue j with ⟨hSame, _, _, hLog⟩
    unfold cellOf
    rw [Cell.mk.injEq, hSame.index, hLog]
    exact ⟨rfl, funext hValues, rfl⟩
  | none =>
    rcases readCached_of_none hValue j with ⟨hIndex, _, _, hLog⟩
    unfold cellOf
    rw [Cell.mk.injEq, hIndex, SortedMap.get?_insert, if_neg hOther]
    exact ⟨rfl, funext hValues, hLog⟩

/- A refresh does the work of its counter. -/
theorem cellOf_readCached
    (id : VersionedId)
    (c : CounterCache)
    (j : Journal) :
    cellOf logOf id.object (readCached id.object id.version (c, j)).2 =
        (counterWork id.object () id.version
          (cellOf logOf id.object (c, j))).cell ∧
      (readCached id.object id.version (c, j)).2.1.registry =
        c.registry ∧
      (readCached id.object id.version (c, j)).2.1.stats =
        c.stats.plus
          (counterWork id.object () id.version
            (cellOf logOf id.object (c, j))).spent := by
  have hLeaves := (readCached_eq id c j).2
  have hHere : (cellOf logOf id.object (c, j)).value? id.version =
      c.valueAt? id := rfl
  cases hValue : c.valueAt? id with
  | some value =>
    rcases readCached_of_some hValue j with
      ⟨hSame, hRegistry, hStats, hLog⟩
    simp only [counterWork, hHere, hValue]
    refine ⟨?_, hRegistry, hStats⟩
    unfold cellOf
    rw [Cell.mk.injEq, hSame.index, hLog]
    exact ⟨rfl, funext (fun version => hSame.values _), rfl⟩
  | none =>
    rcases readCached_of_none hValue j with
      ⟨hIndex, hRegistry, hStats, hLog⟩
    have hRead := readValue_of_none hValue j
    simp only [counterWork, hHere, hValue, startOf_cellOf]
    refine ⟨?_, hRegistry, ?_⟩
    · have hValues : ∀ version,
          (readCached id.object id.version (c, j)).2.1.valueAt?
              ⟨id.object, version⟩ =
            if version = id.version then some (readValue id c j)
            else c.valueAt? ⟨id.object, version⟩ := by
        intro version
        have hSame : (⟨id.object, version⟩ : VersionedId) = id ↔
            version = id.version :=
          ⟨congrArg VersionedId.version,
            fun hVersion => VersionedId.eq_of_parts_eq rfl hVersion⟩
        rw [hLeaves.values]
        simp only [hSame]
      rw [hRead] at hValues
      unfold cellOf
      rw [Cell.mk.injEq, hIndex, SortedMap.get?_insert, if_pos rfl]
      exact ⟨rfl, funext hValues, hLog⟩
    · rw [hStats]
      exact searched_eq_plus c.stats _

------------------------------------------------------------
-- Rounds over counters
------------------------------------------------------------

theorem refreshTarget_confined : refreshTarget.Confined := by
  have hCounters : ∀ (object : StreamId) (tail : Address)
      (s : CounterCache × Journal),
      (readCached object tail s).2.1.stats.rounds = s.1.stats.rounds ∧
        (readCached object tail s).2.1.stats.refreshed =
          s.1.stats.refreshed ∧
        (readCached object tail s).2.1.stats.refreshFailures =
          s.1.stats.refreshFailures := by
    intro object tail s
    rcases s with ⟨c, j⟩
    cases hValue : c.valueAt? ⟨object, tail⟩ with
    | some value =>
      have hStats := (readCached_of_some hValue j).2.2.1
      rw [hStats]
      exact ⟨rfl, rfl, rfl⟩
    | none =>
      have hStats := (readCached_of_none hValue j).2.2.1
      rw [hStats]
      cases (baseOf ⟨object, tail⟩ c).2.isSome with
      | true => exact ⟨rfl, rfl, rfl⟩
      | false => exact ⟨rfl, rfl, rfl⟩
  constructor
  · intro object _ tail s other hOther
    exact versionList_of_cell
      (@cellOf_readCached_of_ne ⟨object, tail⟩ _ hOther s.1 s.2)
  · intro object _ tail s
    exact (hCounters object tail s).1
  · intro object _ tail s
    exact (hCounters object tail s).2.1
  · intro object _ tail s
    exact (hCounters object tail s).2.2

theorem refreshTarget_actsOn :
    refreshTarget.ActsOn logOf counterWork := by
  constructor
  · intro object _ tail s
    unfold counterWork
    cases (cellOf logOf object s).value? tail with
    | none => rfl
    | some value => rfl
  · intro object _ tail s
    exact (cellOf_readCached ⟨object, tail⟩ s.1 s.2).1
  · intro object _ tail s other hOther
    exact @cellOf_readCached_of_ne ⟨object, tail⟩ _ hOther s.1 s.2
  · intro object _ tail s
    exact (cellOf_readCached ⟨object, tail⟩ s.1 s.2).2.1
  · intro object _ tail s
    exact (cellOf_readCached ⟨object, tail⟩ s.1 s.2).2.2
  · intro streams others j hPerm
    have hTails : j.tails streams = j.tails others := by
      apply SortedMap.eq_of_get?_eq
      intro stream
      unfold Journal.tails
      rw [Sequencer.get?_streams_tailsOf, Sequencer.get?_streams_tailsOf]
      simp only [hPerm.mem_iff]
    exact congrArg Except.ok hTails
  · intro object streams j
    rfl

/-
  A round over counters always learns the tails. It reads those
  counters whose snapshots are behind the log.
-/
theorem rounds_refresh_behind
    (s : CounterCache × Journal)
    {objects : List (StreamId × Unit)}
    (hOrder : objects.Perm s.1.registry.entries)
    (hSome : objects ≠ []) :
    refreshTarget.RefreshesBehind objects s
      (s.2.tails (objects.map Prod.fst)) := by
  have hNodup : (objects.map Prod.fst).Nodup :=
    (hOrder.map Prod.fst).nodup_iff.mpr s.1.registry.keys_nodup
  exact refreshTarget_confined.refreshesBehind hNodup s hSome rfl

/-
  Rounds over the same counters in different orders read the
  same of them and leave the same.
-/
theorem rounds_agree
    (s : CounterCache × Journal)
    {objects others : List (StreamId × Unit)}
    (hOrder : objects.Perm s.1.registry.entries)
    (hPerm : objects.Perm others) :
    refreshTarget.Agree logOf objects others s := by
  have hNodup : (objects.map Prod.fst).Nodup :=
    (hOrder.map Prod.fst).nodup_iff.mpr s.1.registry.keys_nodup
  exact refreshTarget_actsOn.agree hNodup hPerm s

end Counter

end OrderedLog
