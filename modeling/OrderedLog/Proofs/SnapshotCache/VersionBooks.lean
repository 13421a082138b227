import OrderedLog.Proofs.SnapshotCache.Batches
import OrderedLog.Proofs.SnapshotCache.Sharing

/-
  This file proves that no version leaks from the index of a
  shared cache, in whatever order puts, evictions by anyone,
  losses of snapshots and steps of the eviction worker come.
  A put enters its version or finds it there. Each version that
  was entered is listed, or it was evicted and counted, as often
  as it was entered and left again.

  What happens to a cache is booked: which versions puts entered,
  which ones they found, and which ones the index lost. The books
  of parts of a run add up to those of the run.

  Key definitions include:
    * `SnapshotCache.Booked`
    * `SharedCache.advance`
    * `SharedCache.run`
    * `SharedCache.entered`
    * `SharedCache.repeated`
    * `SharedCache.removed`
    * `SharedCache.LeaksNothing`

  Key lemmas include:
    * `SnapshotCache.Booked.append`
    * `SnapshotCache.booked_evictThrough`
    * `SharedCache.booked_enter`
    * `SharedCache.booked_work`
    * `SharedCache.booked_advance`
    * `SharedCache.booked_run`

  Key theorems include:
    * `SharedCache.run_leaks_nothing`
-/

namespace OrderedLog

------------------------------------------------------------
-- Books
------------------------------------------------------------

namespace SnapshotCache

variable {σ ρ : Type}
variable {c d e : SnapshotCache σ ρ}

instance
    (c : SnapshotCache σ ρ)
    (id : VersionedId) : Decidable (c.Indexes id) :=
  inferInstanceAs (Decidable (id.version ∈ c.versionList id.object))

/- The versions that one state of a cache lists and another one does not. -/
def listedOnlyIn (c d : SnapshotCache σ ρ) : List VersionedId :=
  c.indexed.filter (fun id => ¬ d.Indexes id)

/-
  What happened from one state of a cache to another: puts have
  entered some versions and found others there, and evictions
  have removed some. All of it shows in the counters.
-/
structure Booked
    (c : SnapshotCache σ ρ)
    (entered repeated removed : List VersionedId)
    (d : SnapshotCache σ ρ) : Prop where
  listed : (c.indexed ++ entered).Perm (d.indexed ++ removed)
  puts :
    d.stats.puts = c.stats.puts + entered.length + repeated.length
  evicted :
    d.stats.versionsEvicted = c.stats.versionsEvicted + removed.length

/- Nothing happened to the index and its counters. -/
structure SameBooks (c d : SnapshotCache σ ρ) : Prop where
  index : d.index = c.index
  puts : d.stats.puts = c.stats.puts
  evicted : d.stats.versionsEvicted = c.stats.versionsEvicted

theorem sameBooks_refl (c : SnapshotCache σ ρ) : c.SameBooks c :=
  ⟨rfl, rfl, rfl⟩

theorem SameBooks.trans
    (h : c.SameBooks d)
    (h' : d.SameBooks e) : c.SameBooks e :=
  ⟨h'.index.trans h.index, h'.puts.trans h.puts,
    h'.evicted.trans h.evicted⟩

theorem SameBooks.indexed
    (h : c.SameBooks d) : d.indexed = c.indexed := by
  unfold SnapshotCache.indexed
  rw [h.index]

/- Nothing is removed from an index that gets no smaller. -/
theorem listedOnlyIn_eq_nil
    (h : ∀ id, c.Indexes id → d.Indexes id) :
    c.listedOnlyIn d = [] := by
  unfold listedOnlyIn
  rw [List.filter_eq_nil_iff]
  intro id hListed
  simpa using h id (mem_indexed_iff.mp hListed)

/- A report of a removal counts neither puts nor evictions. -/
theorem sameBooks_recordReport
    (c : SnapshotCache σ ρ)
    (report : NoticeQueue.Report) :
    c.SameBooks { c with stats := c.stats.recordReport report } := by
  cases report <;> exact ⟨rfl, rfl, rfl⟩

theorem SameBooks.booked
    (h : c.SameBooks d) : c.Booked [] [] [] d where
  listed := by rw [h.indexed]
  puts := h.puts
  evicted := h.evicted

/- The books of two parts are one, with their lists together. -/
theorem Booked.append
    {entered repeated removed : List VersionedId}
    {entered' repeated' removed' : List VersionedId}
    (h : c.Booked entered repeated removed d)
    (h' : d.Booked entered' repeated' removed' e) :
    c.Booked (entered ++ entered') (repeated ++ repeated')
      (removed ++ removed') e where
  listed := by
    have hSwapped : (d.indexed ++ removed ++ entered').Perm
        (d.indexed ++ entered' ++ removed) := by
      rw [List.append_assoc, List.append_assoc]
      exact List.perm_append_comm.append_left d.indexed
    have hRegrouped : (e.indexed ++ removed' ++ removed).Perm
        (e.indexed ++ (removed ++ removed')) := by
      rw [List.append_assoc]
      exact List.perm_append_comm.append_left e.indexed
    rw [← List.append_assoc]
    exact (((h.listed.append_right entered').trans hSwapped).trans
      (h'.listed.append_right removed)).trans hRegrouped
  puts := by
    rw [h'.puts, h.puts, List.length_append, List.length_append]
    omega
  evicted := by
    rw [h'.evicted, h.evicted, List.length_append, Nat.add_assoc]

------------------------------------------------------------
-- What is booked for a put and for an eviction
------------------------------------------------------------

/- A version that was not listed joins the others. -/
theorem perm_indexed_of_fresh
    {id : VersionedId}
    (h : ¬ c.Indexes id) :
    (c.indexed ++ [id]).Perm (c.indexVersion id).indexed := by
  have hNodup : (c.indexed ++ [id]).Nodup := by
    rw [List.nodup_append_comm, List.singleton_append, List.nodup_cons,
      mem_indexed_iff]
    exact ⟨h, c.nodup_indexed⟩
  rw [List.perm_ext_iff_of_nodup hNodup (nodup_indexed _)]
  intro other
  rw [List.mem_append, List.mem_singleton, mem_indexed_iff,
    mem_indexed_iff, indexes_indexVersion_iff]
  exact or_comm

/- A version that was listed before is listed as it was. -/
theorem perm_indexed_of_listed
    {id : VersionedId}
    (h : c.Indexes id) :
    c.indexed.Perm (c.indexVersion id).indexed := by
  rw [List.perm_ext_iff_of_nodup c.nodup_indexed (nodup_indexed _)]
  intro other
  rw [mem_indexed_iff, mem_indexed_iff, indexes_indexVersion_iff]
  constructor
  · exact Or.inr
  · intro hEither
    rcases hEither with hSame | hListed
    · exact hSame ▸ h
    · exact hListed

/- What an eviction removes from the index it counts. -/
theorem booked_evictThrough
    (c : SnapshotCache σ ρ)
    (id : VersionedId) :
    c.Booked [] [] (c.listedOnlyIn (c.evictThrough id).2)
      (c.evictThrough id).2 := by
  have hEvicts := c.evicts_evictThrough id
  have hRemoved : c.listedOnlyIn (c.evictThrough id).2 =
      c.indexed.filter (fun other => other.CoveredBy [id]) := by
    apply List.filter_congr
    intro other hListed
    have hIndexed := mem_indexed_iff.mp hListed
    simp [hEvicts.indexes_iff, hIndexed]
  have hLeft : (c.evictThrough id).2.indexed.Perm
      (c.indexed.filter (fun other => ! other.CoveredBy [id])) := by
    rw [List.perm_ext_iff_of_nodup (nodup_indexed _)
      (c.nodup_indexed.filter _)]
    intro other
    simp [mem_indexed_iff, hEvicts.indexes_iff]
  constructor
  · rw [List.append_nil, hRemoved]
    refine List.Perm.trans ?_ (hLeft.symm.append_right _)
    exact (List.filter_append_perm _ c.indexed).symm.trans
      List.perm_append_comm
  · rw [hEvicts.others]
    rfl
  · rw [hRemoved, ← hEvicts.counted, hEvicts.others]
    rfl

end SnapshotCache

namespace SharedCache

variable {σ ρ : Type}

------------------------------------------------------------
-- Runs
------------------------------------------------------------

/-
  What an action makes of a shared cache. If it has to wait,
  nothing happens, and it may be tried again later.
-/
def advance
    (batchSize : Nat)
    (s : SharedCache σ ρ)
    (action : Action σ) : SharedCache σ ρ :=
  (s.step? batchSize action).getD s

/- What some actions make of a shared cache, one after the other. -/
def run
    (batchSize : Nat)
    (s : SharedCache σ ρ)
    (actions : List (Action σ)) : SharedCache σ ρ :=
  actions.foldl (advance batchSize) s

/- The version that the second step of a put is about to enter. -/
def entering?
    (s : SharedCache σ ρ) : Action σ → Option VersionedId
  | .enter object =>
    (s.storing.get? object).map (fun version => ⟨object, version⟩)
  | _ => none

/- The versions that the puts of a run enter into the index. -/
def entered
    (batchSize : Nat)
    (s : SharedCache σ ρ) : List (Action σ) → List VersionedId
  | [] => []
  | action :: actions =>
    (s.entering? action).toList.filter (fun id => ¬ s.cache.Indexes id) ++
      entered batchSize (s.advance batchSize action) actions

/- The versions that the puts of a run find in the index. -/
def repeated
    (batchSize : Nat)
    (s : SharedCache σ ρ) : List (Action σ) → List VersionedId
  | [] => []
  | action :: actions =>
    (s.entering? action).toList.filter (fun id => s.cache.Indexes id) ++
      repeated batchSize (s.advance batchSize action) actions

/- The versions that leave the index in a run. -/
def removed
    (batchSize : Nat)
    (s : SharedCache σ ρ) : List (Action σ) → List VersionedId
  | [] => []
  | action :: actions =>
    s.cache.listedOnlyIn (s.advance batchSize action).cache ++
      removed batchSize (s.advance batchSize action) actions

------------------------------------------------------------
-- What is booked for an action
------------------------------------------------------------

theorem sameBooks_notify
    (cause : RemovalCause)
    (s : SharedCache σ ρ)
    (id : VersionedId) : s.cache.SameBooks (s.notify cause id).cache :=
  s.cache.sameBooks_recordReport (s.queue.report id cause).1

theorem sameBooks_lose
    (cause : RemovalCause)
    (s : SharedCache σ ρ)
    (id : VersionedId) : s.cache.SameBooks (s.lose cause id).cache := by
  unfold lose
  split
  · have hDropped : s.cache.SameBooks (s.cache.dropSnapshot id) :=
      ⟨rfl, rfl, rfl⟩
    exact hDropped.trans (sameBooks_notify cause
      { s with cache := s.cache.dropSnapshot id } id)
  · exact s.cache.sameBooks_refl

theorem sameBooks_foldl_lose
    (cause : RemovalCause)
    (ids : List VersionedId)
    (s : SharedCache σ ρ) :
    s.cache.SameBooks (ids.foldl (lose cause) s).cache := by
  induction ids generalizing s with
  | nil => exact s.cache.sameBooks_refl
  | cons id ids ih =>
    exact (sameBooks_lose cause s id).trans (ih (s.lose cause id))

/- The second step of a put is booked by what it finds. -/
theorem booked_enter
    (s : SharedCache σ ρ)
    (id : VersionedId) :
    s.cache.Booked ([id].filter (fun id => ¬ s.cache.Indexes id))
      ([id].filter (fun id => s.cache.Indexes id))
      (s.cache.listedOnlyIn (s.enter id).cache) (s.enter id).cache := by
  have hNone : s.cache.listedOnlyIn (s.enter id).cache = [] :=
    SnapshotCache.listedOnlyIn_eq_nil
      (fun _ hListed =>
        SnapshotCache.indexes_indexVersion_iff.mpr (Or.inr hListed))
  have hIndexed : (s.enter id).cache.indexed =
      (s.cache.indexVersion id).indexed := rfl
  have hPuts : (s.enter id).cache.stats.puts = s.cache.stats.puts + 1 :=
    rfl
  rw [hNone]
  by_cases hListed : s.cache.Indexes id
  · constructor
    · simpa [hListed, hIndexed] using
        SnapshotCache.perm_indexed_of_listed hListed
    · simp [hListed, hPuts]
    · rfl
  · constructor
    · simpa [hListed, hIndexed] using
        SnapshotCache.perm_indexed_of_fresh hListed
    · simp [hListed, hPuts]
    · rfl

/- An eviction removes what it counts, and enters nothing. -/
theorem booked_evict
    (s : SharedCache σ ρ)
    (id : VersionedId) :
    s.cache.Booked [] [] (s.cache.listedOnlyIn (s.evict id).cache)
      (s.evict id).cache := by
  rw [evict_eq]
  exact s.cache.booked_evictThrough id

/- What changes no listed version has nothing to book. -/
theorem booked_of_sameBooks
    {s t : SharedCache σ ρ}
    (h : s.cache.SameBooks t.cache) :
    s.cache.Booked [] [] (s.cache.listedOnlyIn t.cache) t.cache := by
  have hNone : s.cache.listedOnlyIn t.cache = [] := by
    apply SnapshotCache.listedOnlyIn_eq_nil
    intro id hListed
    rw [← SnapshotCache.mem_indexed_iff, h.indexed]
    exact SnapshotCache.mem_indexed_iff.mpr hListed
  rw [hNone]
  exact h.booked

theorem booked_work
    {batchSize : Nat}
    {s t : SharedCache σ ρ}
    (h : s.work? batchSize = some t) :
    s.cache.Booked [] [] (s.cache.listedOnlyIn t.cache) t.cache := by
  unfold work? at h
  simp only at h
  split at h
  · cases h
    exact booked_of_sameBooks s.cache.sameBooks_refl
  · split at h
    · cases h
    · cases h
      rw [evict_eq]
      exact s.cache.booked_evictThrough _

/- Whatever an action does to the index is booked. -/
theorem booked_step
    {batchSize : Nat}
    {s t : SharedCache σ ρ}
    {action : Action σ}
    (h : s.step? batchSize action = some t) :
    s.cache.Booked
      ((s.entering? action).toList.filter (fun id => ¬ s.cache.Indexes id))
      ((s.entering? action).toList.filter (fun id => s.cache.Indexes id))
      (s.cache.listedOnlyIn t.cache) t.cache := by
  cases action with
  | store id value lost =>
    simp only [step?] at h
    split at h
    · cases h
    · cases h
      have hStored : s.cache.SameBooks (s.store id value).cache := by
        rw [store_eq]
        exact ⟨rfl, rfl, rfl⟩
      exact booked_of_sameBooks
        (hStored.trans
          (sameBooks_foldl_lose .size lost (s.store id value)))
  | enter object =>
    simp only [step?] at h
    cases hStoring : s.storing.get? object with
    | none => simp [hStoring] at h
    | some version =>
      simp only [hStoring, Option.some.injEq] at h
      subst h
      have hEntering : s.entering? (.enter object) =
          some ⟨object, version⟩ := by
        simp [entering?, hStoring]
      rw [hEntering]
      exact booked_enter s ⟨object, version⟩
  | evict id =>
    simp only [step?] at h
    split at h
    · cases h
    · cases h
      exact booked_evict s id
  | lose id cause =>
    simp only [step?] at h
    split at h
    · cases h
      exact booked_of_sameBooks (sameBooks_lose cause s id)
    · cases h
  | work => exact booked_work h

/- An action that has to wait has nothing to enter either. -/
theorem entering?_of_waiting
    {batchSize : Nat}
    {s : SharedCache σ ρ}
    {action : Action σ}
    (h : s.step? batchSize action = none) : s.entering? action = none := by
  cases action with
  | enter object =>
    cases hStoring : s.storing.get? object with
    | none => simp [entering?, hStoring]
    | some version => simp [step?, hStoring] at h
  | store id value lost => rfl
  | evict id => rfl
  | lose id cause => rfl
  | work => rfl

theorem booked_advance
    (batchSize : Nat)
    (s : SharedCache σ ρ)
    (action : Action σ) :
    s.cache.Booked
      ((s.entering? action).toList.filter (fun id => ¬ s.cache.Indexes id))
      ((s.entering? action).toList.filter (fun id => s.cache.Indexes id))
      (s.cache.listedOnlyIn (s.advance batchSize action).cache)
      (s.advance batchSize action).cache := by
  cases hStep : s.step? batchSize action with
  | none =>
    have hSame : s.advance batchSize action = s := by
      simp [advance, hStep]
    rw [hSame, entering?_of_waiting hStep]
    exact booked_of_sameBooks s.cache.sameBooks_refl
  | some t =>
    have hNext : s.advance batchSize action = t := by
      simp [advance, hStep]
    rw [hNext]
    exact booked_step hStep

------------------------------------------------------------
-- What is booked for a run
------------------------------------------------------------

/- The books of a run are those of its actions together. -/
theorem booked_run
    (batchSize : Nat)
    (s : SharedCache σ ρ)
    (actions : List (Action σ)) :
    s.cache.Booked (s.entered batchSize actions)
      (s.repeated batchSize actions) (s.removed batchSize actions)
      (s.run batchSize actions).cache := by
  induction actions generalizing s with
  | nil => exact s.cache.sameBooks_refl.booked
  | cons action actions ih =>
    exact (booked_advance batchSize s action).append
      (ih (s.advance batchSize action))

/- What is true of the index of a new shared cache after a run. -/
structure LeaksNothing
    (batchSize : Nat)
    (s : SharedCache σ ρ)
    (actions : List (Action σ)) : Prop where
  /- Each put entered its version or found it listed. -/
  puts :
    (s.run batchSize actions).cache.stats.puts =
      (s.entered batchSize actions).length +
        (s.repeated batchSize actions).length
  /-
    The versions that are listed and those that were evicted are
    as many as the puts that did not find theirs listed.
  -/
  balance :
    (s.run batchSize actions).cache.indexed.length +
        (s.run batchSize actions).cache.stats.versionsEvicted =
      (s.run batchSize actions).cache.stats.puts -
        (s.repeated batchSize actions).length
  /- Each entry of a version is listed, or it left the index once. -/
  accounted :
    (s.entered batchSize actions).Perm
      ((s.run batchSize actions).cache.indexed ++
        s.removed batchSize actions)
  /- Whatever left the index was counted then, and nothing else was. -/
  counted :
    (s.run batchSize actions).cache.stats.versionsEvicted =
      (s.removed batchSize actions).length

/- No run of a shared cache makes its index leak a version. -/
theorem run_leaks_nothing
    (batchSize capacity : Nat)
    (actions : List (Action σ)) :
    LeaksNothing batchSize
      (start batchSize capacity : SharedCache σ ρ) actions := by
  let s : SharedCache σ ρ := start batchSize capacity
  have hBooked := booked_run batchSize s actions
  have hPuts := hBooked.puts
  have hEvicted := hBooked.evicted
  have hAccounted := hBooked.listed
  -- there is nothing on the books of a new cache
  have hNoPuts : s.cache.stats.puts = 0 := rfl
  have hNoneEvicted : s.cache.stats.versionsEvicted = 0 := rfl
  have hNothing : s.cache.indexed = [] := rfl
  rw [hNoPuts, Nat.zero_add] at hPuts
  rw [hNoneEvicted, Nat.zero_add] at hEvicted
  rw [hNothing, List.nil_append] at hAccounted
  have hLength := hAccounted.length_eq
  rw [List.length_append] at hLength
  have hBalance : (s.run batchSize actions).cache.indexed.length +
      (s.run batchSize actions).cache.stats.versionsEvicted =
        (s.run batchSize actions).cache.stats.puts -
          (s.repeated batchSize actions).length := by
    omega
  exact ⟨hPuts, hBalance, hAccounted, hEvicted⟩

/-
  Two evictions that overlap count the versions they cover once.
  A version that is put again while it is listed is not entered.
-/
example :
    let object := StreamId.ofNat 1
    let low : VersionedId := ⟨object, Address.ofNat 3⟩
    let high : VersionedId := ⟨object, Address.ofNat 5⟩
    let actions : List (Action Nat) :=
      [ .store low 30 [], .enter object, .store high 50 [], .enter object,
        .lose high .size, .evict low, .evict high,
        .store low 31 [], .enter object, .store low 32 [], .enter object ]
    let s : SharedCache Nat Unit := start 1 4
    let t := s.run 1 actions
    t.cache.indexed = [low] ∧ t.cache.stats.versionsEvicted = 2 ∧
      t.cache.stats.puts = 4 ∧ s.entered 1 actions = [low, high, low] ∧
      s.repeated 1 actions = [low] ∧ s.removed 1 actions = [low, high] := by
  decide

end SharedCache

end OrderedLog
