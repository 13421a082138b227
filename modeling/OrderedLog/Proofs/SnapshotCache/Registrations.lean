import OrderedLog.Proofs.SnapshotCache.Traces

/-
  This file proves that a cache counts the outstanding proxies
  of its snapshots exactly. Each entry knows the leases that
  were registered since it was put, or at least all of them
  that are held. It forgets released ones when the next lease
  is registered, and no lease is handed out twice, so that a
  forgotten one does not come back.

  Key definitions include:
    * `SnapshotCache.Lends`
    * `TendedCache.Tallied`
    * `TendedCache.CountsExactly`

  Key lemmas include:
    * `SnapshotCache.get_lends`
    * `SnapshotCache.floor_lends`
    * `TendedCache.Tallied.lend`
    * `TendedCache.Tallied.serve`

  Key theorems include:
    * `TendedCache.run_countsExactly`
-/

namespace OrderedLog

variable {σ ρ : Type}

------------------------------------------------------------
-- What a lookup hands out
------------------------------------------------------------

namespace SnapshotCache

/- Caches with the same snapshots, versions and leases. -/
structure SameLeases (c d : SnapshotCache σ ρ) : Prop where
  live : c.live = d.live
  index : c.index = d.index
  held : c.held = d.held
  issued : c.issued = d.issued

/-
  A lookup hands out a proxy under a new lease, and registers
  it with the snapshot at a version, or does not. When it is
  registered, the leases that are not held are forgotten.
-/
structure Lends
    (c : SnapshotCache σ ρ)
    (id : VersionedId)
    (registers : Bool)
    (handle : Handle σ)
    (next : SnapshotCache σ ρ) : Prop where
  lease : handle.lease = c.issued
  proxy : handle.proxy.id = id
  index : next.index = c.index
  held : next.held = c.held.add c.issued
  issued : next.issued = c.issued + 1
  live :
    ∃ entry, c.live.get? id = some entry ∧
      next.live =
        if registers then
          c.live.insert id
            { entry with
              leases := next.stillHeld entry ++ [c.issued] }
        else c.live

theorem get_lends
    (c : SnapshotCache σ ρ)
    (id : VersionedId)
    (kind : ProxyKind) :
    (∃ handle next, c.get id kind = (some handle, next) ∧
        c.Lends id (kind = .reference) handle next) ∨
      (∃ next, c.get id kind = (none, next) ∧ next.SameLeases c) := by
  unfold get
  cases hEntry : c.live.get? id with
  | none => exact Or.inr ⟨_, rfl, ⟨rfl, rfl, rfl, rfl⟩⟩
  | some entry =>
    left
    refine ⟨_, _, rfl, ?_⟩
    cases kind with
    | reference => exact ⟨rfl, rfl, rfl, rfl, rfl, entry, hEntry, rfl⟩
    | materialized => exact ⟨rfl, rfl, rfl, rfl, rfl, entry, hEntry, rfl⟩

theorem floor_lends
    (c : SnapshotCache σ ρ)
    (id : VersionedId)
    (kind : ProxyKind) :
    (∃ handle next, c.floor id kind = (some handle, next) ∧
        c.Lends handle.proxy.id true handle next) ∨
      (∃ next, c.floor id kind = (none, next) ∧
        next.SameLeases c) := by
  unfold floor
  simp only
  cases c.floorVersion? id with
  | none => exact Or.inr ⟨_, rfl, ⟨rfl, rfl, rfl, rfl⟩⟩
  | some version =>
    cases hEntry : c.live.get? (id.withVersion version) with
    | none =>
      simp only [hEntry]
      exact Or.inr ⟨_, rfl, ⟨rfl, rfl, rfl, rfl⟩⟩
    | some entry =>
      simp only [hEntry]
      left
      refine ⟨_, _, rfl, ?_⟩
      have hProxy : (kind.wrap (id.withVersion version)
          entry.snapshot).id = id.withVersion version :=
        ProxyKind.id_wrap kind _ _
      unfold issue
      simp only [hProxy]
      exact ⟨rfl, hProxy, rfl, rfl, rfl, entry, hEntry, rfl⟩

variable {c next : SnapshotCache σ ρ}
variable {id : VersionedId}
variable {registers : Bool}
variable {handle : Handle σ}

/- The lease that a lookup hands out is held then, as others are. -/
theorem Lends.contains_held
    (h : c.Lends id registers handle next)
    (lease : Nat) :
    next.held.contains lease =
      (c.held.contains lease || decide (lease = handle.lease)) := by
  rw [h.held, h.lease, Bool.eq_iff_iff, Bool.or_eq_true,
    decide_eq_true_eq, or_comm]
  exact SortedSet.mem_add_iff

/- Of leases that were handed out before, the same are held. -/
theorem Lends.filter_held
    (h : c.Lends id registers handle next)
    {leases : List Nat}
    (hBefore : ∀ lease ∈ leases, lease < c.issued) :
    leases.filter (fun lease => next.held.contains lease) =
      leases.filter (fun lease => c.held.contains lease) := by
  apply List.filter_congr
  intro lease hLease
  have hOther : lease ≠ handle.lease :=
    h.lease ▸ Nat.ne_of_lt (hBefore lease hLease)
  rw [h.contains_held, decide_eq_false hOther, Bool.or_false]

theorem Lends.get?_live
    (h : c.Lends id registers handle next) :
    ∃ entry, c.live.get? id = some entry ∧
      ∀ other, next.live.get? other =
        if registers = true ∧ other = id then
          some { entry with
            leases := next.stillHeld entry ++ [handle.lease] }
        else c.live.get? other := by
  rcases h.live with ⟨entry, hEntry, hLive⟩
  refine ⟨entry, hEntry, ?_⟩
  intro other
  rw [hLive, h.lease]
  cases registers with
  | true => simp [SortedMap.get?_insert]
  | false => simp

theorem Lends.isLive_eq
    (h : c.Lends id registers handle next)
    (other : VersionedId) : next.isLive other = c.isLive other := by
  rcases h.get?_live with ⟨entry, hEntry, hGet⟩
  unfold isLive SortedMap.contains
  rw [hGet]
  split
  · next hBoth =>
    rw [hBoth.2, hEntry]
    rfl
  · rfl

theorem indexes_of_index_eq
    (hIndex : next.index = c.index)
    (hIndexes : c.Indexes id) : next.Indexes id := by
  unfold Indexes versionList versions at hIndexes ⊢
  rw [hIndex]
  exact hIndexes

end SnapshotCache

namespace TendedCache

open SnapshotCache

variable {c next : SnapshotCache σ ρ}
variable {events : List (Event σ)}
variable {event : Event σ}

------------------------------------------------------------
-- The tally
------------------------------------------------------------

/- A cache has what the events that led to it tell of it. -/
structure Tallied
    (c : SnapshotCache σ ρ)
    (events : List (Event σ)) : Prop where
  indexed : ∀ id, c.isLive id = true → c.Indexes id
  live : ∀ id, c.isLive id = cached events id
  held : ∀ lease, c.held.contains lease = held events lease
  leases :
    ∀ id entry, c.live.get? id = some entry →
      c.stillHeld entry = outstanding events id
  /- No lease was handed out before that is to be handed out yet. -/
  entered :
    ∀ id entry, c.live.get? id = some entry →
      ∀ lease ∈ entry.leases, lease < c.issued
  registered :
    ∀ id, ∀ lease ∈ registered events id, lease < c.issued

theorem tallied_empty :
    Tallied (SnapshotCache.empty : SnapshotCache σ ρ) [] where
  indexed _ hLive := absurd hLive Bool.false_ne_true
  live _ := rfl
  held _ := rfl
  leases _ _ hEntry := absurd hEntry nofun
  entered _ _ hEntry := absurd hEntry nofun
  registered _ _ hLease := absurd hLease List.not_mem_nil

------------------------------------------------------------
-- Events without leases
------------------------------------------------------------

/-
  An event after which there is less in the cache, or as much,
  and after which the leases are as they were.
-/
theorem Tallied.shrink
    (h : Tallied c events)
    (hQuiet : Quiet event)
    (hHeld : next.held = c.held)
    (hIssued : next.issued = c.issued)
    (hLive : ∀ id entry, next.live.get? id = some entry ↔
      c.live.get? id = some entry ∧ removes id event = false)
    (hIndexes : ∀ id, removes id event = false →
      c.Indexes id → next.Indexes id) :
    Tallied next (events ++ [event]) := by
  have hAlive : ∀ id, next.isLive id = true ↔
      c.isLive id = true ∧ removes id event = false := by
    intro id
    rw [isLive_iff, isLive_iff, SortedMap.mem_iff_exists,
      SortedMap.mem_iff_exists]
    simp only [hLive, exists_and_right]
  constructor
  · intro id hBefore
    rw [hAlive] at hBefore
    exact hIndexes id hBefore.2 (h.indexed id hBefore.1)
  · intro id
    rw [Bool.eq_iff_iff, hAlive, h.live, cached_concat, hQuiet.puts]
    simp [and_comm]
  · intro lease
    rw [hQuiet.held_concat, hHeld]
    exact h.held lease
  · intro id entry hEntry
    have hLeases := h.leases id entry ((hLive id entry).mp hEntry).1
    unfold stillHeld at hLeases ⊢
    rw [hQuiet.outstanding_concat, hHeld]
    exact hLeases
  · intro id entry hEntry lease hLease
    rw [hIssued]
    exact h.entered id entry ((hLive id entry).mp hEntry).1 lease hLease
  · intro id lease hLease
    rw [hQuiet.registered_concat] at hLease
    rw [hIssued]
    exact h.registered id lease hLease

theorem Tallied.idle
    (h : Tallied c events)
    (hSame : next.SameLeases c)
    (hQuiet : Quiet event)
    (hRemoves : ∀ id, removes id event = false) :
    Tallied next (events ++ [event]) := by
  apply h.shrink hQuiet hSame.held hSame.issued
  · intro id entry
    rw [hSame.live]
    exact (and_iff_left (hRemoves id)).symm
  · intro id _ hIndexes
    exact indexes_of_index_eq hSame.index hIndexes

theorem Tallied.evict
    (h : Tallied c events)
    (bound : VersionedId)
    (hQuiet : Quiet event)
    (hRemoves : ∀ id, removes id event = decide (bound.Covers id)) :
    Tallied (c.evictThrough bound).2 (events ++ [event]) := by
  have hSame : (c.evictThrough bound).2.held = c.held ∧
      (c.evictThrough bound).2.issued = c.issued := by
    unfold evictThrough
    split
    · exact ⟨rfl, rfl⟩
    · exact ⟨rfl, rfl⟩
  apply h.shrink hQuiet hSame.1 hSame.2
  · intro id entry
    rw [get?_live_evictThrough, hRemoves, decide_eq_false_iff_not]
    refine and_congr_right (fun hEntry => not_congr ?_)
    refine and_iff_left (h.indexed id ?_)
    rw [isLive_iff, SortedMap.mem_iff_exists]
    exact ⟨entry, hEntry⟩
  · intro id hKept hIndexes
    rw [hRemoves, decide_eq_false_iff_not] at hKept
    exact indexes_evictThrough_iff.mpr ⟨hIndexes, hKept⟩

theorem Tallied.lose
    (h : Tallied c events)
    (id : VersionedId) :
    Tallied (c.dropSnapshot id) (events ++ [(.lose id, .done)]) := by
  have hQuiet : Quiet ((.lose id, .done) : Event σ) :=
    ⟨rfl, fun _ => rfl, fun _ => rfl⟩
  have hHeld : (c.dropSnapshot id).held = c.held := rfl
  apply h.shrink hQuiet hHeld rfl
  · intro other entry
    unfold dropSnapshot removes
    simp only [SortedMap.get?_erase, decide_eq_false_iff_not]
    by_cases hSame : other = id
    · simp [hSame]
    · simp [hSame]
  · exact fun other _ hIndexes => indexes_of_index_eq rfl hIndexes

------------------------------------------------------------
-- Puts
------------------------------------------------------------

theorem Tallied.put
    (h : Tallied c events)
    (id : VersionedId)
    (value : σ) :
    Tallied (c.put id value) (events ++ [(.put id value, .done)]) := by
  have hLive : ∀ other, (c.put id value).live.get? other =
      if other = id then some ⟨⟨c.editions, value⟩, []⟩
      else c.live.get? other :=
    fun other => SortedMap.get?_insert c.live id _ other
  have hIndexes : ∀ other, (c.put id value).Indexes other ↔
      other = id ∨ c.Indexes other :=
    fun other => indexes_indexVersion_iff
  have hAlive : ∀ other, (c.put id value).isLive other = true ↔
      other = id ∨ c.isLive other = true :=
    fun other => isLive_insertSnapshot_iff
  have hHeld : ∀ lease,
      TendedCache.held (events ++ [(.put id value, .done)]) lease =
        TendedCache.held events lease :=
    fun lease => by
      rw [held_concat]
      simp [releases, lends?]
  have hRegistered : ∀ other,
      TendedCache.registered (events ++ [(.put id value, .done)]) other =
        if other = id then [] else TendedCache.registered events other := by
    intro other
    rw [registered_concat, registers?_eq_none rfl]
    simp [puts]
  constructor
  · intro other hLive
    rw [hAlive] at hLive
    rw [hIndexes]
    exact hLive.imp_right (h.indexed other)
  · intro other
    rw [Bool.eq_iff_iff, hAlive, h.live, cached_concat]
    simp only [puts, removes, Bool.not_false, Bool.true_and,
      Bool.or_eq_true, decide_eq_true_eq]
    exact or_comm
  · intro lease
    rw [hHeld]
    exact h.held lease
  · intro other entry hEntry
    unfold outstanding
    rw [hLive] at hEntry
    rw [hRegistered]
    by_cases hSame : other = id
    · rw [if_pos hSame, Option.some.injEq] at hEntry
      rw [if_pos hSame, ← hEntry]
      rfl
    · rw [if_neg hSame] at hEntry
      rw [if_neg hSame]
      refine (h.leases other entry hEntry).trans ?_
      exact List.filter_congr (fun lease _ => (hHeld lease).symm)
  · intro other entry hEntry lease hLease
    rw [hLive] at hEntry
    by_cases hSame : other = id
    · rw [if_pos hSame, Option.some.injEq] at hEntry
      rw [← hEntry] at hLease
      exact absurd hLease List.not_mem_nil
    · rw [if_neg hSame] at hEntry
      exact h.entered other entry hEntry lease hLease
  · intro other lease hLease
    rw [hRegistered] at hLease
    by_cases hSame : other = id
    · rw [if_pos hSame] at hLease
      exact absurd hLease List.not_mem_nil
    · rw [if_neg hSame] at hLease
      exact h.registered other lease hLease

------------------------------------------------------------
-- Leases
------------------------------------------------------------

theorem Tallied.release
    (h : Tallied c events)
    (lease : Nat) :
    Tallied (c.release lease) (events ++ [(.release lease, .done)]) := by
  have hHeld : ∀ other,
      TendedCache.held (events ++ [(.release lease, .done)]) other =
        (c.release lease).held.contains other := by
    intro other
    rw [held_concat, ← h.held, Bool.eq_iff_iff]
    have hErased : (c.release lease).held.contains other = true ↔
        other ≠ lease ∧ c.held.contains other = true :=
      SortedMap.mem_erase_iff
    rw [hErased]
    simp [releases, lends?]
  have hRegistered : ∀ id,
      TendedCache.registered (events ++ [(.release lease, .done)]) id =
        TendedCache.registered events id := by
    intro id
    rw [registered_concat, registers?_eq_none rfl]
    exact List.append_nil _
  -- what is held now was held before
  have hBefore : ∀ leases : List Nat,
      leases.filter (fun other => (c.release lease).held.contains other) =
        (leases.filter (fun other => c.held.contains other)).filter
          (fun other => (c.release lease).held.contains other) := by
    intro leases
    rw [List.filter_filter]
    apply List.filter_congr
    intro other _
    rw [Bool.eq_iff_iff, Bool.and_eq_true]
    exact (and_iff_left_of_imp
      (fun hLeft => (SortedMap.mem_erase_iff.mp hLeft).2)).symm
  constructor
  · exact h.indexed
  · intro id
    rw [cached_concat]
    simp only [puts, removes, Bool.not_false, Bool.true_and,
      Bool.or_false]
    exact h.live id
  · exact fun other => (hHeld other).symm
  · intro id entry hEntry
    have hLeases := h.leases id entry hEntry
    have hWas : ∀ other, TendedCache.held events other =
        c.held.contains other := fun other => (h.held other).symm
    unfold stillHeld outstanding at hLeases ⊢
    rw [hRegistered, funext hHeld, hBefore, hLeases, funext hWas,
      ← hBefore]
  · exact h.entered
  · intro id other hLease
    rw [hRegistered] at hLease
    exact h.registered id other hLease

/- A lookup hands a lease out, and registers it at a version or not. -/
structure Lending
    (event : Event σ)
    (id : VersionedId)
    (registers : Bool)
    (lease : Nat) : Prop where
  lends : lends? event = some lease
  registers :
    ∀ other, registers? other event =
      if registers = true ∧ other = id then some lease else none
  releases : ∀ lease, releases lease event = false
  puts : ∀ id, puts id event = false
  removes : ∀ id, removes id event = false

variable {id : VersionedId}
variable {registers : Bool}
variable {handle : Handle σ}

theorem Lending.registered_concat
    {lease : Nat}
    (h : Lending event id registers lease)
    (events : List (Event σ))
    (other : VersionedId) :
    registered (events ++ [event]) other =
      registered events other ++
        if registers = true ∧ other = id then [lease] else [] := by
  rw [TendedCache.registered_concat, h.puts, if_neg Bool.false_ne_true,
    h.registers]
  congr 1
  split
  · rfl
  · rfl

theorem Tallied.held_lend
    (h : Tallied c events)
    (hLends : c.Lends id registers handle next)
    (hLending : Lending event id registers handle.lease)
    (lease : Nat) :
    TendedCache.held (events ++ [event]) lease =
      next.held.contains lease := by
  rw [hLends.contains_held, held_concat, hLending.releases,
    hLending.lends, h.held]
  simp

/-
  The new lease is none of those before, so that these are held
  after it if they were before.
-/
theorem Tallied.outstanding_lend
    (h : Tallied c events)
    (hLends : c.Lends id registers handle next)
    (hLending : Lending event id registers handle.lease)
    (other : VersionedId) :
    outstanding (events ++ [event]) other =
      outstanding events other ++
        if registers = true ∧ other = id then [handle.lease] else [] := by
  have hSelf : next.held.contains handle.lease = true := by
    rw [hLends.contains_held, decide_eq_true rfl, Bool.or_true]
  unfold outstanding
  rw [funext (h.held_lend hLends hLending), hLending.registered_concat,
    List.filter_append, hLends.filter_held (h.registered other)]
  congr 1
  · exact List.filter_congr (fun lease _ => h.held lease)
  · split
    · rw [List.filter_cons_of_pos hSelf, List.filter_nil]
    · rfl

/- Of the leases of an old entry, those that are outstanding are held. -/
theorem Tallied.stillHeld_lend
    (h : Tallied c events)
    (hLends : c.Lends id registers handle next)
    {other : VersionedId}
    {entry : SnapshotEntry σ}
    (hEntry : c.live.get? other = some entry) :
    next.stillHeld entry = outstanding events other :=
  (hLends.filter_held (h.entered other entry hEntry)).trans
    (h.leases other entry hEntry)

/- An entry has all outstanding leases and the new one, no others. -/
theorem Tallied.prunes
    (h : Tallied c events)
    (hLends : c.Lends id true handle next) :
    ∃ entry, next.live.get? id = some entry ∧
      entry.leases = outstanding events id ++ [handle.lease] := by
  rcases hLends.get?_live with ⟨entry, hEntry, hGet⟩
  refine ⟨_, (hGet id).trans (if_pos ⟨rfl, rfl⟩), ?_⟩
  rw [h.stillHeld_lend hLends hEntry]

theorem Tallied.lend
    (h : Tallied c events)
    (hLends : c.Lends id registers handle next)
    (hLending : Lending event id registers handle.lease) :
    Tallied next (events ++ [event]) := by
  rcases hLends.get?_live with ⟨entry, hEntry, hGet⟩
  have hSelf : next.held.contains handle.lease = true := by
    rw [hLends.contains_held, decide_eq_true rfl, Bool.or_true]
  constructor
  · intro other hLive
    rw [hLends.isLive_eq] at hLive
    exact indexes_of_index_eq hLends.index (h.indexed other hLive)
  · intro other
    rw [hLends.isLive_eq, h.live, cached_concat, hLending.removes,
      hLending.puts]
    simp
  · exact fun lease => (h.held_lend hLends hLending lease).symm
  · intro other now hNow
    rw [hGet] at hNow
    rw [h.outstanding_lend hLends hLending]
    split at hNow
    · next hBoth =>
      rw [if_pos hBoth, hBoth.2, ← h.stillHeld_lend hLends hEntry,
        ← Option.some.inj hNow]
      unfold stillHeld
      simp only [List.filter_append, List.filter_filter, Bool.and_self]
      rw [List.filter_cons_of_pos hSelf, List.filter_nil]
    · next hNot =>
      rw [if_neg hNot, List.append_nil]
      exact h.stillHeld_lend hLends hNow
  · intro other now hNow lease hLease
    rw [hGet] at hNow
    rw [hLends.issued]
    split at hNow
    · rw [← Option.some.inj hNow, List.mem_append] at hLease
      rcases hLease with hOld | hNew
      · have hMem := (List.mem_filter.mp hOld).1
        exact Nat.lt_succ_of_lt (h.entered id entry hEntry lease hMem)
      · rw [List.mem_singleton.mp hNew, hLends.lease]
        exact Nat.lt_succ_self _
    · exact Nat.lt_succ_of_lt (h.entered other now hNow lease hLease)
  · intro other lease hLease
    rw [hLending.registered_concat, List.mem_append] at hLease
    rw [hLends.issued]
    rcases hLease with hOld | hNew
    · exact Nat.lt_succ_of_lt (h.registered other lease hOld)
    · split at hNew
      · rw [List.mem_singleton.mp hNew, hLends.lease]
        exact Nat.lt_succ_self _
      · exact absurd hNew List.not_mem_nil

------------------------------------------------------------
-- Runs
------------------------------------------------------------

/-
  When a lease is registered, the entry is left with it and with
  those that are outstanding, and with no others.
-/
def Prunes
    (next : SnapshotCache σ ρ)
    (events : List (Event σ))
    (event : Event σ) : Prop :=
  ∀ id lease, registers? id event = some lease →
    ∃ entry, next.live.get? id = some entry ∧
      entry.leases = outstanding events id ++ [lease]

theorem prunes_of_lends?_eq_none
    (h : lends? event = none) : Prunes next events event := by
  intro id lease hRegisters
  rw [registers?_eq_none h] at hRegisters
  exact absurd hRegisters nofun

theorem Tallied.prunes_of_lending
    (h : Tallied c events)
    (hLends : c.Lends id registers handle next)
    (hLending : Lending event id registers handle.lease) :
    Prunes next events event := by
  intro other lease hRegisters
  rw [hLending.registers, Option.ite_none_right_eq_some] at hRegisters
  rcases hRegisters with ⟨⟨rfl, rfl⟩, hLease⟩
  rw [← Option.some.inj hLease]
  exact h.prunes hLends

theorem Tallied.serve
    {s : TendedCache σ ρ}
    (h : Tallied s.cache events)
    (batchSize : Nat)
    (action : Action σ) :
    Tallied (s.serve batchSize action).2.cache
        (events ++ [(action, (s.serve batchSize action).1)]) ∧
      Prunes (s.serve batchSize action).2.cache events
        (action, (s.serve batchSize action).1) := by
  have hSame : s.cache.SameLeases s.cache := ⟨rfl, rfl, rfl, rfl⟩
  have hNone : ∀ (e : Event σ), lends? e = none →
      Prunes (s.serve batchSize action).2.cache events e :=
    fun _ => prunes_of_lends?_eq_none
  cases action with
  | put id value => exact ⟨h.put id value, hNone _ rfl⟩
  | lose id => exact ⟨h.lose id, hNone _ rfl⟩
  | release lease => exact ⟨h.release lease, hNone _ rfl⟩
  | contains id =>
    exact ⟨h.idle hSame ⟨rfl, fun _ => rfl, fun _ => rfl⟩ (fun _ => rfl),
      hNone _ rfl⟩
  | report id cause =>
    exact ⟨h.idle ⟨rfl, rfl, rfl, rfl⟩
      ⟨rfl, fun _ => rfl, fun _ => rfl⟩ (fun _ => rfl), hNone _ rfl⟩
  | evict bound =>
    exact ⟨h.evict bound ⟨rfl, fun _ => rfl, fun _ => rfl⟩
      (fun _ => rfl), hNone _ rfl⟩
  | work stopping =>
    unfold TendedCache.serve
    simp only
    split
    · exact ⟨h.idle hSame ⟨rfl, fun _ => rfl, fun _ => rfl⟩
        (fun _ => rfl), prunes_of_lends?_eq_none rfl⟩
    · next bound _ =>
      exact ⟨h.evict bound ⟨rfl, fun _ => rfl, fun _ => rfl⟩
        (fun _ => rfl), prunes_of_lends?_eq_none rfl⟩
  | get id kind =>
    unfold TendedCache.serve
    rcases s.cache.get_lends id kind with
      ⟨handle, next, hGet, hLends⟩ | ⟨next, hGet, hSame⟩
    · simp only [hGet]
      have hLending : Lending (.get id kind, .found (some handle)) id
          (kind = .reference) handle.lease := by
        refine ⟨rfl, ?_, fun _ => rfl, fun _ => rfl, fun _ => rfl⟩
        intro other
        cases kind with
        | reference => simp [registers?]
        | materialized => simp [registers?]
      exact ⟨h.lend hLends hLending, h.prunes_of_lending hLends hLending⟩
    · simp only [hGet]
      exact ⟨h.idle hSame ⟨rfl, fun _ => rfl, fun _ => rfl⟩
        (fun _ => rfl), prunes_of_lends?_eq_none rfl⟩
  | floor id kind =>
    unfold TendedCache.serve
    rcases s.cache.floor_lends id kind with
      ⟨handle, next, hFloor, hLends⟩ | ⟨next, hFloor, hSame⟩
    · simp only [hFloor]
      have hLending : Lending (.floor id kind, .found (some handle))
          handle.proxy.id true handle.lease := by
        refine ⟨rfl, ?_, fun _ => rfl, fun _ => rfl, fun _ => rfl⟩
        intro other
        simp [registers?]
      exact ⟨h.lend hLends hLending, h.prunes_of_lending hLends hLending⟩
    · simp only [hFloor]
      exact ⟨h.idle hSame ⟨rfl, fun _ => rfl, fun _ => rfl⟩
        (fun _ => rfl), prunes_of_lends?_eq_none rfl⟩

theorem tallied_run
    (batchSize capacity : Nat)
    (actions : List (Action σ)) :
    let started : TendedCache σ ρ := start batchSize capacity
    Tallied (started.run batchSize actions).2.cache
      (started.trace batchSize actions) := by
  intro started
  induction actions using List.reverseRecOn with
  | nil => exact tallied_empty
  | append_singleton actions action ih =>
    rw [run_concat, trace_concat]
    exact (ih.serve batchSize action).1

/-
  A cache counts the outstanding proxies of the snapshots that
  are cached, and no entry has leases that were released before
  the last one was registered with it.
-/
structure CountsExactly
    (batchSize : Nat)
    (s : TendedCache σ ρ)
    (actions : List (Action σ)) : Prop where
  counted :
    ∀ id, (s.run batchSize actions).2.cache.outstanding? id =
      if cached (s.trace batchSize actions) id then
        some (outstanding (s.trace batchSize actions) id).length
      else none
  pruned :
    ∀ events event, s.trace batchSize actions = events ++ [event] →
      Prunes (s.run batchSize actions).2.cache events event

/-
  Whatever is put, looked up, given back, evicted and lost, and
  in whatever order, the outstanding proxies are counted exactly.
-/
theorem run_countsExactly
    (batchSize capacity : Nat)
    (actions : List (Action σ)) :
    CountsExactly batchSize
      (start batchSize capacity : TendedCache σ ρ) actions := by
  constructor
  · intro id
    have hTallied := @tallied_run σ ρ batchSize capacity actions
    rw [← hTallied.live id]
    unfold outstanding? isLive SortedMap.contains
    cases hEntry : SortedMap.get? _ id with
    | none => rfl
    | some entry =>
      rw [Option.map_some, hTallied.leases id entry hEntry]
      rfl
  · intro events event hTrace
    rcases actions.eq_nil_or_concat' with rfl | ⟨front, action, rfl⟩
    · exact absurd hTrace.symm
        (List.append_ne_nil_of_right_ne_nil _ (List.cons_ne_nil _ _))
    · rw [trace_concat] at hTrace
      rcases List.append_inj' hTrace rfl with ⟨hEvents, hEvent⟩
      rw [← hEvents, ← List.singleton_inj.mp hEvent, run_concat]
      exact ((tallied_run batchSize capacity front).serve batchSize
        action).2

/-
  Of four proxies, one is a copy that an exact lookup handed
  out, and two are given back.
-/
example :
    let id := VersionedId.mk (StreamId.ofNat 1) (Address.ofNat 5)
    let started : TendedCache String Unit := start 4 2
    let actions : List (Action String) :=
      [ .put id "state",
        .get id .reference,
        .get id .materialized,
        .floor id .materialized,
        .release 0,
        .get id .reference,
        .release 2 ]
    outstanding (started.trace 4 actions) id = [3] ∧
      (started.run 4 actions).2.cache.outstanding? id = some 1 := by
  decide

end TendedCache

end OrderedLog
