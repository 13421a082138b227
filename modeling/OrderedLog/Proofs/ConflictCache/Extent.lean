import OrderedLog.Proofs.ConflictCache.Memory
import OrderedLog.Proofs.ConflictCache.Tidiness

/-
  This file proves how far the addresses in a conflict cache
  reach when it is used by a sequencer: all of them are below
  the next address to hand out. A write at that address is
  therefore never refused.

  Key definitions include:
    * `Address.Sees`
    * `ConflictCache.WithinLog`

  Key lemmas include:
    * `ConflictCache.WithinLog.record_eq`
    * `ConflictCache.WithinLog.record`
    * `ConflictCache.WithinLog.trimBelow`
    * `ConflictCache.WithinLog.bound_le_of_sees`
    * `ConflictCache.WithinLog.lt_of_remembers`
    * `ConflictCache.bound_record`
-/

namespace OrderedLog

/- A snapshot that is not before any address below a mark. -/
def Address.Sees (snapshot mark : Address) : Prop :=
  ∀ address, address < mark → address ≤ snapshot

namespace ConflictCache

/-
  All that a cache knows of lies before the next address, but
  that an unused wildcard is the first address of all.
-/
structure WithinLog
    (next : Address)
    (c : ConflictCache) : Prop where
  tidy : c.Tidy
  latest_lt :
    ∀ key address, c.latest.get? key = some address → address < next
  wildcard_lt : c.wildcard < next ∨ c.wildcard = Address.zero
  bound_le : c.bound ≤ c.wildcard

theorem withinLog_new
    (capacity : Nat)
    (capacity_pos : 0 < capacity)
    {next bound : Address}
    (hBound : bound < next ∨ bound = Address.zero) :
    (new capacity capacity_pos bound).WithinLog next where
  tidy := tidy_new capacity capacity_pos bound
  latest_lt := nofun
  wildcard_lt := hBound
  bound_le := Address.le_refl bound

/- The next address may move on. -/
theorem WithinLog.mono
    {c : ConflictCache}
    {next later : Address}
    (h : c.WithinLog next)
    (hLater : next ≤ later) : c.WithinLog later where
  tidy := h.tidy
  latest_lt := fun key address hLatest =>
    Address.lt_of_lt_of_le (h.latest_lt key address hLatest) hLater
  wildcard_lt := h.wildcard_lt.imp_left
    (fun hLt => Address.lt_of_lt_of_le hLt hLater)
  bound_le := h.bound_le

/- The statistics have no part in it. -/
theorem withinLog_measured
    {c : ConflictCache}
    {next : Address} : c.measured.WithinLog next ↔ c.WithinLog next :=
  ⟨fun h => ⟨tidy_measured.mp h.tidy, h.latest_lt, h.wildcard_lt,
      h.bound_le⟩,
    fun h => ⟨tidy_measured.mpr h.tidy, h.latest_lt, h.wildcard_lt,
      h.bound_le⟩⟩

theorem WithinLog.ruled
    {c : ConflictCache}
    {next : Address}
    (h : c.WithinLog next)
    (t : Transaction) : (c.rule t).2.WithinLog next :=
  ⟨⟨h.tidy.coherent, h.tidy.populated⟩, h.latest_lt, h.wildcard_lt,
    h.bound_le⟩

/- A snapshot that sees the log so far is not below the bound. -/
theorem WithinLog.wildcard_le_of_sees
    {c : ConflictCache}
    {next snapshot : Address}
    (h : c.WithinLog next)
    (hSees : snapshot.Sees next) : c.wildcard ≤ snapshot := by
  rcases h.wildcard_lt with hLt | hZero
  · exact hSees c.wildcard hLt
  · rw [hZero]
    exact Address.zero_le snapshot

theorem WithinLog.bound_le_of_sees
    {c : ConflictCache}
    {next snapshot : Address}
    (h : c.WithinLog next)
    (hSees : snapshot.Sees next) : c.bound ≤ snapshot :=
  Address.le_trans h.bound_le (h.wildcard_le_of_sees hSees)

/- No bound but the first address of all is out of the log. -/
theorem WithinLog.bound_lt
    {c : ConflictCache}
    {next snapshot : Address}
    (h : c.WithinLog next)
    (hBound : snapshot < c.bound) : c.bound < next := by
  rcases h.wildcard_lt with hLt | hZero
  · exact Nat.lt_of_le_of_lt h.bound_le hLt
  · have hLe := h.bound_le
    rw [hZero] at hLe
    exact absurd (Nat.lt_of_lt_of_le hBound hLe) (Nat.not_lt_zero _)

/- Nothing that is remembered after a snapshot is out of the log. -/
theorem WithinLog.lt_of_remembers
    {c : ConflictCache}
    {next snapshot address : Address}
    {key : ConflictKey}
    (h : c.WithinLog next)
    (hRemembers : c.Remembers key address)
    (hAfter : snapshot < address) : address < next := by
  cases hLatest : c.latest.get? key with
  | some latest =>
    rw [remembers_of_some hLatest] at hRemembers
    exact Nat.lt_of_le_of_lt hRemembers (h.latest_lt key latest hLatest)
  | none =>
    rw [remembers_of_none hLatest] at hRemembers
    rcases h.wildcard_lt with hLt | hZero
    · exact Nat.lt_of_le_of_lt hRemembers hLt
    · rw [hZero] at hRemembers
      exact absurd (Nat.lt_of_lt_of_le hAfter hRemembers)
        (Nat.not_lt_zero _)

/- The next address is not in the window. -/
theorem WithinLog.get?_window_eq_none
    {c : ConflictCache}
    {next : Address}
    (h : c.WithinLog next) : c.window.get? next = none := by
  rw [SortedMap.get?_eq_none_iff, h.tidy.mem_window_iff]
  rintro ⟨key, hLatest⟩
  exact KeyOrder.irrefl next (h.latest_lt key next hLatest)

------------------------------------------------------------
-- The bound and the wildcard
------------------------------------------------------------

@[simp]
theorem bound_evictFirst
    (c : ConflictCache) : c.evictFirst.1.bound = c.bound := by
  unfold evictFirst
  split <;> rfl

/- An eviction never lowers the wildcard. -/
theorem wildcard_le_evictFirst
    (c : ConflictCache) : c.wildcard ≤ c.evictFirst.1.wildcard := by
  unfold evictFirst
  split
  · exact Address.le_refl _
  · exact Address.le_max_left _ _

@[simp]
theorem bound_evictWhile
    (more : ConflictCache → Bool)
    (rounds : Nat)
    (c : ConflictCache) :
    (evictWhile more rounds c).1.bound = c.bound := by
  apply evictWhile_induction (P := fun d => d.bound = c.bound)
  · intro d hD
    rw [bound_evictFirst, hD]
  · rfl

@[simp]
theorem bound_trimBelow
    (c : ConflictCache)
    (mark : Address) : (c.trimBelow mark).1.bound = c.bound := by
  unfold trimBelow measured
  exact bound_evictWhile _ _ c

@[simp]
theorem bound_enter
    (c : ConflictCache)
    (keys : SortedSet ConflictKey)
    (version : Address) : (c.enter keys version).bound = c.bound := by
  rcases foldl_move_eq version keys.toList c with ⟨_, _, hMoved⟩
  unfold enter shrink measured
  simp only [bound_evictWhile, hMoved]

/- An accepted write leaves the bound as it is. -/
theorem bound_record
    {c next : ConflictCache}
    {keys : SortedSet ConflictKey}
    {version : Address}
    (h : c.record keys version = .ok next) : next.bound = c.bound := by
  rcases record_cases h with ⟨_, hNext⟩ | ⟨_, hNext⟩
  · rw [hNext]
  · rw [hNext, bound_enter]

------------------------------------------------------------
-- Evictions
------------------------------------------------------------

/- The wildcard only rises to addresses that were in use. -/
theorem WithinLog.evictFirst
    {c : ConflictCache}
    {next : Address}
    (h : c.WithinLog next) : c.evictFirst.1.WithinLog next := by
  constructor
  · exact h.tidy.evictFirst
  · intro key address hLatest
    exact h.latest_lt key address (latest_of_evictFirst hLatest)
  · cases hFirst : c.window.first? with
    | none =>
      rw [ConflictCache.evictFirst, hFirst]
      exact h.wildcard_lt
    | some first =>
      rcases h.tidy.exists_latest hFirst with ⟨key, hLatest⟩
      have hLt : first.1 < next := h.latest_lt key first.1 hLatest
      rw [evictFirst_of_first? hFirst]
      simp only
      rcases Address.max_eq_or c.wildcard first.1 with hMax | hMax
      · rw [hMax]
        exact h.wildcard_lt
      · rw [hMax]
        exact Or.inl hLt
  · rw [bound_evictFirst]
    exact Address.le_trans h.bound_le (wildcard_le_evictFirst c)

theorem WithinLog.evictWhile
    {c : ConflictCache}
    {next : Address}
    (h : c.WithinLog next)
    (more : ConflictCache → Bool)
    (rounds : Nat) :
    (ConflictCache.evictWhile more rounds c).1.WithinLog next := by
  apply evictWhile_induction
  · intro d hD
    exact hD.evictFirst
  · exact h

theorem WithinLog.trimBelow
    {c : ConflictCache}
    {next : Address}
    (h : c.WithinLog next)
    (mark : Address) : (c.trimBelow mark).1.WithinLog next := by
  unfold ConflictCache.trimBelow
  apply withinLog_measured.mpr
  exact h.evictWhile _ _

------------------------------------------------------------
-- Writes
------------------------------------------------------------

theorem WithinLog.record
    {c d : ConflictCache}
    {next later version : Address}
    (h : c.WithinLog next)
    {keys : SortedSet ConflictKey}
    (hRecord : c.record keys version = .ok d)
    (hVersion : version < later)
    (hLater : next ≤ later) : d.WithinLog later := by
  have hGrown := h.mono hLater
  rcases record_cases_of_keys hRecord with
    ⟨_, hNext⟩ | ⟨hKeys, hNone, hNext⟩
  · rw [hNext]
    exact hGrown
  · rcases foldl_move_eq version keys.toList c with ⟨_, _, hMoved⟩
    rw [hNext]
    unfold enter shrink
    apply withinLog_measured.mpr
    apply WithinLog.evictWhile
    constructor
    · exact tidy_entered h.tidy hKeys hNone
    · intro key address hKey
      simp only [latest_foldl_move] at hKey
      split at hKey
      · rw [Option.some_inj] at hKey
        exact hKey ▸ hVersion
      · exact hGrown.latest_lt key address hKey
    · rw [hMoved]
      exact hGrown.wildcard_lt
    · rw [hMoved]
      exact hGrown.bound_le

/- Nothing speaks against a write at the next address. -/
theorem WithinLog.refusal?_eq_none
    {c : ConflictCache}
    {next : Address}
    (h : c.WithinLog next)
    (keys : List ConflictKey) : c.refusal? keys next = none :=
  h.tidy.refusal?_eq_none h.latest_lt keys

theorem WithinLog.record_eq
    {c : ConflictCache}
    {next : Address}
    (h : c.WithinLog next)
    (keys : SortedSet ConflictKey) :
    c.record keys next =
      .ok (if keys.isEmpty then c else c.enter keys next) :=
  record_of_refusal? (h.refusal?_eq_none keys.toList)

end ConflictCache

end OrderedLog
