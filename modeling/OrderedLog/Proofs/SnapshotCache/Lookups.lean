import OrderedLog.Proofs.SnapshotCache.Contents
import OrderedLog.Proofs.SnapshotCache.Values

/-
  This file proves what a user sees through the proxies of both
  kinds, and that lookups leave the contents of a cache as they
  are, whatever they register and count.

  Key definitions include:
    * `Handle.seen`
    * `SnapshotCache.SameContents`

  Key lemmas include:
    * `SnapshotCache.seen_get`
    * `SnapshotCache.seen_floor`
    * `SnapshotCache.sameContents_get`
    * `SnapshotCache.sameContents_floor`
-/

namespace OrderedLog

variable {σ ρ : Type}

/- What a user sees through a handle: a version and its value. -/
def Handle.seen (handle : Handle σ) : VersionedId × σ :=
  (handle.proxy.id, handle.proxy.value)

@[simp]
theorem ProxyKind.id_wrap
    (kind : ProxyKind)
    (id : VersionedId)
    (snapshot : Stored σ) : (kind.wrap id snapshot).id = id := by
  cases kind <;> rfl

@[simp]
theorem ProxyKind.value_wrap
    (kind : ProxyKind)
    (id : VersionedId)
    (snapshot : Stored σ) :
    (kind.wrap id snapshot).value = snapshot.value := by
  cases kind <;> rfl

namespace SnapshotCache

------------------------------------------------------------
-- Same contents
------------------------------------------------------------

/- Caches with the same index and the same values. -/
structure SameContents (c d : SnapshotCache σ ρ) : Prop where
  index : c.index = d.index
  values : ∀ id, c.valueAt? id = d.valueAt? id

theorem sameContents_of_eq
    {c d : SnapshotCache σ ρ}
    (hIndex : c.index = d.index)
    (hLive : c.live = d.live) : c.SameContents d where
  index := hIndex
  values := by
    intro id
    unfold valueAt?
    rw [hLive]

theorem SameContents.trans
    {c d e : SnapshotCache σ ρ}
    (h : c.SameContents d)
    (h' : d.SameContents e) : c.SameContents e where
  index := h.index.trans h'.index
  values := fun id => (h.values id).trans (h'.values id)

/- Which leases are registered is not part of the contents. -/
theorem sameContents_of_leases
    {c d : SnapshotCache σ ρ}
    {id : VersionedId}
    {entry : SnapshotEntry σ}
    (hEntry : d.live.get? id = some entry)
    (leases : List Nat)
    (hIndex : c.index = d.index)
    (hLive : c.live = d.live.insert id { entry with leases }) :
    c.SameContents d where
  index := hIndex
  values := valueAt?_of_leases hEntry leases hLive

theorem SameContents.versionList
    {c d : SnapshotCache σ ρ}
    (h : c.SameContents d)
    (object : StreamId) : c.versionList object = d.versionList object := by
  unfold SnapshotCache.versionList versions
  rw [h.index]

theorem SameContents.indexes_iff
    {c d : SnapshotCache σ ρ}
    (h : c.SameContents d)
    {id : VersionedId} : c.Indexes id ↔ d.Indexes id := by
  unfold Indexes
  rw [h.versionList]

/- A version has a live snapshot if it has a value. -/
theorem isLive_iff_exists
    {c : SnapshotCache σ ρ}
    {id : VersionedId} :
    c.isLive id = true ↔ ∃ value, c.valueAt? id = some value := by
  unfold isLive SortedMap.contains valueAt?
  rw [Option.isSome_iff_exists]
  constructor
  · rintro ⟨entry, hEntry⟩
    exact ⟨entry.snapshot.value, by rw [hEntry]; rfl⟩
  · rintro ⟨value, hValue⟩
    rw [Option.map_eq_some_iff] at hValue
    rcases hValue with ⟨entry, hEntry, _⟩
    exact ⟨entry, hEntry⟩

------------------------------------------------------------
-- Exact lookups
------------------------------------------------------------

/- A user sees the value that is live at the version. -/
theorem seen_get
    (c : SnapshotCache σ ρ)
    (id : VersionedId)
    (kind : ProxyKind) :
    (c.get id kind).1.map Handle.seen =
      (c.valueAt? id).map (fun value => (id, value)) := by
  unfold get valueAt?
  cases c.live.get? id with
  | none => rfl
  | some entry => simp [issue, Handle.seen]

theorem sameContents_get
    (c : SnapshotCache σ ρ)
    (id : VersionedId)
    (kind : ProxyKind) : (c.get id kind).2.SameContents c := by
  unfold get
  cases hEntry : c.live.get? id with
  | none => exact sameContents_of_eq rfl rfl
  | some entry =>
    simp only
    split
    · exact sameContents_of_leases hEntry _ rfl rfl
    · exact sameContents_of_eq rfl rfl

------------------------------------------------------------
-- Floor lookups
------------------------------------------------------------

/- A user sees the value that is live at the indexed floor. -/
theorem seen_floor
    (c : SnapshotCache σ ρ)
    (id : VersionedId)
    (kind : ProxyKind) :
    (c.floor id kind).1.map Handle.seen =
      (c.floorVersion? id).bind (fun version =>
        (c.valueAt? (id.withVersion version)).map (fun value =>
          (id.withVersion version, value))) := by
  unfold floor valueAt?
  cases c.floorVersion? id with
  | none => rfl
  | some version =>
    simp only [Option.bind_some]
    cases c.live.get? (id.withVersion version) with
    | none => rfl
    | some entry => simp [issue, Handle.seen]

theorem sameContents_floor
    (c : SnapshotCache σ ρ)
    (id : VersionedId)
    (kind : ProxyKind) : (c.floor id kind).2.SameContents c := by
  unfold floor
  cases c.floorVersion? id with
  | none => exact sameContents_of_eq rfl rfl
  | some version =>
    cases hEntry : c.live.get? (id.withVersion version) with
    | none =>
      simp only [hEntry]
      exact sameContents_of_eq rfl rfl
    | some entry =>
      simp only [hEntry]
      exact sameContents_of_leases hEntry _ rfl rfl

end SnapshotCache

end OrderedLog
