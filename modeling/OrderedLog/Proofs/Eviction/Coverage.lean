import Mathlib.Data.List.Perm.Subperm
import Mathlib.Tactic.Common
import OrderedLog.Proofs.Eviction.Steps
import OrderedLog.SortedMap.Lemmas

/-
  This file proves that the eviction queue and the eviction
  worker carry every reported identifier along. An identifier
  may be replaced on the way, but only by one of the same
  object with a version that is at least as high, and nothing
  is made up.

  Key definitions include:
    * `VersionedId.CoveredBy`
    * `Carries`
    * `identifiersOf`
    * `NoticeQueue.undelivered`
    * `EvictionWorker.Alive`

  Key lemmas include:
    * `carries_evictionTargets`
    * `length_evictionTargets_le`
    * `highestVersions_eq_of_carries`
    * `NoticeQueue.report_heard`
    * `EvictionWorker.start_alive`
    * `EvictionWorker.carries_step`
    * `EvictionWorker.Alive.step`
-/

namespace OrderedLog

------------------------------------------------------------
-- Coverage
------------------------------------------------------------

namespace VersionedId

/- The same object at a version that is at least as high. -/
def Covers (high low : VersionedId) : Prop :=
  high.object = low.object ∧ low.version ≤ high.version

instance
    (high low : VersionedId) : Decidable (high.Covers low) :=
  inferInstanceAs (Decidable (_ ∧ _))

theorem covers_refl (id : VersionedId) : id.Covers id :=
  ⟨rfl, Address.le_refl id.version⟩

theorem Covers.trans
    {a b c : VersionedId}
    (h : a.Covers b)
    (h' : b.Covers c) : a.Covers c :=
  ⟨h.1.trans h'.1, Address.le_trans h'.2 h.2⟩

/- Some identifier of a list covers this one. -/
def CoveredBy
    (id : VersionedId)
    (ids : List VersionedId) : Prop :=
  ∃ other ∈ ids, other.Covers id

instance
    (id : VersionedId)
    (ids : List VersionedId) : Decidable (id.CoveredBy ids) :=
  inferInstanceAs (Decidable (∃ other ∈ ids, other.Covers id))

theorem coveredBy_of_mem
    {id : VersionedId}
    {ids : List VersionedId}
    (h : id ∈ ids) : id.CoveredBy ids :=
  ⟨id, h, id.covers_refl⟩

theorem coveredBy_append_iff
    {id : VersionedId}
    {ids others : List VersionedId} :
    id.CoveredBy (ids ++ others) ↔
      id.CoveredBy ids ∨ id.CoveredBy others := by
  simp [CoveredBy, or_and_right, exists_or]

theorem CoveredBy.trans
    {id : VersionedId}
    {ids others : List VersionedId}
    (h : id.CoveredBy ids)
    (hOthers : ∀ other ∈ ids, other.CoveredBy others) :
    id.CoveredBy others := by
  rcases h with ⟨other, hMem, hCovers⟩
  rcases hOthers other hMem with ⟨another, hAnother, hAbove⟩
  exact ⟨another, hAnother, hAbove.trans hCovers⟩

theorem CoveredBy.mono
    {id : VersionedId}
    {ids others : List VersionedId}
    (h : id.CoveredBy ids)
    (hSubset : ids ⊆ others) : id.CoveredBy others :=
  h.trans (fun _ hMem => coveredBy_of_mem (hSubset hMem))

end VersionedId

/-
  What is in one list is covered by another list, which has
  nothing that is not in the first.
-/
structure Carries
    (old new : List VersionedId) : Prop where
  covered : ∀ id ∈ old, id.CoveredBy new
  genuine : ∀ id ∈ new, id ∈ old

theorem carries_of_mem_iff
    {old new : List VersionedId}
    (h : ∀ id, id ∈ old ↔ id ∈ new) : Carries old new where
  covered := fun id hMem => VersionedId.coveredBy_of_mem ((h id).mp hMem)
  genuine := fun id hMem => (h id).mpr hMem

theorem Carries.trans
    {a b c : List VersionedId}
    (h : Carries a b)
    (h' : Carries b c) : Carries a c where
  covered := fun id hMem => (h.covered id hMem).trans h'.covered
  genuine := fun id hMem => h.genuine id (h'.genuine id hMem)

/- What carries a list along covers the same identifiers. -/
theorem Carries.coveredBy_iff
    {old new : List VersionedId}
    (h : Carries old new)
    (id : VersionedId) : id.CoveredBy old ↔ id.CoveredBy new := by
  constructor
  · intro hOld
    exact hOld.trans h.covered
  · intro hNew
    exact hNew.mono h.genuine

theorem Carries.append
    {a b c d : List VersionedId}
    (h : Carries a b)
    (h' : Carries c d) : Carries (a ++ c) (b ++ d) := by
  constructor
  · intro id hMem
    rcases List.mem_append.mp hMem with hLeft | hRight
    · exact (h.covered id hLeft).mono (List.subset_append_left _ _)
    · exact (h'.covered id hRight).mono (List.subset_append_right _ _)
  · intro id hMem
    rcases List.mem_append.mp hMem with hLeft | hRight
    · exact List.mem_append_left _ (h.genuine id hLeft)
    · exact List.mem_append_right _ (h'.genuine id hRight)

theorem carries_refl (ids : List VersionedId) : Carries ids ids :=
  carries_of_mem_iff (fun _ => Iff.rfl)

/- The order of the parts of a list does not matter. -/
theorem carries_right_comm
    (a b c : List VersionedId) : Carries (a ++ b ++ c) (a ++ c ++ b) := by
  apply carries_of_mem_iff
  intro id
  simp only [List.mem_append]
  exact or_right_comm

------------------------------------------------------------
-- Highest versions
------------------------------------------------------------

/- The identifiers that a map from objects to versions has. -/
def identifiersOf
    (highest : SortedMap StreamId Address) : List VersionedId :=
  highest.entries.map (fun e => ⟨e.1, e.2⟩)

theorem mem_identifiersOf_iff
    {highest : SortedMap StreamId Address}
    {id : VersionedId} :
    id ∈ identifiersOf highest ↔
      highest.get? id.object = some id.version := by
  rw [SortedMap.get?_eq_some_iff]
  unfold identifiersOf
  rw [List.mem_map]
  constructor
  · rintro ⟨entry, hMem, rfl⟩
    exact hMem
  · intro hMem
    exact ⟨(id.object, id.version), hMem, rfl⟩

/- Merging an identifier into a map carries it along. -/
theorem carries_insertWith
    (highest : SortedMap StreamId Address)
    (id : VersionedId) :
    Carries (identifiersOf highest ++ [id])
      (identifiersOf
        (highest.insertWith Address.max id.object id.version)) := by
  have hMerged : ∀ other : VersionedId,
      other ∈ identifiersOf
          (highest.insertWith Address.max id.object id.version) ↔
        (if other.object = id.object then
          some ((highest.get? id.object).elim id.version
            (fun version => version.max id.version))
        else highest.get? other.object) = some other.version := by
    intro other
    rw [mem_identifiersOf_iff, SortedMap.get?_insertWith]
  constructor
  · intro other hMem
    rw [List.mem_append, List.mem_singleton, mem_identifiersOf_iff]
      at hMem
    by_cases hObject : other.object = id.object
    · -- the merged version of the object is above both
      let version := (highest.get? id.object).elim id.version
        (fun version => version.max id.version)
      refine ⟨⟨id.object, version⟩, ?_, hObject.symm, ?_⟩
      · exact (hMerged ⟨id.object, version⟩).mpr (if_pos rfl)
      · change other.version ≤ version
        rcases hMem with hOld | rfl
        · rw [hObject] at hOld
          simp only [version, hOld, Option.elim_some]
          exact Address.le_max_left _ _
        · simp only [version]
          cases highest.get? other.object with
          | none => exact Address.le_refl _
          | some old => exact Address.le_max_right _ _
    · rcases hMem with hOld | rfl
      · apply VersionedId.coveredBy_of_mem
        rw [hMerged, if_neg hObject]
        exact hOld
      · exact absurd rfl hObject
  · intro other hMem
    rw [hMerged] at hMem
    rw [List.mem_append, List.mem_singleton, mem_identifiersOf_iff]
    by_cases hObject : other.object = id.object
    · rw [if_pos hObject] at hMem
      cases hOld : highest.get? id.object with
      | none =>
        simp only [hOld, Option.elim_none, Option.some_inj] at hMem
        exact Or.inr (VersionedId.eq_of_parts_eq hObject hMem.symm)
      | some version =>
        simp only [hOld, Option.elim_some, Option.some_inj] at hMem
        rcases Address.max_eq_or version id.version with hMax | hMax
        · left
          rw [hObject, hOld, ← hMem, hMax]
        · rw [hMax] at hMem
          exact Or.inr (VersionedId.eq_of_parts_eq hObject hMem.symm)
    · rw [if_neg hObject] at hMem
      exact Or.inl hMem

/- Merging several identifiers carries all of them along. -/
theorem carries_foldl_insertWith
    (batch : List VersionedId)
    (highest : SortedMap StreamId Address) :
    Carries (identifiersOf highest ++ batch)
      (identifiersOf
        (batch.foldl
          (fun targets id =>
            targets.insertWith Address.max id.object id.version)
          highest)) := by
  induction batch generalizing highest with
  | nil =>
    rw [List.append_nil]
    exact carries_refl _
  | cons id batch ih =>
    have hFirst :=
      (carries_insertWith highest id).append (carries_refl batch)
    rw [List.append_assoc, List.singleton_append] at hFirst
    exact hFirst.trans (ih _)

/- The targets of a batch carry the batch along. -/
theorem carries_evictionTargets
    (batch : List VersionedId) :
    Carries batch (evictionTargets batch) :=
  carries_foldl_insertWith batch ∅

/- There is one target for each object. -/
theorem objects_evictionTargets
    (batch : List VersionedId) :
    (evictionTargets batch).map VersionedId.object =
      (highestVersions batch).keys := by
  simp [evictionTargets, SortedMap.keys, Function.comp_def]

/- There are no more targets than there are identifiers. -/
theorem length_evictionTargets_le
    (batch : List VersionedId) :
    (evictionTargets batch).length ≤ batch.length := by
  have hObjects :
      (evictionTargets batch).map VersionedId.object ⊆
        batch.map VersionedId.object :=
    List.map_subset _
      (fun id hMem => (carries_evictionTargets batch).genuine id hMem)
  have hNodup : ((evictionTargets batch).map VersionedId.object).Nodup := by
    rw [objects_evictionTargets]
    exact SortedMap.keys_nodup _
  have hLength := (List.subperm_of_subset hNodup hObjects).length_le
  rw [List.length_map, List.length_map] at hLength
  exact hLength

/- The highest version of an object is the highest there is. -/
theorem get?_highestVersions_iff
    {batch : List VersionedId}
    {object : StreamId}
    {version : Address} :
    (highestVersions batch).get? object = some version ↔
      ⟨object, version⟩ ∈ batch ∧
        ∀ id ∈ batch, id.object = object → id.version ≤ version := by
  have hTargets := carries_evictionTargets batch
  have hMem : ∀ id : VersionedId,
      id ∈ evictionTargets batch ↔
        (highestVersions batch).get? id.object = some id.version :=
    fun id => mem_identifiersOf_iff
  constructor
  · intro hVersion
    refine ⟨hTargets.genuine _ ((hMem ⟨object, version⟩).mpr hVersion), ?_⟩
    intro id hId hObject
    rcases hTargets.covered id hId with ⟨other, hOther, hSame, hAbove⟩
    have hOtherVersion := (hMem other).mp hOther
    rw [hSame, hObject, hVersion, Option.some_inj] at hOtherVersion
    rw [hOtherVersion]
    exact hAbove
  · rintro ⟨hId, hHighest⟩
    rcases hTargets.covered _ hId with ⟨⟨o, v⟩, hOther, hSame, hAbove⟩
    cases hSame
    have hBelow := hHighest _ (hTargets.genuine _ hOther) rfl
    have hEq : v = version :=
      Address.le_antisymm hBelow hAbove
    rw [← hEq]
    exact (hMem _).mp hOther

/- What carries a list along has the same highest versions. -/
theorem highestVersions_eq_of_carries
    {old new : List VersionedId}
    (h : Carries old new) :
    highestVersions new = highestVersions old := by
  apply SortedMap.eq_of_get?_eq
  intro object
  apply Option.ext
  intro version
  rw [get?_highestVersions_iff, get?_highestVersions_iff]
  constructor
  · rintro ⟨hMem, hHighest⟩
    refine ⟨h.genuine _ hMem, ?_⟩
    intro id hId hObject
    rcases h.covered id hId with ⟨other, hOther, hSame, hAbove⟩
    exact Address.le_trans hAbove
      (hHighest other hOther (hSame.trans hObject))
  · rintro ⟨hMem, hHighest⟩
    rcases h.covered _ hMem with ⟨⟨o, v⟩, hOther, hSame, hAbove⟩
    cases hSame
    have hBelow := hHighest _ (h.genuine _ hOther) rfl
    have hEq : v = version :=
      Address.le_antisymm hBelow hAbove
    subst hEq
    exact ⟨hOther, fun id hId => hHighest id (h.genuine id hId)⟩

------------------------------------------------------------
-- Reports
------------------------------------------------------------

namespace NoticeQueue

/- The identifiers that were sent and not received yet. -/
def undelivered (q : NoticeQueue) : List VersionedId :=
  q.pending ++ identifiersOf q.overflow

/- A removal that the cache did not make itself is ignored. -/
theorem report_ignored
    (q : NoticeQueue)
    (id : VersionedId)
    {cause : RemovalCause}
    (hCause : cause.evicted = false) :
    q.report id cause = (.ignored, q) := by
  unfold report
  simp [hCause]

/- Without a receiver a report leaves nothing behind. -/
theorem report_unheard
    (q : NoticeQueue)
    (id : VersionedId)
    {cause : RemovalCause}
    (hCause : cause.evicted = true)
    (hGone : q.receiverGone = true) :
    q.report id cause = (.unheard, q) := by
  unfold report
  simp [hCause, hGone]

/-
  A report of an eviction that is heard is either queued or
  merged into the overflow, and carried along in both cases.
-/
theorem report_heard
    (q : NoticeQueue)
    (id : VersionedId)
    {cause : RemovalCause}
    (hCause : cause.evicted = true)
    (hHeard : q.receiverGone = false) :
    ∃ outcome next,
      q.report id cause = (outcome, next) ∧
      (outcome = .queued ∨ outcome = .overflowed) ∧
      next.senderGone = q.senderGone ∧
      next.receiverGone = false ∧
      Carries (q.undelivered ++ [id]) next.undelivered := by
  unfold report
  simp only [hCause, hHeard, Bool.not_true, Bool.false_eq_true, if_false]
  split
  · refine ⟨_, _, rfl, Or.inr rfl, rfl, rfl, ?_⟩
    have hMerged := carries_insertWith q.overflow id
    have hAll := (carries_refl q.pending).append hMerged
    rw [← List.append_assoc] at hAll
    exact hAll
  · refine ⟨_, _, rfl, Or.inl rfl, rfl, rfl, ?_⟩
    exact carries_right_comm q.pending (identifiersOf q.overflow) [id]

/- What is received was undelivered. -/
theorem carries_receive
    {q : NoticeQueue}
    {id : VersionedId}
    {rest : List VersionedId}
    (hPending : q.pending = id :: rest) :
    Carries q.undelivered
      (undelivered { q with pending := rest } ++ [id]) := by
  apply carries_of_mem_iff
  intro other
  simp only [undelivered, hPending, List.mem_append, List.mem_cons,
    List.not_mem_nil, or_false]
  rw [or_assoc, or_comm]

/- What is taken out of the overflow was undelivered. -/
theorem carries_takeOverflow
    (q : NoticeQueue) :
    Carries q.undelivered
      (q.takeOverflow.2.undelivered ++ q.takeOverflow.1) := by
  have hEmpty : q.takeOverflow.2.undelivered = q.pending :=
    List.append_nil q.pending
  rw [hEmpty]
  exact carries_refl _

end NoticeQueue

------------------------------------------------------------
-- Worker steps
------------------------------------------------------------

namespace EvictionWorker

/- The worker is in its loop, and both ends of its queue exist. -/
structure Alive
    (q : NoticeQueue)
    (w : EvictionWorker) : Prop where
  running : w ≠ stopped
  sender : q.senderGone = false
  receiver : q.receiverGone = false

/- A worker lives as it starts if there is room for its batch. -/
theorem start_alive
    {batchSize : Nat}
    (hFits : fits batchSize = true)
    (capacity : Nat) :
    Alive (start batchSize (NoticeQueue.empty capacity)).2
      (start batchSize (NoticeQueue.empty capacity)).1 := by
  unfold start
  rw [if_pos hFits]
  exact ⟨nofun, rfl, rfl⟩

/- All that was reported and not evicted yet. -/
def outstanding
    (q : NoticeQueue)
    (w : EvictionWorker) : List VersionedId :=
  q.undelivered ++ w.unfinished

/- A report that was heard is outstanding. -/
theorem carries_reported
    {q next : NoticeQueue}
    {id : VersionedId}
    (hReported : Carries (q.undelivered ++ [id]) next.undelivered)
    (w : EvictionWorker) :
    Carries (outstanding q w ++ [id]) (outstanding next w) := by
  have hBoth := hReported.append (carries_refl w.unfinished)
  exact (carries_right_comm _ _ _).trans hBoth

/- An identifier that the worker takes is outstanding still. -/
theorem carries_received
    {q next : NoticeQueue}
    {id : VersionedId}
    (hReceived : Carries q.undelivered (next.undelivered ++ [id]))
    (batch : List VersionedId) :
    Carries (q.undelivered ++ batch)
      (next.undelivered ++ (batch ++ [id])) := by
  have hBoth := hReceived.append (carries_refl batch)
  rw [← List.append_assoc]
  exact hBoth.trans (carries_right_comm _ _ _)

/- The batch with the overflow is outstanding still. -/
theorem carries_taken
    (q : NoticeQueue)
    (batch : List VersionedId) :
    Carries (q.undelivered ++ batch)
      (q.takeOverflow.2.undelivered ++ (batch ++ q.takeOverflow.1)) := by
  have hTaken := q.carries_takeOverflow.append (carries_refl batch)
  rw [← List.append_assoc]
  exact hTaken.trans (carries_right_comm _ _ _)

/-
  What is outstanding after a step, with the eviction that was
  asked for, carries along what was outstanding before. A worker
  that leaves its loop leaves it outstanding.
-/
theorem carries_step
    (batchSize : Nat)
    (stopping : Bool)
    (q : NoticeQueue)
    (w : EvictionWorker) :
    Carries (outstanding q w)
      (outstanding (step batchSize stopping q w).queue
        (step batchSize stopping q w).worker ++
          (step batchSize stopping q w).call.toList) := by
  have hSame : ∀ ids : List VersionedId, Carries ids (ids ++ []) := by
    intro ids
    rw [List.append_nil]
    exact carries_refl ids
  have hMoves := moves_step batchSize stopping q w
  generalize step batchSize stopping q w = next at hMoves
  cases hMoves with
  | asked => exact hSame _
  | opened _ hPending =>
    have hReceived := NoticeQueue.carries_receive hPending
    exact (carries_received hReceived []).trans (hSame _)
  | lapsed => exact hSame _
  | left => exact hSame _
  | filled _ hPending =>
    have hReceived := NoticeQueue.carries_receive hPending
    exact (carries_received hReceived _).trans (hSame _)
  | closed => exact hSame _
  | @rested batch hNothing =>
    have hWhole := carries_taken q batch
    rw [hNothing] at hWhole
    exact hWhole.trans (hSame _)
  | @planned batch =>
    have hTargets := carries_evictionTargets (batch ++ q.takeOverflow.1)
    have hPlanned := (carries_refl q.takeOverflow.2.undelivered).append
      hTargets
    exact (carries_taken q batch).trans (hPlanned.trans (hSame _))
  | ended => exact hSame _
  | @evicted target targets =>
    apply carries_of_mem_iff
    intro other
    simp only [outstanding, unfinished, Option.toList_some,
      List.mem_append, List.mem_cons, List.not_mem_nil, or_false]
    rw [or_assoc, or_comm (a := other = target)]
  | halted => exact hSame _

/- Nobody but a stop request or the end of the sender kills a worker. -/
theorem Alive.step
    (batchSize : Nat)
    {q : NoticeQueue}
    {w : EvictionWorker}
    (h : Alive q w) :
    Alive (step batchSize false q w).queue
      (step batchSize false q w).worker := by
  rcases h with ⟨hRunning, hSender, hReceiver⟩
  have hMoves := moves_step batchSize false q w
  generalize EvictionWorker.step batchSize false q w = next at hMoves
  cases hMoves with
  | asked hStopping => simp at hStopping
  | left _ _ hGone => simp [hSender] at hGone
  | halted => exact absurd rfl hRunning
  | opened => exact ⟨nofun, hSender, hReceiver⟩
  | lapsed => exact ⟨nofun, hSender, hReceiver⟩
  | filled => exact ⟨nofun, hSender, hReceiver⟩
  | closed => exact ⟨nofun, hSender, hReceiver⟩
  | rested => exact ⟨nofun, hSender, hReceiver⟩
  | planned => exact ⟨nofun, hSender, hReceiver⟩
  | ended => exact ⟨nofun, hSender, hReceiver⟩
  | evicted => exact ⟨nofun, hSender, hReceiver⟩

end EvictionWorker

end OrderedLog
