import OrderedLog.Proofs.Refresh.Orders

/-
  This file proves what a round of refreshing over all objects
  that are registered does, in whatever order it goes through
  them: the objects that are behind are called, once each, and
  no others; all counts follow from the outcomes of the calls;
  and in another order all comes to the same.

  Objects that note their refreshes are an instance. Some of
  them fail.

  Key definitions include:
    * `RefreshTarget.RoundExact`
    * `RefreshTarget.notebook`

  Key lemmas include:
    * `RefreshTarget.notebook_confined`
    * `RefreshTarget.notebook_actsOn`

  Key theorems include:
    * `RefreshTarget.round_exact`
-/

namespace OrderedLog

namespace RefreshTarget

variable {σ ρ ω : Type}

------------------------------------------------------------
-- Exact rounds
------------------------------------------------------------

/-
  What a round over all registered objects does, as it goes
  through them in some order.
-/
structure RoundExact
    (t : RefreshTarget σ ρ ω)
    (objects : List (StreamId × ρ))
    (s : SnapshotCache σ ρ × ω) : Prop where
  /- The calls are those of the round itself. -/
  noted :
    t.noting.round objects (s.1, s.2, []) =
      ((t.round objects s).1, (t.round objects s).2.1,
        (t.round objects s).2.2, t.calls objects s)
  /- Without objects nobody is asked, and the round is counted. -/
  idle :
    objects = [] →
      t.calls objects s = [] ∧ t.round objects s = (0, recordRound s 0)
  /- Without tails nobody is called, and one failure is counted. -/
  unanswered :
    objects ≠ [] →
      ∀ refusal,
        (t.tails (objects.map Prod.fst) s.2).1 = .error refusal →
          t.calls objects s = [] ∧ (t.round objects s).1 = 0 ∧
            (t.round objects s).2.1 = (recordFailure s).1
  /- With tails the objects that are behind are called. -/
  answered :
    objects ≠ [] →
      ∀ tails, (t.tails (objects.map Prod.fst) s.2).1 = .ok tails →
        t.RefreshesBehind objects s tails
  /- In another order the same calls are made. -/
  called :
    ∀ others : List (StreamId × ρ), objects.Perm others →
      (t.tails (objects.map Prod.fst) s.2).1 =
          (t.tails (others.map Prod.fst) s.2).1 →
        ((t.calls objects s).map
            (fun call => (call.object, call.tail))).Perm
          ((t.calls others s).map
            (fun call => (call.object, call.tail)))
  /- In another order all comes to the same. -/
  ordered :
    ∀ (υ : Type) (own : StreamId → ω → υ)
      (work : StreamId → ρ → Address → Cell σ υ → Work σ υ),
      t.ActsOn own work →
        ∀ others : List (StreamId × ρ), objects.Perm others →
          t.Agree own objects others s

/-
  A round over the registered objects refreshes those that are
  behind, in whatever order it goes through them.
-/
theorem round_exact
    {t : RefreshTarget σ ρ ω}
    (hConfined : t.Confined)
    (s : SnapshotCache σ ρ × ω)
    {objects : List (StreamId × ρ)}
    (hOrder : objects.Perm s.1.registry.entries) :
    t.RoundExact objects s := by
  have hNodup : (objects.map Prod.fst).Nodup :=
    (hOrder.map Prod.fst).nodup_iff.mpr s.1.registry.keys_nodup
  constructor
  · exact t.noting_round objects s
  · intro hNone
    subst hNone
    exact ⟨t.calls_nil s, t.round_nil s⟩
  · intro hSome refusal hAnswer
    rw [t.round_of_error s hSome hAnswer]
    exact ⟨t.calls_of_error s hAnswer, rfl, rfl⟩
  · intro hSome tails hAnswer
    exact hConfined.refreshesBehind hNodup s hSome hAnswer
  · intro others hPerm hAnswers
    exact hConfined.calls_perm hNodup hPerm s hAnswers
  · intro υ own work hActsOn others hPerm
    exact hActsOn.agree hNodup hPerm s

------------------------------------------------------------
-- Objects that note their refreshes
------------------------------------------------------------

/-
  Fixed tails, and objects that note the versions to which they
  are refreshed and cache a snapshot there. Those that are known
  by `true` fail instead.
-/
def notebook
    (tails : SortedMap StreamId Address) :
    RefreshTarget String Bool (List VersionedId) where
  tails streams notes :=
    (.ok (tails.filterKeys (fun stream => streams.contains stream)), notes)
  refreshTo object failing tail s :=
    let id : VersionedId := ⟨object, tail⟩
    if failing then
      (.error (.notRefreshed object "replay failed"), s)
    else
      (.ok (), s.1.put id id.text, s.2 ++ [id])

/- The notes of an object. -/
def notesOf
    (object : StreamId)
    (notes : List VersionedId) : List VersionedId :=
  notes.filter (fun id => id.object = object)

/- How an object is refreshed. -/
def noteWork
    (object : StreamId)
    (failing : Bool)
    (tail : Address)
    (cell : Cell String (List VersionedId)) :
    Work String (List VersionedId) :=
  let id : VersionedId := ⟨object, tail⟩
  if failing then
    ⟨false, cell, CacheStats.zero⟩
  else
    { succeeded := true
      cell :=
        { versions := some ((cell.versions.getD ∅).add tail)
          value? := fun version =>
            if version = tail then some id.text else cell.value? version
          share := cell.share ++ [id] }
      spent := CacheStats.zero.recordPut }

theorem notebook_confined
    (tails : SortedMap StreamId Address) : (notebook tails).Confined := by
  constructor
  · intro object failing tail s other hOther
    unfold notebook
    cases failing with
    | true => rfl
    | false =>
      simp [SnapshotCache.versionList, SnapshotCache.versions,
        SnapshotCache.put, SnapshotCache.indexVersion,
        SnapshotCache.insertSnapshot, SortedMap.get?_insert, hOther]
  · intro object failing tail s
    cases failing with
    | true => rfl
    | false => rfl
  · intro object failing tail s
    cases failing with
    | true => rfl
    | false => rfl
  · intro object failing tail s
    cases failing with
    | true => rfl
    | false => rfl

theorem notebook_actsOn
    (tails : SortedMap StreamId Address) :
    (notebook tails).ActsOn notesOf noteWork := by
  constructor
  · intro object failing tail s
    cases failing with
    | true => rfl
    | false => rfl
  · intro object failing tail s
    cases failing with
    | true => rfl
    | false =>
      have hNotes : notesOf object (s.2 ++ [⟨object, tail⟩]) =
          notesOf object s.2 ++ [⟨object, tail⟩] := by
        simp [notesOf]
      have hValues := fun version =>
        s.1.valueAt?_insertSnapshot ⟨object, tail⟩ ⟨object, version⟩
          (VersionedId.text ⟨object, tail⟩)
      simp only [VersionedId.mk.injEq, true_and] at hValues
      have hVersions :
          (s.1.put ⟨object, tail⟩
              (VersionedId.text ⟨object, tail⟩)).index.get? object =
            some ((s.1.versions object).add tail) := by
        simp [SnapshotCache.put, SnapshotCache.indexVersion,
          SnapshotCache.insertSnapshot, SnapshotCache.versions,
          SortedMap.get?_insert]
      unfold cellOf
      rw [Cell.mk.injEq]
      exact ⟨hVersions, funext hValues, hNotes⟩
  · intro object failing tail s other hOther
    cases failing with
    | true => rfl
    | false =>
      have hNotes : notesOf other (s.2 ++ [⟨object, tail⟩]) =
          notesOf other s.2 := by
        simp [notesOf, hOther.symm]
      have hValues := fun version =>
        s.1.valueAt?_insertSnapshot ⟨object, tail⟩ ⟨other, version⟩
          (VersionedId.text ⟨object, tail⟩)
      simp only [VersionedId.mk.injEq, hOther, false_and, if_false]
        at hValues
      have hVersions :
          (s.1.put ⟨object, tail⟩
              (VersionedId.text ⟨object, tail⟩)).index.get? other =
            s.1.index.get? other := by
        simp [SnapshotCache.put, SnapshotCache.indexVersion,
          SnapshotCache.insertSnapshot, SortedMap.get?_insert, hOther]
      unfold cellOf
      rw [Cell.mk.injEq]
      exact ⟨hVersions, funext hValues, hNotes⟩
  · intro object failing tail s
    cases failing with
    | true => rfl
    | false => rfl
  · intro object failing tail s
    cases failing with
    | true => rfl
    | false => rfl
  · intro streams others notes hPerm
    have hSame : ∀ stream,
        streams.contains stream = others.contains stream := by
      intro stream
      rw [List.contains_eq_mem, List.contains_eq_mem]
      simp only [hPerm.mem_iff]
    simp only [notebook, hSame]
  · intro object streams notes
    rfl

/- The tails of four streams. -/
def scatteredTails : SortedMap StreamId Address :=
  (((SortedMap.empty.insert (StreamId.ofNat 1) (Address.ofNat 7)).insert
    (StreamId.ofNat 2) (Address.ofNat 8)).insert
      (StreamId.ofNat 3) (Address.ofNat 4)).insert
        (StreamId.ofNat 5) (Address.ofNat 6)

/-
  Five objects: one is behind, one is at its tail, one has no
  versions, one has no tail, and one is behind and fails.
-/
def scatteredObjects : SnapshotCache String Bool :=
  let registered :=
    ((((SnapshotCache.empty.addObject (StreamId.ofNat 1) false).addObject
      (StreamId.ofNat 2) false).addObject
        (StreamId.ofNat 3) false).addObject
          (StreamId.ofNat 4) false).addObject (StreamId.ofNat 5) true
  (((registered.put ⟨StreamId.ofNat 1, Address.ofNat 3⟩ "a").put
    ⟨StreamId.ofNat 2, Address.ofNat 8⟩ "b").put
      ⟨StreamId.ofNat 4, Address.ofNat 2⟩ "c").put
        ⟨StreamId.ofNat 5, Address.ofNat 1⟩ "d"

/- These objects from the last to the first. -/
def scatteredOrder : List (StreamId × Bool) :=
  scatteredObjects.registry.entries.reverse

theorem scatteredObjects_round_exact :
    (notebook scatteredTails).Confined ∧
      (notebook scatteredTails).ActsOn notesOf noteWork ∧
      scatteredOrder.Perm scatteredObjects.registry.entries ∧
      (notebook scatteredTails).RoundExact scatteredOrder
        (scatteredObjects, []) ∧
      (notebook scatteredTails).Agree notesOf scatteredOrder
        scatteredObjects.registry.entries (scatteredObjects, []) := by
  have hConfined := notebook_confined scatteredTails
  have hActsOn := notebook_actsOn scatteredTails
  have hOrder : scatteredOrder.Perm scatteredObjects.registry.entries :=
    List.reverse_perm _
  have hExact := round_exact hConfined (scatteredObjects, []) hOrder
  exact ⟨hConfined, hActsOn, hOrder, hExact,
    hExact.ordered _ notesOf noteWork hActsOn _ hOrder⟩

/- Two of the five objects are called, and one of the calls fails. -/
example :
    (notebook scatteredTails).calls scatteredOrder (scatteredObjects, []) =
      [ ⟨StreamId.ofNat 5, Address.ofNat 6, false⟩,
        ⟨StreamId.ofNat 1, Address.ofNat 7, true⟩ ] := by
  decide

end RefreshTarget

end OrderedLog
