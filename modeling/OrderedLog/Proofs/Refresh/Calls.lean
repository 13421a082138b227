import Mathlib.Data.List.Basic
import Mathlib.Order.Bounds.Defs
import Mathlib.Tactic.Common
import OrderedLog.Proofs.SnapshotCache.Contents
import OrderedLog.Refresh

/-
  This file proves which objects a round of refreshing calls,
  and what it counts. As long as the refresh of an object keeps
  its hands off the versions of other objects, the calls are
  made to just the objects that were behind as the round began,
  once to each of them, and whether one of them fails has no
  part in it.

  Key definitions include:
    * `RefreshTarget.Call`
    * `RefreshTarget.noting`
    * `RefreshTarget.calls`
    * `RefreshTarget.Behind`
    * `RefreshTarget.Confined`
    * `RefreshTarget.RefreshesBehind`

  Key lemmas include:
    * `RefreshTarget.refreshEach_cons`
    * `RefreshTarget.noting_refreshEach`
    * `RefreshTarget.due?_eq_some_iff`
    * `RefreshTarget.Confined.eachCalls_eq`
    * `RefreshTarget.Confined.stats_refreshEach`
    * `RefreshTarget.Confined.refreshesBehind`
    * `RefreshTarget.Confined.calls_perm`
-/

namespace OrderedLog

namespace SnapshotCache

variable {σ ρ : Type}

/- The latest version of an object is the highest in the index. -/
theorem latest?_eq_some_iff
    {c : SnapshotCache σ ρ}
    {object : StreamId}
    {latest : Address} :
    c.latest? object = some latest ↔
      IsGreatest {version | c.Indexes ⟨object, version⟩} latest := by
  have hSorted : (c.versionList object).Pairwise (fun a b => a < b) :=
    SortedMap.keys_sorted _
  unfold latest? IsGreatest Indexes
  rcases (c.versionList object).eq_nil_or_concat' with
    hNone | ⟨front, last, hList⟩
  · constructor
    · intro hLatest
      simp [hNone] at hLatest
    · intro hGreatest
      have hMem : latest ∈ c.versionList object := hGreatest.1
      simp [hNone] at hMem
  · rw [hList] at hSorted
    have hBelow : ∀ version ∈ front ++ [last], version ≤ last := by
      intro version hMem
      rcases List.mem_append.mp hMem with hFront | hLast
      · exact Nat.le_of_lt
          ((List.pairwise_append.mp hSorted).2.2 version hFront last
            (List.mem_singleton_self last))
      · rw [List.mem_singleton.mp hLast]
        exact Address.le_refl last
    simp only [hList, List.getLast?_append, List.getLast?_singleton,
      Option.some_or, Option.some_inj]
    constructor
    · intro hSame
      subst hSame
      exact ⟨List.mem_append_right _ (List.mem_singleton_self last), hBelow⟩
    · intro hGreatest
      have hAbove := hGreatest.2
        (List.mem_append_right front (List.mem_singleton_self last))
      exact Address.le_antisymm hAbove (hBelow latest hGreatest.1)

end SnapshotCache

namespace RefreshTarget

variable {σ ρ ω : Type}

------------------------------------------------------------
-- Calls
------------------------------------------------------------

/- A call to refresh an object to a tail, and how it went. -/
structure Call where
  object : StreamId
  tail : Address
  succeeded : Bool
deriving DecidableEq

/- The same target, with all calls to it written down. -/
def noting
    (t : RefreshTarget σ ρ ω) : RefreshTarget σ ρ (ω × List Call) where
  tails streams noted :=
    let asked := t.tails streams noted.1
    (asked.1, asked.2, noted.2)
  refreshTo object known tail s :=
    let done := t.refreshTo object known tail (s.1, s.2.1)
    (done.1, done.2.1, done.2.2,
      s.2.2 ++ [⟨object, tail, done.1.isOk⟩])

/- The calls of a round over some objects. -/
def calls
    (t : RefreshTarget σ ρ ω)
    (objects : List (StreamId × ρ))
    (s : SnapshotCache σ ρ × ω) : List Call :=
  (t.noting.round objects (s.1, s.2, [])).2.2.2

/- One refresh, whose failure is counted. -/
def attempt
    (t : RefreshTarget σ ρ ω)
    (object : StreamId)
    (known : ρ)
    (tail : Address)
    (s : SnapshotCache σ ρ × ω) : SnapshotCache σ ρ × ω :=
  let done := t.refreshTo object known tail s
  if done.1.isOk then done.2 else recordFailure done.2

theorem attempt_of_ok
    (t : RefreshTarget σ ρ ω)
    {object : StreamId}
    {known : ρ}
    {tail : Address}
    {s : SnapshotCache σ ρ × ω}
    (hOk : (t.refreshTo object known tail s).1.isOk = true) :
    t.attempt object known tail s =
      (t.refreshTo object known tail s).2 :=
  if_pos hOk

theorem attempt_of_failed
    (t : RefreshTarget σ ρ ω)
    {object : StreamId}
    {known : ρ}
    {tail : Address}
    {s : SnapshotCache σ ρ × ω}
    (hFailed : (t.refreshTo object known tail s).1.isOk = false) :
    t.attempt object known tail s =
      recordFailure (t.refreshTo object known tail s).2 :=
  if_neg (Bool.eq_false_iff.mp hFailed)

/- Objects are refreshed one after the other, if they are due. -/
theorem refreshEach_cons
    (t : RefreshTarget σ ρ ω)
    (tails : SortedMap StreamId Address)
    (object : StreamId)
    (known : ρ)
    (objects : List (StreamId × ρ))
    (s : SnapshotCache σ ρ × ω) :
    t.refreshEach tails ((object, known) :: objects) s =
      match due? tails s.1 object with
      | none => t.refreshEach tails objects s
      | some tail =>
        let others :=
          t.refreshEach tails objects (t.attempt object known tail s)
        ((t.refreshTo object known tail s).1.isOk.toNat + others.1,
          others.2) := by
  rw [refreshEach]
  unfold attempt
  cases due? tails s.1 object with
  | none => rfl
  | some tail =>
    rcases hDone : t.refreshTo object known tail s with ⟨result, next⟩
    cases result with
    | ok done => simp [hDone, Except.isOk, Except.toBool]
    | error refusal => simp [hDone, Except.isOk, Except.toBool]

/- The calls of a round whose tails are known. -/
def eachCalls
    (t : RefreshTarget σ ρ ω)
    (tails : SortedMap StreamId Address) :
    List (StreamId × ρ) → SnapshotCache σ ρ × ω → List Call
  | [], _ => []
  | (object, known) :: objects, s =>
    match due? tails s.1 object with
    | none => eachCalls t tails objects s
    | some tail =>
      ⟨object, tail, (t.refreshTo object known tail s).1.isOk⟩ ::
        eachCalls t tails objects (t.attempt object known tail s)

/- To write the calls down changes nothing else. -/
theorem noting_refreshEach
    (t : RefreshTarget σ ρ ω)
    (tails : SortedMap StreamId Address)
    (objects : List (StreamId × ρ))
    (s : SnapshotCache σ ρ × ω)
    (noted : List Call) :
    t.noting.refreshEach tails objects (s.1, s.2, noted) =
      ((t.refreshEach tails objects s).1,
        (t.refreshEach tails objects s).2.1,
        (t.refreshEach tails objects s).2.2,
        noted ++ t.eachCalls tails objects s) := by
  induction objects generalizing s noted with
  | nil => simp [refreshEach, eachCalls]
  | cons e objects ih =>
    rcases e with ⟨object, known⟩
    have hAttempt : ∀ tail,
        t.noting.attempt object known tail (s.1, s.2, noted) =
          ((t.attempt object known tail s).1,
            (t.attempt object known tail s).2,
            noted ++
              [⟨object, tail,
                (t.refreshTo object known tail s).1.isOk⟩]) := by
      intro tail
      unfold attempt noting recordFailure
      simp only
      split
      · rfl
      · rfl
    rw [refreshEach_cons, refreshEach_cons, eachCalls]
    cases hDue : due? tails s.1 object with
    | none => exact ih s noted
    | some tail =>
      simp only [hAttempt, ih, List.append_assoc, List.singleton_append]
      rfl

------------------------------------------------------------
-- Rounds
------------------------------------------------------------

/- Without objects the tails are not asked for. -/
theorem round_nil
    (t : RefreshTarget σ ρ ω)
    (s : SnapshotCache σ ρ × ω) : t.round [] s = (0, recordRound s 0) :=
  rfl

/- Without tails no object is refreshed. -/
theorem round_of_error
    (t : RefreshTarget σ ρ ω)
    (s : SnapshotCache σ ρ × ω)
    {objects : List (StreamId × ρ)}
    {refusal : CacheError}
    (hSome : objects ≠ [])
    (hAnswer : (t.tails (objects.map Prod.fst) s.2).1 = .error refusal) :
    t.round objects s =
      (0, recordFailure (s.1, (t.tails (objects.map Prod.fst) s.2).2)) := by
  rcases hAsked : t.tails (objects.map Prod.fst) s.2 with ⟨answer, world⟩
  rw [hAsked] at hAnswer
  subst hAnswer
  unfold round
  split
  · exact absurd rfl hSome
  · simp [hAsked]

/- With tails all objects are gone through. -/
theorem round_of_ok
    (t : RefreshTarget σ ρ ω)
    (s : SnapshotCache σ ρ × ω)
    {objects : List (StreamId × ρ)}
    {tails : SortedMap StreamId Address}
    (hSome : objects ≠ [])
    (hAnswer : (t.tails (objects.map Prod.fst) s.2).1 = .ok tails) :
    t.round objects s =
      let done :=
        t.refreshEach tails objects
          (s.1, (t.tails (objects.map Prod.fst) s.2).2)
      (done.1, recordRound done.2 done.1) := by
  rcases hAsked : t.tails (objects.map Prod.fst) s.2 with ⟨answer, world⟩
  rw [hAsked] at hAnswer
  subst hAnswer
  unfold round
  split
  · exact absurd rfl hSome
  · simp [hAsked]

theorem calls_nil
    (t : RefreshTarget σ ρ ω)
    (s : SnapshotCache σ ρ × ω) : t.calls [] s = [] :=
  rfl

theorem calls_of_error
    (t : RefreshTarget σ ρ ω)
    (s : SnapshotCache σ ρ × ω)
    {objects : List (StreamId × ρ)}
    {refusal : CacheError}
    (hAnswer : (t.tails (objects.map Prod.fst) s.2).1 = .error refusal) :
    t.calls objects s = [] := by
  by_cases hNone : objects = []
  · rw [hNone]
    exact t.calls_nil s
  · unfold calls
    rw [round_of_error t.noting (s.1, s.2, []) hNone hAnswer]
    rfl

theorem calls_of_ok
    (t : RefreshTarget σ ρ ω)
    (s : SnapshotCache σ ρ × ω)
    {objects : List (StreamId × ρ)}
    {tails : SortedMap StreamId Address}
    (hAnswer : (t.tails (objects.map Prod.fst) s.2).1 = .ok tails) :
    t.calls objects s =
      t.eachCalls tails objects
        (s.1, (t.tails (objects.map Prod.fst) s.2).2) := by
  by_cases hNone : objects = []
  · rw [hNone]
    exact t.calls_nil s
  · unfold calls
    rw [round_of_ok t.noting (s.1, s.2, []) hNone hAnswer]
    have hNoted := t.noting_refreshEach tails objects
      (s.1, (t.tails (objects.map Prod.fst) s.2).2) []
    exact congrArg (fun done => done.2.2.2) hNoted

/- Calls are written down beside a round as it is. -/
theorem noting_round
    (t : RefreshTarget σ ρ ω)
    (objects : List (StreamId × ρ))
    (s : SnapshotCache σ ρ × ω) :
    t.noting.round objects (s.1, s.2, []) =
      ((t.round objects s).1, (t.round objects s).2.1,
        (t.round objects s).2.2, t.calls objects s) := by
  by_cases hNone : objects = []
  · subst hNone
    rfl
  · cases hAnswer : (t.tails (objects.map Prod.fst) s.2).1 with
    | error refusal =>
      rw [round_of_error t.noting (s.1, s.2, []) hNone hAnswer,
        round_of_error t s hNone hAnswer, calls_of_error t s hAnswer]
      rfl
    | ok tails =>
      rw [round_of_ok t.noting (s.1, s.2, []) hNone hAnswer,
        round_of_ok t s hNone hAnswer, calls_of_ok t s hAnswer]
      have hNoted := t.noting_refreshEach tails objects
        (s.1, (t.tails (objects.map Prod.fst) s.2).2) []
      exact congrArg (fun done => (done.1, recordRound done.2 done.1)) hNoted

------------------------------------------------------------
-- Objects that are behind
------------------------------------------------------------

/-
  The tail of an object is known, and the highest of its indexed
  versions is below it.
-/
def Behind
    (tails : SortedMap StreamId Address)
    (c : SnapshotCache σ ρ)
    (object : StreamId)
    (tail : Address) : Prop :=
  tails.get? object = some tail ∧
    ∃ latest,
      IsGreatest {version | c.Indexes ⟨object, version⟩} latest ∧
        latest < tail

theorem due?_eq_some_iff
    {tails : SortedMap StreamId Address}
    {c : SnapshotCache σ ρ}
    {object : StreamId}
    {tail : Address} :
    due? tails c object = some tail ↔ Behind tails c object tail := by
  unfold due? Behind
  simp only [← SnapshotCache.latest?_eq_some_iff]
  cases tails.get? object with
  | none => simp
  | some reported =>
    cases c.latest? object with
    | none => simp
    | some latest =>
      by_cases hBelow : latest < reported
      · simp only [hBelow, if_true, Option.some_inj]
        constructor
        · intro hSame
          subst hSame
          exact ⟨rfl, latest, rfl, hBelow⟩
        · intro hBoth
          exact hBoth.1
      · simp only [hBelow, if_false, Option.some_inj]
        constructor
        · intro hImpossible
          simp at hImpossible
        · intro hBoth
          rcases hBoth with ⟨hSame, other, hOther, hLt⟩
          subst hSame
          subst hOther
          exact absurd hLt hBelow

/- Whether an object is due depends on its own versions. -/
theorem due?_congr
    (tails : SortedMap StreamId Address)
    {c d : SnapshotCache σ ρ}
    {object : StreamId}
    (h : c.versionList object = d.versionList object) :
    due? tails c object = due? tails d object := by
  unfold due? SnapshotCache.latest?
  rw [h]

------------------------------------------------------------
-- Confined refreshes
------------------------------------------------------------

/-
  A refresh of an object changes the cached versions of no other
  object. What rounds are counted by is not for it to change.
-/
structure Confined (t : RefreshTarget σ ρ ω) : Prop where
  versions :
    ∀ object known tail s other, other ≠ object →
      (t.refreshTo object known tail s).2.1.versionList other =
        s.1.versionList other
  rounds :
    ∀ object known tail s,
      (t.refreshTo object known tail s).2.1.stats.rounds =
        s.1.stats.rounds
  refreshed :
    ∀ object known tail s,
      (t.refreshTo object known tail s).2.1.stats.refreshed =
        s.1.stats.refreshed
  refreshFailures :
    ∀ object known tail s,
      (t.refreshTo object known tail s).2.1.stats.refreshFailures =
        s.1.stats.refreshFailures

/- A failure that is counted changes no versions either. -/
theorem Confined.versionList_attempt
    {t : RefreshTarget σ ρ ω}
    (h : t.Confined)
    {object other : StreamId}
    (hOther : other ≠ object)
    (known : ρ)
    (tail : Address)
    (s : SnapshotCache σ ρ × ω) :
    (t.attempt object known tail s).1.versionList other =
      s.1.versionList other := by
  have hVersions := h.versions object known tail s other hOther
  cases hOk : (t.refreshTo object known tail s).1.isOk with
  | true =>
    rw [t.attempt_of_ok hOk]
    exact hVersions
  | false =>
    rw [t.attempt_of_failed hOk]
    exact hVersions

/-
  The objects that are due as the first of them is refreshed are
  those that are called, whatever comes of the calls.
-/
theorem Confined.eachCalls_eq
    {t : RefreshTarget σ ρ ω}
    (h : t.Confined)
    (tails : SortedMap StreamId Address)
    {objects : List (StreamId × ρ)}
    (hNodup : (objects.map Prod.fst).Nodup)
    (s : SnapshotCache σ ρ × ω) :
    (t.eachCalls tails objects s).map
        (fun call => (call.object, call.tail)) =
      objects.filterMap
        (fun e => (due? tails s.1 e.1).map (fun tail => (e.1, tail))) := by
  induction objects generalizing s with
  | nil => rfl
  | cons e objects ih =>
    rcases e with ⟨object, known⟩
    have hParts := List.nodup_cons.mp hNodup
    rw [eachCalls, List.filterMap_cons]
    cases hDue : due? tails s.1 object with
    | none => exact ih hParts.2 s
    | some tail =>
      -- the call leaves those that come later as they were
      have hLater :
          objects.filterMap
              (fun e =>
                (due? tails (t.attempt object known tail s).1 e.1).map
                  (fun tail => (e.1, tail))) =
            objects.filterMap
              (fun e =>
                (due? tails s.1 e.1).map (fun tail => (e.1, tail))) := by
        apply List.filterMap_congr
        intro other hMem
        have hOther : other.1 ≠ object := by
          intro hSame
          apply hParts.1
          rw [← hSame]
          exact List.mem_map.mpr ⟨other, hMem, rfl⟩
        have hVersions := h.versionList_attempt hOther known tail s
        rw [due?_congr tails hVersions]
      simp only [List.map_cons, Option.map_some]
      rw [ih hParts.2, hLater]

------------------------------------------------------------
-- Counts
------------------------------------------------------------

namespace Call

/- The number of calls that succeeded. -/
def successes (calls : List Call) : Nat :=
  calls.countP (fun call => call.succeeded)

/- The number of calls that failed. -/
def failures (calls : List Call) : Nat :=
  calls.countP (fun call => !call.succeeded)

end Call

/- The calls that succeed are the number that is returned. -/
theorem refreshEach_fst
    (t : RefreshTarget σ ρ ω)
    (tails : SortedMap StreamId Address)
    (objects : List (StreamId × ρ))
    (s : SnapshotCache σ ρ × ω) :
    (t.refreshEach tails objects s).1 =
      Call.successes (t.eachCalls tails objects s) := by
  unfold Call.successes
  induction objects generalizing s with
  | nil => rfl
  | cons e objects ih =>
    rcases e with ⟨object, known⟩
    rw [refreshEach_cons, eachCalls]
    cases hDue : due? tails s.1 object with
    | none => exact ih s
    | some tail =>
      simp only [ih, List.countP_cons]
      cases (t.refreshTo object known tail s).1.isOk with
      | true => exact Nat.add_comm _ _
      | false => exact Nat.zero_add _

/- Of what rounds are counted by only the failures change. -/
theorem Confined.stats_attempt
    {t : RefreshTarget σ ρ ω}
    (h : t.Confined)
    (object : StreamId)
    (known : ρ)
    (tail : Address)
    (s : SnapshotCache σ ρ × ω) :
    (t.attempt object known tail s).1.stats.rounds =
        s.1.stats.rounds ∧
      (t.attempt object known tail s).1.stats.refreshed =
        s.1.stats.refreshed ∧
      (t.attempt object known tail s).1.stats.refreshFailures =
        s.1.stats.refreshFailures +
          (!(t.refreshTo object known tail s).1.isOk).toNat := by
  have hRounds := h.rounds object known tail s
  have hRefreshed := h.refreshed object known tail s
  have hFailures := h.refreshFailures object known tail s
  cases hOk : (t.refreshTo object known tail s).1.isOk with
  | true =>
    rw [t.attempt_of_ok hOk]
    exact ⟨hRounds, hRefreshed, hFailures⟩
  | false =>
    rw [t.attempt_of_failed hOk]
    exact ⟨hRounds, hRefreshed, congrArg (· + 1) hFailures⟩

theorem Confined.stats_refreshEach
    {t : RefreshTarget σ ρ ω}
    (h : t.Confined)
    (tails : SortedMap StreamId Address)
    (objects : List (StreamId × ρ))
    (s : SnapshotCache σ ρ × ω) :
    (t.refreshEach tails objects s).2.1.stats.rounds =
        s.1.stats.rounds ∧
      (t.refreshEach tails objects s).2.1.stats.refreshed =
        s.1.stats.refreshed ∧
      (t.refreshEach tails objects s).2.1.stats.refreshFailures =
        s.1.stats.refreshFailures +
          Call.failures (t.eachCalls tails objects s) := by
  unfold Call.failures
  induction objects generalizing s with
  | nil => exact ⟨rfl, rfl, rfl⟩
  | cons e objects ih =>
    rcases e with ⟨object, known⟩
    rw [refreshEach_cons, eachCalls]
    cases hDue : due? tails s.1 object with
    | none => exact ih s
    | some tail =>
      rcases h.stats_attempt object known tail s with
        ⟨hRounds, hRefreshed, hFailures⟩
      rcases ih (t.attempt object known tail s) with
        ⟨hLaterRounds, hLaterRefreshed, hLaterFailures⟩
      refine ⟨hLaterRounds.trans hRounds,
        hLaterRefreshed.trans hRefreshed, ?_⟩
      simp only [hLaterFailures, hFailures, List.countP_cons]
      cases (t.refreshTo object known tail s).1.isOk with
      | true => simp
      | false => simp only [Bool.not_false, Bool.toNat_true, if_true]; omega

------------------------------------------------------------
-- Rounds that refresh what is behind
------------------------------------------------------------

/-
  A round over some objects whose tails are told: it calls those
  that are behind, once each, and counts what comes of it.
-/
structure RefreshesBehind
    (t : RefreshTarget σ ρ ω)
    (objects : List (StreamId × ρ))
    (s : SnapshotCache σ ρ × ω)
    (tails : SortedMap StreamId Address) : Prop where
  called :
    ∀ object tail,
      (∃ call ∈ t.calls objects s,
          call.object = object ∧ call.tail = tail) ↔
        object ∈ objects.map Prod.fst ∧ Behind tails s.1 object tail
  once : ((t.calls objects s).map Call.object).Nodup
  returned : (t.round objects s).1 = Call.successes (t.calls objects s)
  refreshed :
    (t.round objects s).2.1.stats.refreshed =
      s.1.stats.refreshed + Call.successes (t.calls objects s)
  failed :
    (t.round objects s).2.1.stats.refreshFailures =
      s.1.stats.refreshFailures + Call.failures (t.calls objects s)
  rounds :
    (t.round objects s).2.1.stats.rounds = s.1.stats.rounds + 1

/- What is kept of some objects is in the same order. -/
theorem sublist_filterMap_fst
    {β : Type}
    (f : StreamId × ρ → Option β)
    (objects : List (StreamId × ρ)) :
    ((objects.filterMap (fun e => (f e).map (fun b => (e.1, b)))).map
      Prod.fst).Sublist (objects.map Prod.fst) := by
  induction objects with
  | nil => exact List.Sublist.refl _
  | cons e objects ih =>
    rw [List.filterMap_cons]
    cases f e with
    | none => exact ih.cons e.1
    | some b => exact ih.cons_cons e.1

theorem Confined.refreshesBehind
    {t : RefreshTarget σ ρ ω}
    (h : t.Confined)
    {objects : List (StreamId × ρ)}
    (hNodup : (objects.map Prod.fst).Nodup)
    (s : SnapshotCache σ ρ × ω)
    {tails : SortedMap StreamId Address}
    (hSome : objects ≠ [])
    (hAnswer : (t.tails (objects.map Prod.fst) s.2).1 = .ok tails) :
    t.RefreshesBehind objects s tails := by
  let asked := (s.1, (t.tails (objects.map Prod.fst) s.2).2)
  have hRound := t.round_of_ok s hSome hAnswer
  have hCalls : t.calls objects s = t.eachCalls tails objects asked :=
    t.calls_of_ok s hAnswer
  have hPairs := h.eachCalls_eq tails hNodup asked
  have hStats := h.stats_refreshEach tails objects asked
  have hReturned := t.refreshEach_fst tails objects asked
  rw [← hCalls] at hPairs hStats hReturned
  rcases hStats with ⟨hRounds, hRefreshed, hFailures⟩
  constructor
  · intro object tail
    have hPair :
        (∃ call ∈ t.calls objects s,
            call.object = object ∧ call.tail = tail) ↔
          (object, tail) ∈ (t.calls objects s).map
            (fun call => (call.object, call.tail)) := by
      simp [List.mem_map, Prod.ext_iff]
    rw [hPair, hPairs, List.mem_filterMap, List.mem_map]
    simp only [Option.map_eq_some_iff, Prod.mk.injEq,
      due?_eq_some_iff]
    constructor
    · intro hDue
      rcases hDue with ⟨e, hMem, reported, hBehind, hObject, hTail⟩
      subst hObject
      subst hTail
      exact ⟨⟨e, hMem, rfl⟩, hBehind⟩
    · intro hBoth
      rcases hBoth with ⟨⟨e, hMem, hObject⟩, hBehind⟩
      subst hObject
      exact ⟨e, hMem, tail, hBehind, rfl, rfl⟩
  · have hObjects := congrArg (List.map Prod.fst) hPairs
    rw [List.map_map] at hObjects
    change (t.calls objects s).map Call.object = _ at hObjects
    rw [hObjects]
    exact hNodup.sublist (sublist_filterMap_fst _ objects)
  · rw [hRound]
    exact hReturned
  · rw [hRound, ← hReturned, ← hRefreshed]
    rfl
  · rw [hRound, ← hFailures]
    rfl
  · rw [hRound, ← hRounds]
    rfl

/- Objects in another order are called for the same tails. -/
theorem Confined.calls_perm
    {t : RefreshTarget σ ρ ω}
    (h : t.Confined)
    {objects others : List (StreamId × ρ)}
    (hNodup : (objects.map Prod.fst).Nodup)
    (hPerm : objects.Perm others)
    (s : SnapshotCache σ ρ × ω)
    (hAnswers : (t.tails (objects.map Prod.fst) s.2).1 =
      (t.tails (others.map Prod.fst) s.2).1) :
    ((t.calls objects s).map
        (fun call => (call.object, call.tail))).Perm
      ((t.calls others s).map
        (fun call => (call.object, call.tail))) := by
  have hNodupOthers : (others.map Prod.fst).Nodup :=
    (hPerm.map Prod.fst).nodup_iff.mp hNodup
  cases hAnswer : (t.tails (objects.map Prod.fst) s.2).1 with
  | error refusal =>
    rw [hAnswer] at hAnswers
    rw [t.calls_of_error s hAnswer, t.calls_of_error s hAnswers.symm]
  | ok tails =>
    rw [hAnswer] at hAnswers
    rw [t.calls_of_ok s hAnswer, t.calls_of_ok s hAnswers.symm,
      h.eachCalls_eq tails hNodup, h.eachCalls_eq tails hNodupOthers]
    exact hPerm.filterMap _

end RefreshTarget

end OrderedLog
