import OrderedLog.Proofs.Refresh.Calls
import OrderedLog.Proofs.SnapshotCache.Values

/-
  This file proves that rounds of refreshing which go through
  the same objects in different orders cannot be told apart,
  when each object is refreshed by means of what belongs to it
  alone: its cached versions and its share of the world.

  The reason is that all calls of a round can be planned as it
  begins. What belongs to an object is still as it was then when
  its turn comes, and what a task adds to the counters can be
  added in any order.

  Key definitions include:
    * `RefreshTarget.Cell`
    * `RefreshTarget.ActsOn`
    * `RefreshTarget.plan`
    * `RefreshTarget.After`
    * `RefreshTarget.Agree`

  Key lemmas include:
    * `RefreshTarget.ActsOn.after_attempt`
    * `RefreshTarget.ActsOn.after_refreshEach`
    * `RefreshTarget.After.alike`
    * `RefreshTarget.ActsOn.agree`
-/

namespace OrderedLog

/- Counters that have grown by others. -/
def CacheStats.plus (s growth : CacheStats) : CacheStats where
  hits := s.hits + growth.hits
  misses := s.misses + growth.misses
  floorHits := s.floorHits + growth.floorHits
  floorMisses := s.floorMisses + growth.floorMisses
  puts := s.puts + growth.puts
  versionsEvicted := s.versionsEvicted + growth.versionsEvicted
  notifications := s.notifications + growth.notifications
  overflowed := s.overflowed + growth.overflowed
  rounds := s.rounds + growth.rounds
  refreshed := s.refreshed + growth.refreshed
  refreshFailures := s.refreshFailures + growth.refreshFailures

/- It does not matter which of two growths comes first. -/
theorem CacheStats.plus_right_comm
    (s a b : CacheStats) : (s.plus a).plus b = (s.plus b).plus a := by
  simp [plus, Nat.add_right_comm]

namespace RefreshTarget

variable {σ ρ ω υ : Type}

------------------------------------------------------------
-- What belongs to an object
------------------------------------------------------------

/-
  What belongs to an object: its indexed versions, the values of
  its live snapshots, and its share of the world.
-/
structure Cell (σ υ : Type) where
  versions : Option (SortedSet Address)
  value? : Address → Option σ
  share : υ

/- What belongs to an object when `own` tells its share of the world. -/
def cellOf
    (own : StreamId → ω → υ)
    (object : StreamId)
    (s : SnapshotCache σ ρ × ω) : Cell σ υ where
  versions := s.1.index.get? object
  value? := fun version => s.1.valueAt? ⟨object, version⟩
  share := own object s.2

/- What comes of one refresh, with what it adds to the counters. -/
structure Work (σ υ : Type) where
  succeeded : Bool
  cell : Cell σ υ
  spent : CacheStats

/-
  Each refresh is the work of its object on what belongs to it,
  as when an object replays its own stream and caches what comes
  of it. The tails are told in the same way for objects in any
  order, and to ask for them changes nothing that belongs to an
  object.
-/
structure ActsOn
    (t : RefreshTarget σ ρ ω)
    (own : StreamId → ω → υ)
    (work : StreamId → ρ → Address → Cell σ υ → Work σ υ) : Prop where
  succeeded :
    ∀ object known tail s,
      (t.refreshTo object known tail s).1.isOk =
        (work object known tail (cellOf own object s)).succeeded
  cell :
    ∀ object known tail s,
      cellOf own object (t.refreshTo object known tail s).2 =
        (work object known tail (cellOf own object s)).cell
  others :
    ∀ object known tail s other, other ≠ object →
      cellOf own other (t.refreshTo object known tail s).2 =
        cellOf own other s
  registry :
    ∀ object known tail s,
      (t.refreshTo object known tail s).2.1.registry = s.1.registry
  stats :
    ∀ object known tail s,
      (t.refreshTo object known tail s).2.1.stats =
        s.1.stats.plus (work object known tail (cellOf own object s)).spent
  answer :
    ∀ streams others world, streams.Perm others →
      (t.tails streams world).1 = (t.tails others world).1
  asking :
    ∀ object streams world,
      own object (t.tails streams world).2 = own object world

/- Two states in which the same belongs to each object. -/
structure Alike
    (own : StreamId → ω → υ)
    (x y : SnapshotCache σ ρ × ω) : Prop where
  cells : ∀ object, cellOf own object x = cellOf own object y
  registry : x.1.registry = y.1.registry
  stats : x.1.stats = y.1.stats

/- The versions of an object belong to it. -/
theorem versionList_of_cell
    {own : StreamId → ω → υ}
    {object : StreamId}
    {x y : SnapshotCache σ ρ × ω}
    (h : cellOf own object x = cellOf own object y) :
    x.1.versionList object = y.1.versionList object := by
  have hVersions : x.1.index.get? object = y.1.index.get? object :=
    congrArg Cell.versions h
  unfold SnapshotCache.versionList SnapshotCache.versions
  rw [hVersions]

------------------------------------------------------------
-- Plans
------------------------------------------------------------

/- The refresh of an object to a tail, with what will come of it. -/
structure Task (σ υ : Type) where
  object : StreamId
  tail : Address
  work : Work σ υ

namespace Task

/- The call with which a task is done. -/
def call (task : Task σ υ) : Call :=
  ⟨task.object, task.tail, task.work.succeeded⟩

/- What a task adds to the counters, its own failure included. -/
def growth (task : Task σ υ) : CacheStats :=
  if task.work.succeeded then task.work.spent
  else task.work.spent.recordRefreshFailure

end Task

/- The tasks for those of some objects that are due. -/
def plan
    (own : StreamId → ω → υ)
    (work : StreamId → ρ → Address → Cell σ υ → Work σ υ)
    (tails : SortedMap StreamId Address)
    (objects : List (StreamId × ρ))
    (s : SnapshotCache σ ρ × ω) : List (Task σ υ) :=
  objects.filterMap
    (fun e =>
      (due? tails s.1 e.1).map
        (fun tail => ⟨e.1, tail, work e.1 e.2 tail (cellOf own e.1 s)⟩))

/- Only the objects themselves have a part in the plan for them. -/
theorem plan_congr
    (own : StreamId → ω → υ)
    (work : StreamId → ρ → Address → Cell σ υ → Work σ υ)
    (tails : SortedMap StreamId Address)
    {objects : List (StreamId × ρ)}
    {x y : SnapshotCache σ ρ × ω}
    (h : ∀ e ∈ objects, cellOf own e.1 x = cellOf own e.1 y) :
    plan own work tails objects x = plan own work tails objects y := by
  unfold plan
  apply List.filterMap_congr
  intro e hMem
  have hCell := h e hMem
  rw [hCell, due?_congr tails (versionList_of_cell hCell)]

/- Only some of the objects are planned for. -/
theorem object_mem_of_mem_plan
    {own : StreamId → ω → υ}
    {work : StreamId → ρ → Address → Cell σ υ → Work σ υ}
    {tails : SortedMap StreamId Address}
    {objects : List (StreamId × ρ)}
    {s : SnapshotCache σ ρ × ω}
    {object : StreamId}
    (h : object ∈ (plan own work tails objects s).map Task.object) :
    object ∈ objects.map Prod.fst := by
  rcases List.mem_map.mp h with ⟨task, hTask, hObject⟩
  rcases List.mem_filterMap.mp hTask with ⟨e, hMem, hPlanned⟩
  rcases Option.map_eq_some_iff.mp hPlanned with ⟨tail, _, hSame⟩
  subst hSame
  exact List.mem_map.mpr ⟨e, hMem, hObject⟩

------------------------------------------------------------
-- Tasks that are done
------------------------------------------------------------

/-
  A state after some tasks: they are done, and what belongs to
  the other objects is as it was.
-/
structure After
    (own : StreamId → ω → υ)
    (tasks : List (Task σ υ))
    (s done : SnapshotCache σ ρ × ω) : Prop where
  cells :
    ∀ task ∈ tasks, cellOf own task.object done = task.work.cell
  others :
    ∀ object, object ∉ tasks.map Task.object →
      cellOf own object done = cellOf own object s
  registry : done.1.registry = s.1.registry
  stats :
    done.1.stats = (tasks.map Task.growth).foldl CacheStats.plus s.1.stats

theorem after_nil
    (own : StreamId → ω → υ)
    (s : SnapshotCache σ ρ × ω) :
    After own ([] : List (Task σ υ)) s s := by
  constructor
  · simp
  · intro object _
    rfl
  · rfl
  · rfl

/- A task of another object leaves those that are done as they are. -/
theorem After.cons
    {own : StreamId → ω → υ}
    {task : Task σ υ}
    {tasks : List (Task σ υ)}
    {s next done : SnapshotCache σ ρ × ω}
    (h : After own [task] s next)
    (hOther : task.object ∉ tasks.map Task.object)
    (h' : After own tasks next done) :
    After own (task :: tasks) s done := by
  constructor
  · intro one hMem
    rcases List.mem_cons.mp hMem with hFirst | hLater
    · subst hFirst
      rw [h'.others one.object hOther]
      exact h.cells one (List.mem_singleton_self one)
    · exact h'.cells one hLater
  · intro object hNot
    rw [List.map_cons, List.mem_cons, not_or] at hNot
    rw [h'.others object hNot.2]
    exact h.others object (by simpa using hNot.1)
  · exact h'.registry.trans h.registry
  · rw [h'.stats, h.stats]
    rfl

/- Where the state is the same to all objects does not matter. -/
theorem After.of_alike
    {own : StreamId → ω → υ}
    {tasks : List (Task σ υ)}
    {x y done : SnapshotCache σ ρ × ω}
    (h : After own tasks x done)
    (hAlike : Alike own x y) : After own tasks y done := by
  constructor
  · exact h.cells
  · intro object hNot
    exact (h.others object hNot).trans (hAlike.cells object)
  · exact h.registry.trans hAlike.registry
  · rw [h.stats, hAlike.stats]

/- The order of the tasks cannot be told afterwards. -/
theorem After.alike
    {own : StreamId → ω → υ}
    {tasks others : List (Task σ υ)}
    {s x y : SnapshotCache σ ρ × ω}
    (h : After own tasks s x)
    (h' : After own others s y)
    (hPerm : tasks.Perm others) : Alike own x y := by
  constructor
  · intro object
    by_cases hMem : object ∈ tasks.map Task.object
    · rcases List.mem_map.mp hMem with ⟨task, hTask, hObject⟩
      subst hObject
      rw [h.cells task hTask, h'.cells task (hPerm.mem_iff.mp hTask)]
    · have hNot : object ∉ others.map Task.object :=
        fun hOther => hMem ((hPerm.map _).mem_iff.mpr hOther)
      rw [h.others object hMem, h'.others object hNot]
  · exact h.registry.trans h'.registry.symm
  · rw [h.stats, h'.stats]
    apply (hPerm.map Task.growth).foldl_eq'
    intro a _ b _ stats
    exact stats.plus_right_comm a b

------------------------------------------------------------
-- Refreshes of what belongs to an object
------------------------------------------------------------

section

variable {t : RefreshTarget σ ρ ω}
variable {own : StreamId → ω → υ}
variable {work : StreamId → ρ → Address → Cell σ υ → Work σ υ}

/- A refresh does the task of its object. -/
theorem ActsOn.after_attempt
    (h : t.ActsOn own work)
    (object : StreamId)
    (known : ρ)
    (tail : Address)
    (s : SnapshotCache σ ρ × ω) :
    After own
      [⟨object, tail, work object known tail (cellOf own object s)⟩]
      s (t.attempt object known tail s) := by
  have hSucceeded := h.succeeded object known tail s
  have hCell := h.cell object known tail s
  have hOthers := h.others object known tail s
  have hRegistry := h.registry object known tail s
  have hStats := h.stats object known tail s
  cases hOk : (t.refreshTo object known tail s).1.isOk with
  | true =>
    rw [hOk] at hSucceeded
    rw [t.attempt_of_ok hOk]
    constructor
    · intro task hTask
      rw [List.mem_singleton.mp hTask]
      exact hCell
    · intro other hNot
      exact hOthers other (by simpa using hNot)
    · exact hRegistry
    · simpa [Task.growth, ← hSucceeded] using hStats
  | false =>
    rw [hOk] at hSucceeded
    rw [t.attempt_of_failed hOk]
    constructor
    · intro task hTask
      rw [List.mem_singleton.mp hTask]
      exact hCell
    · intro other hNot
      exact hOthers other (by simpa using hNot)
    · exact hRegistry
    · simp only [List.map_cons, List.map_nil, List.foldl_cons,
        List.foldl_nil, Task.growth, ← hSucceeded, Bool.false_eq_true,
        if_false]
      exact congrArg CacheStats.recordRefreshFailure hStats

/- All objects that are due get the task that was planned for them. -/
theorem ActsOn.after_refreshEach
    (h : t.ActsOn own work)
    (tails : SortedMap StreamId Address)
    {objects : List (StreamId × ρ)}
    (hNodup : (objects.map Prod.fst).Nodup)
    (s : SnapshotCache σ ρ × ω) :
    t.eachCalls tails objects s =
        (plan own work tails objects s).map Task.call ∧
      After own (plan own work tails objects s) s
        (t.refreshEach tails objects s).2 := by
  induction objects generalizing s with
  | nil => exact ⟨rfl, after_nil own s⟩
  | cons e objects ih =>
    rcases e with ⟨object, known⟩
    have hParts := List.nodup_cons.mp hNodup
    rw [eachCalls, refreshEach_cons]
    cases hDue : due? tails s.1 object with
    | none =>
      have hPlan : plan own work tails ((object, known) :: objects) s =
          plan own work tails objects s := by
        simp [plan, hDue]
      rw [hPlan]
      exact ih hParts.2 s
    | some tail =>
      let task : Task σ υ :=
        ⟨object, tail, work object known tail (cellOf own object s)⟩
      let next := t.attempt object known tail s
      have hTask : After own [task] s next :=
        h.after_attempt object known tail s
      -- those that come later are planned for as they were before
      have hLater : plan own work tails objects next =
          plan own work tails objects s := by
        apply plan_congr
        intro other hMem
        apply hTask.others
        intro hSame
        have hObject : other.1 = object := by simpa [task] using hSame
        apply hParts.1
        rw [← hObject]
        exact List.mem_map.mpr ⟨other, hMem, rfl⟩
      have hPlan : plan own work tails ((object, known) :: objects) s =
          task :: plan own work tails objects s := by
        simp [plan, hDue, task]
      rcases ih hParts.2 next with ⟨hCalls, hAfter⟩
      rw [hLater] at hCalls hAfter
      rw [hPlan]
      constructor
      · have hFirst : task.call =
            ⟨object, tail, (t.refreshTo object known tail s).1.isOk⟩ := by
          unfold Task.call
          rw [h.succeeded object known tail s]
        rw [List.map_cons, hFirst, ← hCalls]
      · refine hTask.cons ?_ hAfter
        intro hPlanned
        exact hParts.1 (object_mem_of_mem_plan hPlanned)

/- To ask for tails changes nothing for the objects. -/
theorem ActsOn.alike_asked
    (h : t.ActsOn own work)
    (streams : List StreamId)
    (s : SnapshotCache σ ρ × ω) :
    Alike own (s.1, (t.tails streams s.2).2) s := by
  constructor
  · intro object
    unfold cellOf
    rw [h.asking]
  · rfl
  · rfl

end

------------------------------------------------------------
-- Rounds in different orders
------------------------------------------------------------

/-
  Two rounds from the same state cannot be told apart: the calls
  are the same and have the same outcomes, in another order, and
  the counts and what belongs to the objects are the same.
-/
structure Agree
    (t : RefreshTarget σ ρ ω)
    (own : StreamId → ω → υ)
    (objects others : List (StreamId × ρ))
    (s : SnapshotCache σ ρ × ω) : Prop where
  calls : (t.calls objects s).Perm (t.calls others s)
  returned : (t.round objects s).1 = (t.round others s).1
  alike : Alike own (t.round objects s).2 (t.round others s).2

/- The count of a round is the same to all objects. -/
theorem Alike.recordRound
    {own : StreamId → ω → υ}
    {x y : SnapshotCache σ ρ × ω}
    (h : Alike own x y)
    (count : Nat) :
    Alike own (RefreshTarget.recordRound x count)
      (RefreshTarget.recordRound y count) where
  cells := h.cells
  registry := h.registry
  stats := congrArg (fun stats => stats.recordRound count) h.stats

theorem ActsOn.agree
    {t : RefreshTarget σ ρ ω}
    {own : StreamId → ω → υ}
    {work : StreamId → ρ → Address → Cell σ υ → Work σ υ}
    (h : t.ActsOn own work)
    {objects others : List (StreamId × ρ)}
    (hNodup : (objects.map Prod.fst).Nodup)
    (hPerm : objects.Perm others)
    (s : SnapshotCache σ ρ × ω) : t.Agree own objects others s := by
  by_cases hNone : objects = []
  · have hOthers : others = [] := by
      rw [hNone] at hPerm
      exact hPerm.nil_eq.symm
    rw [hNone, hOthers]
    exact ⟨List.Perm.refl _, rfl, ⟨fun _ => rfl, rfl, rfl⟩⟩
  · have hSome : others ≠ [] := by
      intro hEmpty
      rw [hEmpty] at hPerm
      exact hNone hPerm.eq_nil
    have hStreams := hPerm.map Prod.fst
    have hAnswers := h.answer _ _ s.2 hStreams
    have hAsked := h.alike_asked (objects.map Prod.fst) s
    have hAskedOthers := h.alike_asked (others.map Prod.fst) s
    cases hAnswer : (t.tails (objects.map Prod.fst) s.2).1 with
    | error refusal =>
      rw [hAnswer] at hAnswers
      have hRound := t.round_of_error s hNone hAnswer
      have hRoundOthers := t.round_of_error s hSome hAnswers.symm
      constructor
      · rw [t.calls_of_error s hAnswer, t.calls_of_error s hAnswers.symm]
      · rw [hRound, hRoundOthers]
      · rw [hRound, hRoundOthers]
        constructor
        · intro object
          exact (hAsked.cells object).trans
            (hAskedOthers.cells object).symm
        · rfl
        · rfl
    | ok tails =>
      rw [hAnswer] at hAnswers
      have hRound := t.round_of_ok s hNone hAnswer
      have hRoundOthers := t.round_of_ok s hSome hAnswers.symm
      have hNodupOthers : (others.map Prod.fst).Nodup :=
        hStreams.nodup_iff.mp hNodup
      rcases h.after_refreshEach tails hNodup
          (s.1, (t.tails (objects.map Prod.fst) s.2).2) with
        ⟨hCalls, hAfter⟩
      rcases h.after_refreshEach tails hNodupOthers
          (s.1, (t.tails (others.map Prod.fst) s.2).2) with
        ⟨hCallsOthers, hAfterOthers⟩
      rw [plan_congr own work tails (fun e _ => hAsked.cells e.1)]
        at hCalls hAfter
      rw [plan_congr own work tails (fun e _ => hAskedOthers.cells e.1)]
        at hCallsOthers hAfterOthers
      have hPlans : (plan own work tails objects s).Perm
          (plan own work tails others s) :=
        hPerm.filterMap _
      have hAlike :=
        (hAfter.of_alike hAsked).alike
          (hAfterOthers.of_alike hAskedOthers) hPlans
      have hCounts :
          (t.refreshEach tails objects
              (s.1, (t.tails (objects.map Prod.fst) s.2).2)).1 =
            (t.refreshEach tails others
              (s.1, (t.tails (others.map Prod.fst) s.2).2)).1 := by
        rw [refreshEach_fst, refreshEach_fst, hCalls, hCallsOthers]
        exact (hPlans.map _).countP_eq _
      constructor
      · rw [t.calls_of_ok s hAnswer, t.calls_of_ok s hAnswers.symm, hCalls,
          hCallsOthers]
        exact hPlans.map _
      · rw [hRound, hRoundOthers]
        exact hCounts
      · rw [hRound, hRoundOthers]
        simp only [hCounts]
        exact hAlike.recordRound _

end RefreshTarget

end OrderedLog
