import OrderedLog.Proofs.StopSignal.Fairness

/-
  This file proves that no wake-up is lost when a stop is
  requested, however many callers request and wait through
  however many handles, and in whatever order they move.

  Once the flag is set nobody falls asleep any more, and those
  that are asleep are notified before the request is complete.
  Who looks at the flag from then on sees that it is set.

  Key definitions include:
    * `StopSignal.Stores`
    * `StopSignal.Completes`
    * `StopSignal.Returns`
    * `StopSignal.LosesNoWakeUp`
    * `StopHandles.step`
    * `StopHandles.course`

  Key lemmas include:
    * `StopSignal.Course.asleep_of_succ`
    * `StopSignal.Course.stores_of_flag`
    * `StopSignal.Moved.stepsToReturn`
    * `StopSignal.Course.changes`
    * `StopHandles.course_course`

  Key theorems include:
    * `StopHandles.loses_no_wake_up`
-/

namespace OrderedLog

namespace StopSignal

variable {s next : StopSignal}
variable {σ : Nat → StopSignal}
variable {caller mover n k : Nat}

------------------------------------------------------------
-- What happens at a time
------------------------------------------------------------

/- A request sets the flag. -/
def Stores
    (σ : Nat → StopSignal)
    (n : Nat) : Prop :=
  ∃ caller, (σ n).callers caller = .setting ∧
    (σ (n + 1)).callers caller = .notifying

/- A request is complete. -/
def Completes
    (σ : Nat → StopSignal)
    (n : Nat) : Prop :=
  ∃ caller, (σ n).callers caller = .leaving ∧
    (σ (n + 1)).callers caller = .idle

/- A caller that waited returns with an answer. -/
def Returns
    (σ : Nat → StopSignal)
    (caller : Nat)
    (answer : Bool)
    (n : Nat) : Prop :=
  (σ n).callers caller = .answering answer ∧
    (σ (n + 1)).callers caller = .answered answer

/- Whether a caller has begun to wait, and has not returned. -/
def Waits : Activity → Prop
  | .entering => True
  | .looking => True
  | .drowsy => True
  | .asleep => True
  | .notified => True
  | .timedOut => True
  | .lookingAgain => True
  | .answering _ => True
  | _ => False

/- Whether it is asleep or about to acquire the mutex, at that. -/
def WaitsUnlocked : Activity → Prop
  | .entering => True
  | .asleep => True
  | .notified => True
  | .timedOut => True
  | _ => False

/-
  Callers that wait learn of a request. If moves are fair, all
  who are without the mutex when the flag is set, or later, get
  to return with the right answer.
-/
structure LosesNoWakeUp (σ : Nat → StopSignal) : Prop where
  awake :
    ∀ k, Completes σ k →
      ∀ n, k < n → ∀ caller, (σ n).callers caller ≠ .asleep
  told :
    ∀ k, Stores σ k →
      ∀ n, k < n → ∀ caller answer, Returns σ caller answer n →
        answer = true
  returns :
    Fair σ → ∀ k, Stores σ k →
      ∀ m, k ≤ m → ∀ caller, WaitsUnlocked ((σ m).callers caller) →
        ∃ n, m < n ∧ Returns σ caller true n ∧
          ∀ i, m ≤ i → i ≤ n → Waits ((σ i).callers caller)
  founded :
    ∀ n caller, Returns σ caller true n → ∃ k, k < n ∧ Stores σ k

------------------------------------------------------------
-- After the flag is set
------------------------------------------------------------

theorem Course.stores_of_flag
    (h : Course σ)
    (hFlag : (σ n).flag = true) : ∃ k, k < n ∧ Stores σ k := by
  induction n with
  | zero =>
    rw [h.start] at hFlag
    exact absurd hFlag nofun
  | succ n ih =>
    by_cases hSet : (σ n).flag = true
    · rcases ih hSet with ⟨k, hLt, hStores⟩
      exact ⟨k, Nat.lt_succ_of_lt hLt, hStores⟩
    · rcases h.moved n with hSame | ⟨caller, hMoved⟩
      · rw [hSame] at hFlag
        exact absurd hFlag hSet
      · have hSetting := (hMoved.flag.mp hFlag).resolve_left hSet
        have hOwn := hMoved.own
        rw [hSetting] at hOwn
        exact ⟨n, Nat.lt_succ_self n, caller, hSetting,
          hOwn.eq_notifying⟩

theorem Course.flag_of_stores
    (h : Course σ)
    (hStores : Stores σ k)
    (hLt : k < n) : (σ n).flag = true := by
  rcases hStores with ⟨caller, _, hNotifying⟩
  exact h.flag_mono
    ((h.sound (k + 1)).stored caller (Or.inl hNotifying)) hLt

/- Nobody falls asleep while the flag is set. -/
theorem Course.asleep_of_succ
    (h : Course σ)
    (hFlag : (σ n).flag = true)
    (hAsleep : (σ (n + 1)).callers caller = .asleep) :
    (σ n).callers caller = .asleep := by
  rcases h.moved n with hSame | ⟨mover, hMoved⟩
  · rw [← hSame]
    exact hAsleep
  · refine hMoved.callers_of_ne ?_ hAsleep nofun
    intro hMover
    have hUnset :=
      ((h.sound n).own_moved hMoved).2.2 (hMover ▸ hAsleep)
    rw [h.flag_succ hFlag] at hUnset
    exact absurd hUnset nofun

theorem Course.awake_mono
    (h : Course σ)
    (hFlag : (σ n).flag = true)
    (hAwake : ∀ caller, (σ n).callers caller ≠ .asleep)
    (hLe : n ≤ k) :
    (σ k).callers caller ≠ .asleep := by
  induction k, hLe using Nat.le_induction with
  | base => exact hAwake caller
  | succ k hLe ih =>
    exact fun hAsleep =>
      ih (h.asleep_of_succ (h.flag_mono hFlag hLe) hAsleep)

/- Who is about to leave a request has notified all sleepers. -/
theorem Sound.awake_of_leaving
    (h : Sound s)
    (hLeaving : s.callers mover = .leaving) :
    s.callers caller ≠ .asleep := by
  intro hAsleep
  have hFlag := h.stored mover (Or.inr (Or.inl hLeaving))
  rcases h.sleepers hFlag caller hAsleep with ⟨requester, hNotifying⟩
  have hOwner := (h.owner mover).mp (hLeaving ▸ trivial)
  rw [(h.owner requester).mp (hNotifying ▸ trivial)] at hOwner
  rw [Option.some.inj hOwner, hLeaving] at hNotifying
  exact absurd hNotifying nofun

------------------------------------------------------------
-- Waits come to an end
------------------------------------------------------------

/- How many steps a caller that waits has to go, if the flag is set. -/
def stepsToReturn : Activity → Nat
  | .asleep => 4
  | .entering => 3
  | .notified => 3
  | .timedOut => 3
  | .looking => 2
  | .lookingAgain => 2
  | .answering true => 1
  | _ => 0

theorem waits_of_stepsToReturn
    {activity : Activity}
    (h : 0 < stepsToReturn activity) : Waits activity := by
  cases activity with
  | entering => exact trivial
  | looking => exact trivial
  | asleep => exact trivial
  | notified => exact trivial
  | timedOut => exact trivial
  | lookingAgain => exact trivial
  | answering stop => exact trivial
  | _ => exact absurd h (Nat.lt_irrefl 0)

theorem stepsToReturn_of_waitsUnlocked
    {activity : Activity}
    (h : WaitsUnlocked activity) : 0 < stepsToReturn activity := by
  cases activity with
  | entering => exact Nat.succ_pos 2
  | asleep => exact Nat.succ_pos 3
  | notified => exact Nat.succ_pos 2
  | timedOut => exact Nat.succ_pos 2
  | _ => exact h.elim

theorem Takes.stepsToReturn
    {before after : Activity}
    (h : Takes true before after)
    (hBefore : 0 < stepsToReturn before) :
    (0 < StopSignal.stepsToReturn after ∧
        StopSignal.stepsToReturn after <
          StopSignal.stepsToReturn before) ∨
      (before = .answering true ∧ after = .answered true) := by
  cases h with
  | beginRequest hFree =>
    cases before with
    | idle => exact absurd hBefore (Nat.lt_irrefl 0)
    | answered stop => exact absurd hBefore (Nat.lt_irrefl 0)
    | _ => exact hFree.elim
  | beginWait hFree =>
    cases before with
    | idle => exact absurd hBefore (Nat.lt_irrefl 0)
    | answered stop => exact absurd hBefore (Nat.lt_irrefl 0)
    | _ => exact hFree.elim
  | lockToSet => exact absurd hBefore (Nat.lt_irrefl 0)
  | store => exact absurd hBefore (Nat.lt_irrefl 0)
  | notify => exact absurd hBefore (Nat.lt_irrefl 0)
  | leave => exact absurd hBefore (Nat.lt_irrefl 0)
  | fallAsleep => exact absurd hBefore (Nat.lt_irrefl 0)
  | lockToLook => exact Or.inl (by decide)
  | look => exact Or.inl (by decide)
  | timeOut => exact Or.inl (by decide)
  | lockNotified => exact Or.inl (by decide)
  | lockTimedOut => exact Or.inl (by decide)
  | lookAgain => exact Or.inl (by decide)
  | answer stop =>
    cases stop with
    | true => exact Or.inr ⟨rfl, rfl⟩
    | false => exact absurd hBefore (Nat.lt_irrefl 0)

/-
  While the flag is set a caller that waits keeps to what it
  does, gets closer to its return, or returns.
-/
theorem Moved.stepsToReturn
    (h : Moved s mover next)
    (hFlag : s.flag = true)
    (hWaits : 0 < stepsToReturn (s.callers caller)) :
    next.callers caller = s.callers caller ∨
      (0 < StopSignal.stepsToReturn (next.callers caller) ∧
        StopSignal.stepsToReturn (next.callers caller) <
          StopSignal.stepsToReturn (s.callers caller)) ∨
      (s.callers caller = .answering true ∧
        next.callers caller = .answered true) := by
  by_cases hMover : caller = mover
  · subst hMover
    have hOwn := h.own
    rw [hFlag] at hOwn
    exact Or.inr (hOwn.stepsToReturn hWaits)
  · rcases h.others caller hMover with hSame | ⟨_, hAsleep, hNotified⟩
    · exact Or.inl hSame
    · rw [hAsleep, hNotified]
      exact Or.inr (Or.inl (by decide))

/- A step of one's own leads to something else. -/
theorem Takes.ne
    {flag : Bool}
    {before after : Activity}
    (h : Takes flag before after) : after ≠ before := by
  cases h with
  | beginRequest hFree =>
    intro hSame
    rw [← hSame] at hFree
    exact hFree
  | beginWait hFree =>
    intro hSame
    rw [← hSame] at hFree
    exact hFree
  | look =>
    cases flag with
    | true => exact nofun
    | false => exact nofun
  | _ => exact nofun

/- A caller that waits gets to do something else. -/
theorem Course.changes
    (h : Course σ)
    (hFair : Fair σ)
    (hFlag : (σ n).flag = true)
    (hWaits : 0 < stepsToReturn ((σ n).callers caller)) :
    ∃ k, n ≤ k ∧
      (σ (k + 1)).callers caller ≠ (σ n).callers caller := by
  by_cases hAsleep : (σ n).callers caller = .asleep
  · -- the one who will notify the sleepers gets on
    rcases (h.sound n).sleepers hFlag caller hAsleep with
      ⟨requester, hNotifying⟩
    have hSteady : Steady ((σ n).callers requester) :=
      hNotifying ▸ trivial
    rcases h.proceeds hFair hSteady with ⟨k, hLe, hProceeds, hSame⟩
    have hMoved := moved_of_proceed? hProceeds
    refine ⟨k, hLe, ?_⟩
    rw [hAsleep]
    exact hMoved.notified (hSame.trans hNotifying) caller
  · have hSteady : Steady ((σ n).callers caller) := by
      generalize (σ n).callers caller = activity at hWaits hAsleep
      cases activity with
      | idle => exact absurd hWaits (Nat.lt_irrefl 0)
      | asleep => exact absurd rfl hAsleep
      | answered stop => exact absurd hWaits (Nat.lt_irrefl 0)
      | _ => exact trivial
    rcases h.proceeds hFair hSteady with ⟨k, hLe, hProceeds, hSame⟩
    refine ⟨k, hLe, ?_⟩
    rw [← hSame]
    exact (moved_of_proceed? hProceeds).own.ne

theorem Course.returns
    (h : Course σ)
    (hFair : Fair σ)
    (hFlag : (σ n).flag = true)
    (hWaits : 0 < stepsToReturn ((σ n).callers caller)) :
    ∃ k, n ≤ k ∧ Returns σ caller true k ∧
      ∀ i, n ≤ i → i ≤ k → Waits ((σ i).callers caller) := by
  classical
  -- induction on the steps to go, with the first change as the step
  induction hSteps : stepsToReturn ((σ n).callers caller)
    using Nat.strong_induction_on generalizing n with
  | _ steps ih =>
    have hChanges := h.changes hFair hFlag hWaits
    have hFirst := Nat.find_spec hChanges
    have hBefore := fun m => Nat.find_min hChanges (m := m)
    generalize Nat.find hChanges = k at hFirst hBefore
    rcases hFirst with ⟨hLe, hChanged⟩
    have hKeeps : ∀ i, n ≤ i → i ≤ k →
        (σ i).callers caller = (σ n).callers caller := by
      intro i hFrom hTo
      rcases Nat.eq_or_lt_of_le hFrom with hSame | hLt
      · rw [hSame]
      · rcases Nat.exists_eq_add_one.mpr (Nat.zero_lt_of_lt hLt) with
          ⟨j, rfl⟩
        by_contra hNot
        exact hBefore j (by omega) ⟨by omega, hNot⟩
    have hUntil : ∀ i, n ≤ i → i ≤ k → Waits ((σ i).callers caller) := by
      intro i hFrom hTo
      rw [hKeeps i hFrom hTo]
      exact waits_of_stepsToReturn hWaits
    have hSame := hKeeps k hLe le_rfl
    rcases h.moved k with hStays | ⟨mover, hMoved⟩
    · rw [hStays] at hChanged
      exact absurd hSame hChanged
    · rw [← hSame] at hWaits hChanged hSteps
      rcases hMoved.stepsToReturn (h.flag_mono hFlag hLe) hWaits with
        hStays | ⟨hMore, hLess⟩ | hReturns
      · exact absurd hStays hChanged
      · rcases ih _ (hSteps ▸ hLess) (h.flag_mono hFlag (by omega)) hMore
          rfl with ⟨l, hLe', hReturns, hAfter⟩
        refine ⟨l, by omega, hReturns, ?_⟩
        intro i hFrom hTo
        rcases Nat.lt_or_ge k i with hLt | hGe
        · exact hAfter i hLt hTo
        · exact hUntil i hFrom hGe
      · exact ⟨k, hLe, hReturns, hUntil⟩

theorem waits_of_waitsUnlocked
    {activity : Activity}
    (h : WaitsUnlocked activity) : Waits activity :=
  waits_of_stepsToReturn (stepsToReturn_of_waitsUnlocked h)

/- When the flag is set, callers that wait are left alone. -/
theorem Course.keeps_of_stores
    (h : Course σ)
    (hStores : Stores σ k)
    (hWaits : WaitsUnlocked ((σ k).callers caller)) :
    (σ (k + 1)).callers caller = (σ k).callers caller := by
  rcases hStores with ⟨requester, hSetting, hNotifying⟩
  rcases h.moved k with hSame | ⟨mover, hMoved⟩
  · rw [hSame]
  · have hMover : requester = mover := by
      by_contra hOther
      have hBefore := hMoved.callers_of_ne hOther hNotifying nofun
      rw [hSetting] at hBefore
      exact absurd hBefore nofun
    have hOther : caller ≠ mover := by
      intro hSame
      rw [hSame, ← hMover, hSetting] at hWaits
      exact hWaits
    rcases hMoved.others caller hOther with hSame | ⟨hNotifies, _⟩
    · exact hSame
    · rw [← hMover, hSetting] at hNotifies
      exact absurd hNotifies nofun

theorem Course.returns_of_stores
    (h : Course σ)
    (hFair : Fair σ)
    (hStores : Stores σ k)
    (hLe : k ≤ n)
    (hWaits : WaitsUnlocked ((σ n).callers caller)) :
    ∃ m, n < m ∧ Returns σ caller true m ∧
      ∀ i, n ≤ i → i ≤ m → Waits ((σ i).callers caller) := by
  rcases Nat.eq_or_lt_of_le hLe with hSame | hLt
  · subst hSame
    have hLater : 0 < stepsToReturn ((σ (k + 1)).callers caller) := by
      rw [h.keeps_of_stores hStores hWaits]
      exact stepsToReturn_of_waitsUnlocked hWaits
    have hFlag := h.flag_of_stores hStores (Nat.lt_succ_self k)
    rcases h.returns hFair hFlag hLater with ⟨m, hLe', hReturns, hUntil⟩
    refine ⟨m, hLe', hReturns, ?_⟩
    intro i hFrom hTo
    rcases Nat.eq_or_lt_of_le hFrom with hSame | hLt
    · exact hSame ▸ waits_of_waitsUnlocked hWaits
    · exact hUntil i hLt hTo
  · rcases h.returns hFair (h.flag_of_stores hStores hLt)
      (stepsToReturn_of_waitsUnlocked hWaits) with
      ⟨m, hLe', hReturns, hUntil⟩
    refine ⟨m, lt_of_le_of_ne hLe' ?_, hReturns, hUntil⟩
    intro hSame
    rw [hSame, hReturns.1] at hWaits
    exact hWaits

theorem Course.losesNoWakeUp
    (h : Course σ) : LosesNoWakeUp σ := by
  constructor
  · intro k hCompletes n hLt caller
    rcases hCompletes with ⟨requester, hLeaving, _⟩
    have hSound := h.sound k
    exact h.awake_mono
      (hSound.stored requester (Or.inr (Or.inl hLeaving)))
      (fun _ => hSound.awake_of_leaving hLeaving) hLt.le
  · intro k hStores n hLt caller answer hReturns
    have hFlag := h.flag_of_stores hStores hLt
    cases answer with
    | true => rfl
    | false =>
      have hUnset := (h.sound n).unset caller (Or.inr hReturns.1)
      exact hUnset.symm.trans hFlag
  · intro hFair k hStores m hLe caller hWaits
    exact h.returns_of_stores hFair hStores hLe hWaits
  · intro n caller hReturns
    exact h.stores_of_flag
      ((h.sound n).stored caller (Or.inr (Or.inr hReturns.1)))

end StopSignal

------------------------------------------------------------
-- Handles
------------------------------------------------------------

namespace StopHandles

/- What is done with handles, all of them by any caller. -/
inductive Action where
  | addNew
  | clone
      (handle : Nat)
  | move
      (handle : Nat)
      (caller : Nat)
      (move : StopSignal.Move)

/- A move that cannot be made changes nothing. -/
def step
    (h : StopHandles) : Action → StopHandles
  | .addNew => h.addNew
  | .clone handle => h.clone handle
  | .move handle caller move =>
    match h.signal? handle with
    | some signal =>
      match signal.move? caller move with
      | some next => h.update handle next
      | none => h
    | none => h

/- The handles after so many of some actions. -/
def states
    (schedule : Nat → Action) : Nat → StopHandles
  | 0 => start
  | n + 1 => (states schedule n).step (schedule n)

/- The signal at a place, to be a new one if there is none yet. -/
def signalAt
    (h : StopHandles)
    (place : Nat) : StopSignal :=
  (h.signals[place]?).getD StopSignal.new

/- The signal at a place, and of all handles on it, in time. -/
def course
    (schedule : Nat → Action)
    (place : Nat)
    (n : Nat) : StopSignal :=
  (states schedule n).signalAt place

theorem signalAt_addNew
    (h : StopHandles)
    (place : Nat) :
    h.addNew.signalAt place = h.signalAt place := by
  unfold signalAt addNew
  rcases Nat.lt_trichotomy place h.signals.length with
    hLt | hSame | hGt
  · rw [List.getElem?_append_left hLt]
  · rw [hSame, List.getElem?_concat_length, List.getElem?_eq_none le_rfl]
    rfl
  · rw [List.getElem?_eq_none hGt.le,
      List.getElem?_eq_none (by rw [List.length_append]; exact hGt)]

theorem signalAt_clone
    (h : StopHandles)
    (handle : Nat)
    (place : Nat) :
    (h.clone handle).signalAt place = h.signalAt place := by
  unfold clone
  cases h.places[handle]? with
  | some other => rfl
  | none => rfl

theorem signalAt_update
    {h : StopHandles}
    {handle : Nat}
    {signal : StopSignal}
    (hSignal : h.signal? handle = some signal)
    (next : StopSignal)
    (place : Nat) :
    (h.update handle next).signalAt place = h.signalAt place ∨
      (h.signalAt place = signal ∧
        (h.update handle next).signalAt place = next) := by
  unfold signal? at hSignal
  cases hPlace : h.places[handle]? with
  | none =>
    rw [hPlace] at hSignal
    exact absurd hSignal nofun
  | some other =>
    simp only [hPlace] at hSignal
    unfold update signalAt
    rw [hPlace]
    by_cases hSame : other = place
    · subst hSame
      have hLt := (List.getElem?_eq_some_iff.mp hSignal).1
      right
      rw [List.getElem?_set_self hLt, hSignal]
      exact ⟨rfl, rfl⟩
    · left
      rw [List.getElem?_set_ne hSame]

/- A signal at a place changes by moves that callers make on it. -/
theorem signalAt_step
    (h : StopHandles)
    (action : Action)
    (place : Nat) :
    (h.step action).signalAt place = h.signalAt place ∨
      ∃ caller move, (h.signalAt place).move? caller move =
        some ((h.step action).signalAt place) := by
  cases action with
  | addNew => exact Or.inl (h.signalAt_addNew place)
  | clone handle => exact Or.inl (h.signalAt_clone handle place)
  | move handle caller move =>
    rw [step]
    split
    next signal hSignal =>
      split
      next next hMove =>
        rcases signalAt_update hSignal next place with
          hSame | ⟨hBefore, hAfter⟩
        · exact Or.inl hSame
        · rw [hBefore, hAfter]
          exact Or.inr ⟨caller, move, hMove⟩
      next => exact Or.inl rfl
    next => exact Or.inl rfl

theorem course_course
    (schedule : Nat → Action)
    (place : Nat) : StopSignal.Course (course schedule place) := by
  constructor
  · cases place with
    | zero => rfl
    | succ place => rfl
  · intro n
    exact signalAt_step (states schedule n) (schedule n) place

/-
  Whatever is done with handles and by whom, and whatever signal
  is looked at, no wake-up is lost.
-/
theorem loses_no_wake_up
    (schedule : Nat → Action)
    (place : Nat) :
    StopSignal.LosesNoWakeUp (course schedule place) :=
  (course_course schedule place).losesNoWakeUp

/-
  One caller waits through a clone, and is asleep when another
  one requests a stop. Then it wakes up, and nothing follows.
-/
def wakingActions : List Action :=
  [ .clone 0,
    .move 1 1 .beginWait,
    .move 1 1 .proceed,
    .move 1 1 .proceed,
    .move 1 1 .proceed,
    .move 0 0 .beginRequest,
    .move 0 0 .proceed,
    .move 0 0 .proceed,
    .move 0 0 .proceed,
    .move 0 0 .proceed,
    .move 1 1 .proceed,
    .move 1 1 .proceed,
    .move 1 1 .proceed ]

def wakingSchedule (n : Nat) : Action :=
  wakingActions.getD n (.clone 0)

theorem wakingSchedule_fair :
    StopSignal.Fair (course wakingSchedule 0) := by
  apply StopSignal.fair_of_rest (k := 13)
  intro n hLe caller
  induction n, hLe using Nat.le_induction with
  | base =>
    match caller with
    | 0 => rfl
    | 1 => rfl
    | _ + 2 => rfl
  | succ n hLe ih =>
    have hClone : wakingSchedule n = .clone 0 := by
      unfold wakingSchedule
      rw [List.getD_eq_getElem?_getD, List.getElem?_eq_none hLe]
      rfl
    have hSame : course wakingSchedule 0 (n + 1) =
        course wakingSchedule 0 n := by
      unfold course
      rw [states, hClone]
      exact signalAt_clone _ 0 0
    rw [hSame]
    exact ih

/- The caller is asleep when the flag is set, and returns. -/
theorem wakingSchedule_wakes :
    StopSignal.Fair (course wakingSchedule 0) ∧
      StopSignal.Stores (course wakingSchedule 0) 7 ∧
      (course wakingSchedule 0 7).callers 1 = .asleep ∧
      ∃ n, 7 < n ∧
        StopSignal.Returns (course wakingSchedule 0) 1 true n ∧
        ∀ i, 7 ≤ i → i ≤ n →
          StopSignal.Waits ((course wakingSchedule 0 i).callers 1) :=
  ⟨wakingSchedule_fair, ⟨0, rfl, rfl⟩, rfl,
    (loses_no_wake_up wakingSchedule 0).returns wakingSchedule_fair
      7 ⟨0, rfl, rfl⟩ 7 le_rfl 1 trivial⟩

end StopHandles

end OrderedLog
