import OrderedLog.StopSignal.Handles

/-
  This file says once what each move of a caller does to a
  signal, and derives from it what holds of a signal after all
  moves that were ever made.

  The mutex is held by at most one caller, namely by the one
  whose activity says so. Hence the flag is not set while
  another caller is between its look at the flag and its
  sleep, and a caller that fell asleep before the flag was set
  is asleep when the sleepers are notified.

  Key definitions include:
    * `StopSignal.Holds`
    * `StopSignal.Takes`
    * `StopSignal.Moved`
    * `StopSignal.Sound`

  Key lemmas include:
    * `StopSignal.moved_of_move?`
    * `StopSignal.sound_new`
    * `StopSignal.Sound.moved`
-/

namespace OrderedLog

namespace StopSignal

variable {s next : StopSignal}
variable {caller other : Nat}

------------------------------------------------------------
-- What a move does
------------------------------------------------------------

/- Whether a caller that does something holds the mutex. -/
def Holds : Activity → Prop
  | .setting => True
  | .notifying => True
  | .leaving => True
  | .looking => True
  | .drowsy => True
  | .lookingAgain => True
  | .answering _ => True
  | _ => False

/-
  What a caller does next, if the flag is as it says when the
  caller looks at it.
-/
inductive Takes
    (flag : Bool) : Activity → Activity → Prop where
  | beginRequest
      {activity : Activity}
      (hFree : Free activity) : Takes flag activity .requesting
  | beginWait
      {activity : Activity}
      (hFree : Free activity) : Takes flag activity .entering
  | lockToSet : Takes flag .requesting .setting
  | store : Takes flag .setting .notifying
  | notify : Takes flag .notifying .leaving
  | leave : Takes flag .leaving .idle
  | lockToLook : Takes flag .entering .looking
  | look :
      Takes flag .looking (if flag then .answering true else .drowsy)
  | fallAsleep : Takes flag .drowsy .asleep
  | timeOut : Takes flag .asleep .timedOut
  | lockNotified : Takes flag .notified .lookingAgain
  | lockTimedOut : Takes flag .timedOut .lookingAgain
  | lookAgain : Takes flag .lookingAgain (.answering flag)
  | answer
      (stop : Bool) : Takes flag (.answering stop) (.answered stop)

theorem Takes.eq_notifying
    {flag : Bool}
    {activity : Activity}
    (h : Takes flag .setting activity) : activity = .notifying := by
  cases h with
  | store => rfl
  | beginRequest hFree => exact hFree.elim
  | beginWait hFree => exact hFree.elim

/- What a move of a caller makes of a signal. -/
structure Moved
    (s : StopSignal)
    (caller : Nat)
    (next : StopSignal) : Prop where
  own : Takes s.flag (s.callers caller) (next.callers caller)
  /- Of other callers, sleepers are changed only, by a notification. -/
  others :
    ∀ other, other ≠ caller →
      next.callers other = s.callers other ∨
        (s.callers caller = .notifying ∧ s.callers other = .asleep ∧
          next.callers other = .notified)
  notified :
    s.callers caller = .notifying →
      ∀ other, next.callers other ≠ .asleep
  flag : next.flag = true ↔ s.flag = true ∨ s.callers caller = .setting
  /- The mutex is left alone, acquired or released. -/
  owner :
    ((Holds (next.callers caller) ↔ Holds (s.callers caller)) ∧
        next.owner = s.owner) ∨
      (Holds (next.callers caller) ∧ s.owner = none ∧
        next.owner = some caller) ∨
      (Holds (s.callers caller) ∧ ¬ Holds (next.callers caller) ∧
        next.owner = none)

variable {activity : Activity}

theorem become_callers_self
    (s : StopSignal)
    (caller : Nat)
    (activity : Activity) :
    (s.become caller activity).callers caller = activity :=
  if_pos rfl

theorem become_callers_of_ne
    (h : other ≠ caller)
    (activity : Activity) :
    (s.become caller activity).callers other = s.callers other :=
  if_neg h

/- A caller goes on to something else, with the mutex or without it. -/
theorem moved_become
    (hTakes : Takes s.flag (s.callers caller) activity)
    (hHolds : Holds activity ↔ Holds (s.callers caller))
    (hNotifying : s.callers caller ≠ .notifying)
    (hSetting : s.callers caller ≠ .setting) :
    Moved s caller (s.become caller activity) where
  own := (become_callers_self s caller activity).symm ▸ hTakes
  others _ hOther := Or.inl (become_callers_of_ne hOther activity)
  notified h := absurd h hNotifying
  flag := (or_iff_left hSetting).symm
  owner := Or.inl
    ⟨(become_callers_self s caller activity).symm ▸ hHolds, rfl⟩

theorem moved_of_acquire?
    (h : s.acquire? caller activity = some next)
    (hTakes : Takes s.flag (s.callers caller) activity)
    (hHolds : Holds activity)
    (hNot : ¬ Holds (s.callers caller)) :
    Moved s caller next := by
  have hOwner : s.owner = none := by
    unfold acquire? at h
    split at h
    · assumption
    · exact absurd h nofun
  have hNext : { s.become caller activity with owner := some caller } =
      next := by
    unfold acquire? at h
    rw [hOwner] at h
    exact Option.some.inj h
  have hOwn : next.callers caller = activity := by
    rw [← hNext]
    exact become_callers_self s caller activity
  constructor
  · rw [hOwn]
    exact hTakes
  · intro other hOther
    rw [← hNext]
    exact Or.inl (become_callers_of_ne hOther activity)
  · intro hNotifying
    rw [hNotifying] at hNot
    exact absurd trivial hNot
  · rw [← hNext]
    refine (or_iff_left ?_).symm
    intro hSetting
    rw [hSetting] at hNot
    exact hNot trivial
  · rw [hOwn, ← hNext]
    exact Or.inr (Or.inl ⟨hHolds, hOwner, rfl⟩)

theorem moved_releaseMutex
    (hTakes : Takes s.flag (s.callers caller) activity)
    (hHolds : Holds (s.callers caller))
    (hNot : ¬ Holds activity)
    (hNotifying : s.callers caller ≠ .notifying)
    (hSetting : s.callers caller ≠ .setting) :
    Moved s caller (s.releaseMutex caller activity) where
  own := (become_callers_self s caller activity).symm ▸ hTakes
  others _ hOther := Or.inl (become_callers_of_ne hOther activity)
  notified h := absurd h hNotifying
  flag := (or_iff_left hSetting).symm
  owner := Or.inr (Or.inr
    ⟨hHolds, (become_callers_self s caller activity).symm ▸ hNot, rfl⟩)

theorem moved_store
    (h : s.callers caller = .setting) :
    Moved s caller ({ s with flag := true }.become caller .notifying) where
  own := by
    rw [become_callers_self, h]
    exact .store
  others _ hOther := Or.inl (become_callers_of_ne hOther _)
  notified hNotifying := by
    rw [h] at hNotifying
    exact absurd hNotifying nofun
  flag := iff_of_true rfl (Or.inr h)
  owner := Or.inl ⟨by rw [become_callers_self, h]; exact Iff.rfl, rfl⟩

theorem moved_notify
    (h : s.callers caller = .notifying) :
    Moved s caller (s.notifyAll.become caller .leaving) where
  own := by
    rw [become_callers_self, h]
    exact .notify
  others other hOther := by
    rw [become_callers_of_ne hOther]
    unfold notifyAll
    cases hSleeper : s.callers other with
    | asleep => exact Or.inr ⟨h, rfl, by simp only [hSleeper]⟩
    | _ => exact Or.inl (by simp only [hSleeper])
  notified _ other := by
    by_cases hOther : other = caller
    · rw [hOther, become_callers_self]
      exact nofun
    · rw [become_callers_of_ne hOther]
      unfold notifyAll
      cases hActivity : s.callers other with
      | _ =>
        simp only [hActivity]
        exact nofun
  flag := by
    refine (or_iff_left ?_).symm
    rw [h]
    exact nofun
  owner := Or.inl ⟨by rw [become_callers_self, h]; exact Iff.rfl, rfl⟩

theorem moved_of_proceed?
    (h : s.proceed? caller = some next) : Moved s caller next := by
  unfold proceed? at h
  cases hActivity : s.callers caller with
  | idle =>
    rw [hActivity] at h
    exact absurd h nofun
  | requesting =>
    rw [hActivity] at h
    exact moved_of_acquire? h (hActivity ▸ .lockToSet) trivial
      (hActivity ▸ not_false)
  | setting =>
    rw [hActivity] at h
    exact Option.some.inj h ▸ moved_store hActivity
  | notifying =>
    rw [hActivity] at h
    exact Option.some.inj h ▸ moved_notify hActivity
  | leaving =>
    rw [hActivity] at h
    exact Option.some.inj h ▸ moved_releaseMutex (hActivity ▸ .leave)
      (hActivity ▸ trivial) not_false (hActivity ▸ nofun)
      (hActivity ▸ nofun)
  | entering =>
    rw [hActivity] at h
    exact moved_of_acquire? h (hActivity ▸ .lockToLook) trivial
      (hActivity ▸ not_false)
  | looking =>
    rw [hActivity] at h
    refine Option.some.inj h ▸ moved_become (hActivity ▸ .look)
      (iff_of_true ?_ (hActivity ▸ trivial)) (hActivity ▸ nofun)
      (hActivity ▸ nofun)
    cases s.flag with
    | true => exact trivial
    | false => exact trivial
  | drowsy =>
    rw [hActivity] at h
    exact Option.some.inj h ▸ moved_releaseMutex (hActivity ▸ .fallAsleep)
      (hActivity ▸ trivial) not_false (hActivity ▸ nofun)
      (hActivity ▸ nofun)
  | asleep =>
    rw [hActivity] at h
    exact absurd h nofun
  | notified =>
    rw [hActivity] at h
    exact moved_of_acquire? h (hActivity ▸ .lockNotified) trivial
      (hActivity ▸ not_false)
  | timedOut =>
    rw [hActivity] at h
    exact moved_of_acquire? h (hActivity ▸ .lockTimedOut) trivial
      (hActivity ▸ not_false)
  | lookingAgain =>
    rw [hActivity] at h
    exact Option.some.inj h ▸ moved_become (hActivity ▸ .lookAgain)
      (iff_of_true trivial (hActivity ▸ trivial)) (hActivity ▸ nofun)
      (hActivity ▸ nofun)
  | answering stop =>
    rw [hActivity] at h
    exact Option.some.inj h ▸ moved_releaseMutex
      (hActivity ▸ .answer stop) (hActivity ▸ trivial) not_false
      (hActivity ▸ nofun) (hActivity ▸ nofun)
  | answered stop =>
    rw [hActivity] at h
    exact absurd h nofun

/- A free caller is not in the midst of anything. -/
theorem moved_begin
    (hFree : Free (s.callers caller))
    (hTakes : Takes s.flag (s.callers caller) activity)
    (hNot : ¬ Holds activity) :
    Moved s caller (s.become caller activity) := by
  have hOf : ∀ held, Holds held → s.callers caller ≠ held := by
    intro held hHeld hSame
    rw [hSame] at hFree
    cases held with
    | answered stop => exact hHeld
    | idle => exact hHeld
    | _ => exact hFree
  refine moved_become hTakes (iff_of_false hNot ?_) ?_ ?_
  · exact fun hHolds => hOf _ hHolds rfl
  · exact hOf _ trivial
  · exact hOf _ trivial

theorem moved_of_move?
    {move : Move}
    (h : s.move? caller move = some next) : Moved s caller next := by
  cases move with
  | beginRequest =>
    simp only [move?, Option.ite_none_right_eq_some, Option.some.injEq] at h
    exact h.2 ▸ moved_begin h.1 (.beginRequest h.1) not_false
  | beginWait =>
    simp only [move?, Option.ite_none_right_eq_some, Option.some.injEq] at h
    exact h.2 ▸ moved_begin h.1 (.beginWait h.1) not_false
  | proceed => exact moved_of_proceed? h
  | timeOut =>
    simp only [move?, Option.ite_none_right_eq_some, Option.some.injEq] at h
    rcases h with ⟨hAsleep, hNext⟩
    exact hNext ▸ moved_become (hAsleep ▸ .timeOut)
      (iff_of_false not_false (hAsleep ▸ not_false)) (hAsleep ▸ nofun)
      (hAsleep ▸ nofun)

theorem Moved.holds_of_ne
    (h : Moved s caller next)
    (hOther : other ≠ caller) :
    Holds (next.callers other) ↔ Holds (s.callers other) := by
  rcases h.others other hOther with hSame | ⟨_, hAsleep, hNotified⟩
  · rw [hSame]
  · rw [hAsleep, hNotified]
    exact Iff.rfl

/- No other caller begins, holds or ends anything by a move. -/
theorem Moved.callers_of_ne
    (h : Moved s caller next)
    (hOther : other ≠ caller)
    (hActivity : next.callers other = activity)
    (hNotified : activity ≠ .notified) :
    s.callers other = activity := by
  rcases h.others other hOther with hSame | ⟨_, _, hSleeper⟩
  · rw [← hSame]
    exact hActivity
  · exact absurd (hActivity.symm.trans hSleeper) hNotified

------------------------------------------------------------
-- What holds of a signal
------------------------------------------------------------

/- What the mutex and the flag say about what callers do. -/
structure Sound (s : StopSignal) : Prop where
  owner : ∀ caller, Holds (s.callers caller) ↔ s.owner = some caller
  /- Who notifies, or answers that a stop was requested, is right. -/
  stored :
    ∀ caller,
      s.callers caller = .notifying ∨ s.callers caller = .leaving ∨
        s.callers caller = .answering true →
      s.flag = true
  /- Who is about to sleep, or to deny a request, is right. -/
  unset :
    ∀ caller,
      s.callers caller = .drowsy ∨
        s.callers caller = .answering false →
      s.flag = false
  /- There are sleepers only as long as a notification is to come. -/
  sleepers :
    s.flag = true →
      ∀ caller, s.callers caller = .asleep →
        ∃ requester, s.callers requester = .notifying

theorem sound_new : Sound new where
  owner _ := iff_of_false not_false nofun
  stored _ h := by
    rcases h with h | h | h
    all_goals exact absurd h nofun
  unset _ _ := rfl
  sleepers := nofun

theorem Sound.owner_moved
    (h : Sound s)
    (hMoved : Moved s caller next)
    (i : Nat) :
    Holds (next.callers i) ↔ next.owner = some i := by
  rcases hMoved.owner with
    ⟨hHolds, hOwner⟩ | ⟨hHolds, hFree, hOwner⟩ | ⟨hHeld, hHolds, hOwner⟩
  · rw [hOwner, ← h.owner i]
    by_cases hCaller : i = caller
    · rw [hCaller, hHolds]
    · exact hMoved.holds_of_ne hCaller
  · rw [hOwner]
    by_cases hCaller : i = caller
    · exact iff_of_true (hCaller ▸ hHolds) (hCaller ▸ rfl)
    · rw [hMoved.holds_of_ne hCaller, h.owner i, hFree]
      exact iff_of_false nofun
        (fun hSame => hCaller (Option.some.inj hSame).symm)
  · rw [hOwner]
    refine iff_of_false ?_ nofun
    by_cases hCaller : i = caller
    · exact hCaller ▸ hHolds
    · rw [hMoved.holds_of_ne hCaller, h.owner i, (h.owner caller).mp hHeld]
      exact fun hSame => hCaller (Option.some.inj hSame).symm

/- What the caller of a move does then, the flag allows. -/
theorem Sound.own_moved
    (h : Sound s)
    (hMoved : Moved s caller next) :
    (next.callers caller = .notifying ∨
        next.callers caller = .leaving ∨
        next.callers caller = .answering true →
      next.flag = true) ∧
    (next.callers caller = .drowsy ∨
        next.callers caller = .answering false →
      next.flag = false) ∧
    (next.callers caller = .asleep → next.flag = false) := by
  have hStored := h.stored caller
  have hUnset := h.unset caller
  have hFlag := hMoved.flag
  have hOwn := hMoved.own
  generalize s.callers caller = before at hOwn hStored hUnset hFlag
  generalize next.callers caller = after at hOwn
  cases hOwn with
  | look => cases hSet : s.flag <;> simp_all
  | lookAgain => cases hSet : s.flag <;> simp_all
  | beginRequest => simp
  | beginWait => simp
  | _ => simp_all

theorem Sound.stored_moved
    (h : Sound s)
    (hMoved : Moved s caller next)
    (i : Nat)
    (hActivity :
      next.callers i = .notifying ∨ next.callers i = .leaving ∨
        next.callers i = .answering true) :
    next.flag = true := by
  by_cases hCaller : i = caller
  · exact (h.own_moved hMoved).1 (hCaller ▸ hActivity)
  · refine hMoved.flag.mpr (Or.inl (h.stored i ?_))
    exact hActivity.imp
      (fun hSame => hMoved.callers_of_ne hCaller hSame nofun)
      (Or.imp
        (fun hSame => hMoved.callers_of_ne hCaller hSame nofun)
        (fun hSame => hMoved.callers_of_ne hCaller hSame nofun))

/-
  Who is about to sleep or to deny a request holds the mutex,
  so nobody else is about to set the flag.
-/
theorem Sound.unset_moved
    (h : Sound s)
    (hMoved : Moved s caller next)
    (i : Nat)
    (hActivity :
      next.callers i = .drowsy ∨ next.callers i = .answering false) :
    next.flag = false := by
  by_cases hCaller : i = caller
  · exact (h.own_moved hMoved).2.1 (hCaller ▸ hActivity)
  · have hBefore :
        s.callers i = .drowsy ∨ s.callers i = .answering false :=
      hActivity.imp
        (fun hSame => hMoved.callers_of_ne hCaller hSame nofun)
        (fun hSame => hMoved.callers_of_ne hCaller hSame nofun)
    have hHolds : Holds (s.callers i) := by
      rcases hBefore with hSame | hSame
      · exact hSame ▸ trivial
      · exact hSame ▸ trivial
    have hSetting : s.callers caller ≠ .setting := by
      intro hSetting
      have hOwner := (h.owner caller).mp (hSetting ▸ trivial)
      rw [(h.owner i).mp hHolds] at hOwner
      exact hCaller (Option.some.inj hOwner)
    have hUnset := h.unset i hBefore
    rw [← Bool.not_eq_true] at hUnset ⊢
    exact fun hFlag => (hMoved.flag.mp hFlag).elim hUnset hSetting

theorem Sound.sleepers_moved
    (h : Sound s)
    (hMoved : Moved s caller next)
    (hFlag : next.flag = true)
    (i : Nat)
    (hAsleep : next.callers i = .asleep) :
    ∃ requester, next.callers requester = .notifying := by
  have hCaller : i ≠ caller := by
    intro hSame
    have hUnset := (h.own_moved hMoved).2.2 (hSame ▸ hAsleep)
    exact absurd hFlag (Bool.not_eq_true _ ▸ hUnset)
  have hNotifying : s.callers caller ≠ .notifying := by
    intro hNotifying
    exact hMoved.notified hNotifying i hAsleep
  rcases hMoved.flag.mp hFlag with hSet | hSetting
  · have hBefore := hMoved.callers_of_ne hCaller hAsleep nofun
    rcases h.sleepers hSet i hBefore with ⟨requester, hRequester⟩
    have hOther : requester ≠ caller := by
      intro hSame
      exact hNotifying (hSame ▸ hRequester)
    refine ⟨requester, ?_⟩
    rcases hMoved.others requester hOther with hSame | ⟨hSame, _⟩
    · rw [hSame]
      exact hRequester
    · exact absurd hSame hNotifying
  · -- the caller has just set the flag, and notifies next
    refine ⟨caller, ?_⟩
    have hOwn := hMoved.own
    rw [hSetting] at hOwn
    exact hOwn.eq_notifying

theorem Sound.moved
    (h : Sound s)
    (hMoved : Moved s caller next) : Sound next :=
  ⟨h.owner_moved hMoved, h.stored_moved hMoved, h.unset_moved hMoved,
    h.sleepers_moved hMoved⟩

end StopSignal

end OrderedLog
