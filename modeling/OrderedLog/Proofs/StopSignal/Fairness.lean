import Mathlib.Order.Nat
import Mathlib.Data.Nat.Find
import OrderedLog.Proofs.StopSignal.Steps

/-
  This file proves that whoever is in the midst of an operation
  of a signal gets on with it, if the moves that callers make
  are fair. A caller without the mutex can go on only when the
  mutex is free, so it is not enough that a caller moves which
  could move all the time.

  The holder of the mutex can always move, and has at most
  three steps to go. Hence the mutex is free again and again,
  and then whoever needs it can move.

  Key definitions include:
    * `StopSignal.Course`
    * `StopSignal.Fair`
    * `StopSignal.Steady`

  Key lemmas include:
    * `StopSignal.Course.sound`
    * `StopSignal.Course.keeps_or_proceeds`
    * `StopSignal.Course.not_holds_forever`
    * `StopSignal.Course.mutex_gets_free`

  Key theorems include:
    * `StopSignal.Course.proceeds`
-/

namespace OrderedLog

namespace StopSignal

variable {s next : StopSignal}
variable {σ : Nat → StopSignal}
variable {caller n k : Nat}

------------------------------------------------------------
-- Courses
------------------------------------------------------------

/-
  A signal as time goes by, from when it was new on. At each
  time some caller makes a move, or nobody does.
-/
structure Course (σ : Nat → StopSignal) : Prop where
  start : σ 0 = new
  step :
    ∀ n, σ (n + 1) = σ n ∨
      ∃ caller move, (σ n).move? caller move = some (σ (n + 1))

/- A caller takes the next step of what it has begun. -/
def Proceeds
    (σ : Nat → StopSignal)
    (caller : Nat)
    (n : Nat) : Prop :=
  (σ n).proceed? caller = some (σ (n + 1))

/- A caller that can proceed again and again does proceed. -/
def Fair (σ : Nat → StopSignal) : Prop :=
  ∀ caller n,
    (∀ m, n ≤ m → ∃ k, m ≤ k ∧ ((σ k).proceed? caller).isSome) →
    ∃ k, n ≤ k ∧ Proceeds σ caller k

/- Where everybody comes to rest, nobody is treated unfairly. -/
theorem fair_of_rest
    (hRest : ∀ n, k ≤ n → ∀ caller, (σ n).proceed? caller = none) :
    Fair σ := by
  intro caller n hAgain
  rcases hAgain (max n k) (Nat.le_max_left n k) with ⟨m, hLe, hSome⟩
  rw [hRest m ((Nat.le_max_right n k).trans hLe) caller] at hSome
  exact absurd hSome nofun

theorem Course.moved
    (h : Course σ)
    (n : Nat) :
    σ (n + 1) = σ n ∨ ∃ caller, Moved (σ n) caller (σ (n + 1)) := by
  rcases h.step n with hSame | ⟨caller, move, hMove⟩
  · exact Or.inl hSame
  · exact Or.inr ⟨caller, moved_of_move? hMove⟩

theorem Course.sound
    (h : Course σ)
    (n : Nat) : Sound (σ n) := by
  induction n with
  | zero => exact h.start ▸ sound_new
  | succ n ih =>
    rcases h.moved n with hSame | ⟨caller, hMoved⟩
    · rw [hSame]
      exact ih
    · exact ih.moved hMoved

theorem Course.flag_succ
    (h : Course σ)
    (hFlag : (σ n).flag = true) : (σ (n + 1)).flag = true := by
  rcases h.moved n with hSame | ⟨caller, hMoved⟩
  · rw [hSame]
    exact hFlag
  · exact hMoved.flag.mpr (Or.inl hFlag)

theorem Course.flag_mono
    (h : Course σ)
    (hFlag : (σ n).flag = true)
    (hLe : n ≤ k) : (σ k).flag = true := by
  induction k, hLe using Nat.le_induction with
  | base => exact hFlag
  | succ k _ ih => exact h.flag_succ ih

------------------------------------------------------------
-- Callers that go on by their own moves only
------------------------------------------------------------

/- Whether a caller is in the midst of an operation, and awake. -/
def Steady : Activity → Prop
  | .idle => False
  | .asleep => False
  | .answered _ => False
  | _ => True

theorem steady_of_holds
    {activity : Activity}
    (h : Holds activity) : Steady activity := by
  cases activity with
  | idle => exact h
  | asleep => exact h
  | answered stop => exact h
  | _ => exact trivial

/- Nothing but its own next step changes what it does. -/
theorem Course.keeps_or_proceeds
    (h : Course σ)
    (hSteady : Steady ((σ n).callers caller)) :
    (σ (n + 1)).callers caller = (σ n).callers caller ∨
      Proceeds σ caller n := by
  rcases h.step n with hSame | ⟨mover, move, hMove⟩
  · exact Or.inl (by rw [hSame])
  · by_cases hMover : caller = mover
    · subst hMover
      cases move with
      | beginRequest =>
        simp only [move?, Option.ite_none_right_eq_some] at hMove
        generalize (σ n).callers caller = activity at hMove hSteady
        cases activity with
        | idle => exact hSteady.elim
        | answered stop => exact hSteady.elim
        | _ => exact hMove.1.elim
      | beginWait =>
        simp only [move?, Option.ite_none_right_eq_some] at hMove
        generalize (σ n).callers caller = activity at hMove hSteady
        cases activity with
        | idle => exact hSteady.elim
        | answered stop => exact hSteady.elim
        | _ => exact hMove.1.elim
      | proceed => exact Or.inr hMove
      | timeOut =>
        simp only [move?, Option.ite_none_right_eq_some] at hMove
        rw [hMove.1] at hSteady
        exact hSteady.elim
    · rcases (moved_of_move? hMove).others caller hMover with
        hSame | ⟨_, hAsleep, _⟩
      · exact Or.inl hSame
      · rw [hAsleep] at hSteady
        exact hSteady.elim

/- The holder of the mutex can go on. -/
theorem proceed?_isSome_of_holds
    (h : Holds (s.callers caller)) :
    (s.proceed? caller).isSome := by
  unfold proceed?
  generalize s.callers caller = activity at h
  cases activity with
  | idle => exact h.elim
  | requesting => exact h.elim
  | entering => exact h.elim
  | asleep => exact h.elim
  | notified => exact h.elim
  | timedOut => exact h.elim
  | answered stop => exact h.elim
  | _ => rfl

/- While the mutex is free, all can go on. -/
theorem proceed?_isSome_of_free
    (hOwner : s.owner = none)
    (hSteady : Steady (s.callers caller)) :
    (s.proceed? caller).isSome := by
  unfold proceed? acquire?
  rw [hOwner]
  generalize s.callers caller = activity at hSteady
  cases activity with
  | idle => exact hSteady.elim
  | asleep => exact hSteady.elim
  | answered stop => exact hSteady.elim
  | _ => rfl

------------------------------------------------------------
-- The mutex gets free
------------------------------------------------------------

/- How many steps there are until a holder releases the mutex. -/
def stepsToRelease : Activity → Nat
  | .setting => 3
  | .notifying => 2
  | .leaving => 1
  | .looking => 2
  | .drowsy => 1
  | .lookingAgain => 2
  | .answering _ => 1
  | _ => 0

theorem Takes.stepsToRelease_lt
    {flag : Bool}
    {before after : Activity}
    (h : Takes flag before after)
    (hBefore : Holds before)
    (hAfter : Holds after) :
    stepsToRelease after < stepsToRelease before := by
  cases h with
  | beginRequest => exact hAfter.elim
  | beginWait => exact hAfter.elim
  | lockToSet => exact hBefore.elim
  | lockToLook => exact hBefore.elim
  | lockNotified => exact hBefore.elim
  | lockTimedOut => exact hBefore.elim
  | timeOut => exact hBefore.elim
  | leave => exact hAfter.elim
  | fallAsleep => exact hAfter.elim
  | answer => exact hAfter.elim
  | store => exact Nat.lt_succ_self 2
  | notify => exact Nat.lt_succ_self 1
  | lookAgain => exact Nat.lt_succ_self 1
  | look =>
    cases flag with
    | true => exact Nat.lt_succ_self 1
    | false => exact Nat.lt_succ_self 1

/- If the mutex were never free, its holder would stay the same. -/
theorem Course.owner_eq_of_never_free
    (h : Course σ)
    (hNever : ∀ m, n ≤ m → (σ m).owner ≠ none)
    (hOwner : (σ n).owner = some caller)
    (hLe : n ≤ k) : (σ k).owner = some caller := by
  induction k, hLe using Nat.le_induction with
  | base => exact hOwner
  | succ k hLe ih =>
    rcases h.moved k with hSame | ⟨mover, hMoved⟩
    · rw [hSame]
      exact ih
    · rcases hMoved.owner with ⟨_, hSame⟩ | ⟨_, hFree, _⟩ | ⟨_, _, hFree⟩
      · rw [hSame]
        exact ih
      · exact absurd hFree (hNever k hLe)
      · exact absurd hFree (hNever (k + 1) (Nat.le_succ_of_le hLe))

/- A caller that keeps the mutex gets no farther from its release. -/
theorem Course.stepsToRelease_mono
    (h : Course σ)
    (hHolds : ∀ k, n ≤ k → Holds ((σ k).callers caller))
    (hLe : n ≤ k) :
    stepsToRelease ((σ k).callers caller) ≤
      stepsToRelease ((σ n).callers caller) := by
  induction k, hLe using Nat.le_induction with
  | base => exact le_rfl
  | succ k hLe ih =>
    have hHeld := hHolds k hLe
    rcases h.keeps_or_proceeds (steady_of_holds hHeld) with
      hSame | hProceeds
    · rw [hSame]
      exact ih
    · have hLower := (moved_of_proceed? hProceeds).own.stepsToRelease_lt
        hHeld (hHolds (k + 1) (Nat.le_succ_of_le hLe))
      exact hLower.le.trans ih

/- It would proceed again and again, with ever fewer steps to go. -/
theorem Course.not_holds_forever
    (h : Course σ)
    (hFair : Fair σ) :
    ¬ ∀ k, n ≤ k → Holds ((σ k).callers caller) := by
  intro hHolds
  induction hSteps : stepsToRelease ((σ n).callers caller)
    using Nat.strong_induction_on generalizing n with
  | _ steps ih =>
    rcases hFair caller n (fun k hLe =>
      ⟨k, le_rfl, proceed?_isSome_of_holds (hHolds k hLe)⟩) with
      ⟨k, hLe, hProceeds⟩
    have hLater : ∀ m, k + 1 ≤ m → Holds ((σ m).callers caller) :=
      fun m hLe' => hHolds m (by omega)
    have hLower := (moved_of_proceed? hProceeds).own.stepsToRelease_lt
      (hHolds k hLe) (hLater (k + 1) le_rfl)
    have hFewer := hLower.trans_le (h.stepsToRelease_mono hHolds hLe)
    exact ih _ (hSteps ▸ hFewer) hLater rfl

theorem Course.mutex_gets_free
    (h : Course σ)
    (hFair : Fair σ)
    (n : Nat) : ∃ k, n ≤ k ∧ (σ k).owner = none := by
  by_contra hNever
  push Not at hNever
  rcases Option.ne_none_iff_exists'.mp (hNever n le_rfl) with
    ⟨caller, hOwner⟩
  have hHolds : ∀ k, n ≤ k → Holds ((σ k).callers caller) :=
    fun k hLe => ((h.sound k).owner caller).mpr
      (h.owner_eq_of_never_free hNever hOwner hLe)
  exact h.not_holds_forever hFair hHolds

------------------------------------------------------------
-- All get on
------------------------------------------------------------

theorem Course.keeps_until
    (h : Course σ)
    (hSteady : Steady ((σ n).callers caller))
    (hNot : ∀ m, n ≤ m → m < k → ¬ Proceeds σ caller m)
    (hLe : n ≤ k) :
    (σ k).callers caller = (σ n).callers caller := by
  induction k, hLe using Nat.le_induction with
  | base => rfl
  | succ k hLe ih =>
    have hSame := ih (fun m hLe hLt => hNot m hLe (Nat.lt_succ_of_lt hLt))
    rw [← hSame] at hSteady
    rcases h.keeps_or_proceeds hSteady with hKeeps | hProceeds
    · exact hKeeps.trans hSame
    · exact absurd hProceeds (hNot k hLe (Nat.lt_succ_self k))

/-
  Whoever is in the midst of an operation takes the next step
  of it at some time, and does nothing else until then.
-/
theorem Course.proceeds
    (h : Course σ)
    (hFair : Fair σ)
    (hSteady : Steady ((σ n).callers caller)) :
    ∃ k, n ≤ k ∧ Proceeds σ caller k ∧
      (σ k).callers caller = (σ n).callers caller := by
  classical
  have hSome : ∃ k, n ≤ k ∧ Proceeds σ caller k := by
    by_contra hNever
    push Not at hNever
    apply (hFair caller n ?_).elim
    · exact fun k hBoth => hNever k hBoth.1 hBoth.2
    · intro m hLe
      rcases h.mutex_gets_free hFair m with ⟨k, hLe', hFree⟩
      have hKeeps := h.keeps_until hSteady
        (fun i hLe _ => hNever i hLe) (hLe.trans hLe')
      exact ⟨k, hLe', proceed?_isSome_of_free hFree
        (hKeeps.symm ▸ hSteady)⟩
  rcases Nat.find_spec hSome with ⟨hLe, hProceeds⟩
  refine ⟨Nat.find hSome, hLe, hProceeds, h.keeps_until hSteady ?_ hLe⟩
  intro m hLe' hLt hEarlier
  exact Nat.find_min hSome hLt ⟨hLe', hEarlier⟩

end StopSignal

end OrderedLog
