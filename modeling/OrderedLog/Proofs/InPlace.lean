import Mathlib.Tactic.Common
import OrderedLog.Refusal

/-
  This file defines procedures that change a state in place. A
  procedure that fails leaves the state as it is at that point,
  with all that was changed before. So if a failure has changed
  nothing, this is due to what the procedure does, and is not
  true of all procedures.

  Key definitions include:
    * `InPlace`
    * `InPlace.check`
    * `InPlace.within`

  Key lemmas include:
    * `InPlace.run_check_bind`
    * `InPlace.forM_check`
    * `InPlace.run_forM_modify`
    * `InPlace.run_within`
-/

namespace OrderedLog

/- A procedure on a state, which ends with a result or fails. -/
abbrev InPlace (σ : Type) (α : Type) : Type :=
  EStateM Refusal σ α

namespace InPlace

variable {σ τ : Type}
variable {α β : Type}

------------------------------------------------------------
-- Checks
------------------------------------------------------------

/- Look at the state, and fail if there is a ground to refuse. -/
def check (ground : σ → Option Refusal) : InPlace σ Unit := do
  match ground (← get) with
  | some refusal => throw refusal
  | none => return

theorem run_check
    (ground : σ → Option Refusal)
    (s : σ) :
    (check ground).run s =
      match ground s with
      | some refusal => .error refusal s
      | none => .ok () s := by
  unfold check
  simp only [EStateM.run_bind, EStateM.run_get]
  cases ground s with
  | some refusal => rfl
  | none => rfl

/- What follows a check goes on with the state as it was. -/
theorem run_check_bind
    (ground : σ → Option Refusal)
    (next : Unit → InPlace σ α)
    (s : σ) :
    (check ground >>= next).run s =
      match ground s with
      | some refusal => .error refusal s
      | none => (next ()).run s := by
  rw [EStateM.run_bind, run_check]
  cases ground s with
  | some refusal => rfl
  | none => rfl

/- Checks in turn are one check, for the first ground of all. -/
theorem forM_check
    (ground : β → σ → Option Refusal)
    (items : List β) :
    items.forM (fun item => check (ground item)) =
      check (fun s => items.findSome? (fun item => ground item s)) := by
  funext s
  change (items.forM (fun item => check (ground item))).run s =
    (check (fun s => items.findSome? (fun item => ground item s))).run s
  rw [run_check]
  induction items with
  | nil => rfl
  | cons item items ih =>
    rw [List.forM_eq_forM, List.forM_cons, run_check_bind]
    simp only [List.findSome?_cons]
    cases ground item s with
    | some refusal => rfl
    | none => exact ih

------------------------------------------------------------
-- Changes
------------------------------------------------------------

/- Changes in turn add up. -/
theorem run_forM_modify
    (change : σ → β → σ)
    (items : List β)
    (s : σ) :
    (items.forM (fun item => (modify (change · item) : InPlace σ Unit))).run
        s =
      .ok () (items.foldl change s) := by
  induction items generalizing s with
  | nil => rfl
  | cons item items ih => exact ih (change s item)

/- A procedure on a part of the state. -/
def within
    (part : σ → τ)
    (put : σ → τ → σ)
    (procedure : InPlace τ α) : InPlace σ α :=
  fun s =>
    match procedure.run (part s) with
    | .ok result changed => .ok result (put s changed)
    | .error refusal changed => .error refusal (put s changed)

theorem run_within
    (part : σ → τ)
    (put : σ → τ → σ)
    (procedure : InPlace τ α)
    (s : σ) :
    (procedure.within part put).run s =
      match procedure.run (part s) with
      | .ok result changed => .ok result (put s changed)
      | .error refusal changed => .error refusal (put s changed) :=
  rfl

end InPlace

end OrderedLog
