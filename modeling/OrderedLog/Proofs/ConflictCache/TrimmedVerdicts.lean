import OrderedLog.Proofs.ConflictCache.Extent
import OrderedLog.Proofs.ConflictCache.Regressions
import OrderedLog.Proofs.ConflictCache.Trims
import OrderedLog.Proofs.ConflictCache.Verdicts

/-
  This file proves what a trim means to transactions. A trim
  never lets a transaction pass that did not pass before. And
  one whose snapshot is not before the last trimmed address has
  seen all that the trim takes away, so that it passes as before
  and the same keys conflict with it.

  There is one exception. A write that finds the window empty is
  accepted even if it is not above the wildcard. As long as it
  is cached, a transaction that has seen it may pass with a
  snapshot below the wildcard. Once it is trimmed, the wildcard
  stands for it and stops the transaction.

  Key definitions include:
    * `ConflictCache.Stranded`
    * `ConflictCache.Conflicts`
    * `ConflictCache.OverlooksTrim`
    * `ConflictCache.AboveWildcard`
    * `ConflictCache.ReopensAbove`

  Key lemmas include:
    * `ConflictCache.TrimmedTo.stranded`
    * `ConflictCache.TrimmedTo.turned`
    * `ConflictCache.TrimmedTo.conflicts_iff`
    * `ConflictCache.Tidy.overlooksTrim`
    * `ConflictCache.AboveWildcard.serve`

  Key theorems include:
    * `ConflictCache.run_overlooks_trims`
-/

namespace OrderedLog

namespace ConflictCache

variable {c d : ConflictCache}
variable {mark : Address}
variable {evicted : Nat}
variable {t : Transaction}

------------------------------------------------------------
-- Transactions that a trim stops
------------------------------------------------------------

/-
  A transaction that passes with a snapshot below the wildcard
  and names a key that a trim at a mark evicts.
-/
structure Stranded
    (mark : Address)
    (c : ConflictCache)
    (t : Transaction) : Prop where
  passes : c.Possible t .commit
  below_wildcard : t.snapshot < c.wildcard
  evicted :
    ∃ key address,
      t.Names key ∧ c.get? key = some address ∧ address < mark

/- A key that a transaction names was written after its snapshot. -/
def Conflicts
    (c : ConflictCache)
    (t : Transaction)
    (key : ConflictKey) : Prop :=
  t.Names key ∧
    ∃ address, c.offence? t.snapshot key = some (.conflict key address)

theorem conflicts_iff :
    ∀ key,
      c.Conflicts t key ↔
        t.Names key ∧
          ∃ address, c.get? key = some address ∧ t.snapshot < address := by
  intro key
  unfold Conflicts
  apply and_congr_right
  intro _
  apply exists_congr
  intro address
  unfold offence?
  cases c.get? key with
  | none => simp
  | some latest =>
    by_cases hAfter : t.snapshot < latest
    · simp only [if_pos hAfter, Option.some_inj, AbortReason.conflict.injEq,
        true_and, iff_self_and]
      intro hSame
      exact hSame ▸ hAfter
    · simp only [if_neg hAfter, reduceCtorEq, Option.some_inj, false_iff,
        not_and]
      intro hSame
      exact hSame ▸ hAfter

/- The wildcard is raised to an address below the mark at most. -/
theorem TrimmedTo.wildcard_cases
    (h : TrimmedTo mark c d evicted) :
    d.wildcard = c.wildcard ∨ d.wildcard < mark :=
  h.wildcard.1.imp_right And.right

/- A trim does not take what is newer than a snapshot beside it. -/
theorem TrimmedTo.conflicts_iff
    (h : TrimmedTo mark c d evicted)
    (hSnapshot : mark.val ≤ t.snapshot.val + 1)
    (key : ConflictKey) : d.Conflicts t key ↔ c.Conflicts t key := by
  rw [ConflictCache.conflicts_iff, ConflictCache.conflicts_iff]
  apply and_congr_right
  intro _
  apply exists_congr
  intro address
  rw [h.latest, and_assoc, and_congr_right_iff, and_iff_right_iff_imp]
  intro _ hAfter
  rw [Address.lt_iff_val_lt] at hAfter
  rw [Address.le_iff_val_le]
  omega

/-
  A transaction that a trim stops, although its snapshot is not
  before the last trimmed address, was stranded before.
-/
theorem TrimmedTo.stranded
    (h : TrimmedTo mark c d evicted)
    (hSnapshot : mark.val ≤ t.snapshot.val + 1)
    (hBefore : c.verdict t = .commit)
    (hAfter : d.verdict t ≠ .commit) : c.Stranded mark t := by
  have hPassed : ∀ key address, t.Names key →
      c.Remembers key address → ¬ t.snapshot < address := by
    intro key address hNames hRemembers hLt
    apply verdict_ne_commit_iff.mpr _ hBefore
    exact Or.inr ⟨key, address, hNames, hLt, hRemembers⟩
  rcases verdict_ne_commit_iff.mp hAfter with
    hBound | ⟨key, address, hNames, hLt, hRemembers⟩
  · rw [h.bound] at hBound
    exact absurd hBefore (verdict_ne_commit_iff.mpr (Or.inl hBound))
  · cases hLeft : d.latest.get? key with
    | some latest =>
      -- the key is where it was, and did not stop the transaction
      have hLatest := ((h.latest key latest).mp hLeft).1
      rw [remembers_of_some hLeft] at hRemembers
      exact absurd hLt
        (hPassed key address hNames
          ((remembers_of_some hLatest).mpr hRemembers))
    | none =>
      rw [remembers_of_none hLeft] at hRemembers
      have hBelow : t.snapshot < c.wildcard := by
        have hWildcard := Address.lt_of_lt_of_le hLt hRemembers
        rcases h.wildcard_cases with hSame | hRaised
        · exact hSame ▸ hWildcard
        · rw [Address.lt_iff_val_lt] at hWildcard hRaised
          omega
      refine ⟨possible_commit_iff.mpr hBefore, hBelow, ?_⟩
      cases hLatest : c.latest.get? key with
      | none =>
        exact absurd hBelow
          (hPassed key c.wildcard hNames
            ((remembers_of_none hLatest).mpr (Address.le_refl _)))
      | some latest =>
        refine ⟨key, latest, hNames, hLatest, ?_⟩
        rw [← Address.not_le]
        intro hLe
        have hKept := (h.latest key latest).mpr ⟨hLatest, hLe⟩
        unfold get? at hKept
        rw [hLeft] at hKept
        cases hKept

/- A trim stops a stranded transaction. -/
theorem TrimmedTo.turned
    (h : TrimmedTo mark c d evicted)
    (hStranded : c.Stranded mark t) : d.verdict t ≠ .commit := by
  rcases hStranded.evicted with ⟨key, address, hNames, hLatest, hLt⟩
  have hGone : d.latest.get? key = none := by
    rw [Option.eq_none_iff_forall_ne_some]
    intro other hOther
    rcases (h.latest key other).mp hOther with ⟨hSame, hLe⟩
    rw [hLatest, Option.some_inj] at hSame
    exact Address.not_le.mpr hLt (hSame ▸ hLe)
  apply verdict_ne_commit_iff.mpr
  refine Or.inr ⟨key, d.wildcard, hNames, ?_, ?_⟩
  · exact Address.lt_of_lt_of_le hStranded.below_wildcard
      (h.wildcard.2 (Or.inl rfl))
  · exact (remembers_of_none hGone).mpr (Address.le_refl _)

/- A trim lets no transaction pass that did not pass before. -/
theorem Coherent.passes_of_trimBelow
    (h : c.Coherent)
    (hAfter : (c.trimBelow mark).1.verdict t = .commit) :
    c.verdict t = .commit := by
  by_contra hBefore
  apply verdict_ne_commit_iff.mpr _ hAfter
  rcases verdict_ne_commit_iff.mp hBefore with
    hBound | ⟨key, address, hNames, hLt, hRemembers⟩
  · left
    rw [bound_trimBelow]
    exact hBound
  · exact Or.inr ⟨key, address, hNames, hLt, hRemembers.trimBelow h mark⟩

/-
  What a transaction notices of a trim at a mark, which turns
  the first cache into the second one. Whether a transaction
  passes does not depend on the order of its keys.
-/
structure OverlooksTrim
    (mark : Address)
    (t : Transaction)
    (c d : ConflictCache) : Prop where
  same_verdict :
    mark.val ≤ t.snapshot.val + 1 → ¬ c.Stranded mark t →
      (d.Possible t .commit ↔ c.Possible t .commit)
  /- The exception is one. -/
  stranded : c.Stranded mark t → ¬ d.Possible t .commit
  same_conflicts :
    mark.val ≤ t.snapshot.val + 1 →
      ∀ key, d.Conflicts t key ↔ c.Conflicts t key
  /- A snapshot that is stopped is farther back, or stranded. -/
  stopped :
    c.Possible t .commit → ¬ d.Possible t .commit →
      t.snapshot.val + 1 < mark.val ∨ c.Stranded mark t
  never_released : d.Possible t .commit → c.Possible t .commit

theorem Tidy.overlooksTrim
    (h : c.Tidy)
    (mark : Address)
    (t : Transaction) :
    OverlooksTrim mark t c (c.trimBelow mark).1 := by
  have hTrimmed := h.trimmedTo mark
  have hReleased : (c.trimBelow mark).1.Possible t .commit →
      c.Possible t .commit := by
    rw [possible_commit_iff, possible_commit_iff]
    exact h.coherent.passes_of_trimBelow
  have hStopped : c.Possible t .commit →
      ¬ (c.trimBelow mark).1.Possible t .commit →
        mark.val ≤ t.snapshot.val + 1 → c.Stranded mark t := by
    rw [possible_commit_iff, possible_commit_iff]
    intro hBefore hAfter hSnapshot
    exact hTrimmed.stranded hSnapshot hBefore hAfter
  constructor
  · intro hSnapshot hNot
    refine ⟨hReleased, ?_⟩
    intro hBefore
    by_contra hAfter
    exact hNot (hStopped hBefore hAfter hSnapshot)
  · intro hStranded
    rw [possible_commit_iff]
    exact hTrimmed.turned hStranded
  · intro hSnapshot
    exact hTrimmed.conflicts_iff hSnapshot
  · intro hBefore hAfter
    by_cases hSnapshot : mark.val ≤ t.snapshot.val + 1
    · exact Or.inr (hStopped hBefore hAfter hSnapshot)
    · exact Or.inl (Nat.not_le.mp hSnapshot)
  · exact hReleased

------------------------------------------------------------
-- Windows above the wildcard
------------------------------------------------------------

/- All that is cached is above the wildcard. -/
def AboveWildcard (c : ConflictCache) : Prop :=
  ∀ key address, c.get? key = some address → c.wildcard < address

/- No transaction is stranded there. -/
theorem AboveWildcard.not_stranded
    (h : c.AboveWildcard)
    (mark : Address)
    (t : Transaction) : ¬ c.Stranded mark t := by
  intro hStranded
  rcases hStranded.evicted with ⟨key, address, hNames, hLatest, _⟩
  have hAfter : t.snapshot < address :=
    KeyOrder.trans hStranded.below_wildcard (h key address hLatest)
  apply verdict_ne_commit_iff.mpr _
    (possible_commit_iff.mp hStranded.passes)
  exact Or.inr ⟨key, address, hNames, hAfter,
    (remembers_of_some hLatest).mpr (Address.le_refl _)⟩

/- Whatever opens the window in a run is above the wildcard. -/
def ReopensAbove
    (c : ConflictCache) : List Request → Prop
  | [] => True
  | request :: requests =>
    (∀ admission ∈ c.admission? request,
        admission.opening = true → c.wildcard < admission.write.version) ∧
      ReopensAbove (c.serve request).2 requests

instance
    (c : ConflictCache) :
    (requests : List Request) → Decidable (c.ReopensAbove requests)
  | [] => inferInstanceAs (Decidable True)
  | request :: requests =>
    have : Decidable ((c.serve request).2.ReopensAbove requests) :=
      instDecidableReopensAbove (c.serve request).2 requests
    inferInstanceAs (Decidable (_ ∧ _))

/- What is pending is above the wildcard, too. -/
theorem AboveWildcard.pending
    (h : c.AboveWildcard)
    (hTidy : c.Tidy)
    {request : Request}
    (hOpening : ∀ admission ∈ c.admission? request,
      admission.opening = true → c.wildcard < admission.write.version)
    {key : ConflictKey}
    {address : Address}
    (hPending : c.pending request key = some address) :
    c.wildcard < address := by
  cases hAdmission : c.admission? request with
  | none =>
    rw [pending_of_not_accepted
      (accepted?_eq_none_of_admission? hAdmission)] at hPending
    exact h key address hPending
  | some admission =>
    rw [pending_of_accepted (admission?_eq_some_iff.mp hAdmission).1,
      overwritten] at hPending
    split at hPending
    · next hKey =>
      rw [← Option.some_inj.mp hPending]
      cases hFlag : admission.opening with
      | true => exact hOpening admission hAdmission hFlag
      | false =>
        rcases exists_lt_of_not_opening hTidy hAdmission hFlag
            (SortedMap.ne_empty_of_mem hKey) with
          ⟨other, latest, hLatest, hLt⟩
        exact KeyOrder.trans (h other latest hLatest) hLt
    · exact h key address hPending

theorem AboveWildcard.serve
    (h : c.AboveWildcard)
    (hSettled : c.Settled)
    {request : Request}
    (hOpening : ∀ admission ∈ c.admission? request,
      admission.opening = true → c.wildcard < admission.write.version) :
    (c.serve request).2.AboveWildcard := by
  rcases hSettled.leaves_serve request with ⟨floor, hLeaves, _⟩
  intro key address hLatest
  rcases (hLeaves.latest key address).mp hLatest with ⟨hPending, hAbove⟩
  exact hLeaves.wildcard_lt_iff.mpr
    ⟨h.pending hSettled.tidy hOpening hPending, hAbove⟩

theorem AboveWildcard.run
    (h : c.AboveWildcard)
    (hSettled : c.Settled)
    {requests : List Request}
    (hOpenings : c.ReopensAbove requests) :
    (c.run requests).2.AboveWildcard := by
  induction requests generalizing c with
  | nil => exact h
  | cons request requests ih =>
    exact ih (h.serve hSettled hOpenings.1) (hSettled.serve request)
      hOpenings.2

------------------------------------------------------------
-- All caches there are
------------------------------------------------------------

/-
  Whatever was asked for before, a trim goes unnoticed by the
  transactions that have seen what it takes away, unless they
  are stranded. And none is, unless a write that was not above
  the wildcard has opened the window.
-/
theorem run_overlooks_trims
    (capacity : Nat)
    (capacity_pos : 0 < capacity)
    (bound : Address)
    (requests : List Request) :
    let c := ((new capacity capacity_pos bound).run requests).2
    (∀ mark t, OverlooksTrim mark t c (c.trimBelow mark).1) ∧
      ((new capacity capacity_pos bound).ReopensAbove requests →
        ∀ mark t, ¬ c.Stranded mark t) := by
  intro c
  have hNew := settled_new capacity capacity_pos bound
  refine ⟨(settled_run hNew requests).tidy.overlooksTrim, ?_⟩
  intro hOpenings
  have hAbove : (new capacity capacity_pos bound).AboveWildcard := nofun
  exact (hAbove.run hNew hOpenings).not_stranded

/-
  The transaction has just seen the last address that its trim
  evicts. One of the keys that it read has been evicted before.
-/
def orderlyWrites : List Request :=
  let keys := keysOf (StreamId.ofNat 7)
  [ .record (keys [1, 2]) (Address.ofNat 5),
    .record (keys [3]) (Address.ofNat 12),
    .trim (Address.ofNat 6),
    .record (keys [2, 4]) (Address.ofNat 14) ]

theorem orderlyWrites_overlook_trim :
    let c := ((new 4 (by decide) Address.zero).run orderlyWrites).2
    let t : Transaction :=
      ⟨Address.ofNat 13, keysOf (StreamId.ofNat 7) [1, 3], ∅⟩
    (new 4 (by decide) Address.zero).ReopensAbove orderlyWrites ∧
      c.verdict t = .commit ∧
      (c.trimBelow (Address.ofNat 14)).2 = 1 ∧
      (c.trimBelow (Address.ofNat 14)).1.verdict t = .commit ∧
      OverlooksTrim (Address.ofNat 14) t c
        (c.trimBelow (Address.ofNat 14)).1 ∧
      ¬ c.Stranded (Address.ofNat 14) t := by
  intro c t
  have hOpenings :
      (new 4 (by decide) Address.zero).ReopensAbove orderlyWrites := by
    decide
  have hRun :=
    run_overlooks_trims 4 (by decide) Address.zero orderlyWrites
  exact ⟨hOpenings, by decide, by decide, by decide, hRun.1 _ t,
    hRun.2 hOpenings _ t⟩

/-
  The trim empties the window, and the write that opens it again
  is below the wildcard.
-/
def reopenedBelow : List Request :=
  let keys := keysOf (StreamId.ofNat 7)
  [ .record (keys [1]) (Address.ofNat 5),
    .trim (Address.ofNat 10),
    .record (keys [2]) (Address.ofNat 3) ]

/- A snapshot that has seen that write notices its trim. -/
theorem reopenedBelow_notices_trim :
    let c := ((new 4 (by decide) Address.zero).run reopenedBelow).2
    ¬ ∀ (mark : Address) (t : Transaction),
        mark.val ≤ t.snapshot.val + 1 →
          (c.Possible t .commit ↔
            (c.trimBelow mark).1.Possible t .commit) := by
  intro c hUnnoticed
  let t : Transaction :=
    ⟨Address.ofNat 3, keysOf (StreamId.ofNat 7) [2], ∅⟩
  have hBefore : c.verdict t = .commit := by decide
  have hAfter : (c.trimBelow (Address.ofNat 4)).1.verdict t =
      .abort (.overflow ⟨StreamId.ofNat 7, [2]⟩ (Address.ofNat 5)) := by
    decide
  have hSame := hUnnoticed (Address.ofNat 4) t (by decide)
  rw [possible_commit_iff, possible_commit_iff, hAfter] at hSame
  cases hSame.mp hBefore

end ConflictCache

end OrderedLog
