import OrderedLog.Proofs.ConflictCache.Requests

/-
  This file proves how far the conflict cache keeps the versions
  of a key from going back. A write is checked against what is
  cached. A key that was evicted is still guarded by the window,
  as all that is left there is at higher versions, and a write
  has to be above the first of them.

  Once the window is empty, all that is known of an evicted key
  is that the wildcard covers it. So a write that finds the window
  empty goes on from all earlier ones if it is above the wildcard.
  If it is not, then it may go back, and so may the writes that
  follow it, as long as the window is at lower versions.

  Key definitions include:
    * `ConflictCache.Admission`
    * `ConflictCache.Admission.Unchecked`
    * `ConflictCache.admissions`
    * `ConflictCache.Advancing`
    * `ConflictCache.Covers`
    * `ConflictCache.Guards`
    * `ConflictCache.Guarded`
    * `ConflictCache.Forgotten`

  Key lemmas include:
    * `ConflictCache.exists_lt_of_not_opening`
    * `ConflictCache.Covers.serve`
    * `ConflictCache.Guarded.lt_of_accepted`
    * `ConflictCache.Guarded.serve`
    * `ConflictCache.guarded_accepted`
    * `ConflictCache.found_of_admissions`
    * `ConflictCache.Covers.found`
    * `ConflictCache.Guarded.found`
    * `ConflictCache.Settled.forgotten_of_le`

  Key theorems include:
    * `ConflictCache.run_catches_regressions`
-/

namespace OrderedLog

namespace ConflictCache

------------------------------------------------------------
-- Accepted writes
------------------------------------------------------------

/- An accepted write, and the cache that it found. -/
structure Admission where
  write : Write
  found : ConflictCache
deriving DecidableEq

namespace Admission

/- The write has keys, and found the window empty. -/
def opening (admission : Admission) : Bool :=
  admission.found.window.isEmpty && !admission.write.keys.isEmpty

/-
  An opening write that is not above the wildcard. Neither the
  window nor the wildcard tells if it goes back behind a write
  that was evicted.
-/
def Unchecked (admission : Admission) : Prop :=
  admission.opening = true ∧
    admission.write.version ≤ admission.found.wildcard

instance (admission : Admission) : Decidable admission.Unchecked :=
  inferInstanceAs (Decidable (_ ∧ _))

theorem opening_iff
    {admission : Admission} :
    admission.opening = true ↔
      admission.found.window = ∅ ∧ admission.write.keys ≠ ∅ := by
  unfold opening
  rw [Bool.and_eq_true, Bool.not_eq_true', ← Bool.not_eq_true,
    SortedMap.isEmpty_iff, SortedMap.isEmpty_iff]

theorem not_unchecked_iff
    {admission : Admission} :
    ¬ admission.Unchecked ↔
      (admission.opening = true →
        admission.found.wildcard < admission.write.version) := by
  unfold Unchecked
  rw [not_and, Address.not_le]

end Admission

/- The admission of a request, if it is an accepted write. -/
def admission?
    (c : ConflictCache)
    (request : Request) : Option Admission :=
  (accepted? request (c.serve request).1).map (fun write => ⟨write, c⟩)

/- The admissions of a run, in the order of the requests. -/
def admissions
    (c : ConflictCache) : List Request → List Admission
  | [] => []
  | request :: requests =>
    (c.admission? request).toList ++ admissions (c.serve request).2 requests

/- Every key is written at increasing versions. -/
def Advancing (history : List Write) : Prop :=
  history.Pairwise (fun earlier later =>
    ∀ key, key ∈ earlier.keys → key ∈ later.keys →
      earlier.version < later.version)

theorem Advancing.lt_of_sublist
    {history : List Write}
    (h : Advancing history)
    {earlier later : Write}
    (hWritten : [earlier, later].Sublist history)
    (key : ConflictKey)
    (hEarlier : key ∈ earlier.keys)
    (hLater : key ∈ later.keys) : earlier.version < later.version :=
  List.pairwise_iff_forall_sublist.mp h hWritten key hEarlier hLater

variable {c d : ConflictCache}
variable {request : Request}
variable {admission : Admission}

theorem admission?_eq_some_iff :
    c.admission? request = some admission ↔
      accepted? request (c.serve request).1 = some admission.write ∧
        admission.found = c := by
  unfold admission?
  rw [Option.map_eq_some_iff]
  constructor
  · rintro ⟨write, hAccepted, rfl⟩
    exact ⟨hAccepted, rfl⟩
  · rintro ⟨hAccepted, rfl⟩
    exact ⟨admission.write, hAccepted, rfl⟩

theorem accepted?_eq_none_of_admission?
    (h : c.admission? request = none) :
    accepted? request (c.serve request).1 = none :=
  Option.map_eq_none_iff.mp h

/- Nothing speaks against a write that is accepted. -/
theorem refusal?_of_accepted?
    {write : Write}
    (h : accepted? request (c.serve request).1 = some write) :
    c.refusal? write.keys.toList write.version = none := by
  cases request with
  | record keys version =>
    cases hRefusal : c.refusal? keys.toList version with
    | some refusal =>
      have hRecord : c.record keys version = .error refusal := by
        unfold record
        rw [hRefusal]
      rw [serve_record_of_error hRecord] at h
      cases h
    | none =>
      rw [serve_record_of_ok (record_of_refusal? hRefusal)] at h
      cases h
      exact hRefusal
  | trim mark => cases h
  | rule transaction => cases h

/- An accepted write is above the first address of the window. -/
theorem first_lt_of_admission
    (hAdmission : c.admission? request = some admission)
    {first : Address}
    (hFirst : c.firstAddress? = some first) :
    first < admission.write.version := by
  have hAccepted := (admission?_eq_some_iff.mp hAdmission).1
  exact (refusal?_eq_none_iff.mp (refusal?_of_accepted? hAccepted)).2.1
    first hFirst

/- It is above the latest writes of its keys, too. -/
theorem latest_lt_of_admission
    (hAdmission : c.admission? request = some admission)
    {key : ConflictKey}
    (hKey : key ∈ admission.write.keys)
    {latest : Address}
    (hLatest : c.latest.get? key = some latest) :
    latest < admission.write.version := by
  have hAccepted := (admission?_eq_some_iff.mp hAdmission).1
  exact (refusal?_eq_none_iff.mp (refusal?_of_accepted? hAccepted)).2.2
    key (SortedSet.mem_toList_iff.mpr hKey) latest hLatest

theorem exists_first_of_not_opening
    (hOpening : admission.opening = false)
    (hKeys : admission.write.keys ≠ ∅) :
    ∃ first, admission.found.window.first? = some first := by
  apply Option.ne_none_iff_exists'.mp
  intro hNone
  have hOpen := Admission.opening_iff.mpr
    ⟨SortedMap.eq_empty_of_first? hNone, hKeys⟩
  rw [hOpening] at hOpen
  cases hOpen

/-
  An accepted write that is not an opening one is above the first
  address of the window, and so above some latest write.
-/
theorem exists_lt_of_not_opening
    (hTidy : c.Tidy)
    (hAdmission : c.admission? request = some admission)
    (hOpening : admission.opening = false)
    (hKeys : admission.write.keys ≠ ∅) :
    ∃ key address,
      c.latest.get? key = some address ∧
        address < admission.write.version := by
  rcases exists_first_of_not_opening hOpening hKeys with ⟨first, hFirst⟩
  rw [(admission?_eq_some_iff.mp hAdmission).2] at hFirst
  rcases hTidy.exists_latest hFirst with ⟨key, hKey⟩
  exact ⟨key, first.1, hKey,
    first_lt_of_admission hAdmission
      (firstAddress?_eq_some_iff.mpr ⟨first.2, hFirst⟩)⟩

------------------------------------------------------------
-- Covered versions
------------------------------------------------------------

/- The wildcard or some latest write is not below a version. -/
def Covers
    (latest : ConflictKey → Option Address)
    (wildcard : Address)
    (version : Address) : Prop :=
  version ≤ wildcard ∨
    ∃ key address, latest key = some address ∧ version ≤ address

variable {key : ConflictKey}
variable {version : Address}
variable {writes : ConflictKey → Option Address}
variable {floor : Option Address}

/- Evictions raise the wildcard to what they take away. -/
theorem Leaves.covers
    (hLeaves : Leaves writes floor c d)
    (h : Covers writes c.wildcard version) :
    Covers d.latest.get? d.wildcard version := by
  rcases h with hLe | ⟨key, address, hWrite, hLe⟩
  · exact Or.inl (Address.le_trans hLe hLeaves.wildcard_le)
  · by_cases hKept : address.Above floor
    · exact Or.inr ⟨key, address,
        (hLeaves.latest key address).mpr ⟨hWrite, hKept⟩, hLe⟩
    · left
      rcases Address.not_above_iff.mp hKept with
        ⟨evicted, hEvicted, hReached⟩
      exact Address.le_trans (Address.le_trans hLe hReached)
        (hLeaves.floor_le hEvicted)

/- A write replaces nothing but what is below it. -/
theorem Covers.pending
    (h : Covers c.latest.get? c.wildcard version)
    (request : Request) :
    Covers (c.pending request) c.wildcard version := by
  apply h.imp_right
  rintro ⟨key, address, hLatest, hLe⟩
  cases hAdmission : c.admission? request with
  | none =>
    rw [pending_of_not_accepted (accepted?_eq_none_of_admission? hAdmission)]
    exact ⟨key, address, hLatest, hLe⟩
  | some admission =>
    rw [pending_of_accepted (admission?_eq_some_iff.mp hAdmission).1]
    by_cases hKey : key ∈ admission.write.keys
    · have hLt := latest_lt_of_admission hAdmission hKey hLatest
      exact ⟨key, admission.write.version, if_pos hKey,
        Address.le_trans hLe (Nat.le_of_lt hLt)⟩
    · refine ⟨key, address, ?_, hLe⟩
      unfold overwritten
      rw [if_neg hKey]
      exact hLatest

theorem Covers.serve
    (hSettled : c.Settled)
    (h : Covers c.latest.get? c.wildcard version)
    (request : Request) :
    Covers (c.serve request).2.latest.get? (c.serve request).2.wildcard
      version := by
  rcases hSettled.leaves_serve request with ⟨_, hLeaves, _⟩
  exact hLeaves.covers (h.pending request)

/-
  An empty window leaves it to the wildcard to cover a version.
  So an opening write that is above the wildcard is above that.
-/
theorem Covers.lt_of_opening
    (hTidy : admission.found.Tidy)
    (h : Covers admission.found.latest.get? admission.found.wildcard
      version)
    (hOpening : admission.opening = true)
    (hChecked : ¬ admission.Unchecked) :
    version < admission.write.version := by
  have hEmpty := (Admission.opening_iff.mp hOpening).1
  have hLt := Admission.not_unchecked_iff.mp hChecked hOpening
  rcases h with hLe | ⟨key, address, hLatest, _⟩
  · exact Nat.lt_of_le_of_lt hLe hLt
  · have hMem := hTidy.mem_window_iff.mpr ⟨key, hLatest⟩
    rw [hEmpty] at hMem
    exact absurd hMem (SortedMap.not_mem_empty address)

------------------------------------------------------------
-- Guarded keys
------------------------------------------------------------

/-
  Latest writes that guard a key against the versions up to a
  given one. The latest write of the key itself is not below it
  or, if there is none, no other one is.
-/
def Guards
    (latest : ConflictKey → Option Address)
    (key : ConflictKey)
    (version : Address) : Prop :=
  (∃ address, latest key = some address ∧ version ≤ address) ∨
    (latest key = none ∧
      ∀ other address, latest other = some address → version ≤ address)

/- A cache that guards a key, and covers what it guards against. -/
structure Guarded
    (c : ConflictCache)
    (key : ConflictKey)
    (version : Address) : Prop where
  covers : Covers c.latest.get? c.wildcard version
  guards : Guards c.latest.get? key version

/-
  Evictions leave a key guarded. Once its latest write is gone,
  so is all that is not above it.
-/
theorem Leaves.guards
    (hLeaves : Leaves writes floor c d)
    (h : Guards writes key version) :
    Guards d.latest.get? key version := by
  rcases h with ⟨address, hWrite, hLe⟩ | ⟨hNone, hAbove⟩
  · by_cases hKept : address.Above floor
    · exact Or.inl
        ⟨address, (hLeaves.latest key address).mpr ⟨hWrite, hKept⟩, hLe⟩
    · right
      rcases Address.not_above_iff.mp hKept with
        ⟨evicted, hEvicted, hReached⟩
      constructor
      · exact (hLeaves.forgotten_iff hWrite).mpr
          ⟨evicted, hEvicted, hReached⟩
      · intro other latest hLatest
        have hHigher := ((hLeaves.latest other latest).mp hLatest).2
        exact Address.le_trans (Address.le_trans hLe hReached)
          (Nat.le_of_lt (hHigher evicted hEvicted))
  · right
    refine ⟨hLeaves.latest_of_none hNone, ?_⟩
    intro other latest hLatest
    exact hAbove other latest ((hLeaves.latest other latest).mp hLatest).1

/-
  A write of a guarded key is above the versions that the key is
  guarded against. Once there is no latest write of the key, the
  same is true of all writes but the unchecked ones.
-/
theorem Guarded.lt_of_accepted
    (hTidy : c.Tidy)
    (h : c.Guarded key version)
    (hAdmission : c.admission? request = some admission)
    (hChecked : ¬ admission.Unchecked)
    (hKeys : admission.write.keys ≠ ∅)
    (hKey : key ∈ admission.write.keys ∨ c.latest.get? key = none) :
    version < admission.write.version := by
  rcases h.guards with ⟨latest, hLatest, hLe⟩ | ⟨_, hAbove⟩
  · have hWritten : key ∈ admission.write.keys := by
      apply hKey.resolve_right
      rw [hLatest]
      nofun
    exact Nat.lt_of_le_of_lt hLe
      (latest_lt_of_admission hAdmission hWritten hLatest)
  · cases hOpening : admission.opening with
    | true =>
      rcases admission?_eq_some_iff.mp hAdmission with ⟨_, rfl⟩
      exact h.covers.lt_of_opening hTidy hOpening hChecked
    | false =>
      rcases exists_lt_of_not_opening hTidy hAdmission hOpening hKeys with
        ⟨other, address, hOther, hLt⟩
      exact Nat.lt_of_le_of_lt (hAbove other address hOther) hLt

/- A guarded key is guarded when its request begins to evict. -/
theorem Guarded.pending
    (hTidy : c.Tidy)
    (h : c.Guarded key version)
    (hUnchecked : ∀ admission ∈ c.admission? request,
      admission.Unchecked → version ≤ admission.write.version) :
    Guards (c.pending request) key version := by
  cases hAdmission : c.admission? request with
  | none =>
    rw [pending_of_not_accepted (accepted?_eq_none_of_admission? hAdmission)]
    exact h.guards
  | some admission =>
    have hAccepted := (admission?_eq_some_iff.mp hAdmission).1
    have hNewer : ∀ written ∈ admission.write.keys,
        key ∈ admission.write.keys ∨ c.latest.get? key = none →
          version ≤ admission.write.version := by
      intro written hWritten hKey
      by_cases hFlag : admission.Unchecked
      · exact hUnchecked admission hAdmission hFlag
      · exact Nat.le_of_lt (h.lt_of_accepted hTidy hAdmission hFlag
          (SortedMap.ne_empty_of_mem hWritten) hKey)
    rw [pending_of_accepted hAccepted]
    by_cases hKey : key ∈ admission.write.keys
    · exact Or.inl ⟨admission.write.version, if_pos hKey,
        hNewer key hKey (Or.inl hKey)⟩
    · unfold Guards overwritten
      rw [if_neg hKey]
      apply h.guards.imp_right
      rintro ⟨hNone, hAbove⟩
      refine ⟨hNone, ?_⟩
      intro other address hAddress
      split at hAddress
      · next hOther =>
        rw [← Option.some_inj.mp hAddress]
        exact hNewer other hOther (Or.inr hNone)
      · exact hAbove other address hAddress

theorem Guarded.serve
    (hSettled : c.Settled)
    (h : c.Guarded key version)
    (hUnchecked : ∀ admission ∈ c.admission? request,
      admission.Unchecked → version ≤ admission.write.version) :
    (c.serve request).2.Guarded key version := by
  refine ⟨h.covers.serve hSettled request, ?_⟩
  rcases hSettled.leaves_serve request with ⟨_, hLeaves, _⟩
  exact hLeaves.guards (h.pending hSettled.tidy hUnchecked)

/- A key that was just written is guarded from then on. -/
theorem guarded_accepted
    (hSettled : c.Settled)
    (hAdmission : c.admission? request = some admission)
    (hKey : key ∈ admission.write.keys) :
    (c.serve request).2.Guarded key admission.write.version := by
  have hPending : c.pending request key = some admission.write.version := by
    rw [pending_of_accepted (admission?_eq_some_iff.mp hAdmission).1]
    exact if_pos hKey
  have hLe := Address.le_refl admission.write.version
  rcases hSettled.leaves_serve request with ⟨_, hLeaves, _⟩
  constructor
  · exact hLeaves.covers (Or.inr ⟨key, _, hPending, hLe⟩)
  · exact hLeaves.guards (Or.inl ⟨_, hPending, hLe⟩)

------------------------------------------------------------
-- Runs
------------------------------------------------------------

theorem admissions_cons_of_none
    (hAdmission : c.admission? request = none)
    (requests : List Request) :
    c.admissions (request :: requests) =
      (c.serve request).2.admissions requests := by
  rw [admissions, hAdmission, Option.toList_none, List.nil_append]

theorem admissions_cons_of_some
    (hAdmission : c.admission? request = some admission)
    (requests : List Request) :
    c.admissions (request :: requests) =
      admission :: (c.serve request).2.admissions requests := by
  rw [admissions, hAdmission, Option.toList_some, List.singleton_append]

/-
  What requests preserve, as long as the writes that they admit
  satisfy a condition, is true of the cache that a write of their
  run finds. The rest of the run goes on from there.
-/
theorem found_of_admissions
    {P : ConflictCache → Prop}
    {Q : Admission → Prop}
    (hServe : ∀ d request, P d →
      (∀ admission ∈ d.admission? request, Q admission) →
        P (d.serve request).2)
    (hStart : P c)
    {requests : List Request}
    {before after : List Admission}
    (hAdmissions :
      c.admissions requests = before ++ admission :: after)
    (hBefore : ∀ other ∈ before, Q other) :
    P admission.found ∧
      ∃ request rest,
        admission.found.admission? request = some admission ∧
          (admission.found.serve request).2.admissions rest = after := by
  induction requests generalizing c before with
  | nil =>
    have hLength := congrArg List.length hAdmissions
    simp [admissions] at hLength
  | cons request requests ih =>
    cases hFirst : c.admission? request with
    | none =>
      rw [admissions_cons_of_none hFirst] at hAdmissions
      have hServed : P (c.serve request).2 := by
        apply hServe c request hStart
        rw [hFirst]
        nofun
      exact ih hServed hAdmissions hBefore
    | some first =>
      rw [admissions_cons_of_some hFirst] at hAdmissions
      cases before with
      | nil =>
        rcases List.cons_eq_cons.mp hAdmissions with ⟨rfl, hRest⟩
        rcases admission?_eq_some_iff.mp hFirst with ⟨_, rfl⟩
        exact ⟨hStart, request, requests, hFirst, hRest⟩
      | cons other before =>
        rcases List.cons_eq_cons.mp hAdmissions with ⟨rfl, hRest⟩
        have hServed : P (c.serve request).2 := by
          apply hServe c request hStart
          intro served hSome
          rw [hFirst] at hSome
          cases hSome
          exact hBefore first List.mem_cons_self
        exact ih hServed hRest
          (fun served hMem =>
            hBefore served (List.mem_cons_of_mem first hMem))

variable {requests : List Request}
variable {before after : List Admission}

theorem Settled.found
    (h : c.Settled)
    (hAdmissions :
      c.admissions requests = before ++ admission :: after) :
    admission.found.Settled ∧
      ∃ request rest,
        admission.found.admission? request = some admission ∧
          (admission.found.serve request).2.admissions rest = after :=
  found_of_admissions (Q := fun _ => True)
    (fun _ request hSettled _ => hSettled.serve request) h hAdmissions
    (fun _ _ => trivial)

theorem Covers.found
    (hSettled : c.Settled)
    (h : Covers c.latest.get? c.wildcard version)
    (hAdmissions :
      c.admissions requests = before ++ admission :: after) :
    Covers admission.found.latest.get? admission.found.wildcard
      version := by
  have hFound := found_of_admissions (Q := fun _ => True)
    (P := fun d =>
      d.Settled ∧ Covers d.latest.get? d.wildcard version)
    (fun _ request hServed _ =>
      ⟨hServed.1.serve request, hServed.2.serve hServed.1 request⟩)
    ⟨hSettled, h⟩ hAdmissions (fun _ _ => trivial)
  exact hFound.1.2

/- Only unchecked writes can leave a key without its guard. -/
theorem Guarded.found
    (hSettled : c.Settled)
    (h : c.Guarded key version)
    (hAdmissions :
      c.admissions requests = before ++ admission :: after)
    (hBefore : ∀ other ∈ before, other.Unchecked →
      version ≤ other.write.version) :
    admission.found.Guarded key version := by
  have hFound := found_of_admissions
    (P := fun d => d.Settled ∧ d.Guarded key version)
    (fun _ request hServed hUnchecked =>
      ⟨hServed.1.serve request, hServed.2.serve hServed.1 hUnchecked⟩)
    ⟨hSettled, h⟩ hAdmissions hBefore
  exact hFound.1.2

------------------------------------------------------------
-- Regressions
------------------------------------------------------------

/-
  The cache that a write found no longer told where an earlier
  write of a key had been.
-/
structure Forgotten
    (key : ConflictKey)
    (earlier : Admission)
    (between : List Admission)
    (later : Admission) : Prop where
  /- The key is not cached at the earlier write, or above it. -/
  latest_lt :
    ∀ address, later.found.get? key = some address →
      address < earlier.write.version
  /- The window starts below the earlier write. -/
  first_lt :
    ∃ first, later.found.firstAddress? = some first ∧
      first < earlier.write.version
  /- An unchecked write has been below the earlier one. -/
  reopened :
    ∃ admission ∈ between,
      admission.Unchecked ∧
        admission.write.version < earlier.write.version

/-
  An earlier write of a key has been forgotten where a later one
  that is not above it is accepted, and is not unchecked itself.
-/
theorem Settled.forgotten_of_le
    (h : c.Settled)
    {between : List Admission}
    {earlier later : Admission}
    (hAdmissions :
      c.admissions requests =
        before ++ earlier :: (between ++ later :: after))
    (hEarlier : key ∈ earlier.write.keys)
    (hLater : key ∈ later.write.keys)
    (hChecked : ¬ later.Unchecked)
    (hLe : later.write.version ≤ earlier.write.version) :
    Forgotten key earlier between later := by
  rcases h.found hAdmissions with ⟨hFound, request, _, hAdmission, hRest⟩
  have hServed := hFound.serve request
  have hGuarded := guarded_accepted hFound hAdmission hEarlier
  have hKeys := SortedMap.ne_empty_of_mem hLater
  rcases hServed.found hRest with ⟨hSettled, _, _, hAccepted, _⟩
  constructor
  · intro address hLatest
    exact Address.lt_of_lt_of_le
      (latest_lt_of_admission hAccepted hLater hLatest) hLe
  · cases hOpening : later.opening with
    | true =>
      -- the wildcard alone would have to cover the earlier write
      have hCovers := hGuarded.covers.found hServed hRest
      have hLt := hCovers.lt_of_opening hSettled.tidy hOpening hChecked
      exact absurd hLt (Address.not_lt.mpr hLe)
    | false =>
      rcases exists_first_of_not_opening hOpening hKeys with
        ⟨first, hFirst⟩
      have hAddress := firstAddress?_eq_some_iff.mpr ⟨first.2, hFirst⟩
      exact ⟨first.1, hAddress,
        Address.lt_of_lt_of_le
          (first_lt_of_admission hAccepted hAddress) hLe⟩
  · -- without such a write the key is still guarded
    by_contra hNone
    have hBetween : ∀ admission ∈ between, admission.Unchecked →
        earlier.write.version ≤ admission.write.version := by
      intro admission hMem hUnchecked
      apply Address.not_lt.mp
      intro hLt
      exact hNone ⟨admission, hMem, hUnchecked, hLt⟩
    have hStill := hGuarded.found hServed hRest hBetween
    have hLt := hStill.lt_of_accepted hSettled.tidy hAccepted hChecked
      hKeys (Or.inl hLater)
    exact absurd hLt (Address.not_lt.mpr hLe)

/-
  Of two accepted writes of a key the later one is at the higher
  version, even if the key was evicted in between. This is so
  unless the later one is unchecked, or the earlier one had been
  forgotten.
-/
theorem run_catches_regressions
    (capacity : Nat)
    (capacity_pos : 0 < capacity)
    (bound : Address)
    (requests : List Request)
    (before between after : List Admission)
    (earlier later : Admission)
    (key : ConflictKey)
    (hAdmissions :
      (new capacity capacity_pos bound).admissions requests =
        before ++ earlier :: (between ++ later :: after))
    (hEarlier : key ∈ earlier.write.keys)
    (hLater : key ∈ later.write.keys)
    (hChecked : ¬ later.Unchecked)
    (hKnown : ¬ Forgotten key earlier between later) :
    earlier.write.version < later.write.version := by
  apply Address.not_le.mp
  intro hLe
  have hNew := settled_new capacity capacity_pos bound
  exact hKnown
    (hNew.forgotten_of_le hAdmissions hEarlier hLater hChecked hLe)

/-
  Both trims empty the window. The write after the first trim is
  below the wildcard, and below the write that was evicted. The
  one after the second trim is above the wildcard.
-/
def reopenedWrites : List Request :=
  let keys := keysOf (StreamId.ofNat 7)
  [ .record (keys [1]) (Address.ofNat 5),
    .trim (Address.ofNat 10),
    .record (keys [2]) (Address.ofNat 3),
    .trim (Address.ofNat 10),
    .record (keys [1]) (Address.ofNat 6) ]

theorem reopenedWrites_advance :
    let c := new 4 (by decide) Address.zero
    let key : ConflictKey := ⟨StreamId.ofNat 7, [1]⟩
    let earlier : Admission :=
      ⟨⟨keysOf (StreamId.ofNat 7) [1], Address.ofNat 5⟩, c⟩
    let lower : Admission :=
      ⟨⟨keysOf (StreamId.ofNat 7) [2], Address.ofNat 3⟩,
        (c.run (reopenedWrites.take 2)).2⟩
    let later : Admission :=
      ⟨⟨keysOf (StreamId.ofNat 7) [1], Address.ofNat 6⟩,
        (c.run (reopenedWrites.take 4)).2⟩
    c.admissions reopenedWrites = [earlier, lower, later] ∧
      lower.Unchecked ∧
      key ∈ earlier.write.keys ∧ key ∈ later.write.keys ∧
      ¬ later.Unchecked ∧ ¬ Forgotten key earlier [lower] later ∧
      earlier.write.version < later.write.version := by
  intro c key earlier lower later
  have hAdmissions :
      c.admissions reopenedWrites = [earlier, lower, later] := by decide
  have hLower : lower.Unchecked := by decide
  have hEarlier : key ∈ earlier.write.keys := by decide
  have hLater : key ∈ later.write.keys := by decide
  have hChecked : ¬ later.Unchecked := by decide
  have hEmpty : later.found.firstAddress? = none := by decide
  have hKnown : ¬ Forgotten key earlier [lower] later := by
    intro hForgotten
    rcases hForgotten.first_lt with ⟨first, hFirst, _⟩
    rw [hEmpty] at hFirst
    cases hFirst
  exact ⟨hAdmissions, hLower, hEarlier, hLater, hChecked, hKnown,
    run_catches_regressions 4 (by decide) Address.zero reopenedWrites
      [] [lower] [] earlier later key hAdmissions hEarlier hLater
      hChecked hKnown⟩

/-
  The trim empties the window, and the last write of the key goes
  back behind its first one.
-/
def overtakenWrites : List Request :=
  let keys := keysOf (StreamId.ofNat 7)
  [ .record (keys [1]) (Address.ofNat 5),
    .trim (Address.ofNat 10),
    .record (keys [1]) (Address.ofNat 3) ]

/-
  Here it is the write of another key that finds the window empty.
  The last one only has to be above that.
-/
def overtakenBehindOthers : List Request :=
  let keys := keysOf (StreamId.ofNat 7)
  [ .record (keys [1]) (Address.ofNat 5),
    .trim (Address.ofNat 10),
    .record (keys [2]) (Address.ofNat 3),
    .record (keys [1]) (Address.ofNat 4) ]

theorem overtakenWrites_not_advancing :
    let accepted := fun requests =>
      ((new 4 (by decide) Address.zero).admissions requests).map
        Admission.write
    ¬ Advancing (accepted overtakenWrites) ∧
      ¬ Advancing (accepted overtakenBehindOthers) := by
  intro accepted
  let key : ConflictKey := ⟨StreamId.ofNat 7, [1]⟩
  let first : Write := ⟨keysOf (StreamId.ofNat 7) [1], Address.ofNat 5⟩
  constructor
  · intro hAdvancing
    let last : Write := ⟨keysOf (StreamId.ofNat 7) [1], Address.ofNat 3⟩
    have hWritten : [first, last].Sublist (accepted overtakenWrites) := by
      decide
    have hLt := hAdvancing.lt_of_sublist hWritten key
      (by decide) (by decide)
    exact absurd hLt (by decide)
  · intro hAdvancing
    let last : Write := ⟨keysOf (StreamId.ofNat 7) [1], Address.ofNat 4⟩
    have hWritten :
        [first, last].Sublist (accepted overtakenBehindOthers) := by
      decide
    have hLt := hAdvancing.lt_of_sublist hWritten key
      (by decide) (by decide)
    exact absurd hLt (by decide)

end ConflictCache

end OrderedLog
