import OrderedLog.Proofs.ConflictCache.Memory

/-
  This file proves when a transaction may commit, and what the
  reason of an abort tells. The keys of a transaction have no
  order of their own. Whether it commits does not depend on
  the order in which they are looked at, but the reason of an
  abort may, so that several reasons may be possible.

  Key definitions include:
    * `Transaction.Names`
    * `ConflictCache.Possible`

  Key lemmas include:
    * `ConflictCache.offence?_cases`
    * `ConflictCache.verdict_eq_commit_iff`
    * `ConflictCache.verdict_eq_commit_of_seen`
    * `ConflictCache.possible_abort_cases`
    * `ConflictCache.judge_eq_of_offence?`
-/

namespace OrderedLog

/- A transaction reads a key or writes it. -/
def Transaction.Names
    (t : Transaction)
    (key : ConflictKey) : Prop :=
  key ∈ t.reads ∨ key ∈ t.writes

namespace ConflictCache

------------------------------------------------------------
-- Offences
------------------------------------------------------------

/- What an offence tells about its key. -/
theorem offence?_cases
    {c : ConflictCache}
    {snapshot : Address}
    {key : ConflictKey}
    {reason : AbortReason}
    (h : c.offence? snapshot key = some reason) :
    (∃ address,
        c.latest.get? key = some address ∧ snapshot < address ∧
        reason = .conflict key address) ∨
      (c.latest.get? key = none ∧ snapshot < c.wildcard ∧
        reason = .overflow key c.wildcard) := by
  unfold offence? get? at h
  cases hLatest : c.latest.get? key with
  | some address =>
    rw [hLatest] at h
    simp only [Option.ite_none_right_eq_some, Option.some_inj] at h
    exact Or.inl ⟨address, rfl, h.1, h.2.symm⟩
  | none =>
    rw [hLatest] at h
    simp only [Option.ite_none_right_eq_some, Option.some_inj] at h
    exact Or.inr ⟨rfl, h.1, h.2.symm⟩

/- A key offends if it is remembered beyond the snapshot. -/
theorem offence?_ne_none_iff
    {c : ConflictCache}
    {snapshot : Address}
    {key : ConflictKey} :
    c.offence? snapshot key ≠ none ↔
      ∃ address, snapshot < address ∧ c.Remembers key address := by
  constructor
  · intro hOffence
    rcases Option.ne_none_iff_exists'.mp hOffence with ⟨reason, hReason⟩
    rcases offence?_cases hReason with
      ⟨address, hLatest, hLt, _⟩ | ⟨hLatest, hLt, _⟩
    · refine ⟨address, hLt, ?_⟩
      exact (remembers_of_some hLatest).mpr (Address.le_refl address)
    · refine ⟨c.wildcard, hLt, ?_⟩
      exact (remembers_of_none hLatest).mpr (Address.le_refl c.wildcard)
  · rintro ⟨address, hLt, hRemembers⟩ hNone
    have hLe := hRemembers.le_snapshot_of_offence? hNone
    exact Address.not_le.mpr hLt hLe

------------------------------------------------------------
-- Verdicts
------------------------------------------------------------

theorem judge_eq_commit_iff
    {c : ConflictCache}
    {snapshot : Address}
    {reads writes : List ConflictKey} :
    c.judge snapshot reads writes = .commit ↔
      c.bound ≤ snapshot ∧
        ∀ key, key ∈ reads ∨ key ∈ writes →
          c.offence? snapshot key = none := by
  unfold judge
  by_cases hBound : snapshot < c.bound
  · rw [if_pos hBound]
    constructor
    · exact nofun
    · rintro ⟨hLe, _⟩
      exact absurd hLe (Address.not_le.mpr hBound)
  · rw [if_neg hBound]
    have hExamined :
        (∀ key ∈ examined reads writes, c.offence? snapshot key = none) ↔
          ∀ key, key ∈ reads ∨ key ∈ writes →
            c.offence? snapshot key = none :=
      forall_congr' (fun _ => imp_congr_left mem_examined_iff)
    rw [← hExamined, ← List.findSome?_eq_none_iff]
    cases (examined reads writes).findSome? (c.offence? snapshot) with
    | none => simp [Address.not_lt.mp hBound]
    | some reason => simp

/- An abort has its reason from the bound or from some key. -/
theorem judge_eq_abort_cases
    {c : ConflictCache}
    {snapshot : Address}
    {reads writes : List ConflictKey}
    {reason : AbortReason}
    (h : c.judge snapshot reads writes = .abort reason) :
    (snapshot < c.bound ∧ reason = .predates snapshot c.bound) ∨
      (c.bound ≤ snapshot ∧
        ∃ key, (key ∈ reads ∨ key ∈ writes) ∧
          c.offence? snapshot key = some reason) := by
  unfold judge at h
  by_cases hBound : snapshot < c.bound
  · rw [if_pos hBound, Verdict.abort.injEq] at h
    exact Or.inl ⟨hBound, h.symm⟩
  · rw [if_neg hBound] at h
    right
    refine ⟨Address.not_lt.mp hBound, ?_⟩
    split at h
    · next found hFound =>
      rw [Verdict.abort.injEq] at h
      rw [h] at hFound
      rcases List.exists_of_findSome?_eq_some hFound with
        ⟨key, hMem, hOffence⟩
      exact ⟨key, mem_examined_iff.mp hMem, hOffence⟩
    · cases h

theorem verdict_eq_commit_iff
    {c : ConflictCache}
    {t : Transaction} :
    c.verdict t = .commit ↔
      c.bound ≤ t.snapshot ∧
        ∀ key, t.Names key → c.offence? t.snapshot key = none := by
  unfold verdict Transaction.Names
  rw [judge_eq_commit_iff]
  simp only [SortedSet.mem_toList_iff]

/-
  A transaction may not commit if it predates the sequencer or
  names a key that is remembered beyond its snapshot.
-/
theorem verdict_ne_commit_iff
    {c : ConflictCache}
    {t : Transaction} :
    c.verdict t ≠ .commit ↔
      t.snapshot < c.bound ∨
        ∃ key address, t.Names key ∧ t.snapshot < address ∧
          c.Remembers key address := by
  rw [Ne, verdict_eq_commit_iff, not_and_or, Address.not_le]
  apply or_congr_right
  simp only [not_forall, ← ne_eq, offence?_ne_none_iff]
  constructor
  · rintro ⟨key, hNames, address, hLt, hRemembers⟩
    exact ⟨key, address, hNames, hLt, hRemembers⟩
  · rintro ⟨key, address, hNames, hLt, hRemembers⟩
    exact ⟨key, hNames, address, hLt, hRemembers⟩

/- What has seen all that is remembered may commit. -/
theorem verdict_eq_commit_of_seen
    {c : ConflictCache}
    {t : Transaction}
    (hBound : c.bound ≤ t.snapshot)
    (hSeen : ∀ key address, c.Remembers key address →
      address ≤ t.snapshot) :
    c.verdict t = .commit := by
  by_contra hNot
  rcases verdict_ne_commit_iff.mp hNot with
    hBelow | ⟨key, address, _, hAfter, hRemembers⟩
  · exact Address.not_lt.mpr hBound hBelow
  · exact Address.not_lt.mpr (hSeen key address hRemembers) hAfter

/- A verdict that is no commit is an abort for some reason. -/
theorem exists_reason_iff
    {verdict : Verdict} :
    (∃ reason, verdict = .abort reason) ↔ verdict ≠ .commit := by
  cases verdict with
  | commit => simp
  | abort reason => simp

------------------------------------------------------------
-- Possible verdicts
------------------------------------------------------------

/-
  A verdict that a transaction may get when its keys are looked
  at in some order, those that it read before the others.
-/
def Possible
    (c : ConflictCache)
    (t : Transaction)
    (verdict : Verdict) : Prop :=
  ∃ reads writes,
    reads.Perm t.reads.toList ∧ writes.Perm t.writes.toList ∧
      c.judge t.snapshot reads writes = verdict

theorem possible_verdict
    (c : ConflictCache)
    (t : Transaction) : c.Possible t (c.verdict t) :=
  ⟨t.reads.toList, t.writes.toList, .refl _, .refl _, rfl⟩

/- The keys that are looked at are those of the transaction. -/
theorem names_iff_of_perm
    {t : Transaction}
    {reads writes : List ConflictKey}
    (hReads : reads.Perm t.reads.toList)
    (hWrites : writes.Perm t.writes.toList)
    (key : ConflictKey) :
    key ∈ reads ∨ key ∈ writes ↔ t.Names key := by
  unfold Transaction.Names
  rw [hReads.mem_iff, hWrites.mem_iff, SortedSet.mem_toList_iff,
    SortedSet.mem_toList_iff]

/- No order turns an abort into a commit. -/
theorem possible_commit_iff
    {c : ConflictCache}
    {t : Transaction} :
    c.Possible t .commit ↔ c.verdict t = .commit := by
  constructor
  · rintro ⟨reads, writes, hReads, hWrites, hJudge⟩
    rw [judge_eq_commit_iff] at hJudge
    rw [verdict_eq_commit_iff]
    refine ⟨hJudge.1, ?_⟩
    intro key hNames
    exact hJudge.2 key
      ((names_iff_of_perm hReads hWrites key).mpr hNames)
  · intro hVerdict
    rw [← hVerdict]
    exact c.possible_verdict t

theorem possible_abort_cases
    {c : ConflictCache}
    {t : Transaction}
    {reason : AbortReason}
    (h : c.Possible t (.abort reason)) :
    (t.snapshot < c.bound ∧ reason = .predates t.snapshot c.bound) ∨
      (c.bound ≤ t.snapshot ∧
        ∃ key, t.Names key ∧
          c.offence? t.snapshot key = some reason) := by
  rcases h with ⟨reads, writes, hReads, hWrites, hJudge⟩
  apply (judge_eq_abort_cases hJudge).imp_right
  rintro ⟨hBound, key, hMem, hOffence⟩
  exact ⟨hBound, key, (names_iff_of_perm hReads hWrites key).mp hMem,
    hOffence⟩

/-
  Caches that have the same against every key judge a snapshot
  that predates neither of them alike, in every order.
-/
theorem judge_eq_of_offence?
    {c d : ConflictCache}
    {snapshot : Address}
    (hC : c.bound ≤ snapshot)
    (hD : d.bound ≤ snapshot)
    (h : ∀ key, c.offence? snapshot key = d.offence? snapshot key)
    (reads writes : List ConflictKey) :
    c.judge snapshot reads writes = d.judge snapshot reads writes := by
  have hOffence : c.offence? snapshot = d.offence? snapshot := funext h
  unfold judge
  rw [if_neg (Address.not_lt.mpr hC), if_neg (Address.not_lt.mpr hD),
    hOffence]

theorem possible_iff_of_judge
    {c d : ConflictCache}
    {t : Transaction}
    (h : ∀ reads writes,
      c.judge t.snapshot reads writes = d.judge t.snapshot reads writes)
    (verdict : Verdict) : c.Possible t verdict ↔ d.Possible t verdict := by
  unfold Possible
  simp only [h]

end ConflictCache

end OrderedLog
