import OrderedLog.ConflictCache.Request
import OrderedLog.Proofs.ConflictCache.Verdicts

/-
  This file proves what the order in which the keys of a
  transaction are looked at has to do with its verdict. The
  keys that it read are looked at before those that it only
  writes, and within both there is no order of their own.

  Whether the transaction commits, and whether it is aborted
  because it predates the sequencer, is the same in all orders.
  The key that another abort names depends on the order, but it
  always offends, and the range of the keys that may be named
  is known.

  Key definitions include:
    * `AbortReason.Holds`
    * `Transaction.Order`
    * `ConflictCache.Offends`
    * `ConflictCache.scan`
    * `ConflictCache.look`
    * `ConflictCache.OrderFree`

  Key lemmas include:
    * `ConflictCache.offence?_eq_some_iff`
    * `ConflictCache.judge_eq_abort_iff`
    * `ConflictCache.possible_abort_iff`
    * `ConflictCache.nodup_looked`

  Key theorems include:
    * `ConflictCache.judge_orderFree`
-/

namespace OrderedLog

------------------------------------------------------------
-- Reasons
------------------------------------------------------------

namespace AbortReason

/- The key that a reason names. -/
def key? : AbortReason → Option ConflictKey
  | predates _ _ => none
  | conflict key _ => some key
  | overflow key _ => some key

/- What a reason tells about a cache and a snapshot is so. -/
def Holds
    (c : ConflictCache)
    (snapshot : Address) : AbortReason → Prop
  | predates early bound =>
    early = snapshot ∧ bound = c.bound ∧ snapshot < bound
  | conflict key address =>
    c.get? key = some address ∧ snapshot < address
  | overflow key wildcard =>
    c.get? key = none ∧ wildcard = c.wildcard ∧ snapshot < wildcard

end AbortReason

/-
  An order in which the keys of a transaction may be looked at,
  one for those that it read and one for those that it writes.
-/
structure Transaction.Order (t : Transaction) where
  reads : List ConflictKey
  writes : List ConflictKey
  reads_perm : reads.Perm t.reads.toList
  writes_perm : writes.Perm t.writes.toList

namespace Transaction.Order

variable {t : Transaction}

theorem mem_reads_iff
    (o : t.Order)
    {key : ConflictKey} : key ∈ o.reads ↔ key ∈ t.reads :=
  o.reads_perm.mem_iff.trans SortedSet.mem_toList_iff

theorem mem_writes_iff
    (o : t.Order)
    {key : ConflictKey} : key ∈ o.writes ↔ key ∈ t.writes :=
  o.writes_perm.mem_iff.trans SortedSet.mem_toList_iff

end Transaction.Order

namespace ConflictCache

------------------------------------------------------------
-- Offending keys
------------------------------------------------------------

/- Some reason to abort that names the key is so. -/
def Offends
    (c : ConflictCache)
    (snapshot : Address)
    (key : ConflictKey) : Prop :=
  ∃ reason : AbortReason,
    reason.key? = some key ∧ reason.Holds c snapshot

/- What a key has against a commit is the reason that holds. -/
theorem offence?_eq_some_iff
    {c : ConflictCache}
    {snapshot : Address}
    {key : ConflictKey}
    {reason : AbortReason} :
    c.offence? snapshot key = some reason ↔
      reason.key? = some key ∧ reason.Holds c snapshot := by
  constructor
  · intro hOffence
    rcases offence?_cases hOffence with
      ⟨address, hLatest, hLt, hReason⟩ | ⟨hLatest, hLt, hReason⟩
    · subst hReason
      exact ⟨rfl, hLatest, hLt⟩
    · subst hReason
      exact ⟨rfl, hLatest, rfl, hLt⟩
  · intro hBoth
    rcases hBoth with ⟨hKey, hHolds⟩
    unfold offence?
    cases reason with
    | predates early bound => simp [AbortReason.key?] at hKey
    | conflict other address =>
      have hSame : other = key := by
        simpa [AbortReason.key?] using hKey
      subst hSame
      rcases hHolds with ⟨hGet, hLt⟩
      simp [hGet, hLt]
    | overflow other wildcard =>
      have hSame : other = key := by
        simpa [AbortReason.key?] using hKey
      subst hSame
      rcases hHolds with ⟨hGet, hWildcard, hLt⟩
      subst hWildcard
      simp [hGet, hLt]

theorem offence?_eq_none_iff
    {c : ConflictCache}
    {snapshot : Address}
    {key : ConflictKey} :
    c.offence? snapshot key = none ↔ ¬ c.Offends snapshot key := by
  unfold Offends
  simp only [← offence?_eq_some_iff]
  rw [← Option.ne_none_iff_exists', not_not]

------------------------------------------------------------
-- Reasons of an abort
------------------------------------------------------------

/-
  The keys that are to blame for an abort in some order: any
  that was read and offends, and any that is written and
  offends if there is none of the first kind.
-/
def Blames
    (c : ConflictCache)
    (t : Transaction)
    (key : ConflictKey) : Prop :=
  c.Offends t.snapshot key ∧
    (key ∈ t.reads ∨
      key ∈ t.writes ∧ ∀ read ∈ t.reads, ¬ c.Offends t.snapshot read)

/-
  A judgement stops at the first key that offends, of those that
  were read if there is one among them.
-/
theorem judge_eq_abort_iff
    {c : ConflictCache}
    {snapshot : Address}
    {reads writes : List ConflictKey}
    {reason : AbortReason} :
    c.judge snapshot reads writes = .abort reason ↔
      (snapshot < c.bound ∧ reason = .predates snapshot c.bound) ∨
        (c.bound ≤ snapshot ∧
          (reads.findSome? (c.offence? snapshot)).or
              ((writes.filter (fun key => key ∉ reads)).findSome?
                (c.offence? snapshot)) =
            some reason) := by
  unfold judge examined
  rw [List.findSome?_append]
  by_cases hBound : snapshot < c.bound
  · have hNot : ¬ c.bound ≤ snapshot := Address.not_le.mpr hBound
    simp [hBound, hNot, eq_comm]
  · have hLe : c.bound ≤ snapshot := Address.not_lt.mp hBound
    simp only [hBound, if_false, hLe, true_and, false_and, false_or]
    cases (reads.findSome? (c.offence? snapshot)).or
        ((writes.filter (fun key => key ∉ reads)).findSome?
          (c.offence? snapshot)) with
    | none => simp
    | some found => simp

/- An abort that names a key blames it, for a reason that holds. -/
theorem blames_of_abort
    {c : ConflictCache}
    {t : Transaction}
    {o : t.Order}
    {reason : AbortReason}
    {key : ConflictKey}
    (hAbort : c.judge t.snapshot o.reads o.writes = .abort reason)
    (hKey : reason.key? = some key) :
    c.bound ≤ t.snapshot ∧ reason.Holds c t.snapshot ∧ c.Blames t key := by
  have hNamed : ∀ other, c.offence? t.snapshot other = some reason →
      other = key ∧ reason.Holds c t.snapshot := by
    intro other hOffence
    have hBoth := offence?_eq_some_iff.mp hOffence
    have hSame : other = key := by
      simpa [hKey] using hBoth.1.symm
    exact ⟨hSame, hBoth.2⟩
  rcases judge_eq_abort_iff.mp hAbort with
    ⟨_, hReason⟩ | ⟨hBound, hFirst⟩
  · subst hReason
    simp [AbortReason.key?] at hKey
  · rcases Option.or_eq_some_iff.mp hFirst with
      hRead | ⟨hNone, hWritten⟩
    · rcases List.exists_of_findSome?_eq_some hRead with
        ⟨other, hMem, hOffence⟩
      rcases hNamed other hOffence with ⟨hSame, hHolds⟩
      subst hSame
      exact ⟨hBound, hHolds, ⟨reason, hKey, hHolds⟩,
        Or.inl (o.mem_reads_iff.mp hMem)⟩
    · rcases List.exists_of_findSome?_eq_some hWritten with
        ⟨other, hMem, hOffence⟩
      rcases hNamed other hOffence with ⟨hSame, hHolds⟩
      subst hSame
      have hWrites := o.mem_writes_iff.mp (List.mem_filter.mp hMem).1
      refine ⟨hBound, hHolds, ⟨reason, hKey, hHolds⟩,
        Or.inr ⟨hWrites, ?_⟩⟩
      intro read hRead
      have hQuiet :=
        List.findSome?_eq_none_iff.mp hNone read
          (o.mem_reads_iff.mpr hRead)
      exact offence?_eq_none_iff.mp hQuiet

/- Only if no key that was read offends, another one is to blame. -/
theorem Blames.not_read_iff
    {c : ConflictCache}
    {t : Transaction}
    {key : ConflictKey}
    (h : c.Blames t key) :
    key ∉ t.reads ↔ ∀ read ∈ t.reads, ¬ c.Offends t.snapshot read := by
  constructor
  · intro hNot
    exact (h.2.resolve_left hNot).2
  · intro hNone hRead
    exact hNone key hRead h.1

theorem Blames.names
    {c : ConflictCache}
    {t : Transaction}
    {key : ConflictKey}
    (h : c.Blames t key) : t.Names key :=
  h.2.imp_right And.left

/-
  Every key that is to blame is named in some order, and no
  other key is in any.
-/
theorem possible_abort_iff
    {c : ConflictCache}
    {t : Transaction}
    {reason : AbortReason}
    {key : ConflictKey}
    (hKey : reason.key? = some key) :
    c.Possible t (.abort reason) ↔
      c.bound ≤ t.snapshot ∧ reason.Holds c t.snapshot ∧
        c.Blames t key := by
  constructor
  · intro hPossible
    rcases hPossible with ⟨reads, writes, hReads, hWrites, hJudge⟩
    exact blames_of_abort (o := ⟨reads, writes, hReads, hWrites⟩) hJudge
      hKey
  · intro hAll
    rcases hAll with ⟨hBound, hHolds, _, hRole⟩
    have hOffence : c.offence? t.snapshot key = some reason :=
      offence?_eq_some_iff.mpr ⟨hKey, hHolds⟩
    rcases hRole with hRead | ⟨hWritten, hNone⟩
    · -- the key is put first of those that were read
      have hOrder :=
        (List.perm_cons_erase (SortedSet.mem_toList_iff.mpr hRead)).symm
      refine ⟨_, t.writes.toList, hOrder, .refl _, ?_⟩
      apply judge_eq_abort_iff.mpr
      right
      simp [hBound, hOffence]
    · -- or of those that are written, as no other one offends before
      have hOrder :=
        (List.perm_cons_erase (SortedSet.mem_toList_iff.mpr hWritten)).symm
      refine ⟨t.reads.toList, _, .refl _, hOrder, ?_⟩
      have hQuiet :
          t.reads.toList.findSome? (c.offence? t.snapshot) = none := by
        apply List.findSome?_eq_none_iff.mpr
        intro read hRead
        apply offence?_eq_none_iff.mpr
        exact hNone read (SortedSet.mem_toList_iff.mp hRead)
      have hNotRead : key ∉ t.reads.toList := by
        intro hRead
        exact hNone key (SortedSet.mem_toList_iff.mp hRead)
          ⟨reason, hKey, hHolds⟩
      apply judge_eq_abort_iff.mpr
      right
      simp [hBound, hQuiet, hNotRead, hOffence]

------------------------------------------------------------
-- Keys that are looked at
------------------------------------------------------------

/-
  Look at some keys in turn, up to the first that offends. The
  list is that of the keys looked at.
-/
def scan
    (c : ConflictCache)
    (snapshot : Address) :
    List ConflictKey → Option AbortReason × List ConflictKey
  | [] => (none, [])
  | key :: keys =>
    match c.offence? snapshot key with
    | some reason => (some reason, [key])
    | none =>
      let others := scan c snapshot keys
      (others.1, key :: others.2)

theorem scan_fst
    (c : ConflictCache)
    (snapshot : Address)
    (keys : List ConflictKey) :
    (c.scan snapshot keys).1 = keys.findSome? (c.offence? snapshot) := by
  induction keys with
  | nil => rfl
  | cons key keys ih =>
    rw [scan, List.findSome?_cons]
    cases c.offence? snapshot key with
    | some reason => rfl
    | none => exact ih

theorem scan_snd_prefix
    (c : ConflictCache)
    (snapshot : Address)
    (keys : List ConflictKey) : (c.scan snapshot keys).2 <+: keys := by
  induction keys with
  | nil => exact List.prefix_rfl
  | cons key keys ih =>
    rw [scan]
    cases c.offence? snapshot key with
    | some reason => exact List.prefix_append [key] keys
    | none => exact (List.prefix_cons_inj key).mpr ih

/- All keys are looked at if none offends. -/
theorem scan_snd_of_none
    {c : ConflictCache}
    {snapshot : Address}
    {keys : List ConflictKey}
    (h : (c.scan snapshot keys).1 = none) :
    (c.scan snapshot keys).2 = keys := by
  induction keys with
  | nil => rfl
  | cons key keys ih =>
    rw [scan] at h ⊢
    cases hOffence : c.offence? snapshot key with
    | some reason => simp [hOffence] at h
    | none =>
      simp only [hOffence] at h ⊢
      rw [ih h]

/- Judge a transaction, and tell which of its keys were looked at. -/
def look
    (c : ConflictCache)
    (snapshot : Address)
    (reads writes : List ConflictKey) : Verdict × List ConflictKey :=
  if snapshot < c.bound then
    (.abort (.predates snapshot c.bound), [])
  else
    let scanned := c.scan snapshot (examined reads writes)
    match scanned.1 with
    | some reason => (.abort reason, scanned.2)
    | none => (.commit, scanned.2)

/- To tell which keys are looked at does not change the verdict. -/
theorem look_fst
    (c : ConflictCache)
    (snapshot : Address)
    (reads writes : List ConflictKey) :
    (c.look snapshot reads writes).1 = c.judge snapshot reads writes := by
  unfold look judge
  simp only [scan_fst]
  split
  · rfl
  · cases (examined reads writes).findSome? (c.offence? snapshot) with
    | some reason => rfl
    | none => rfl

theorem look_snd_prefix
    (c : ConflictCache)
    (snapshot : Address)
    (reads writes : List ConflictKey) :
    (c.look snapshot reads writes).2 <+: examined reads writes := by
  have hScan := c.scan_snd_prefix snapshot (examined reads writes)
  unfold look
  split
  · exact List.nil_prefix
  · simp only
    split
    · exact hScan
    · exact hScan

/- All keys are looked at before a commit. -/
theorem look_snd_of_commit
    {c : ConflictCache}
    {snapshot : Address}
    {reads writes : List ConflictKey}
    (h : c.judge snapshot reads writes = .commit) :
    (c.look snapshot reads writes).2 = examined reads writes := by
  rw [← look_fst] at h
  unfold look at h ⊢
  split at h
  · cases h
  · next hBound =>
    simp only [hBound, if_false] at h ⊢
    split at h
    · cases h
    · next hNone =>
      simp only
      exact scan_snd_of_none hNone

/- No key is listed twice, even if it was read and is written. -/
theorem nodup_examined
    {t : Transaction}
    (o : t.Order) : (examined o.reads o.writes).Nodup := by
  have hReads : o.reads.Nodup :=
    o.reads_perm.nodup_iff.mpr t.reads.keys_nodup
  have hWrites : o.writes.Nodup :=
    o.writes_perm.nodup_iff.mpr t.writes.keys_nodup
  unfold examined
  apply List.nodup_append.mpr
  refine ⟨hReads, hWrites.filter _, ?_⟩
  intro read hRead written hWritten hSame
  have hNot := of_decide_eq_true (List.mem_filter.mp hWritten).2
  rw [hSame] at hRead
  exact hNot hRead

theorem nodup_looked
    (c : ConflictCache)
    {t : Transaction}
    (o : t.Order) :
    (c.look t.snapshot o.reads o.writes).2.Nodup :=
  (c.look_snd_prefix t.snapshot o.reads o.writes).sublist.nodup
    (nodup_examined o)

theorem mem_examined_order_iff
    {t : Transaction}
    (o : t.Order)
    {key : ConflictKey} :
    key ∈ examined o.reads o.writes ↔ t.Names key :=
  mem_examined_iff.trans (or_congr o.mem_reads_iff o.mem_writes_iff)

------------------------------------------------------------
-- Two orders
------------------------------------------------------------

/-
  What the verdicts on a transaction in two orders of its keys
  have in common, and what each of them tells.
-/
structure OrderFree
    (c : ConflictCache)
    (t : Transaction)
    (o o' : t.Order) : Prop where
  /- The transaction commits in both orders or in neither. -/
  commit_iff :
    c.judge t.snapshot o.reads o.writes = .commit ↔
      c.judge t.snapshot o'.reads o'.writes = .commit
  /- It predates the sequencer in both orders or in neither. -/
  predates_iff :
    ∀ early bound,
      c.judge t.snapshot o.reads o.writes =
          .abort (.predates early bound) ↔
        c.judge t.snapshot o'.reads o'.writes =
          .abort (.predates early bound)
  /- It is counted alike. -/
  counted :
    c.stats.recordVerdict (c.judge t.snapshot o.reads o.writes) =
      c.stats.recordVerdict (c.judge t.snapshot o'.reads o'.writes)
  /- An abort that names a key tells what is so of that key. -/
  truthful :
    ∀ reason key,
      c.judge t.snapshot o.reads o.writes = .abort reason →
        reason.key? = some key →
          t.Names key ∧ reason.Holds c t.snapshot
  /- It names a key that was not read just if none of these offends. -/
  only_written_iff :
    ∀ reason key,
      c.judge t.snapshot o.reads o.writes = .abort reason →
        reason.key? = some key →
          (key ∉ t.reads ↔
            ∀ read ∈ t.reads, ¬ c.Offends t.snapshot read)
  /- The keys of the transaction are looked at once each at most. -/
  once :
    (c.look t.snapshot o.reads o.writes).1 =
        c.judge t.snapshot o.reads o.writes ∧
      (c.look t.snapshot o.reads o.writes).2.Nodup ∧
      ∀ key ∈ (c.look t.snapshot o.reads o.writes).2, t.Names key
  /- Before a commit all of them are looked at. -/
  all :
    c.judge t.snapshot o.reads o.writes = .commit →
      ∀ key, t.Names key →
        key ∈ (c.look t.snapshot o.reads o.writes).2

theorem judge_order_commit_iff
    {c : ConflictCache}
    {t : Transaction}
    (o : t.Order) :
    c.judge t.snapshot o.reads o.writes = .commit ↔
      c.verdict t = .commit := by
  have hPossible : c.Possible t (c.judge t.snapshot o.reads o.writes) :=
    ⟨o.reads, o.writes, o.reads_perm, o.writes_perm, rfl⟩
  constructor
  · intro hCommit
    rw [hCommit] at hPossible
    exact possible_commit_iff.mp hPossible
  · intro hVerdict
    rw [verdict_eq_commit_iff] at hVerdict
    apply judge_eq_commit_iff.mpr
    refine ⟨hVerdict.1, ?_⟩
    intro key hMem
    exact hVerdict.2 key
      (hMem.imp o.mem_reads_iff.mp o.mem_writes_iff.mp)

/- Whether a transaction predates the sequencer is up to no key. -/
theorem judge_eq_predates_iff
    {c : ConflictCache}
    {t : Transaction}
    {o : t.Order}
    {early bound : Address} :
    c.judge t.snapshot o.reads o.writes =
        .abort (.predates early bound) ↔
      t.snapshot < c.bound ∧ early = t.snapshot ∧ bound = c.bound := by
  have hNot : ∀ key,
      c.offence? t.snapshot key ≠ some (.predates early bound) := by
    intro key hOffence
    have hKey := (offence?_eq_some_iff.mp hOffence).1
    simp [AbortReason.key?] at hKey
  constructor
  · intro hAbort
    rcases judge_eq_abort_cases hAbort with
      ⟨hBound, hReason⟩ | ⟨_, key, _, hOffence⟩
    · simp only [AbortReason.predates.injEq] at hReason
      exact ⟨hBound, hReason⟩
    · exact absurd hOffence (hNot key)
  · intro hAll
    rcases hAll with ⟨hBound, hEarly, hSame⟩
    subst hEarly hSame
    exact judge_eq_abort_iff.mpr (Or.inl ⟨hBound, rfl⟩)

/- Only a commit is counted as one. -/
theorem recordVerdict_congr
    (stats : ConflictStats)
    {verdict verdict' : Verdict}
    (h : verdict = .commit ↔ verdict' = .commit) :
    stats.recordVerdict verdict = stats.recordVerdict verdict' := by
  cases verdict with
  | commit => rw [h.mp rfl]
  | abort reason =>
    cases verdict' with
    | commit => exact absurd (h.mpr rfl) nofun
    | abort reason' => rfl

/-
  The verdict on a transaction does not depend on the order in
  which its keys are looked at, but for the key that an abort
  names, and there is always a good reason to name it.
-/
theorem judge_orderFree
    (c : ConflictCache)
    (t : Transaction)
    (o o' : t.Order) : c.OrderFree t o o' where
  commit_iff :=
    (judge_order_commit_iff o).trans (judge_order_commit_iff o').symm
  predates_iff := by
    intro early bound
    exact judge_eq_predates_iff.trans judge_eq_predates_iff.symm
  counted :=
    recordVerdict_congr c.stats
      ((judge_order_commit_iff o).trans (judge_order_commit_iff o').symm)
  truthful := by
    intro reason key hAbort hKey
    have hBlames := blames_of_abort hAbort hKey
    exact ⟨hBlames.2.2.names, hBlames.2.1⟩
  only_written_iff := by
    intro reason key hAbort hKey
    exact (blames_of_abort hAbort hKey).2.2.not_read_iff
  once := by
    refine ⟨c.look_fst _ _ _, c.nodup_looked o, ?_⟩
    intro key hMem
    have hPrefix := c.look_snd_prefix t.snapshot o.reads o.writes
    exact (mem_examined_order_iff o).mp (hPrefix.subset hMem)
  all := by
    intro hCommit key hNames
    rw [look_snd_of_commit hCommit]
    exact (mem_examined_order_iff o).mpr hNames

/- Which of two offending keys an abort names is up to the order. -/
example :
    let key := fun param => ConflictKey.mk (StreamId.ofNat 1) [param]
    let full :=
      ((new 1 (by decide) Address.zero).run
        [ .record (SortedSet.ofList [key 1]) (Address.ofNat 5),
          .record (SortedSet.ofList [key 2]) (Address.ofNat 6) ]).2
    full.judge (Address.ofNat 4) [key 1, key 2] [] =
        .abort (.overflow (key 1) (Address.ofNat 5)) ∧
      full.judge (Address.ofNat 4) [key 2, key 1] [] =
        .abort (.conflict (key 2) (Address.ofNat 6)) := by
  decide

end ConflictCache

end OrderedLog
