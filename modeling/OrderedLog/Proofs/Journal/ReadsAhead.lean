import OrderedLog.Proofs.Journal.CounterRuns

/-
  This file proves what comes of reading a counter at a version
  that the log has not reached. The value is cached at this
  version, and it is wrong there as soon as the log reaches the
  version with one more entry of the counter. Nothing looks at
  the log again for a version that is cached.

  So reads of versions that the log has reached are right for
  good if no such value is cached, and else one can be made
  wrong. The harm is contained: a value that was cached ahead
  of the log spoils reads of its own counter from its version
  on, and it is gone when the versions up to it are evicted.

  Key definitions include:
    * `Counters.StaysExact`
    * `Counters.Unspoiled`
    * `Counters.ReadsAhead`

  Key lemmas include:
    * `Journal.InStep.exists_reaching`
    * `Counters.Kept.exists_spoiling`
    * `Counters.Kept.staysExact_iff`
    * `Counters.Kept.staysExact_read_iff`

  Key theorems include:
    * `Counters.run_reads_ahead`
-/

namespace OrderedLog

------------------------------------------------------------
-- Logs that reach a version
------------------------------------------------------------

namespace Journal

variable {j k : Journal}

/- There is room for an entry before the last address. -/
theorem exists_serve_append
    (hRoom : j.sequencer.next ≠ Address.last)
    (stream : StreamId)
    (delta : Int) :
    Writes ⟨[stream], delta⟩ j (j.serve (.append stream delta)) := by
  have hCount : j.sequencer.next.val + 1 < UInt64.size :=
    Nat.add_lt_of_lt_sub (Address.lt_last_iff.mpr hRoom)
  rcases j.sequencer.exists_issue [stream] Nat.one_pos hCount with
    ⟨sequencer, hIssue⟩
  have hAppend : ∃ k, j.append stream delta = .ok (j.sequencer.next, k) := by
    unfold append
    rw [hIssue]
    exact ⟨_, rfl⟩
  rcases hAppend with ⟨k, hAppend⟩
  unfold serve
  simp only [hAppend]
  exact (writes_append hAppend).2

/- The sums that have a new entry are more by its number. -/
theorem InStep.sumUpTo_writes
    (h : j.InStep)
    {entry : Entry}
    (hWrites : Writes entry j k)
    {stream : StreamId}
    (hStream : stream ∈ entry.streams)
    {upper : Address}
    (hUpper : j.sequencer.next ≤ upper) :
    k.sumUpTo stream upper = j.sumUpTo stream upper + entry.delta := by
  unfold sumUpTo sumOver
  rw [hWrites.entries, SortedMap.entries_insert]
  apply sumEntries_insertEntry_of_new (decide_eq_true hUpper) hStream
  intro e hMem hSame
  have hEntry := SortedMap.get?_eq_some_iff.mpr hMem
  rw [hSame, h.get?_next] at hEntry
  exact absurd hEntry nofun

/-
  Appends bring a log to a version that it has not reached, with
  another sum there than any given one.
-/
theorem InStep.exists_reaching
    (h : j.InStep)
    (stream : StreamId)
    {version : Address}
    (hNot : ¬ j.Settled version)
    (hLast : version ≠ Address.last)
    (value : Int) :
    ∃ requests : List Request,
      (j.run requests).Settled version ∧
        value ≠ (j.run requests).sumUpTo stream version := by
  have hLe : j.sequencer.next ≤ version := Address.not_lt.mp hNot
  -- by induction on how far away the version is
  rcases Nat.exists_eq_add_of_le hLe with ⟨distance, hDistance⟩
  induction distance generalizing j with
  | zero =>
    have hNext : j.sequencer.next = version :=
      Address.eq_of_val_eq hDistance.symm
    let delta : Int := if value = j.sumUpTo stream version then 1 else 0
    have hWrites := exists_serve_append (by rwa [hNext]) stream delta
    have hSum := h.sumUpTo_writes hWrites List.mem_cons_self hLe
    refine ⟨[.append stream delta], ?_, ?_⟩
    · exact hWrites.settled_iff.mpr (Or.inr hNext.symm)
    · change value ≠ (j.serve (.append stream delta)).sumUpTo stream version
      rw [hSum]
      simp only [delta]
      split <;> omega
  | succ distance ih =>
    have hBelow : j.sequencer.next < version := by
      rw [Address.lt_iff_val_lt]
      omega
    have hRoom := Address.ne_last_of_lt hBelow
    have hWrites := exists_serve_append hRoom stream 0
    have hNext := hWrites.next
    have hLater : (j.serve (.append stream 0)).sequencer.next ≤ version := by
      rw [Address.le_iff_val_le]
      omega
    rcases ih (h.writes hWrites) (Address.not_lt.mpr hLater) hLater
        (by omega) with
      ⟨requests, hReaching⟩
    exact ⟨.append stream 0 :: requests, hReaching⟩

end Journal

namespace Counters

variable {s : Counters}
variable {id : VersionedId}
variable {ids : VersionedId → Prop}

------------------------------------------------------------
-- Spoiled versions
------------------------------------------------------------

/- Reads are right from now on, as long as all of them wait. -/
def StaysExact (s : Counters) : Prop :=
  ∀ after, s.Waits (fun _ => True) after → ∀ id, (s.run after).ExactAt id

/-
  All that is cached is right, but that the last address of all,
  which no log reaches, does not matter.
-/
def Unspoiled (s : Counters) : Prop :=
  s.RightOn (fun id => id.version ≠ Address.last)

/- A version that was reached is not the last address of all. -/
theorem Reached.ne_last
    {address : Address}
    (h : s.Reached address) : address ≠ Address.last :=
  Address.ne_last_of_lt (reached_iff.mp h)

/- What a version other than the last one covers is such a one. -/
theorem ne_last_of_covers
    {id other : VersionedId}
    (h : id.version ≠ Address.last)
    (hCovers : id.Covers other) : other.version ≠ Address.last :=
  Address.ne_last_of_lt
    (Address.lt_of_le_of_lt hCovers.2 (Address.lt_last_iff.mpr h))

theorem run_write
    (s : Counters)
    (requests : List Journal.Request) :
    s.run (requests.map Action.write) =
      s.withJournal (s.journal.run requests) := by
  induction requests generalizing s with
  | nil => rfl
  | cons request requests ih => exact ih (s.step (.write request))

theorem waits_write
    (s : Counters)
    (requests : List Journal.Request) :
    s.Waits ids (requests.map Action.write) := by
  induction requests generalizing s with
  | nil => exact trivial
  | cons request requests ih => exact ⟨nofun, ih _⟩

/- A cached value is what is read, whatever the log says. -/
theorem Kept.read_of_valueAt?
    (h : s.Kept)
    {value : Int}
    (hValue : s.valueAt? id = some value) :
    (s.read id.object id.version).1 = .ok value := by
  rcases h.read_eq id with ⟨c, hCache, hRead, _⟩
  unfold valueAt? at hValue
  rw [hCache, Option.bind_some] at hValue
  rw [hRead, Counter.readValue, hValue, Option.getD_some]

/-
  A value that is wrong, or cached before its version was
  reached, is read at a version that the log has reached, or
  will be after some more entries, and is wrong there.
-/
theorem Kept.exists_spoiling
    (h : s.Kept)
    {value : Int}
    (hValue : s.valueAt? id = some value)
    (hLast : id.version ≠ Address.last)
    (hWrong : ¬ (s.Reached id.version ∧
      value = s.journal.sumUpTo id.object id.version)) :
    ∃ requests : List Journal.Request,
      ¬ (s.run (requests.map Action.write)).ExactAt id := by
  have hReaching : ∃ requests : List Journal.Request,
      (s.journal.run requests).Settled id.version ∧
        value ≠ (s.journal.run requests).sumUpTo id.object id.version := by
    by_cases hReached : s.Reached id.version
    · exact ⟨[], reached_iff.mp hReached,
        fun hSame => hWrong ⟨hReached, hSame⟩⟩
    · rw [reached_iff] at hReached
      exact h.inStep.exists_reaching id.object hReached hLast value
  rcases hReaching with ⟨requests, hSettled, hNe⟩
  refine ⟨requests, ?_⟩
  have hKept := h.run (requests.map Action.write)
  rw [run_write] at hKept ⊢
  intro hExact
  have hRead := hExact (reached_iff.mpr hSettled)
  rw [hKept.read_of_valueAt? hValue] at hRead
  exact hNe (Except.ok.inj hRead)

/- Reads stay right just if nothing that is cached is spoiled. -/
theorem Kept.staysExact_iff
    (h : s.Kept) : s.StaysExact ↔ s.Unspoiled := by
  constructor
  · intro hStays id value hLast hValue
    by_contra hWrong
    rcases h.exists_spoiling hValue hLast hWrong with ⟨requests, hNot⟩
    exact hNot (hStays _ (s.waits_write requests) id)
  · intro hUnspoiled after hWaits id hReached
    have hRun := hUnspoiled.run h (fun _ _ => ne_last_of_covers)
      (hWaits.mono (fun _ _ => trivial))
    have hRight := hRun.mono (fun other => ne_last_of_covers hReached.ne_last)
    exact hRight.exactAt (h.run after) hReached

/- A read ahead of the log spoils its version. -/
theorem Kept.staysExact_read_iff
    (h : s.Kept)
    (hStays : s.StaysExact)
    (id : VersionedId) :
    (s.step (.read id)).StaysExact ↔
      s.Reached id.version ∨ id.version = Address.last := by
  rw [(h.step (.read id)).staysExact_iff]
  constructor
  · intro hUnspoiled
    by_cases hLast : id.version = Address.last
    · exact Or.inr hLast
    · left
      rcases h.read_eq id with ⟨c, _, _, hValues, hIdle, _⟩
      have hValue := hValues id
      rw [if_pos rfl] at hValue
      have hReached := (hUnspoiled id _ hLast hValue).1
      rw [reached_iff] at hReached ⊢
      unfold Journal.Settled at hReached ⊢
      rw [← hIdle.next]
      exact hReached
  · intro hEither
    have hUnspoiled := h.staysExact_iff.mp hStays
    apply hUnspoiled.step h (fun _ _ => ne_last_of_covers)
    intro other hRead hLast
    obtain rfl := Action.read.inj hRead
    exact hEither.resolve_right hLast

------------------------------------------------------------
-- Reads ahead of the log
------------------------------------------------------------

/- What reads ahead of the log do to a cache, and what they do not. -/
structure ReadsAhead (s : Counters) : Prop where
  staysExact_iff : s.StaysExact ↔ s.Unspoiled
  /- It is reads ahead of the log that spoil a cache. -/
  read_iff :
    s.StaysExact → ∀ id,
      (s.step (.read id)).StaysExact ↔
        s.Reached id.version ∨ id.version = Address.last
  /-
    They spoil no other counters, and no lower versions than they
    are made at.
  -/
  contained :
    ∀ id after,
      s.RightOn id.Covers → s.Waits id.Covers after →
        (s.run after).ExactAt id
  /- An eviction undoes the harm up to its version. -/
  evicted :
    ∀ id after,
      (s.step (.evict id)).Waits id.Covers after →
        ((s.step (.evict id)).run after).ExactAt id

theorem Kept.readsAhead
    (h : s.Kept) : s.ReadsAhead := by
  have hContained : ∀ {t : Counters}, t.Kept → ∀ id after,
      t.RightOn id.Covers → t.Waits id.Covers after →
        (t.run after).ExactAt id := by
    intro t hT id after hRight hWaits
    have hRun := hRight.run hT (fun _ _ => VersionedId.Covers.trans) hWaits
    exact hRun.exactAt (hT.run after)
  constructor
  · exact h.staysExact_iff
  · exact h.staysExact_read_iff
  · exact hContained h
  · intro id after hWaits
    rcases h.evict_eq id with ⟨hValues, _, hKept⟩
    apply hContained hKept id after _ hWaits
    intro other value hCovers hValue
    exact absurd hCovers ((hValues other value).mp hValue).2

/-
  With a new log and an empty cache all reads are right as long
  as none is made ahead of the log. The first one that is made
  ahead, at any version but the last one, ends that, and so does
  each one after the cache has recovered.
-/
theorem run_reads_ahead
    (capacity : Nat)
    (capacity_pos : 0 < capacity) :
    ∃ start, new? capacity = .ok start ∧ start.StaysExact ∧
      ∀ actions, (start.run actions).ReadsAhead := by
  rcases Journal.exists_new capacity_pos with ⟨journal, hJournal⟩
  have hStart : new? capacity = .ok ⟨journal, some SnapshotCache.empty⟩ := by
    unfold new?
    rw [hJournal]
  rcases kept_new hStart with ⟨hKept, hNone⟩
  refine ⟨_, hStart, ?_, fun actions => (hKept.run actions).readsAhead⟩
  rw [hKept.staysExact_iff]
  intro id value _ hValue
  rw [hNone] at hValue
  exact absurd hValue nofun

/-
  The counter is read at the third address when the log has just
  one. Its value there is what it was then, until it is evicted.
-/
def hastyActions : List Action :=
  let stream := StreamId.ofNat 1
  [ .write (.append stream 5),
    .read ⟨stream, Address.ofNat 2⟩,
    .write (.append stream 3),
    .write (.append stream 4),
    .read ⟨stream, Address.ofNat 1⟩ ]

theorem hastyActions_read_ahead :
    ∃ start, new? 4 = .ok start ∧ start.StaysExact ∧
      let spoiled := start.run hastyActions
      let healed := spoiled.step (.evict ⟨StreamId.ofNat 1, Address.ofNat 2⟩)
      (spoiled.read (StreamId.ofNat 1) (Address.ofNat 1)).1 = .ok 8 ∧
        (spoiled.read (StreamId.ofNat 1) (Address.ofNat 2)).1 = .ok 5 ∧
        (healed.read (StreamId.ofNat 1) (Address.ofNat 2)).1 = .ok 12 ∧
        spoiled.ReadsAhead := by
  rcases run_reads_ahead 4 (by decide) with ⟨start, hStart, hStays, hReads⟩
  obtain rfl := Except.ok.inj hStart
  exact ⟨_, rfl, hStays, by decide +kernel, by decide +kernel,
    by decide +kernel, hReads hastyActions⟩

/-
  On an empty log every address is ahead of it, the first one,
  too. A counter that was read there once is never anything else.
-/
def earlyActions : List Action :=
  let stream := StreamId.ofNat 1
  [ .read ⟨stream, Address.zero⟩,
    .write (.append stream 5) ]

theorem earlyActions_not_exact :
    ∃ start, new? 4 = .ok start ∧
      (start.run earlyActions).Reached Address.zero ∧
      ((start.run earlyActions).read (StreamId.ofNat 1)
        Address.zero).1 = .ok 0 ∧
      (start.run earlyActions).journal.sumUpTo (StreamId.ofNat 1)
        Address.zero = 5 ∧
      ¬ (start.run earlyActions).ExactAt
        ⟨StreamId.ofNat 1, Address.zero⟩ := by
  refine ⟨_, rfl, ⟨Address.zero, by decide, Address.le_refl _⟩,
    by decide, by decide, ?_⟩
  intro hExact
  exact absurd (hExact ⟨Address.zero, by decide, Address.le_refl _⟩)
    (by decide)

end Counters

end OrderedLog
