import OrderedLog.Journal.Basic
import OrderedLog.SortedMap.Lemmas

/-
  This file proves that a log and its sequencer collect the same
  streams of a transaction. The log sorts the streams of the keys
  and leaves out the repetitions, the sequencer enters them into
  a set. Of sorted keys those that are equal are next to each
  other, so both end up with the same ascending list.

  Key lemmas include:
    * `KeyOrder.not_lt_trans`
    * `mem_eraseReps_loop_iff`
    * `ascending_eraseReps_loop`
    * `SortedSet.toList_ofList_eq`
    * `Journal.writtenStreams_eq`
    * `Journal.mem_writtenStreams_iff`
-/

namespace OrderedLog

------------------------------------------------------------
-- Lists without repetitions
------------------------------------------------------------

/- What is not below in turn is not below at all. -/
theorem KeyOrder.not_lt_trans
    {κ : Type}
    [KeyOrder κ]
    {a b c : κ}
    (h : ¬ b < a)
    (h' : ¬ c < b) : ¬ c < a := by
  intro hLt
  by_cases hSame : a = b
  · rw [hSame] at hLt
    exact h' hLt
  · rcases KeyOrder.lt_or_lt_of_ne hSame with hAB | hBA
    · exact h' (KeyOrder.trans hLt hAB)
    · exact h hBA

/-
  The loop that leaves out repetitions has a key at hand and has
  kept those before it, the last one first. It loses no key.
-/
theorem mem_eraseReps_loop_iff
    {κ : Type}
    [DecidableEq κ]
    {a key : κ}
    {rest kept : List κ} :
    key ∈ List.eraseRepsBy.loop (fun a b => a == b) a rest kept ↔
      key ∈ kept ∨ key ∈ a :: rest := by
  induction rest generalizing a kept with
  | nil =>
    unfold List.eraseRepsBy.loop
    simp [or_comm]
  | cons b rest ih =>
    unfold List.eraseRepsBy.loop
    split
    · next hSame =>
      rw [ih, eq_of_beq hSame]
      simp
    · rw [ih, List.mem_cons, List.mem_cons (a := key) (b := a)]
      simp [or_assoc, or_left_comm]

/- As long as the keys are sorted, what is kept ascends. -/
theorem ascending_eraseReps_loop
    {κ : Type}
    [KeyOrder κ] [DecidableEq κ]
    {a : κ}
    {rest kept : List κ}
    (hSorted : (a :: rest).Pairwise (fun a b => ¬ b < a))
    (hKept : (kept.reverse ++ [a]).Pairwise (fun a b => a < b)) :
    (List.eraseRepsBy.loop (fun a b => a == b) a rest kept).Pairwise
      (fun a b => a < b) := by
  induction rest generalizing a kept with
  | nil =>
    unfold List.eraseRepsBy.loop
    simpa using hKept
  | cons b rest ih =>
    have hBelow : ¬ b < a :=
      (List.pairwise_cons.mp hSorted).1 b List.mem_cons_self
    unfold List.eraseRepsBy.loop
    split
    · apply ih _ hKept
      exact hSorted.sublist (by simp)
    · next hNe =>
      have hLt : a < b :=
        (KeyOrder.lt_or_lt_of_ne (ne_of_beq_false hNe)).resolve_right hBelow
      apply ih (List.pairwise_cons.mp hSorted).2
      rw [List.reverse_cons, List.pairwise_append]
      refine ⟨hKept, List.pairwise_singleton _ b, ?_⟩
      intro key hKey other hOther
      rw [List.mem_singleton.mp hOther]
      rcases List.mem_append.mp hKey with hBefore | hHere
      · have hKeyLt := (List.pairwise_append.mp hKept).2.2 key hBefore a
          List.mem_cons_self
        exact KeyOrder.trans hKeyLt hLt
      · rw [List.mem_singleton.mp hHere]
        exact hLt

/- Sorted keys without repetitions are the list of their set. -/
theorem SortedSet.toList_ofList_eq
    {κ : Type}
    [KeyOrder κ] [DecidableEq κ]
    (keys : List κ) :
    (keys.mergeSort (fun a b => ¬ b < a)).eraseReps =
      (SortedSet.ofList keys).toList := by
  have hSorted :
      (keys.mergeSort (fun a b => ¬ b < a)).Pairwise
        (fun a b => decide (¬ b < a)) := by
    apply List.pairwise_mergeSort
    · intro a b c hAB hBC
      simp only [decide_eq_true_eq] at hAB hBC ⊢
      exact KeyOrder.not_lt_trans hAB hBC
    · intro a b
      simp only [Bool.or_eq_true, decide_eq_true_eq]
      exact (Classical.em (b < a)).elim
        (fun hLt => Or.inr (KeyOrder.asymm hLt)) Or.inl
  have hMem : ∀ key,
      key ∈ keys.mergeSort (fun a b => ¬ b < a) ↔
        key ∈ SortedSet.ofList keys := by
    intro key
    rw [List.mem_mergeSort, SortedSet.mem_ofList_iff]
  symm
  cases hSort : keys.mergeSort (fun a b => ¬ b < a) with
  | nil =>
    rw [hSort] at hMem
    apply SortedSet.toList_eq_of_sorted List.Pairwise.nil
    intro key
    exact (hMem key).symm
  | cons a rest =>
    rw [hSort] at hSorted hMem
    simp only [decide_eq_true_eq] at hSorted
    apply SortedSet.toList_eq_of_sorted
    · exact ascending_eraseReps_loop hSorted (List.pairwise_singleton _ a)
    · intro key
      rw [← hMem]
      change key ∈ a :: rest ↔
        key ∈ List.eraseRepsBy.loop (fun a b => a == b) a rest []
      simp [mem_eraseReps_loop_iff]

------------------------------------------------------------
-- The streams of a transaction
------------------------------------------------------------

namespace Journal

/- The log and its sequencer collect the same streams. -/
theorem writtenStreams_eq
    (t : Transaction) :
    writtenStreams t = (Sequencer.written t []).toList := by
  unfold writtenStreams Sequencer.written
  simp only [List.append_nil]
  exact SortedSet.toList_ofList_eq _

theorem mem_writtenStreams_iff
    {t : Transaction}
    {stream : StreamId} :
    stream ∈ writtenStreams t ↔ ∃ key ∈ t.writes, key.stream = stream := by
  rw [writtenStreams_eq, SortedSet.mem_toList_iff, Sequencer.written,
    SortedSet.mem_ofList_iff]
  simp [SortedSet.mem_toList_iff]

end Journal

end OrderedLog
