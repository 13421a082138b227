import OrderedLog.Proofs.ConflictCache.RecentPart
import OrderedLog.Proofs.ConflictCache.Verdicts
import OrderedLog.Proofs.Sequencer.Extent

/-
  This file proves that a handover goes unnoticed by clients
  whose transactions have seen the whole log so far. Whatever
  they ask for from then on, the old sequencer and the new one
  give the same answers, although the old one still has keys
  from before and evicts its addresses at other times.

  The invariant of the two sequencers is that the cache of the
  new one is the recent part of the cache of the old one, from
  the address on that was the next one at the handover.

  Key definitions include:
    * `Sequencer.Request.Shared`
    * `Sequencer.Reply.Agrees`
    * `Sequencer.Shadows`
    * `Sequencer.Alike`

  Key lemmas include:
    * `Sequencer.shadows_handover`
    * `Sequencer.Shadows.judge_eq`
    * `Sequencer.Shadows.commit`
    * `Sequencer.Shadows.serve`
    * `Sequencer.Shadows.alike`

  Key theorems include:
    * `Sequencer.handover_transparent`
-/

namespace OrderedLog

namespace Sequencer

------------------------------------------------------------
-- What both are asked and answer
------------------------------------------------------------

/-
  A request that both sequencers get after a handover of some
  streams. The snapshots of its transactions are fresh for the
  old sequencer as it was at the handover. Only the tails of
  the streams handed over are asked for.
-/
def Request.Shared
    (atHandover : Sequencer)
    (streams : List StreamId) : Request → Prop
  | .token _ _ => True
  | .commit transaction _ => atHandover.Fresh transaction.snapshot
  | .tails asked => ∀ stream ∈ asked, stream ∈ streams
  | .trim _ => True
  | .restart _ => False
  | .handover _ => False

instance
    (atHandover : Sequencer)
    (streams : List StreamId) :
    (request : Request) → Decidable (request.Shared atHandover streams)
  | .token _ _ => inferInstanceAs (Decidable True)
  | .commit transaction _ =>
    inferInstanceAs (Decidable (atHandover.Fresh transaction.snapshot))
  | .tails asked =>
    inferInstanceAs (Decidable (∀ stream ∈ asked, stream ∈ streams))
  | .trim _ => inferInstanceAs (Decidable True)
  | .restart _ => inferInstanceAs (Decidable False)
  | .handover _ => inferInstanceAs (Decidable False)

/-
  Replies that do not differ but in the number of keys that a
  trim evicted.
-/
def Reply.Agrees : Reply → Reply → Prop
  | .evicted _, .evicted _ => True
  | a, b => a = b

theorem Reply.agrees_refl (reply : Reply) : reply.Agrees reply := by
  cases reply <;> simp [Reply.Agrees]

------------------------------------------------------------
-- The invariant
------------------------------------------------------------

/-
  The second sequencer is where the first one is, and knows
  what the first one knows from a mark on and of some streams.
-/
structure Shadows
    (mark : Address)
    (streams : List StreamId)
    (old heir : Sequencer) : Prop where
  oldConsistent : old.Consistent
  heirConsistent : heir.Consistent
  next : old.next = heir.next
  mark_le : mark ≤ old.next
  recent : old.cache.RecentPart mark heir.cache
  bounds :
    ∀ snapshot : Address, snapshot.Sees mark →
      old.cache.bound ≤ snapshot ∧ heir.cache.bound ≤ snapshot
  tails :
    ∀ stream ∈ streams, old.tails.get? stream = heir.tails.get? stream

/- A new sequencer starts as the shadow of the old one. -/
theorem shadows_handover
    {s : Sequencer}
    (h : s.Consistent)
    (streams : List StreamId) :
    ∃ next, s.handover streams = .ok next ∧
      Shadows s.next streams s next := by
  rcases s.handover_eq streams with ⟨bound, hHandover, hBound, hLe⟩
  refine ⟨_, hHandover, ?_⟩
  have hHeir := ConflictCache.withinLog_new s.cache.capacity
    s.cache.capacity_pos hBound
  constructor
  · exact h
  · exact hHeir
  · rfl
  · exact Address.le_refl s.next
  · exact ConflictCache.recentPart_new h hBound
  · intro snapshot hSees
    exact ⟨ConflictCache.WithinLog.bound_le_of_sees h hSees,
      hHeir.bound_le_of_sees hSees⟩
  · intro stream hStream
    rw [get?_streams_tailsOf, if_pos hStream]

variable {mark : Address} {streams : List StreamId}
variable {old heir : Sequencer}

/- Both judge a snapshot that sees all before the mark alike. -/
theorem Shadows.judge_eq
    (h : Shadows mark streams old heir)
    {snapshot : Address}
    (hSees : snapshot.Sees mark)
    (reads writes : List ConflictKey) :
    old.cache.judge snapshot reads writes =
      heir.cache.judge snapshot reads writes :=
  ConflictCache.judge_eq_of_offence? (h.bounds snapshot hSees).1
    (h.bounds snapshot hSees).2 (h.recent.offence?_eq hSees) reads writes

theorem Shadows.ruled
    (h : Shadows mark streams old heir)
    (t : Transaction) :
    Shadows mark streams
      { old with cache := (old.cache.rule t).2 }
      { heir with cache := (heir.cache.rule t).2 } where
  oldConsistent := h.oldConsistent.ruled t
  heirConsistent := h.heirConsistent.ruled t
  next := h.next
  mark_le := h.mark_le
  recent := h.recent.ruled t
  bounds := h.bounds
  tails := h.tails

------------------------------------------------------------
-- Steps
------------------------------------------------------------

/- Both hand out the same token, or refuse it alike. -/
theorem Shadows.issue
    (h : Shadows mark streams old heir)
    (asked : List StreamId)
    (count : Nat) :
    (∃ refusal,
        old.issue asked count = .error refusal ∧
        heir.issue asked count = .error refusal) ∨
      (∃ token oldNext heirNext,
        old.issue asked count = .ok (token, oldNext) ∧
        heir.issue asked count = .ok (token, heirNext) ∧
        Shadows mark streams oldNext heirNext) := by
  by_cases hCount : count = 0
  · left
    refine ⟨.emptyToken count, ?_, ?_⟩
    · unfold Sequencer.issue
      rw [if_pos hCount]
    · unfold Sequencer.issue
      rw [if_pos hCount]
  · cases hAdd : old.next.add? count with
    | none =>
      left
      refine ⟨.exhausted old.next, ?_, ?_⟩
      · unfold Sequencer.issue
        rw [if_neg hCount, hAdd]
      · unfold Sequencer.issue
        rw [if_neg hCount, ← h.next, hAdd]
    | some next =>
      right
      have hOld : old.issue asked count =
          .ok (⟨old.next, count⟩,
            { old with
              next := next
              tails := raise old.tails asked
                (Token.last ⟨old.next, count⟩) }) := by
        unfold Sequencer.issue
        rw [if_neg hCount, hAdd]
      have hHeir : heir.issue asked count =
          .ok (⟨old.next, count⟩,
            { heir with
              next := next
              tails := raise heir.tails asked
                (Token.last ⟨old.next, count⟩) }) := by
        unfold Sequencer.issue
        rw [if_neg hCount, ← h.next, hAdd]
      refine ⟨_, _, _, hOld, hHeir, ?_⟩
      constructor
      · exact h.oldConsistent.issue hOld
      · exact h.heirConsistent.issue hHeir
      · rfl
      · exact Address.le_trans h.mark_le (issue_cases hOld).2.2
      · exact h.recent
      · exact h.bounds
      · intro stream hStream
        exact get?_raise_congr (h.tails stream hStream) _ _

/- The same commit in both, of a transaction that both let pass. -/
theorem Shadows.committed
    (h : Shadows mark streams old heir)
    {next : Address}
    (hNext : old.next.next? = some next)
    (writes : SortedSet ConflictKey)
    (raised : List StreamId) :
    Shadows mark streams
      { cache :=
          if writes.isEmpty then old.cache
          else old.cache.enter writes old.next
        next := next
        tails := raise old.tails raised old.next }
      { cache :=
          if writes.isEmpty then heir.cache
          else heir.cache.enter writes heir.next
        next := next
        tails := raise heir.tails raised heir.next } := by
  have hVal := Address.next?_eq_some_iff.mp hNext
  have hLt : old.next < next := by
    rw [Address.lt_iff_val_lt, hVal]
    exact Nat.lt_succ_self _
  have hLe : old.next ≤ next := Nat.le_of_lt hLt
  have hOldRecord :=
    ConflictCache.WithinLog.record_eq h.oldConsistent writes
  have hHeirRecord :=
    ConflictCache.WithinLog.record_eq h.heirConsistent writes
  constructor
  · exact ConflictCache.WithinLog.record h.oldConsistent hOldRecord
      hLt hLe
  · exact ConflictCache.WithinLog.record h.heirConsistent hHeirRecord
      (h.next ▸ hLt) (h.next ▸ hLe)
  · rfl
  · exact Address.le_trans h.mark_le hLe
  · by_cases hEmpty : writes.isEmpty = true
    · simp only [hEmpty, if_true]
      exact h.recent
    · simp only [hEmpty]
      rw [← h.next]
      have hWrites : writes ≠ ∅ := fun hSame =>
        hEmpty (SortedMap.isEmpty_iff.mpr hSame)
      apply h.recent.enter hWrites h.mark_le
      · exact ConflictCache.WithinLog.get?_window_eq_none h.oldConsistent
      · rw [h.next]
        exact ConflictCache.WithinLog.get?_window_eq_none h.heirConsistent
  · intro snapshot hSees
    simp only
    rw [ConflictCache.bound_record hOldRecord,
      ConflictCache.bound_record hHeirRecord]
    exact h.bounds snapshot hSees
  · intro stream hStream
    simp only
    rw [← h.next]
    exact get?_raise_congr (h.tails stream hStream) _ _

/- Both commit a transaction at the same address, or neither. -/
theorem Shadows.commit
    (h : Shadows mark streams old heir)
    {t : Transaction}
    (hSees : t.snapshot.Sees mark)
    (listed : List StreamId) :
    (old.commit t listed).1 = (heir.commit t listed).1 ∧
      Shadows mark streams
        (old.commit t listed).2 (heir.commit t listed).2 := by
  have hVerdict : old.cache.verdict t = heir.cache.verdict t :=
    h.judge_eq hSees t.reads.toList t.writes.toList
  rcases heir with ⟨cache, next, tails⟩
  have hSame : old.next = next := h.next
  subst hSame
  rw [h.oldConsistent.commit_eq, h.heirConsistent.commit_eq, ← hVerdict]
  cases old.cache.verdict t with
  | abort reason => exact ⟨rfl, h.ruled t⟩
  | commit =>
    cases hNext : old.next.next? with
    | none => exact ⟨rfl, h.ruled t⟩
    | some next =>
      exact ⟨rfl, (h.ruled t).committed hNext t.writes
        (written t listed).toList⟩

theorem Shadows.trim
    (h : Shadows mark streams old heir)
    (trimMark : Address) :
    Shadows mark streams (old.trim trimMark).2 (heir.trim trimMark).2 where
  oldConsistent := h.oldConsistent.trim trimMark
  heirConsistent := h.heirConsistent.trim trimMark
  next := h.next
  mark_le := h.mark_le
  recent := h.recent.trimBelow trimMark
  bounds := by
    intro snapshot hSees
    unfold Sequencer.trim
    simp only [ConflictCache.bound_trimBelow]
    exact h.bounds snapshot hSees
  tails := h.tails

/- Both answer a request alike. -/
theorem Shadows.serve
    (h : Shadows mark streams old heir)
    {atHandover : Sequencer}
    (hMark : atHandover.next = mark)
    {request : Request}
    (hShared : request.Shared atHandover streams) :
    (old.serve request).1.Agrees (heir.serve request).1 ∧
      Shadows mark streams
        (old.serve request).2 (heir.serve request).2 := by
  cases request with
  | token asked count =>
    rw [Sequencer.serve, Sequencer.serve]
    rcases h.issue asked count with
      ⟨refusal, hOld, hHeir⟩ | ⟨token, _, _, hOld, hHeir, hNext⟩
    · rw [hOld, hHeir]
      exact ⟨Reply.agrees_refl _, h⟩
    · rw [hOld, hHeir]
      exact ⟨Reply.agrees_refl _, hNext⟩
  | commit t listed =>
    have hSees : t.snapshot.Sees mark :=
      hMark ▸ fresh_iff_sees.mp hShared
    have hCommit := h.commit hSees listed
    rw [Sequencer.serve, Sequencer.serve]
    rcases hOld : old.commit t listed with ⟨result, oldNext⟩
    rcases hHeir : heir.commit t listed with ⟨other, heirNext⟩
    rw [hOld, hHeir] at hCommit
    rcases hCommit with ⟨hSame, hNext⟩
    simp only at hSame
    subst hSame
    cases result with
    | ok outcome => exact ⟨Reply.agrees_refl _, hNext⟩
    | error refusal => exact ⟨Reply.agrees_refl _, hNext⟩
  | tails asked =>
    refine ⟨?_, h⟩
    have hTails : old.tailsOf asked = heir.tailsOf asked := by
      apply tailsOf_congr h.next
      intro stream hStream
      exact h.tails stream (hShared stream hStream)
    rw [Sequencer.serve, Sequencer.serve, hTails]
    exact Reply.agrees_refl _
  | trim trimMark => exact ⟨trivial, h.trim trimMark⟩
  | restart tails => exact hShared.elim
  | handover others => exact hShared.elim

------------------------------------------------------------
-- Runs
------------------------------------------------------------

/-
  What clients notice of two sequencers that get the same
  requests after a handover: the replies, the tails of the
  streams handed over, and the verdicts that a transaction may
  get next, whatever the order its keys are looked at.
-/
structure Alike
    (atHandover : Sequencer)
    (streams : List StreamId)
    (old heir : Sequencer)
    (requests : List Request) : Prop where
  replies :
    List.Forall₂ Reply.Agrees (old.run requests).1 (heir.run requests).1
  tails :
    (old.run requests).2.tailsOf streams =
      (heir.run requests).2.tailsOf streams
  verdicts :
    ∀ t : Transaction, atHandover.Fresh t.snapshot → ∀ verdict,
      (old.run requests).2.cache.Possible t verdict ↔
        (heir.run requests).2.cache.Possible t verdict

theorem Shadows.alike
    (h : Shadows mark streams old heir)
    {atHandover : Sequencer}
    (hMark : atHandover.next = mark)
    {requests : List Request}
    (hShared :
      ∀ request ∈ requests, request.Shared atHandover streams) :
    Alike atHandover streams old heir requests := by
  induction requests generalizing old heir with
  | nil =>
    constructor
    · exact List.Forall₂.nil
    · exact tailsOf_congr h.next h.tails
    · intro t hFresh
      apply ConflictCache.possible_iff_of_judge
      exact h.judge_eq (hMark ▸ fresh_iff_sees.mp hFresh)
  | cons request requests ih =>
    rcases h.serve hMark (hShared request List.mem_cons_self) with
      ⟨hReply, hServed⟩
    have hRest := ih hServed (fun other hOther =>
      hShared other (List.mem_cons_of_mem request hOther))
    constructor
    · exact List.Forall₂.cons hReply hRest.replies
    · exact hRest.tails
    · exact hRest.verdicts

/-
  A handover is transparent to fresh transactions: after any
  history of a sequencer, a new one that takes over from it is
  like the old one in all that clients notice after each step,
  for as long as every snapshot was fresh at the handover.
-/
theorem handover_transparent
    (capacity : Nat)
    (capacity_pos : 0 < capacity)
    (earlier : List Request)
    (streams : List StreamId)
    (later : List Request)
    (hShared :
      ∀ request ∈ later,
        request.Shared ((new capacity capacity_pos).run earlier).2
          streams) :
    ∃ next,
      ((new capacity capacity_pos).run earlier).2.handover streams =
        .ok next ∧
      ∀ front, front <+: later →
        Alike ((new capacity capacity_pos).run earlier).2 streams
          ((new capacity capacity_pos).run earlier).2 next front := by
  have hConsistent := consistent_run_new capacity capacity_pos earlier
  rcases shadows_handover hConsistent streams with
    ⟨next, hHandover, hShadows⟩
  refine ⟨next, hHandover, ?_⟩
  intro front hFront
  apply hShadows.alike rfl
  intro request hRequest
  exact hShared request (hFront.subset hRequest)

/-
  A cache with room for two keys is full when the new sequencer
  takes over. The old one has to evict a key for the first
  write after that, and the new one does not. A write of three
  keys empties both.
-/
def historyBeforeHandover : List Request :=
  let stream := StreamId.ofNat 7
  [ .token [stream] 3,
    .commit ⟨Address.ofNat 2, ∅, SortedSet.ofList [⟨stream, [1]⟩]⟩ [],
    .commit ⟨Address.ofNat 2, ∅, SortedSet.ofList [⟨stream, [2]⟩]⟩ [] ]

def requestsAfterHandover : List Request :=
  let stream := StreamId.ofNat 7
  let one : SortedSet ConflictKey := SortedSet.ofList [⟨stream, [1]⟩]
  let three : SortedSet ConflictKey := SortedSet.ofList [⟨stream, [3]⟩]
  let many : SortedSet ConflictKey :=
    SortedSet.ofList [⟨stream, [4]⟩, ⟨stream, [5]⟩, ⟨stream, [6]⟩]
  [ .commit ⟨Address.ofNat 4, ∅, three⟩ [],
    .commit ⟨Address.ofNat 4, one, ∅⟩ [stream],
    .commit ⟨Address.ofNat 4, three, one⟩ [],
    .commit ⟨Address.ofNat 5, ∅, many⟩ [],
    .commit ⟨Address.ofNat 4, many, ∅⟩ [],
    .trim (Address.ofNat 7),
    .token [stream] 2,
    .tails [stream] ]

theorem requestsAfterHandover_alike :
    (∀ request ∈ requestsAfterHandover,
        request.Shared ((new 2 (by decide)).run historyBeforeHandover).2
          [StreamId.ofNat 7]) ∧
      ∃ next,
        ((new 2 (by decide)).run historyBeforeHandover).2.handover
            [StreamId.ofNat 7] = .ok next ∧
        ∀ front, front <+: requestsAfterHandover →
          Alike ((new 2 (by decide)).run historyBeforeHandover).2
            [StreamId.ofNat 7]
            ((new 2 (by decide)).run historyBeforeHandover).2 next
            front :=
  ⟨by decide,
    handover_transparent 2 (by decide) historyBeforeHandover
      [StreamId.ofNat 7] requestsAfterHandover (by decide)⟩

end Sequencer

end OrderedLog
