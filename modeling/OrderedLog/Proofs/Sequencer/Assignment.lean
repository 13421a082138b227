import OrderedLog.Proofs.Sequencer.Extent
import OrderedLog.Proofs.Sequencer.Serializability
import OrderedLog.Proofs.Sequencer.Steps

/-
  This file proves that the addresses of the log are handed out
  exactly once and without gaps. Every token and every commit
  takes a span of addresses. A span begins right after the one
  before it, even if another sequencer took over in between, and
  the last one ends at the tail.

  The invariant is that the spans tile the positions from the
  first one up to the next address. As this is an address as
  well, nothing that was handed out is the last address, and no
  sum is out of range.

  Key definitions include:
    * `Span`
    * `Span.Tiles`
    * `Sequencer.Reply.span?`
    * `Sequencer.Event`
    * `Sequencer.followAll`
    * `Sequencer.HandsOut`

  Key lemmas include:
    * `Span.Tiles.append`
    * `Span.Tiles.bounds`
    * `Span.Tiles.mem_iff`
    * `Sequencer.counted_issue`
    * `Sequencer.tiles_issue`
    * `Sequencer.tiles_commit`
    * `Sequencer.tiles_serve`
    * `Sequencer.tiles_follow`
    * `Sequencer.tiles_followAll`
    * `Sequencer.Consistent.followAll`
    * `Sequencer.exists_follow_of_mem`

  Key theorems include:
    * `Sequencer.addresses_handed_out_once`
-/

namespace OrderedLog

------------------------------------------------------------
-- Spans
------------------------------------------------------------

/- The addresses from the first one to the last one. -/
structure Span where
  first : Address
  last : Address
deriving DecidableEq

namespace Span

instance : Membership Address Span :=
  ⟨fun span address => span.first ≤ address ∧ address ≤ span.last⟩

/-
  Spans that cover the positions from a start up to a stop, which
  is not one of them. Each begins right after the one before it.
-/
def Tiles : (start stop : Nat) → List Span → Prop
  | start, stop, [] => start = stop
  | start, stop, span :: spans =>
    span.first.val = start ∧ span.first ≤ span.last ∧
      Tiles (span.last.val + 1) stop spans

variable {start middle stop : Nat}
variable {spans others : List Span}

theorem Tiles.append
    (h : Tiles start middle spans)
    (hOthers : Tiles middle stop others) :
    Tiles start stop (spans ++ others) := by
  induction spans generalizing start with
  | nil =>
    cases h
    exact hOthers
  | cons span spans ih =>
    rcases h with ⟨hFirst, hSpan, hRest⟩
    exact ⟨hFirst, hSpan, ih hRest⟩

theorem Tiles.le (h : Tiles start stop spans) : start ≤ stop := by
  induction spans generalizing start with
  | nil => exact Nat.le_of_eq h
  | cons span spans ih =>
    rcases h with ⟨hFirst, hSpan, hRest⟩
    have hStop := ih hRest
    rw [Address.le_iff_val_le] at hSpan
    omega

/- Every span has an address, and all of them are in bounds. -/
theorem Tiles.bounds
    (h : Tiles start stop spans)
    {span : Span}
    (hSpan : span ∈ spans) :
    start ≤ span.first.val ∧ span.first ≤ span.last ∧
      span.last.val < stop := by
  induction spans generalizing start with
  | nil => exact absurd hSpan List.not_mem_nil
  | cons head spans ih =>
    rcases h with ⟨hFirst, hHead, hRest⟩
    rcases List.mem_cons.mp hSpan with rfl | hMem
    · exact ⟨Nat.le_of_eq hFirst.symm, hHead, hRest.le⟩
    · rcases ih hRest hMem with ⟨hStart, hBounds⟩
      refine ⟨?_, hBounds⟩
      rw [Address.le_iff_val_le] at hHead
      omega

/- The addresses in the spans are those in bounds. -/
theorem Tiles.mem_iff
    (h : Tiles start stop spans)
    {address : Address} :
    (∃ span ∈ spans, address ∈ span) ↔
      start ≤ address.val ∧ address.val < stop := by
  constructor
  · rintro ⟨span, hSpan, hFrom, hTo⟩
    rcases h.bounds hSpan with ⟨hStart, _, hStop⟩
    exact ⟨Nat.le_trans hStart hFrom, Nat.lt_of_le_of_lt hTo hStop⟩
  · rintro ⟨hStart, hStop⟩
    induction spans generalizing start with
    | nil =>
      cases h
      exact absurd hStart (Nat.not_le.mpr hStop)
    | cons span spans ih =>
      rcases h with ⟨hFirst, _, hRest⟩
      by_cases hTo : address ≤ span.last
      · refine ⟨span, List.mem_cons_self, ?_, hTo⟩
        rw [Address.le_iff_val_le, hFirst]
        exact hStart
      · rcases ih hRest (Nat.lt_of_not_le hTo) with ⟨other, hOther, hMem⟩
        exact ⟨other, List.mem_cons_of_mem span hOther, hMem⟩

/- No address is in two of the spans. -/
theorem Tiles.apart
    (h : Tiles start stop spans) :
    spans.Pairwise
      (fun earlier later => ∀ address ∈ earlier, address ∉ later) := by
  induction spans generalizing start with
  | nil => exact List.Pairwise.nil
  | cons span spans ih =>
    rcases h with ⟨_, _, hRest⟩
    apply List.Pairwise.cons _ (ih hRest)
    intro later hLater address hMem hOther
    have hFirst := (hRest.bounds hLater).1
    have hAfter : span.last < later.first := hFirst
    exact Address.not_lt.mpr (Address.le_trans hOther.1 hMem.2) hAfter

end Span

namespace Sequencer

------------------------------------------------------------
-- What is handed out
------------------------------------------------------------

/- The addresses that a reply hands out. -/
def Reply.span? : Reply → Option Span
  | .token issued => some ⟨issued.start, issued.last⟩
  | .outcome (.committed address) => some ⟨address, address⟩
  | _ => none

/- The spans that are handed out, in the order of the replies. -/
def spans (replies : List Reply) : List Span :=
  replies.filterMap Reply.span?

theorem spans_cons
    (reply : Reply)
    (replies : List Reply) :
    spans (reply :: replies) = reply.span?.toList ++ spans replies := by
  unfold spans
  simp only [List.filterMap_eq_flatMap_toList, List.flatMap_cons]

/- Neither sum that is taken for a token is out of range. -/
theorem counted_issue
    {s next : Sequencer}
    {streams : List StreamId}
    {count : Nat}
    {token : Token}
    (h : s.issue streams count = .ok (token, next)) :
    token.start.val + token.count < UInt64.size ∧
      token.last.val + 1 = token.start.val + token.count := by
  rcases issue_eq h with ⟨hCount, rfl, hNext, _⟩
  have hRange := next.next.val_lt
  rw [hNext] at hRange
  refine ⟨hRange, ?_⟩
  unfold Token.last Address.ofNat
  simp only
  rw [Nat.mod_eq_of_lt (by omega)]
  omega

/- A token takes the addresses before the new next one. -/
theorem tiles_issue
    {s next : Sequencer}
    {streams : List StreamId}
    {count : Nat}
    {token : Token}
    (h : s.issue streams count = .ok (token, next)) :
    Span.Tiles s.next.val next.next.val [⟨token.start, token.last⟩] := by
  have hLast := (counted_issue h).2
  rcases issue_eq h with ⟨hCount, rfl, hNext, _⟩
  refine ⟨rfl, ?_, hLast.trans hNext.symm⟩
  rw [Address.le_iff_val_le]
  simp only at hLast ⊢
  omega

/- A commit takes the one address before the new next one. -/
theorem tiles_commit
    {s next : Sequencer}
    {t : Transaction}
    {streams : List StreamId}
    {address : Address}
    (h : s.commit t streams = (.ok (.committed address), next)) :
    Span.Tiles s.next.val next.next.val [⟨address, address⟩] := by
  rcases commit_cases h with ⟨rfl, hNext, _⟩
  exact ⟨rfl, Address.le_refl s.next, hNext.symm⟩

/- A request hands out just what lies before the next address. -/
theorem tiles_serve
    (s : Sequencer)
    {request : Request}
    (hOrdinary : request.ordinary = true) :
    Span.Tiles s.next.val (s.serve request).2.next.val
      (s.serve request).1.span?.toList := by
  cases request with
  | token streams count =>
    rw [serve]
    split
    · next hIssue => exact tiles_issue hIssue
    · exact rfl
  | commit t streams =>
    rw [serve]
    split
    · next outcome next hCommit =>
      cases outcome with
      | committed address => exact tiles_commit hCommit
      | aborted reason =>
        rw [commit_of_aborted hCommit]
        exact rfl
    · next refusal next hCommit =>
      rw [commit_of_refused hCommit]
      exact rfl
  | tails streams => exact rfl
  | trim mark => exact rfl
  | restart tails => exact absurd hOrdinary Bool.false_ne_true
  | handover streams =>
    rcases s.handover_eq streams with ⟨bound, hHandover, _⟩
    rw [serve, hHandover]
    exact rfl

------------------------------------------------------------
-- Events
------------------------------------------------------------

/- What may happen to the sequencers of one log. -/
inductive Event where
  /- The sequencer is asked for something. -/
  | request
      (request : Request)
  /-
    Another sequencer takes over. It is restarted from what this
    one reports about itself and some streams.
  -/
  | takeover
      (successor : Sequencer)
      (streams : List StreamId)

/- No restart is from tails that the sequencer did not report. -/
def Event.ordinary : Event → Bool
  | .request asked => asked.ordinary
  | .takeover _ _ => true

/- The reply to an event, and the sequencer after it. -/
def follow
    (s : Sequencer) : Event → Reply × Sequencer
  | .request asked => s.serve asked
  | .takeover successor streams =>
    match successor.restart (s.tailsOf streams) with
    | .ok next => (.started, next)
    | .error refusal => (.refused refusal, s)

/- Events in turn. The replies are in the same order. -/
def followAll
    (s : Sequencer) : List Event → List Reply × Sequencer
  | [] => ([], s)
  | event :: events =>
    let followed := s.follow event
    let others := followAll followed.2 events
    (followed.1 :: others.1, others.2)

/- Requests alone are served as ever. -/
theorem followAll_requests
    (s : Sequencer)
    (requests : List Request) :
    s.followAll (requests.map Event.request) = s.run requests := by
  induction requests generalizing s with
  | nil => rfl
  | cons request requests ih =>
    rw [List.map_cons, followAll, run, ← ih]
    rfl

/- A takeover succeeds and goes on at the same address. -/
theorem follow_takeover
    (s successor : Sequencer)
    (streams : List StreamId) :
    (s.follow (.takeover successor streams)).1 = .started ∧
      (s.follow (.takeover successor streams)).2.next = s.next := by
  rcases restart_tailsOf_eq successor s streams with ⟨bound, hRestart, _⟩
  rw [follow, hRestart]
  exact ⟨rfl, rfl⟩

theorem tiles_follow
    (s : Sequencer)
    {event : Event}
    (hOrdinary : event.ordinary = true) :
    Span.Tiles s.next.val (s.follow event).2.next.val
      (s.follow event).1.span?.toList := by
  cases event with
  | request request => exact s.tiles_serve hOrdinary
  | takeover successor streams =>
    rcases s.follow_takeover successor streams with ⟨hReply, hNext⟩
    rw [hReply, hNext]
    exact rfl

/- Events that hand nothing out leave the next address alone. -/
theorem next_follow_of_idle
    {s : Sequencer}
    {event : Event}
    (hOrdinary : event.ordinary = true)
    (hIdle : (s.follow event).1.span? = none) :
    (s.follow event).2.next = s.next := by
  have hTiles := s.tiles_follow hOrdinary
  rw [hIdle] at hTiles
  exact Address.eq_of_val_eq hTiles.symm

theorem tiles_followAll
    (s : Sequencer)
    {events : List Event}
    (hOrdinary : ∀ event ∈ events, event.ordinary = true) :
    Span.Tiles s.next.val (s.followAll events).2.next.val
      (spans (s.followAll events).1) := by
  induction events generalizing s with
  | nil => exact rfl
  | cons event events ih =>
    rw [followAll, spans_cons]
    apply (s.tiles_follow (hOrdinary event List.mem_cons_self)).append
    exact ih _ (fun other hOther =>
      hOrdinary other (List.mem_cons_of_mem event hOther))

theorem tiles_run
    (s : Sequencer)
    {requests : List Request}
    (hOrdinary : ∀ request ∈ requests, request.ordinary = true) :
    Span.Tiles s.next.val (s.run requests).2.next.val
      (spans (s.run requests).1) := by
  rw [← followAll_requests]
  apply s.tiles_followAll
  intro event hEvent
  rcases List.mem_map.mp hEvent with ⟨request, hRequest, rfl⟩
  exact hOrdinary request hRequest

/- Whatever happens, the cache stays behind the log. -/
theorem Consistent.follow
    {s : Sequencer}
    (h : s.Consistent)
    (event : Event) : (s.follow event).2.Consistent := by
  cases event with
  | request request => exact h.serve request
  | takeover successor streams =>
    rw [Sequencer.follow]
    split
    · next hRestart => exact consistent_restart hRestart
    · exact h

theorem Consistent.followAll
    {s : Sequencer}
    (h : s.Consistent)
    (events : List Event) : (s.followAll events).2.Consistent := by
  induction events generalizing s with
  | nil => exact h
  | cons event events ih => exact ih (h.follow event)

theorem Opening.consistent
    {opening : Opening}
    {s : Sequencer}
    (h : opening.sequencer? = .ok s) : s.Consistent := by
  cases opening with
  | fresh capacity capacity_pos =>
    cases h
    exact consistent_new capacity capacity_pos
  | recovery previous tails => exact consistent_restart h

/- Every reply was given by some sequencer to some event. -/
theorem exists_follow_of_mem
    {s : Sequencer}
    {events : List Event}
    {reply : Reply}
    (h : reply ∈ (s.followAll events).1) :
    ∃ before event,
      before ++ [event] <+: events ∧
        ((s.followAll before).2.follow event).1 = reply := by
  induction events generalizing s with
  | nil => exact absurd h List.not_mem_nil
  | cons event events ih =>
    rw [followAll, List.mem_cons] at h
    rcases h with hHere | hLater
    · exact ⟨[], event, ⟨events, rfl⟩, hHere.symm⟩
    · rcases ih hLater with ⟨before, later, hPrefix, hReply⟩
      refine ⟨event :: before, later, ?_, hReply⟩
      exact List.cons_prefix_cons.mpr ⟨rfl, hPrefix⟩

------------------------------------------------------------
-- The whole log
------------------------------------------------------------

/- The addresses up to the tail are those before the next one. -/
theorem exists_tail_iff
    {s : Sequencer}
    {address : Address} :
    (∃ tail ∈ s.tail?, address ≤ tail) ↔ address < s.next := by
  constructor
  · rintro ⟨tail, hTail, hLe⟩
    have hVal := Address.pred?_eq_some_iff.mp hTail
    rw [Address.le_iff_val_le] at hLe
    rw [Address.lt_iff_val_lt]
    omega
  · intro hLt
    cases hTail : s.tail? with
    | none =>
      rw [Address.pred?_eq_none_iff.mp hTail] at hLt
      exact absurd hLt (Nat.not_lt_zero _)
    | some tail =>
      have hVal := Address.pred?_eq_some_iff.mp hTail
      refine ⟨tail, rfl, ?_⟩
      rw [Address.lt_iff_val_lt] at hLt
      rw [Address.le_iff_val_le]
      omega

/-
  From some position on, the sequencers of a log hand out every
  address once, whatever happens to them.
-/
structure HandsOut
    (start : Sequencer)
    (first : Nat)
    (events : List Event) : Prop where
  /- Each span begins right after the one before it. -/
  tiled :
    Span.Tiles first (start.followAll events).2.next.val
      (spans (start.followAll events).1)
  /- All spans together have the addresses up to the tail. -/
  covered :
    ∀ address,
      (∃ span ∈ spans (start.followAll events).1, address ∈ span) ↔
        first ≤ address.val ∧
          ∃ tail ∈ (start.followAll events).2.tail?, address ≤ tail
  apart :
    (spans (start.followAll events).1).Pairwise
      (fun earlier later => ∀ address ∈ earlier, address ∉ later)
  /- The last address of all is never handed out. -/
  below_last :
    ∀ span ∈ spans (start.followAll events).1, span.last < Address.last
  /- Neither sum that is taken for a token is out of range. -/
  counted :
    ∀ token, .token token ∈ (start.followAll events).1 →
      token.start.val + token.count < UInt64.size ∧
        token.last.val + 1 = token.start.val + token.count
  /- What is refused or aborted takes no address. -/
  idle :
    ∀ before event, before ++ [event] <+: events →
      ((start.followAll before).2.follow event).1.span? = none →
        ((start.followAll before).2.follow event).2.next =
          (start.followAll before).2.next
  /- A token is refused only if it is empty or takes too much. -/
  granted :
    ∀ before streams count,
      before ++ [.request (.token streams count)] <+: events →
        0 < count →
          (start.followAll before).2.next.val + count < UInt64.size →
            ((start.followAll before).2.follow
              (.request (.token streams count))).1 =
                .token ⟨(start.followAll before).2.next, count⟩
  /- A transaction that may commit does so while there is room. -/
  committed :
    ∀ before t streams,
      before ++ [.request (.commit t streams)] <+: events →
        (start.followAll before).2.cache.verdict t = .commit →
          (start.followAll before).2.next ≠ Address.last →
            ((start.followAll before).2.follow
              (.request (.commit t streams))).1 =
                .outcome (.committed (start.followAll before).2.next)
  /- No takeover is refused. -/
  started :
    ∀ before successor streams,
      before ++ [.takeover successor streams] <+: events →
        ((start.followAll before).2.follow
          (.takeover successor streams)).1 = .started

/- Only a request for a token is replied to with one. -/
theorem exists_issue_of_token
    {s : Sequencer}
    {event : Event}
    {token : Token}
    (h : (s.follow event).1 = .token token) :
    ∃ streams count next, s.issue streams count = .ok (token, next) := by
  cases event with
  | takeover successor streams =>
    rw [(s.follow_takeover successor streams).1] at h
    cases h
  | request request =>
    rw [follow] at h
    cases request with
    | token streams count =>
      rw [serve] at h
      split at h
      · next hIssue =>
        cases h
        exact ⟨streams, count, _, hIssue⟩
      · cases h
    | commit t streams =>
      rw [serve] at h
      split at h <;> cases h
    | tails streams => cases h
    | trim mark => cases h
    | restart tails =>
      rw [serve] at h
      split at h <;> cases h
    | handover streams =>
      rw [serve] at h
      split at h <;> cases h

theorem Consistent.handsOut
    {start : Sequencer}
    (h : start.Consistent)
    {events : List Event}
    (hOrdinary : ∀ event ∈ events, event.ordinary = true) :
    start.HandsOut start.next.val events := by
  have hTiles := start.tiles_followAll hOrdinary
  constructor
  · exact hTiles
  · intro address
    rw [exists_tail_iff]
    exact hTiles.mem_iff
  · exact hTiles.apart
  · intro span hSpan
    have hLast := (hTiles.bounds hSpan).2.2
    have hRange := (start.followAll events).2.next.val_lt
    change span.last.val < UInt64.size - 1
    omega
  · intro token hToken
    rcases exists_follow_of_mem hToken with ⟨before, event, _, hReply⟩
    rcases exists_issue_of_token hReply with ⟨_, _, _, hIssue⟩
    exact counted_issue hIssue
  · intro before event hPrefix hIdle
    apply next_follow_of_idle _ hIdle
    exact hOrdinary event (hPrefix.subset (by simp))
  · intro before streams count _ hCount hRoom
    rcases exists_issue _ streams hCount hRoom with ⟨next, hIssue⟩
    rw [Sequencer.follow, Sequencer.serve, hIssue]
  · intro before t streams _ hVerdict hRoom
    rcases (h.followAll before).exists_commit hVerdict hRoom streams with
      ⟨next, hCommit⟩
    rw [Sequencer.follow, Sequencer.serve, hCommit]
  · intro before successor streams _
    exact ((start.followAll before).2.follow_takeover
      successor streams).1

/-
  An epoch opens on a fresh log or after any global tail but the
  last address. From then on the addresses are handed out once
  and without gaps, from the first address of all or from the
  one after that tail, whatever is asked for and however often
  another sequencer takes over.
-/
theorem addresses_handed_out_once
    (opening : Opening)
    (hOpening : opening.tails.global ≠ some Address.last)
    (events : List Event)
    (hOrdinary : ∀ event ∈ events, event.ordinary = true) :
    ∃ start, opening.sequencer? = .ok start ∧
      start.HandsOut opening.first events := by
  rcases Opening.exists_sequencer hOpening with ⟨start, hStart⟩
  refine ⟨start, hStart, ?_⟩
  rw [← (Opening.sequencer?_eq hStart).2]
  exact (Opening.consistent hStart).handsOut hOrdinary

/-
  Seven addresses are left, and the last of all is not for use.
  A token for too many is refused, a transaction aborted. After
  a takeover by a sequencer with less room the rest is handed
  out, and nothing more.
-/
def lastOpening : Opening :=
  .recovery (new 9 (by decide))
    ⟨some (Address.ofNat (UInt64.size - 8)), ∅⟩

def lastEvents : List Event :=
  let stream := StreamId.ofNat 7
  let key : SortedSet ConflictKey := SortedSet.ofList [⟨stream, [1]⟩]
  let snapshot := Address.ofNat (UInt64.size - 8)
  [ .request (.token [stream] 2),
    .request (.commit ⟨snapshot, ∅, key⟩ []),
    .request (.token [stream] 4),
    .request (.commit ⟨snapshot, key, ∅⟩ []),
    .takeover (new 4 (by decide)) [stream],
    .request (.trim Address.last),
    .request (.token [] 3),
    .request (.commit ⟨Address.last, ∅, key⟩ []),
    .request (.token [] 1) ]

theorem lastEvents_handed_out :
    lastOpening.tails.global ≠ some Address.last ∧
      (∀ event ∈ lastEvents, event.ordinary = true) ∧
      lastOpening.sequencer?.toOption.map (fun start =>
          (spans (start.followAll lastEvents).1).map (fun span =>
            (span.first.val, span.last.val))) =
        some
          [ (UInt64.size - 7, UInt64.size - 6),
            (UInt64.size - 5, UInt64.size - 5),
            (UInt64.size - 4, UInt64.size - 2) ] ∧
      ∃ start, lastOpening.sequencer? = .ok start ∧
        start.HandsOut (UInt64.size - 7) lastEvents := by
  have hOpening : lastOpening.tails.global ≠ some Address.last := by
    decide
  have hOrdinary : ∀ event ∈ lastEvents, event.ordinary = true := by
    decide
  exact ⟨hOpening, hOrdinary, by decide,
    addresses_handed_out_once lastOpening hOpening lastEvents hOrdinary⟩

end Sequencer

end OrderedLog
