import OrderedLog.Proofs.ConflictCache.Evictions
import OrderedLog.Proofs.Sequencer.Attribution
import OrderedLog.Proofs.Sequencer.Steps

/-
  This file proves that the tails of the streams are exact. In
  an epoch the tail of a stream is the highest of the addresses
  that it is known to reach: its recovered tail and the last
  address of each operation that named it. A stream that is
  known to reach none has no tail.

  A token names the streams it is for. A committed transaction
  names those listed beside it and those of the keys it writes.
  Nothing else does.

  Key definitions include:
    * `Sequencer.Naming`
    * `Sequencer.naming?`
    * `Sequencer.Reaches`
    * `Sequencer.IsTail`
    * `Sequencer.KnowsTails`

  Key lemmas include:
    * `Sequencer.IsTail.raise`
    * `Sequencer.IsTail.named`
    * `Sequencer.tails_serve_of_none`
    * `Sequencer.get?_tails_serve`
    * `Sequencer.isTail_serve`
    * `Sequencer.isTail_run`

  Key theorems include:
    * `Sequencer.run_knows_tails`
-/

namespace OrderedLog

namespace Sequencer

------------------------------------------------------------
-- Named streams
------------------------------------------------------------

/- Streams that an operation named, and its last address. -/
structure Naming where
  streams : List StreamId
  last : Address
deriving DecidableEq

/- The streams that a request named, if it was successful. -/
def naming? : Request → Reply → Option Naming
  | .token streams _, .token token => some ⟨streams, token.last⟩
  | .commit t streams, .outcome (.committed address) =>
    some ⟨t.writes.toList.map ConflictKey.stream ++ streams, address⟩
  | _, _ => none

/- What the successful ones of some requests named, in order. -/
def namings
    (requests : List Request)
    (replies : List Reply) : List Naming :=
  (requests.zip replies).filterMap
    (fun served => naming? served.1 served.2)

theorem namings_cons
    (request : Request)
    (requests : List Request)
    (reply : Reply)
    (replies : List Reply) :
    namings (request :: requests) (reply :: replies) =
      (naming? request reply).toList ++ namings requests replies := by
  unfold namings
  simp only [List.zip_cons_cons, List.filterMap_eq_flatMap_toList,
    List.flatMap_cons]

/- An address that a stream is known to reach. -/
def Reaches
    (recovered : SortedMap StreamId Address)
    (history : List Naming)
    (stream : StreamId)
    (address : Address) : Prop :=
  recovered.get? stream = some address ∨
    ∃ named ∈ history, stream ∈ named.streams ∧ named.last = address

/- The highest of some addresses, if there are any. -/
def IsTail
    (reached : Address → Prop) : Option Address → Prop
  | none => ∀ address, ¬ reached address
  | some tail => IsGreatest {address | reached address} tail

/- One more address raises a tail to itself, or not, or begins one. -/
theorem IsTail.raise
    {reached : Address → Prop}
    {tail : Option Address}
    (h : IsTail reached tail)
    (other : Address) :
    IsTail (fun address => reached address ∨ address = other)
      (some (tail.elim other (fun old => old.max other))) := by
  cases tail with
  | none =>
    constructor
    · exact Or.inr rfl
    · intro address hAddress
      rcases hAddress with hReached | hSame
      · exact absurd hReached (h address)
      · rw [hSame]
        exact Address.le_refl other
  | some old => exact Address.isGreatest_max h other

theorem IsTail.congr
    {reached others : Address → Prop}
    {tail : Option Address}
    (h : IsTail reached tail)
    (hSame : ∀ address, others address ↔ reached address) :
    IsTail others tail := by
  have hEq : others = reached :=
    funext (fun address => propext (hSame address))
  rw [hEq]
  exact h

/- There is a tail if some address is reached. -/
theorem IsTail.exists_iff
    {reached : Address → Prop}
    {tail : Option Address}
    (h : IsTail reached tail) :
    (∃ address, tail = some address) ↔ ∃ address, reached address := by
  cases tail with
  | none =>
    constructor
    · intro hTail
      exact absurd hTail.choose_spec nofun
    · intro hReached
      exact absurd hReached.choose_spec (h _)
  | some tail => exact ⟨fun _ => ⟨tail, h.1⟩, fun _ => ⟨tail, rfl⟩⟩

variable {recovered : SortedMap StreamId Address}
variable {history : List Naming}
variable {stream : StreamId}

theorem isTail_recovered :
    IsTail (Reaches recovered [] stream) (recovered.get? stream) := by
  have hNever : ∀ address,
      ¬ ∃ named ∈ ([] : List Naming),
        stream ∈ named.streams ∧ named.last = address := by
    rintro address ⟨named, hNamed, _⟩
    exact absurd hNamed List.not_mem_nil
  cases hRecovered : recovered.get? stream with
  | none =>
    rintro address (hTail | hNamed)
    · rw [hRecovered] at hTail
      cases hTail
    · exact hNever address hNamed
  | some tail =>
    constructor
    · exact Or.inl hRecovered
    · rintro address (hTail | hNamed)
      · rw [hRecovered, Option.some_inj] at hTail
        rw [hTail]
        exact Address.le_refl address
      · exact absurd hNamed (hNever address)

theorem reaches_append_iff
    {named : Naming}
    {address : Address} :
    Reaches recovered (history ++ [named]) stream address ↔
      Reaches recovered history stream address ∨
        (stream ∈ named.streams ∧ named.last = address) := by
  unfold Reaches
  simp only [List.mem_append, List.mem_singleton]
  constructor
  · rintro (hTail | ⟨other, hOld | rfl, hOther⟩)
    · exact Or.inl (Or.inl hTail)
    · exact Or.inl (Or.inr ⟨other, hOld, hOther⟩)
    · exact Or.inr hOther
  · rintro ((hTail | ⟨other, hOld, hOther⟩) | hNamed)
    · exact Or.inl hTail
    · exact Or.inr ⟨other, Or.inl hOld, hOther⟩
    · exact Or.inr ⟨named, Or.inr rfl, hNamed⟩

/- A tail is raised for a stream that is named, and no other. -/
theorem IsTail.named
    {tail : Option Address}
    (h : IsTail (Reaches recovered history stream) tail)
    (named : Naming) :
    IsTail (Reaches recovered (history ++ [named]) stream)
      (if stream ∈ named.streams then
        some (tail.elim named.last (fun old => old.max named.last))
      else
        tail) := by
  by_cases hNamed : stream ∈ named.streams
  · rw [if_pos hNamed]
    apply (h.raise named.last).congr
    intro address
    rw [reaches_append_iff]
    simp [hNamed, eq_comm]
  · rw [if_neg hNamed]
    apply h.congr
    intro address
    simp [reaches_append_iff, hNamed]

------------------------------------------------------------
-- Steps
------------------------------------------------------------

/- What names no stream leaves every tail as it was. -/
theorem tails_serve_of_none
    {s : Sequencer}
    {request : Request}
    (hEpoch : request.inEpoch = true)
    (hNone : naming? request (s.serve request).1 = none) :
    (s.serve request).2.tails = s.tails := by
  cases request with
  | token streams count =>
    rw [serve] at hNone ⊢
    split at hNone
    · cases hNone
    · rfl
  | commit t streams =>
    rw [serve] at hNone ⊢
    split at hNone
    · next outcome next hCommit =>
      cases outcome with
      | committed address => cases hNone
      | aborted reason =>
        rw [commit_of_aborted hCommit]
    · next refusal next hCommit =>
      rw [commit_of_refused hCommit]
  | tails streams => rfl
  | trim mark => rfl
  | restart tails => exact absurd hEpoch Bool.false_ne_true
  | handover streams => exact absurd hEpoch Bool.false_ne_true

/- What names some streams raises just their tails. -/
theorem get?_tails_serve
    {s : Sequencer}
    {request : Request}
    {named : Naming}
    (h : naming? request (s.serve request).1 = some named)
    (stream : StreamId) :
    (s.serve request).2.tails.get? stream =
      if stream ∈ named.streams then
        some ((s.tails.get? stream).elim named.last
          (fun old => old.max named.last))
      else
        s.tails.get? stream := by
  cases request with
  | token streams count =>
    rw [serve] at h ⊢
    split at h
    · next hIssue =>
      cases h
      rcases issue_eq hIssue with ⟨_, _, _, _, hTails⟩
      simp only
      rw [hTails, get?_raise]
    · cases h
  | commit t streams =>
    rw [serve] at h ⊢
    split at h
    · next outcome next hCommit =>
      cases outcome with
      | committed address =>
        cases h
        have hWritten :
            stream ∈ (written t streams).toList ↔
              stream ∈ t.writes.toList.map ConflictKey.stream ++ streams :=
          SortedSet.mem_toList_iff.trans SortedSet.mem_ofList_iff
        simp only
        rw [tails_of_committed hCommit, get?_raise]
        simp only [hWritten]
      | aborted reason => cases h
    · cases h
  | tails streams => cases h
  | trim mark => cases h
  | restart tails => cases h
  | handover streams => cases h

theorem isTail_serve
    {s : Sequencer}
    (h : IsTail (Reaches recovered history stream) (s.tails.get? stream))
    {request : Request}
    (hEpoch : request.inEpoch = true) :
    IsTail
      (Reaches recovered
        (history ++ (naming? request (s.serve request).1).toList) stream)
      ((s.serve request).2.tails.get? stream) := by
  cases hNaming : naming? request (s.serve request).1 with
  | none =>
    rw [Option.toList_none, List.append_nil,
      tails_serve_of_none hEpoch hNaming]
    exact h
  | some named =>
    rw [Option.toList_some, get?_tails_serve hNaming]
    exact h.named named

theorem isTail_run
    {s : Sequencer}
    (h : IsTail (Reaches recovered history stream) (s.tails.get? stream))
    {requests : List Request}
    (hEpoch : ∀ request ∈ requests, request.inEpoch = true) :
    IsTail
      (Reaches recovered
        (history ++ namings requests (s.run requests).1) stream)
      ((s.run requests).2.tails.get? stream) := by
  induction requests generalizing s history with
  | nil =>
    rw [namings, List.zip_nil_left, List.filterMap_nil, List.append_nil]
    exact h
  | cons request requests ih =>
    rw [run, namings_cons, ← List.append_assoc]
    apply ih (isTail_serve h (hEpoch request List.mem_cons_self))
    intro other hOther
    exact hEpoch other (List.mem_cons_of_mem request hOther)

------------------------------------------------------------
-- Reports
------------------------------------------------------------

/-
  A sequencer reports the exact tails of all streams that it is
  asked for, after requests of an epoch that began with some
  recovered tails.
-/
structure KnowsTails
    (start : Sequencer)
    (recovered : SortedMap StreamId Address)
    (requests : List Request) : Prop where
  /- Just those streams have a tail that were known or named. -/
  reported_iff :
    ∀ streams stream,
      stream ∈ ((start.run requests).2.tailsOf streams).streams ↔
        stream ∈ streams ∧
          (stream ∈ recovered ∨
            ∃ named ∈ namings requests (start.run requests).1,
              stream ∈ named.streams)
  /- The tail is the highest address that the stream reaches. -/
  greatest :
    ∀ streams stream tail,
      ((start.run requests).2.tailsOf streams).streams.get? stream =
          some tail →
        IsGreatest
          {address |
            Reaches recovered
              (namings requests (start.run requests).1) stream address}
          tail
  /- What is refused, aborted or trimmed moves no tail. -/
  idle :
    ∀ before request, before ++ [request] <+: requests →
      naming? request ((start.run before).2.serve request).1 = none →
        ((start.run before).2.serve request).2.tails =
          (start.run before).2.tails

/- A stream has a tail if it is known to reach some address. -/
theorem mem_of_isTail_iff
    {tails : SortedMap StreamId Address}
    (h : IsTail (Reaches recovered history stream) (tails.get? stream)) :
    stream ∈ tails ↔
      stream ∈ recovered ∨ ∃ named ∈ history, stream ∈ named.streams := by
  have hReached :
      (∃ address, Reaches recovered history stream address) ↔
        stream ∈ recovered ∨
          ∃ named ∈ history, stream ∈ named.streams := by
    rw [SortedMap.mem_iff_exists]
    constructor
    · rintro ⟨address, hTail | ⟨named, hNamed, hStream, _⟩⟩
      · exact Or.inl ⟨address, hTail⟩
      · exact Or.inr ⟨named, hNamed, hStream⟩
    · rintro (⟨address, hTail⟩ | ⟨named, hNamed, hStream⟩)
      · exact ⟨address, Or.inl hTail⟩
      · exact ⟨named.last, Or.inr ⟨named, hNamed, hStream, rfl⟩⟩
  rw [← hReached, SortedMap.mem_iff_exists]
  exact h.exists_iff

/-
  The tails of the streams are exact in every epoch, whether it
  opened on a fresh log or from any recovered tails, even from
  such as lie above all addresses that were handed out since.
-/
theorem run_knows_tails
    (opening : Opening)
    (start : Sequencer)
    (hStart : opening.sequencer? = .ok start)
    (requests : List Request)
    (hEpoch : ∀ request ∈ requests, request.inEpoch = true) :
    start.KnowsTails opening.tails.streams requests := by
  have hTail : ∀ stream,
      IsTail
        (Reaches opening.tails.streams
          (namings requests (start.run requests).1) stream)
        ((start.run requests).2.tails.get? stream) := by
    intro stream
    have hRecovered :
        IsTail (Reaches opening.tails.streams [] stream)
          (start.tails.get? stream) := by
      rw [(Opening.sequencer?_eq hStart).1]
      exact isTail_recovered
    have hRun := isTail_run hRecovered hEpoch
    rw [List.nil_append] at hRun
    exact hRun
  constructor
  · intro streams stream
    rw [← mem_of_isTail_iff (hTail stream), SortedMap.mem_iff_exists,
      SortedMap.mem_iff_exists]
    simp only [get?_streams_tailsOf, Option.ite_none_right_eq_some,
      exists_and_left]
  · intro streams stream tail hReported
    rw [get?_streams_tailsOf, Option.ite_none_right_eq_some] at hReported
    have hGreatest := hTail stream
    rw [hReported.2] at hGreatest
    exact hGreatest
  · intro before request hPrefix hNone
    apply tails_serve_of_none _ hNone
    exact hEpoch request (hPrefix.subset (by simp))

/-
  The tail that was recovered for the second stream is above all
  that is handed out. Of the streams of the two transactions the
  fourth is only read from, and the fifth is that of an abort.
  The sixth is refused a token.
-/
def namingOpening : Opening :=
  .recovery (new 3 (by decide))
    { global := some (Address.ofNat 49)
      streams :=
        ((∅ : SortedMap StreamId Address).insert
          (StreamId.ofNat 1) (Address.ofNat 40)).insert
            (StreamId.ofNat 2) (Address.ofNat 90) }

def namingRequests : List Request :=
  let keys := fun (stream : Nat) =>
    SortedSet.ofList [(⟨StreamId.ofNat stream, [1]⟩ : ConflictKey)]
  [ .token [StreamId.ofNat 1, StreamId.ofNat 2, StreamId.ofNat 1] 3,
    .commit ⟨Address.ofNat 52, keys 4, keys 3⟩ [StreamId.ofNat 1],
    .commit ⟨Address.ofNat 52, keys 3, keys 5⟩ [StreamId.ofNat 1],
    .trim (Address.ofNat 60),
    .token [StreamId.ofNat 6] 0 ]

theorem namingRequests_known_tails :
    ∃ start, namingOpening.sequencer? = .ok start ∧
      (∀ request ∈ namingRequests, request.inEpoch = true) ∧
      ((start.run namingRequests).2.tailsOf
          ([1, 1, 2, 3, 4, 5, 6].map StreamId.ofNat)).streams.entries =
        [ (StreamId.ofNat 1, Address.ofNat 53),
          (StreamId.ofNat 2, Address.ofNat 90),
          (StreamId.ofNat 3, Address.ofNat 53) ] ∧
      start.KnowsTails namingOpening.tails.streams namingRequests := by
  have hOpening : namingOpening.tails.global ≠ some Address.last := by
    decide
  have hEpoch : ∀ request ∈ namingRequests, request.inEpoch = true := by
    decide
  rcases Opening.exists_sequencer hOpening with ⟨start, hStart⟩
  refine ⟨start, hStart, hEpoch, ?_, ?_⟩
  · cases hStart
    decide
  · exact run_knows_tails namingOpening start hStart namingRequests hEpoch

end Sequencer

end OrderedLog
