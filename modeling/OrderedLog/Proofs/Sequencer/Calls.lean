import OrderedLog.Proofs.ConflictCache.RefusedWrites
import OrderedLog.Sequencer.Request

/-
  This file defines how a sequencer carries out its calls on a
  state that it changes in place, step by step and with the keys
  of a transaction looked at in orders of their own. A call that
  fails halfway is not undone.

  It is proved what the state is at the end of each call, and
  that calls with their keys in sorted order are served as the
  requests are that they stand for.

  Key definitions include:
    * `ConflictCache.ruleInPlace`
    * `Sequencer.issueInPlace`
    * `Sequencer.restartInPlace`
    * `Sequencer.commitInPlace`
    * `Sequencer.Call`
    * `Sequencer.Call.perform`
    * `Sequencer.answer`
    * `Sequencer.answerAll`

  Key lemmas include:
    * `Sequencer.run_issueInPlace`
    * `Sequencer.run_restartInPlace`
    * `Sequencer.run_commitInPlace`
    * `Sequencer.commitInPlace_cases`
    * `Sequencer.answer_sorted`
    * `Sequencer.answerAll_sorted`
-/

namespace OrderedLog

------------------------------------------------------------
-- Verdicts in place
------------------------------------------------------------

namespace ConflictCache

/- Count a verdict. -/
def counted
    (c : ConflictCache)
    (verdict : Verdict) : ConflictCache :=
  { c with stats := c.stats.recordVerdict verdict }

/-
  Judge a transaction whose keys are looked at in the given
  orders, and count the verdict.
-/
def ruleInPlace
    (snapshot : Address)
    (reads : List ConflictKey)
    (writes : List ConflictKey) : InPlace ConflictCache Verdict := do
  let verdict := (← get).judge snapshot reads writes
  modify (fun c => c.counted verdict)
  return verdict

end ConflictCache

------------------------------------------------------------
-- Calls in place
------------------------------------------------------------

namespace Sequencer

/- A procedure on the conflict cache. -/
def onCache
    {α : Type}
    (procedure : InPlace ConflictCache α) : InPlace Sequencer α :=
  procedure.within Sequencer.cache (fun s cache => { s with cache })

/- Hand out `count` consecutive addresses to some streams. -/
def issueInPlace
    (streams : List StreamId)
    (count : Nat) : InPlace Sequencer Token := do
  if count = 0 then
    throw (.emptyToken count)
  let start := (← get).next
  match start.add? count with
  | none => throw (.exhausted start)
  | some next =>
    let token : Token := ⟨start, count⟩
    modify (fun s => { s with next := next })
    modify (fun s => { s with tails := raise s.tails streams token.last })
    return token

/-
  The bound of the cache and the first address of an epoch that
  starts after a global tail.
-/
def resume
    (tail? : Option Address) : InPlace Sequencer (Address × Address) :=
  match tail? with
  | none => return (Address.zero, Address.zero)
  | some tail =>
    match tail.next? with
    | none => throw (.exhausted tail)
    | some next => return (tail, next)

/- An empty cache with as much room as the present one. -/
def freshCache (bound : Address) : InPlace Sequencer ConflictCache := do
  match ConflictCache.new? (← get).cache.capacity bound with
  | .error refusal => throw refusal
  | .ok cache => return cache

/- Start a new epoch from recovered tails. -/
def restartInPlace (tails : Tails) : InPlace Sequencer Unit := do
  let (bound, next) ← resume tails.global
  let cache ← freshCache bound
  modify (fun s => { s with cache := cache })
  modify (fun s => { s with next := next })
  modify (fun s => { s with tails := tails.streams })

/-
  Judge a transaction with its keys in the given orders and, if
  it may commit, record its writes and hand out its address.
-/
def commitInPlace
    (t : Transaction)
    (streams : List StreamId)
    (reads writes recorded : List ConflictKey) :
    InPlace Sequencer Outcome := do
  match ← onCache (ConflictCache.ruleInPlace t.snapshot reads writes) with
  | .abort reason => return .aborted reason
  | .commit =>
    let start := (← get).next
    match start.next? with
    | none => throw (.exhausted start)
    | some next =>
      onCache (ConflictCache.recordInPlace recorded start)
      modify (fun s => { s with next := next })
      modify (fun s =>
        { s with
          tails := raise s.tails (written t streams).toList start })
      return .committed start

/- The sequencer with a verdict counted. -/
def counted
    (s : Sequencer)
    (verdict : Verdict) : Sequencer :=
  { s with cache := s.cache.counted verdict }

/-
  The sequencer once the writes of a transaction are recorded
  and its streams raised.
-/
def appended
    (s : Sequencer)
    (t : Transaction)
    (streams : List StreamId)
    (recorded : List ConflictKey)
    (next : Address) : Sequencer where
  cache :=
    if recorded.isEmpty then s.cache
    else s.cache.enterInOrder recorded s.next
  next := next
  tails := raise s.tails (written t streams).toList s.next

/- A token is issued, or nothing has changed. -/
theorem run_issueInPlace
    (s : Sequencer)
    (streams : List StreamId)
    (count : Nat) :
    (issueInPlace streams count).run s =
      match s.issue streams count with
      | .error refusal => .error refusal s
      | .ok (token, next) => .ok token next := by
  unfold issueInPlace issue
  by_cases hCount : count = 0
  · simp [hCount]
  · simp only [hCount, if_false, EStateM.run_bind, EStateM.run_get]
    cases s.next.add? count with
    | none => rfl
    | some next => rfl

/- There is always room in a cache of the present size. -/
theorem run_freshCache
    (s : Sequencer)
    (bound : Address) :
    (freshCache bound).run s =
      .ok (ConflictCache.new s.cache.capacity s.cache.capacity_pos bound)
        s := by
  have hNew :
      ConflictCache.new? s.cache.capacity bound =
        .ok (ConflictCache.new s.cache.capacity s.cache.capacity_pos
          bound) :=
    dif_pos s.cache.capacity_pos
  unfold freshCache
  simp only [EStateM.run_bind, EStateM.run_get, hNew]
  rfl

/- An epoch starts, or nothing has changed. -/
theorem run_restartInPlace
    (s : Sequencer)
    (tails : Tails) :
    (restartInPlace tails).run s =
      match s.restart tails with
      | .error refusal => .error refusal s
      | .ok next => .ok () next := by
  unfold restartInPlace restart
  rw [EStateM.run_bind]
  cases tails.global with
  | none =>
    simp only [resume, EStateM.run_pure, EStateM.run_bind, run_freshCache]
    rfl
  | some tail =>
    cases hNext : tail.next? with
    | none =>
      simp only [resume, hNext]
      rfl
    | some next =>
      simp only [resume, hNext, EStateM.run_pure, EStateM.run_bind,
        run_freshCache]
      rfl

/- A verdict leaves nothing but its count. -/
theorem run_onCache_ruleInPlace
    (s : Sequencer)
    (snapshot : Address)
    (reads writes : List ConflictKey) :
    (onCache (ConflictCache.ruleInPlace snapshot reads writes)).run s =
      .ok (s.cache.judge snapshot reads writes)
        (s.counted (s.cache.judge snapshot reads writes)) :=
  rfl

/- Writes are recorded, or nothing has changed. -/
theorem run_onCache_recordInPlace
    (s : Sequencer)
    (order : List ConflictKey)
    (version : Address) :
    (onCache (ConflictCache.recordInPlace order version)).run s =
      match s.cache.refusal? order version with
      | some refusal => .error refusal s
      | none =>
        .ok ()
          { s with
            cache :=
              if order.isEmpty then s.cache
              else s.cache.enterInOrder order version } := by
  unfold onCache
  rw [InPlace.run_within, ConflictCache.run_recordInPlace]
  cases s.cache.refusal? order version with
  | some refusal => rfl
  | none => rfl

/-
  A transaction commits, or nothing has changed but the count of
  its verdict.
-/
theorem run_commitInPlace
    (s : Sequencer)
    (t : Transaction)
    (streams : List StreamId)
    (reads writes recorded : List ConflictKey) :
    (commitInPlace t streams reads writes recorded).run s =
      let verdict := s.cache.judge t.snapshot reads writes
      match verdict with
      | .abort reason => .ok (.aborted reason) (s.counted verdict)
      | .commit =>
        match s.next.next? with
        | none => .error (.exhausted s.next) (s.counted verdict)
        | some next =>
          match s.cache.refusal? recorded s.next with
          | some refusal => .error refusal (s.counted verdict)
          | none =>
            .ok (.committed s.next)
              ((s.counted verdict).appended t streams recorded next) := by
  unfold commitInPlace
  rw [EStateM.run_bind, run_onCache_ruleInPlace]
  cases s.cache.judge t.snapshot reads writes with
  | abort reason => rfl
  | commit =>
    simp only [EStateM.run_bind, EStateM.run_get]
    have hNext : (s.counted .commit).next = s.next := rfl
    rw [hNext]
    cases s.next.next? with
    | none => rfl
    | some next =>
      have hRefusal :
          (s.counted .commit).cache.refusal? recorded s.next =
            s.cache.refusal? recorded s.next := rfl
      simp only [EStateM.run_bind, run_onCache_recordInPlace, hRefusal]
      cases s.cache.refusal? recorded s.next with
      | some refusal => rfl
      | none => rfl

/-
  What can become of a transaction. It is counted in any case,
  and in all cases but the last one that is all.
-/
theorem commitInPlace_cases
    (s : Sequencer)
    (t : Transaction)
    (streams : List StreamId)
    (reads writes recorded : List ConflictKey) :
    (∃ reason,
        s.cache.judge t.snapshot reads writes = .abort reason ∧
          (commitInPlace t streams reads writes recorded).run s =
            .ok (.aborted reason) (s.counted (.abort reason))) ∨
      (∃ refusal,
        s.cache.judge t.snapshot reads writes = .commit ∧
          (commitInPlace t streams reads writes recorded).run s =
            .error refusal (s.counted .commit)) ∨
      (∃ next,
        s.cache.judge t.snapshot reads writes = .commit ∧
          (commitInPlace t streams reads writes recorded).run s =
            .ok (.committed s.next)
              ((s.counted .commit).appended t streams recorded next)) := by
  rw [run_commitInPlace]
  cases s.cache.judge t.snapshot reads writes with
  | abort reason => exact Or.inl ⟨reason, rfl, rfl⟩
  | commit =>
    right
    cases s.next.next? with
    | none => exact Or.inl ⟨.exhausted s.next, rfl, rfl⟩
    | some next =>
      cases s.cache.refusal? recorded s.next with
      | some refusal => exact Or.inl ⟨refusal, rfl, rfl⟩
      | none => exact Or.inr ⟨next, rfl, rfl⟩

------------------------------------------------------------
-- Calls
------------------------------------------------------------

/-
  A request together with the orders in which the keys of its
  transaction are looked at: those that were read, those that
  are written, and those again when they are recorded.
-/
structure Call where
  request : Request
  reads : List ConflictKey
  writes : List ConflictKey
  recorded : List ConflictKey
deriving DecidableEq

namespace Call

/- The call of a request with all keys in sorted order. -/
def sorted (request : Request) : Call :=
  match request with
  | .commit t _ =>
    ⟨request, t.reads.toList, t.writes.toList, t.writes.toList⟩
  | _ => ⟨request, [], [], []⟩

/- Carry out a call in place. -/
def perform (call : Call) : InPlace Sequencer Reply :=
  match call.request with
  | .token streams count => do
    return .token (← issueInPlace streams count)
  | .commit t streams => do
    return .outcome
      (← commitInPlace t streams call.reads call.writes call.recorded)
  | .tails streams => do
    return .tails ((← get).tailsOf streams)
  | .trim mark => do
    return .evicted (← modifyGet (fun s => s.trim mark))
  | .restart tails => do
    restartInPlace tails
    return .started
  | .handover streams => do
    match (← get).handover streams with
    | .error refusal => throw refusal
    | .ok next =>
      set next
      return .started

end Call

/- Answer a call, be it with a refusal. -/
def answer
    (s : Sequencer)
    (call : Call) : Reply × Sequencer :=
  match call.perform.run s with
  | .error refusal left => (.refused refusal, left)
  | .ok reply next => (reply, next)

/- Answer calls in turn. The replies are in the same order. -/
def answerAll
    (s : Sequencer) : List Call → List Reply × Sequencer
  | [] => ([], s)
  | call :: calls =>
    let answered := s.answer call
    let others := answerAll answered.2 calls
    (answered.1 :: others.1, others.2)

/- With sorted keys a transaction ends as it does in one step. -/
theorem run_commitInPlace_toList
    (s : Sequencer)
    (t : Transaction)
    (streams : List StreamId) :
    (commitInPlace t streams t.reads.toList t.writes.toList
        t.writes.toList).run s =
      match s.commit t streams with
      | (.error refusal, left) => .error refusal left
      | (.ok outcome, next) => .ok outcome next := by
  have hRule :
      s.cache.rule t =
        (s.cache.verdict t, s.cache.counted (s.cache.verdict t)) := rfl
  have hVerdict :
      s.cache.judge t.snapshot t.reads.toList t.writes.toList =
        s.cache.verdict t := rfl
  unfold commitInPlace commit
  rw [EStateM.run_bind, run_onCache_ruleInPlace, hVerdict, hRule]
  cases s.cache.verdict t with
  | abort reason => rfl
  | commit =>
    have hNext : (s.counted .commit).next = s.next := rfl
    have hCache : (s.counted .commit).cache = s.cache.counted .commit := rfl
    simp only [EStateM.run_bind, EStateM.run_get, hNext]
    cases s.next.next? with
    | none => rfl
    | some next =>
      simp only [EStateM.run_bind, onCache, InPlace.run_within,
        ConflictCache.run_recordInPlace_toList, hCache]
      cases (s.cache.counted .commit).record t.writes s.next with
      | error refusal => rfl
      | ok cache => rfl

/- Calls with sorted keys are served as their requests are. -/
theorem answer_sorted
    (s : Sequencer)
    (request : Request) :
    s.answer (Call.sorted request) = s.serve request := by
  cases request with
  | token streams count =>
    simp only [answer, Call.sorted, Call.perform, EStateM.run_bind,
      run_issueInPlace, serve]
    cases s.issue streams count with
    | error refusal => rfl
    | ok issued => rfl
  | commit t streams =>
    simp only [answer, Call.sorted, Call.perform, EStateM.run_bind,
      run_commitInPlace_toList, serve]
    rcases s.commit t streams with ⟨result, next⟩
    cases result with
    | error refusal => rfl
    | ok outcome => rfl
  | tails streams => rfl
  | trim mark => rfl
  | restart tails =>
    simp only [answer, Call.sorted, Call.perform, EStateM.run_bind,
      run_restartInPlace, serve]
    cases s.restart tails with
    | error refusal => rfl
    | ok next => rfl
  | handover streams =>
    simp only [answer, Call.sorted, Call.perform, EStateM.run_bind,
      EStateM.run_get, serve]
    cases s.handover streams with
    | error refusal => rfl
    | ok next => rfl

theorem answerAll_sorted
    (s : Sequencer)
    (requests : List Request) :
    s.answerAll (requests.map Call.sorted) = s.run requests := by
  induction requests generalizing s with
  | nil => rfl
  | cons request requests ih =>
    rw [List.map_cons, answerAll, run, answer_sorted, ih]

end Sequencer

end OrderedLog
