import Mathlib.Data.List.Induction
import OrderedLog.ConflictCache.Request
import OrderedLog.Proofs.ConflictCache.Evictions

/-
  This file proves what a request does to a conflict cache. A
  write that is accepted has its keys entered at its version.
  After that, and after a trim, some addresses are evicted. So
  the cache has just what is above some floor of the latest
  writes, that of the request among them.

  Key definitions include:
    * `ConflictCache.Write`
    * `ConflictCache.writes`
    * `ConflictCache.Ascending`
    * `ConflictCache.accepted?`
    * `ConflictCache.pending`
    * `ConflictCache.Request.test`
    * `ConflictCache.Settled`

  Key lemmas include:
    * `ConflictCache.leaves_entered`
    * `ConflictCache.Settled.leaves_record`
    * `ConflictCache.Settled.leaves_serve`
    * `ConflictCache.Settled.serve`
    * `ConflictCache.Tidy.accepted?_eq`
    * `ConflictCache.run_concat`
    * `ConflictCache.Settled.run_induction`
    * `ConflictCache.exists_write_of_latest`
    * `ConflictCache.Ascending.accepted?_eq`
    * `ConflictCache.Ascending.not_refused`
-/

namespace OrderedLog

namespace ConflictCache

------------------------------------------------------------
-- Writes
------------------------------------------------------------

/- Some keys and the version that they are written at. -/
structure Write where
  keys : SortedSet ConflictKey
  version : Address
deriving DecidableEq

/- The keys of a stream that have one byte each. -/
def keysOf
    (stream : StreamId)
    (params : List UInt8) : SortedSet ConflictKey :=
  SortedSet.ofList (params.map (fun param => ⟨stream, [param]⟩))

/- The write that a request asks for. -/
def Request.write? : Request → Option Write
  | .record keys version => some ⟨keys, version⟩
  | _ => none

/- The writes that some requests ask for, in their order. -/
def writes (requests : List Request) : List Write :=
  requests.filterMap Request.write?

/- Every write is at a higher version than the ones before. -/
def Ascending (requests : List Request) : Prop :=
  (writes requests).Pairwise
    (fun earlier later => earlier.version < later.version)

instance (requests : List Request) : Decidable (Ascending requests) := by
  unfold Ascending
  infer_instance

/- The write of a request, if it was accepted. -/
def accepted? : Request → Reply → Option Write
  | .record keys version, .accepted => some ⟨keys, version⟩
  | _, _ => none

@[simp]
theorem writes_concat
    (requests : List Request)
    (request : Request) :
    writes (requests ++ [request]) =
      writes requests ++ request.write?.toList := by
  cases hWrite : request.write? with
  | none => simp [writes, hWrite]
  | some write => simp [writes, hWrite]

theorem Ascending.of_concat
    {requests : List Request}
    {request : Request}
    (h : Ascending (requests ++ [request])) :
    Ascending requests ∧
      ∀ later ∈ request.write?, ∀ earlier ∈ writes requests,
        earlier.version < later.version := by
  unfold Ascending at h ⊢
  simp only [writes_concat, List.pairwise_append,
    Option.mem_toList] at h
  exact ⟨h.1, fun later hLater earlier hEarlier =>
    h.2.2 earlier hEarlier later hLater⟩

/- An accepted write is the one that was asked for. -/
theorem write?_of_accepted?
    {request : Request}
    {reply : Reply}
    {write : Write}
    (h : accepted? request reply = some write) :
    request.write? = some write := by
  unfold accepted? at h
  split at h
  · exact h
  · cases h

------------------------------------------------------------
-- Entering keys
------------------------------------------------------------

/- The latest writes, a given one among them. -/
def overwritten
    (c : ConflictCache)
    (write : Write)
    (key : ConflictKey) : Option Address :=
  if key ∈ write.keys then some write.version else c.latest.get? key

/- A cache with keys at their version, before any eviction. -/
def entered
    (c : ConflictCache)
    (write : Write) : ConflictCache :=
  let moved := write.keys.toList.foldl (move write.version) c
  { moved with window := moved.window.insert write.version write.keys }

theorem enter_eq
    (c : ConflictCache)
    (write : Write) :
    c.enter write.keys write.version =
      (evictWhile overfull (c.entered write).windowSize
        (c.entered write)).1.measured :=
  rfl

theorem overwritten_of_empty
    {c : ConflictCache}
    {write : Write}
    (h : write.keys = ∅) : c.overwritten write = c.latest.get? := by
  funext key
  unfold overwritten
  rw [h]
  exact if_neg (SortedMap.not_mem_empty key)

/- Entered keys are at their version, and no others move. -/
theorem leaves_entered
    {c : ConflictCache}
    (h : c.Tidy)
    {write : Write}
    (hKeys : write.keys ≠ ∅)
    (hVersion : c.window.get? write.version = none) :
    Leaves (c.overwritten write) none c (c.entered write) := by
  rcases foldl_move_eq write.version write.keys.toList c with
    ⟨latest, window, hMoved⟩
  constructor
  · exact tidy_entered h hKeys hVersion
  · intro key address
    have hLatest :
        (c.entered write).latest.get? key = c.overwritten write key := by
      unfold entered overwritten
      simp only [latest_foldl_move, SortedSet.mem_toList_iff]
    rw [hLatest, and_iff_left address.above_none]
  · nofun
  · simp [entered, hMoved]
  · simp [entered, hMoved]
  · simp [entered, hMoved]

------------------------------------------------------------
-- One request
------------------------------------------------------------

/-
  The latest writes when a request begins to evict, its own
  write among them if it was accepted.
-/
def pending
    (c : ConflictCache)
    (request : Request) : ConflictKey → Option Address :=
  match accepted? request (c.serve request).1 with
  | some write => c.overwritten write
  | none => c.latest.get?

theorem serve_record_of_ok
    {c next : ConflictCache}
    {keys : SortedSet ConflictKey}
    {version : Address}
    (h : c.record keys version = .ok next) :
    c.serve (.record keys version) = (.accepted, next) := by
  rw [serve, h]

theorem serve_record_of_error
    {c : ConflictCache}
    {keys : SortedSet ConflictKey}
    {version : Address}
    {refusal : Refusal}
    (h : c.record keys version = .error refusal) :
    c.serve (.record keys version) = (.refused refusal, c) := by
  rw [serve, h]

theorem pending_of_accepted
    {c : ConflictCache}
    {request : Request}
    {write : Write}
    (h : accepted? request (c.serve request).1 = some write) :
    c.pending request = c.overwritten write := by
  unfold pending
  rw [h]

theorem pending_of_not_accepted
    {c : ConflictCache}
    {request : Request}
    (h : accepted? request (c.serve request).1 = none) :
    c.pending request = c.latest.get? := by
  unfold pending
  rw [h]

/- The test for the evictions of a request. -/
def Request.test : Request → ConflictCache → Bool
  | .record _ _ => overfull
  | .trim mark => startsBelow mark
  | .rule _ => fun _ => false

/- A cache between two requests is tidy, and its keys fit. -/
structure Settled (c : ConflictCache) : Prop where
  tidy : c.Tidy
  fits : c.overfull = false

theorem settled_new
    (capacity : Nat)
    (capacity_pos : 0 < capacity)
    (bound : Address) : (new capacity capacity_pos bound).Settled where
  tidy := tidy_new capacity capacity_pos bound
  fits := decide_eq_false (Nat.not_lt_zero capacity)

variable {c : ConflictCache}

theorem Settled.leaves_record
    (h : c.Settled)
    {write : Write}
    {next : ConflictCache}
    (hRecord : c.record write.keys write.version = .ok next) :
    ∃ floor,
      Leaves (c.overwritten write) floor c next ∧
        overfull next = false ∧
        Asked overfull (c.overwritten write) floor c := by
  rcases record_cases_of_keys hRecord with
    ⟨hEmpty, hNext⟩ | ⟨hKeys, hVersion, hNext⟩
  · rw [overwritten_of_empty hEmpty, hNext]
    exact ⟨none, leaves_refl h.tidy, h.fits, asked_none _ _ _⟩
  · have hEntered := leaves_entered h.tidy hKeys hVersion
    rcases hEntered.evictWhile pressing_overfull (Nat.le_refl _) with
      ⟨floor, hLeaves, hFits, hAsked⟩
    rw [hNext, enter_eq, overfull_measured]
    exact ⟨floor, hLeaves.measured, hFits, hAsked⟩

theorem Settled.leaves_trim
    (h : c.Settled)
    (mark : Address) :
    ∃ floor,
      Leaves c.latest.get? floor c (c.trimBelow mark).1 ∧
        startsBelow mark (c.trimBelow mark).1 = false ∧
        Asked (startsBelow mark) c.latest.get? floor c := by
  rcases (leaves_refl h.tidy).evictWhile (pressing_startsBelow mark)
      (Nat.le_refl _) with
    ⟨floor, hLeaves, hDone, hAsked⟩
  exact ⟨floor, hLeaves.counted _, hDone, hAsked⟩

/-
  After a request the cache has what is above some floor. The
  test of the request asked for the floor, and for no more.
-/
theorem Settled.leaves_serve
    (h : c.Settled)
    (request : Request) :
    ∃ floor,
      Leaves (c.pending request) floor c (c.serve request).2 ∧
        request.test (c.serve request).2 = false ∧
        Asked request.test (c.pending request) floor c := by
  cases request with
  | record keys version =>
    cases hRecord : c.record keys version with
    | ok next =>
      have hServe := serve_record_of_ok hRecord
      have hAccepted :
          accepted? (.record keys version)
              (c.serve (.record keys version)).1 =
            some ⟨keys, version⟩ := by
        rw [hServe, accepted?]
      rw [pending_of_accepted hAccepted, hServe]
      exact h.leaves_record hRecord
    | error refusal =>
      have hServe := serve_record_of_error hRecord
      rw [pending_of_not_accepted (by rw [hServe, accepted?]; nofun),
        hServe]
      exact ⟨none, leaves_refl h.tidy, h.fits, asked_none _ _ _⟩
  | trim mark => exact h.leaves_trim mark
  | rule transaction =>
    exact ⟨none, (leaves_refl h.tidy).counted _, rfl, asked_none _ _ _⟩

/- Less keys in the same room are not too many. -/
theorem Settled.fits_of_leaves
    (h : c.Settled)
    {floor : Option Address}
    {d : ConflictCache}
    (hLeaves : Leaves c.latest.get? floor c d) : d.overfull = false := by
  rw [← Bool.not_eq_true]
  intro hOverfull
  have hBefore : c.overfull = true :=
    overfull_of_latest (Nat.le_of_eq hLeaves.capacity.symm)
      (fun key address hLatest =>
        ((hLeaves.latest key address).mp hLatest).1)
      hOverfull
  rw [h.fits] at hBefore
  exact Bool.false_ne_true hBefore

theorem Settled.serve
    (h : c.Settled)
    (request : Request) : (c.serve request).2.Settled := by
  rcases h.leaves_serve request with ⟨floor, hLeaves, hDone, _⟩
  refine ⟨hLeaves.tidy, ?_⟩
  cases request with
  | record keys version => exact hDone
  | trim mark => exact h.fits_of_leaves hLeaves
  | rule transaction => exact h.fits_of_leaves hLeaves

/- A write above all latest ones is accepted. -/
theorem Tidy.accepted?_eq
    (h : c.Tidy)
    {request : Request}
    (hNewer : ∀ write ∈ request.write?, ∀ key address,
      c.latest.get? key = some address → address < write.version) :
    accepted? request (c.serve request).1 = request.write? := by
  cases request with
  | record keys version =>
    have hNone : c.refusal? keys.toList version = none :=
      h.refusal?_eq_none (hNewer ⟨keys, version⟩ rfl) keys.toList
    rw [serve_record_of_ok (record_of_refusal? hNone)]
    rfl
  | trim mark => rfl
  | rule transaction => rfl

------------------------------------------------------------
-- Runs
------------------------------------------------------------

/- A run of requests with one more at the end. -/
theorem run_concat
    (c : ConflictCache)
    (requests : List Request)
    (request : Request) :
    c.run (requests ++ [request]) =
      ((c.run requests).1 ++ [((c.run requests).2.serve request).1],
        ((c.run requests).2.serve request).2) := by
  induction requests generalizing c with
  | nil => rfl
  | cons first requests ih =>
    rw [List.cons_append, run, ih, run]
    rfl

/- What every request keeps, a run keeps. -/
theorem Settled.run_induction
    {P : ConflictCache → Prop}
    (hStep : ∀ d request, d.Settled → P d → P (d.serve request).2)
    (h : c.Settled)
    (hStart : P c)
    (requests : List Request) : P (c.run requests).2 := by
  induction requests generalizing c with
  | nil => exact hStart
  | cons request requests ih =>
    exact ih (h.serve request) (hStep c request h hStart)

theorem settled_run
    (h : c.Settled)
    (requests : List Request) : (c.run requests).2.Settled :=
  h.run_induction (fun _ request hD _ => hD.serve request) h requests

/- A run does not change the room for keys, nor the bound. -/
theorem capacity_run
    (h : c.Settled)
    (requests : List Request) :
    (c.run requests).2.capacity = c.capacity := by
  apply h.run_induction (P := fun d => d.capacity = c.capacity) _ rfl
  intro d request hD hSame
  rcases hD.leaves_serve request with ⟨_, hLeaves, _⟩
  exact hLeaves.capacity.trans hSame

theorem bound_run
    (h : c.Settled)
    (requests : List Request) :
    (c.run requests).2.bound = c.bound := by
  apply h.run_induction (P := fun d => d.bound = c.bound) _ rfl
  intro d request hD hSame
  rcases hD.leaves_serve request with ⟨_, hLeaves, _⟩
  exact hLeaves.bound.trans hSame

/- What is pending was there before or is written now. -/
theorem pending_cases
    {request : Request}
    {key : ConflictKey}
    {address : Address}
    (h : c.pending request key = some address) :
    c.latest.get? key = some address ∨
      ∃ write ∈ request.write?,
        key ∈ write.keys ∧ write.version = address := by
  cases hAccepted : accepted? request (c.serve request).1 with
  | none =>
    rw [pending_of_not_accepted hAccepted] at h
    exact Or.inl h
  | some write =>
    rw [pending_of_accepted hAccepted, overwritten] at h
    split at h
    · next hKey =>
      exact Or.inr ⟨write, write?_of_accepted? hAccepted, hKey,
        Option.some_inj.mp h⟩
    · exact Or.inl h

/- What is pending was written before or is written now. -/
theorem written_of_pending
    {history : List Write}
    (hHistory : ∀ key address,
      c.latest.get? key = some address →
        ∃ write ∈ history, key ∈ write.keys ∧ write.version = address)
    {request : Request}
    {key : ConflictKey}
    {address : Address}
    (h : c.pending request key = some address) :
    ∃ write ∈ history ++ request.write?.toList,
      key ∈ write.keys ∧ write.version = address := by
  rcases pending_cases h with hBefore | ⟨write, hWrite, hKey⟩
  · rcases hHistory key address hBefore with ⟨write, hWrite, hKey⟩
    exact ⟨write, List.mem_append_left _ hWrite, hKey⟩
  · exact ⟨write,
      List.mem_append_right _ (Option.mem_toList.mpr hWrite), hKey⟩

------------------------------------------------------------
-- Runs from the start
------------------------------------------------------------

variable {capacity : Nat}
variable {capacity_pos : 0 < capacity}
variable {bound : Address}
variable {requests : List Request}
variable {request : Request}

/- A cache that was empty has nothing but writes of its run. -/
theorem exists_write_of_latest
    {key : ConflictKey}
    {address : Address}
    (h : ((new capacity capacity_pos bound).run requests).2.latest.get? key
      = some address) :
    ∃ write ∈ writes requests,
      key ∈ write.keys ∧ write.version = address := by
  induction requests using List.reverseRecOn generalizing key address with
  | nil => exact absurd h nofun
  | append_singleton requests request ih =>
    have hSettled :=
      settled_run (settled_new capacity capacity_pos bound) requests
    rcases hSettled.leaves_serve request with ⟨_, hLeaves, _⟩
    rw [run_concat] at h
    rw [writes_concat]
    exact written_of_pending (fun _ _ => ih)
      ((hLeaves.latest key address).mp h).1

theorem exists_write_of_pending
    {key : ConflictKey}
    {address : Address}
    (h : ((new capacity capacity_pos bound).run requests).2.pending request
      key = some address) :
    ∃ write ∈ writes (requests ++ [request]),
      key ∈ write.keys ∧ write.version = address := by
  rw [writes_concat]
  exact written_of_pending (fun _ _ => exists_write_of_latest) h

/- A write is accepted if its version is above all before. -/
theorem Ascending.accepted?_eq
    (h : Ascending (requests ++ [request])) :
    accepted? request
        (((new capacity capacity_pos bound).run requests).2.serve
          request).1 =
      request.write? := by
  have hSettled :=
    settled_run (settled_new capacity capacity_pos bound) requests
  apply hSettled.tidy.accepted?_eq
  intro write hWrite key address hLatest
  rcases exists_write_of_latest hLatest with ⟨earlier, hEarlier, _, rfl⟩
  exact h.of_concat.2 write hWrite earlier hEarlier

theorem not_refused_of_accepted?
    (h : accepted? request (c.serve request).1 = request.write?)
    (refusal : Refusal) : (c.serve request).1 ≠ .refused refusal := by
  intro hRefused
  cases request with
  | record keys version =>
    rw [hRefused] at h
    cases h
  | trim mark => cases hRefused
  | rule transaction => cases hRefused

/- No write of a run is refused if the versions increase. -/
theorem Ascending.not_refused
    (h : Ascending requests)
    (refusal : Refusal) :
    .refused refusal ∉ ((new capacity capacity_pos bound).run requests).1 := by
  induction requests using List.reverseRecOn with
  | nil => exact List.not_mem_nil
  | append_singleton requests request ih =>
    rw [run_concat, List.mem_append, List.mem_singleton]
    rintro (hBefore | hNow)
    · exact ih h.of_concat.1 hBefore
    · exact not_refused_of_accepted? h.accepted?_eq refusal hNow.symm

end ConflictCache

end OrderedLog
