/-
  This file defines the signal by which workers are asked to
  stop, in the single steps of its operations. A flag says
  whether a stop was requested. Callers that wait sleep until
  they are notified or their time is up. A mutex makes sure
  that the flag is not set between a caller's look at it and
  the caller's falling asleep.

  Key definitions include:
    * `Activity`
    * `StopSignal`
    * `StopSignal.Move`
    * `StopSignal.move?`
    * `StopSignal.requestStop`
    * `StopSignal.wait`
    * `StopSignal.wakeWaiter`
-/

namespace OrderedLog

/- What a caller of the signal is doing. -/
inductive Activity where
  /- Nothing yet, or done with a request to stop. -/
  | idle
  /- About to acquire the mutex, to request a stop. -/
  | requesting
  /- Holding the mutex, about to set the flag. -/
  | setting
  /- Holding the mutex, about to notify all sleepers. -/
  | notifying
  /- Holding the mutex, about to release it. -/
  | leaving
  /- About to acquire the mutex, to wait. -/
  | entering
  /- Holding the mutex, about to look at the flag. -/
  | looking
  /- Holding the mutex, about to release it and fall asleep. -/
  | drowsy
  /- Asleep, without the mutex. -/
  | asleep
  /- Notified, about to acquire the mutex again. -/
  | notified
  /- Out of time, about to acquire the mutex again. -/
  | timedOut
  /- Holding the mutex again, about to look at the flag again. -/
  | lookingAgain
  /- Holding the mutex, about to release it with an answer. -/
  | answering
      (stop : Bool)
  /- Done with waiting, with the answer. -/
  | answered
      (stop : Bool)
deriving DecidableEq

/- The flag, the caller that holds the mutex, and all callers. -/
structure StopSignal where
  flag : Bool
  owner : Option Nat
  callers : Nat → Activity

namespace StopSignal

/- A signal on which no stop was requested. -/
def new : StopSignal :=
  ⟨false, none, fun _ => .idle⟩

/- The next thing a caller does. -/
inductive Move where
  /- Begin to request a stop. -/
  | beginRequest
  /- Begin to wait. -/
  | beginWait
  /- Take the next step of what was begun. -/
  | proceed
  /- Wake up because the time is over. -/
  | timeOut
deriving DecidableEq

/- Whether a caller has nothing under way. -/
def Free : Activity → Prop
  | .idle => True
  | .answered _ => True
  | _ => False

instance (a : Activity) : Decidable (Free a) := by
  cases a <;> unfold Free <;> infer_instance

/- The signal with a caller at another activity. -/
def become
    (s : StopSignal)
    (caller : Nat)
    (activity : Activity) : StopSignal :=
  { s with
    callers := fun i => if i = caller then activity else s.callers i }

/- Acquire the mutex, if it is free, for another activity. -/
def acquire?
    (s : StopSignal)
    (caller : Nat)
    (activity : Activity) : Option StopSignal :=
  match s.owner with
  | none => some { s.become caller activity with owner := some caller }
  | some _ => none

/- Release the mutex for another activity. -/
def releaseMutex
    (s : StopSignal)
    (caller : Nat)
    (activity : Activity) : StopSignal :=
  { s.become caller activity with owner := none }

/- Wake every sleeper. -/
def notifyAll (s : StopSignal) : StopSignal :=
  { s with
    callers := fun i =>
      match s.callers i with
      | .asleep => .notified
      | other => other }

/- The next step of what a caller has begun, if it can be taken. -/
def proceed?
    (s : StopSignal)
    (caller : Nat) : Option StopSignal :=
  match s.callers caller with
  | .idle => none
  | .requesting => s.acquire? caller .setting
  | .setting => some ({ s with flag := true }.become caller .notifying)
  | .notifying => some (s.notifyAll.become caller .leaving)
  | .leaving => some (s.releaseMutex caller .idle)
  | .entering => s.acquire? caller .looking
  | .looking =>
    some (s.become caller (if s.flag then .answering true else .drowsy))
  | .drowsy => some (s.releaseMutex caller .asleep)
  | .asleep => none
  | .notified => s.acquire? caller .lookingAgain
  | .timedOut => s.acquire? caller .lookingAgain
  | .lookingAgain => some (s.become caller (.answering s.flag))
  | .answering stop => some (s.releaseMutex caller (.answered stop))
  | .answered _ => none

/- The signal after a caller's move, if the move can be made. -/
def move?
    (s : StopSignal)
    (caller : Nat) : Move → Option StopSignal
  | .beginRequest =>
    if Free (s.callers caller) then some (s.become caller .requesting)
    else none
  | .beginWait =>
    if Free (s.callers caller) then some (s.become caller .entering)
    else none
  | .proceed => s.proceed? caller
  | .timeOut =>
    if s.callers caller = .asleep then some (s.become caller .timedOut)
    else none

------------------------------------------------------------
-- Whole operations
------------------------------------------------------------

/- Let a caller make moves as long as they can be made. -/
def moves
    (caller : Nat)
    (s : StopSignal) : List Move → StopSignal
  | [] => s
  | m :: ms =>
    match s.move? caller m with
    | some next => moves caller next ms
    | none => moves caller s ms

/- The moves of a request to stop that nothing holds up. -/
def requestMoves : List Move :=
  [.beginRequest, .proceed, .proceed, .proceed, .proceed]

/- The moves of a wait up to the sleep, or the answer without one. -/
def sleepMoves : List Move :=
  [.beginWait, .proceed, .proceed, .proceed]

/- The moves of a wait after the sleep. -/
def wakeMoves : List Move :=
  [.proceed, .proceed, .proceed]

/- Request a stop. -/
def requestStop (s : StopSignal) : StopSignal :=
  moves 0 s requestMoves

/- The answer that a caller got from waiting, if it got one. -/
def answer?
    (s : StopSignal)
    (caller : Nat) : Option Bool :=
  match s.callers caller with
  | .answered stop => some stop
  | _ => none

/- Wait until the time is over, with nobody else about. -/
def wait (s : StopSignal) : Option Bool × StopSignal :=
  let asleep := moves 0 s sleepMoves
  let awake := moves 0 (moves 0 asleep [.timeOut]) wakeMoves
  (awake.answer? 0, awake)

/- One caller waits while another one requests a stop. -/
def wakeWaiter (s : StopSignal) : Option Bool × StopSignal :=
  let asleep := moves 1 s sleepMoves
  let awake := moves 1 asleep.requestStop wakeMoves
  (awake.answer? 1, awake)

/- How a signal is written out field by field. -/
def inspect (s : StopSignal) : String :=
  "ShutdownSignal \x7b shutdown: " ++ toString s.flag ++ " \x7d"

end StopSignal

end OrderedLog
