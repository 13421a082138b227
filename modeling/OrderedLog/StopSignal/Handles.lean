import OrderedLog.StopSignal.Basic

/-
  This file defines handles on signals. A clone of a handle
  is another handle on the same signal.

  Key definitions include:
    * `StopHandles`
    * `StopHandles.addNew`
    * `StopHandles.clone`
    * `StopHandles.update`
-/

namespace OrderedLog

/- Signals, and for each handle the place of its signal. -/
structure StopHandles where
  signals : List StopSignal
  places : List Nat

namespace StopHandles

/- One handle on one new signal. -/
def start : StopHandles :=
  ⟨[StopSignal.new], [0]⟩

/- The signal of a handle. -/
def signal?
    (h : StopHandles)
    (handle : Nat) : Option StopSignal :=
  match h.places[handle]? with
  | some place => h.signals[place]?
  | none => none

/- Add a handle on a new signal. -/
def addNew (h : StopHandles) : StopHandles :=
  ⟨h.signals ++ [StopSignal.new], h.places ++ [h.signals.length]⟩

/- Add a handle on the signal of another handle. -/
def clone
    (h : StopHandles)
    (handle : Nat) : StopHandles :=
  match h.places[handle]? with
  | some place => { h with places := h.places ++ [place] }
  | none => h

/- Change the signal of a handle, and that of all its clones. -/
def update
    (h : StopHandles)
    (handle : Nat)
    (signal : StopSignal) : StopHandles :=
  match h.places[handle]? with
  | some place => { h with signals := h.signals.set place signal }
  | none => h

/- The flags as each of the handles shows them. -/
def flags (h : StopHandles) : List Bool :=
  h.places.map (fun place =>
    match h.signals[place]? with
    | some signal => signal.flag
    | none => false)

end StopHandles

end OrderedLog
