import OrderedLog.SnapshotCache.Basic

/-
  This file defines what a user of a cache holds: proxies
  with their leases, under names of the user's choice.

  Key definitions include:
    * `Holdings`
    * `Holdings.get?`
    * `Holdings.hold`
    * `Holdings.without`
    * `Holdings.update?`
    * `Holdings.shares?`
-/

namespace OrderedLog

/- Handles by name; the first one of a name counts. -/
structure Holdings (σ : Type) where
  handles : List (String × Handle σ)
deriving DecidableEq

namespace Holdings

variable {σ : Type}

/- Nothing is held. -/
def empty : Holdings σ :=
  ⟨[]⟩

/- The handle held under a name. -/
def get?
    (h : Holdings σ)
    (name : String) : Option (Handle σ) :=
  h.handles.lookup name

/- What is held under other names. -/
def without
    (h : Holdings σ)
    (name : String) : Holdings σ :=
  ⟨h.handles.filter (fun e => e.1 ≠ name)⟩

/- Hold a handle under a name, in place of any held there. -/
def hold
    (h : Holdings σ)
    (name : String)
    (handle : Handle σ) : Holdings σ :=
  ⟨(name, handle) :: (h.without name).handles⟩

/-
  Update the copy that the proxy under a name owns, if it
  owns one. The updated proxy comes with the holdings.
-/
def update?
    (h : Holdings σ)
    (name : String)
    (f : σ → σ) : Option (Proxy σ × Holdings σ) :=
  match h.get? name with
  | none => none
  | some handle =>
    match handle.proxy.update? f with
    | none => none
    | some proxy => some (proxy, h.hold name { handle with proxy })

/-
  Whether the reference proxies under two names look at the
  same stored snapshot.
-/
def shares?
    (h : Holdings σ)
    (name : String)
    (other : String) : Option Bool :=
  match h.get? name, h.get? other with
  | some a, some b => a.proxy.shares? b.proxy
  | _, _ => none

end Holdings

end OrderedLog
