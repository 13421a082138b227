import OrderedLog.VersionedId

/-
  This file defines proxies, the handles through which the
  users of a cache see its snapshots. A reference proxy looks
  at the stored snapshot itself; a materialized proxy owns a
  copy that its user may update.

  Key definitions include:
    * `Stored`
    * `ProxyKind`
    * `Proxy`
    * `Proxy.shares?`
    * `Proxy.update?`
-/

namespace OrderedLog

/-
  A snapshot as it was stored. Snapshots stored at different
  times have different editions, also when they are equal.
-/
structure Stored (σ : Type) where
  edition : Nat
  value : σ
deriving DecidableEq

/- The two kinds of proxies. -/
inductive ProxyKind where
  | reference
  | materialized
deriving DecidableEq

/- A handle on an object's state at one version. -/
inductive Proxy (σ : Type) where
  | reference
      (id : VersionedId)
      (snapshot : Stored σ)
  | materialized
      (id : VersionedId)
      (copy : σ)
deriving DecidableEq

/- Make a proxy of this kind for a stored snapshot. -/
def ProxyKind.wrap
    {σ : Type}
    (kind : ProxyKind)
    (id : VersionedId)
    (snapshot : Stored σ) : Proxy σ :=
  match kind with
  | .reference => .reference id snapshot
  | .materialized => .materialized id snapshot.value

namespace Proxy

variable {σ : Type}

/- The version that the proxy was made for. -/
def id : Proxy σ → VersionedId
  | reference id _ => id
  | materialized id _ => id

/- Whether the proxy looks at the stored snapshot itself. -/
def holdsReference : Proxy σ → Bool
  | reference _ _ => true
  | materialized _ _ => false

/- What a user reads through the proxy. -/
def value : Proxy σ → σ
  | reference _ snapshot => snapshot.value
  | materialized _ copy => copy

/-
  Whether two reference proxies look at the same stored
  snapshot.
-/
def shares? : Proxy σ → Proxy σ → Option Bool
  | reference _ a, reference _ b => some (a.edition = b.edition)
  | _, _ => none

/- The proxy after an update of its own copy, if it has one. -/
def update?
    (p : Proxy σ)
    (f : σ → σ) : Option (Proxy σ) :=
  match p with
  | reference _ _ => none
  | materialized id copy => some (materialized id (f copy))

end Proxy

end OrderedLog
