import OrderedLog.Address
import OrderedLog.StreamId

/-
  This file defines versioned identifiers: an object at one
  of its versions, the address of the last entry applied.

  Key definitions include:
    * `VersionedId`
    * `VersionedId.withVersion`
    * `VersionedId.chars`
    * `VersionedId.text`
-/

namespace OrderedLog

/- An object at a version. -/
structure VersionedId where
  object : StreamId
  version : Address
deriving DecidableEq

namespace VersionedId

/- Identifiers are equal when both their parts are. -/
theorem eq_of_parts_eq
    {a b : VersionedId}
    (hObject : a.object = b.object)
    (hVersion : a.version = b.version) : a = b := by
  cases a
  cases b
  cases hObject
  cases hVersion
  rfl

/- Identifiers are ordered by object, then by version. -/
instance : KeyOrder VersionedId :=
  KeyOrder.lexicographic object version
    (fun {a b} ho hv => by
      cases a
      cases b
      cases ho
      cases hv
      rfl)

/- The same object at another version. -/
def withVersion
    (id : VersionedId)
    (version : Address) : VersionedId :=
  { id with version }

/- The object, an at sign and the version in decimal. -/
def chars (id : VersionedId) : List Char :=
  id.object.chars ++ '@' :: id.version.digits

/- How a versioned identifier is written in answers. -/
def text (id : VersionedId) : String :=
  String.ofList id.chars

/- How a versioned identifier is written out field by field. -/
def inspect (id : VersionedId) : String :=
  "VersionedObjectIdentifier \x7b object_id: " ++ id.object.inspect
    ++ ", version: " ++ id.version.inspect ++ " \x7d"

end VersionedId

end OrderedLog
