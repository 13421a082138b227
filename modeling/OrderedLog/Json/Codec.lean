import OrderedLog.Settings.CacheSettings
import OrderedLog.Settings.SequencerSettings
import OrderedLog.Json.Fields

/-
  This file defines the JSON forms of addresses, identifiers,
  durations and settings. A record is written as an object
  with its fields in their order; it is read from an object,
  where fields may be missing, or from an array of its parts.

  Key definitions include:
    * `Address.toJson`, `Address.ofJson?`
    * `StreamId.toJson`, `StreamId.ofJson?`
    * `Duration.toJson`, `Duration.ofJson?`
    * `SequencerSettings.toJson`, `SequencerSettings.ofJson?`
    * `CacheSettings.toJson`, `CacheSettings.ofJson?`
-/

namespace OrderedLog

------------------------------------------------------------
-- Addresses and identifiers
------------------------------------------------------------

namespace Address

/- An address is written as its position. -/
def toJson (a : Address) : Json :=
  .number (.ofNat a.val)

def ofJson? (j : Json) : Option Address :=
  match j.natural? UInt64.size with
  | some n => ofNat? n
  | none => none

end Address

namespace StreamId

/- An identifier is written in its hyphenated form. -/
def toJson (s : StreamId) : Json :=
  .ofText s.chars

/- Any form of an identifier is read. -/
def ofJson? (j : Json) : Option StreamId :=
  match j.text? with
  | some text => read? text
  | none => none

end StreamId

------------------------------------------------------------
-- Durations
------------------------------------------------------------

namespace Duration

def toJson (d : Duration) : Json :=
  .object
    [Json.field "secs" (.ofWord d.secs),
      Json.field "nanos" (.number (.ofNat d.nanos))]

/- A duration of two parts that have been read. -/
def ofReadParts? :
    Option Nat → Option Nat → Option Duration
  | some secs, some nanos => ofParts? secs nanos
  | _, _ => none

/-
  Both parts are needed and no others are allowed. The second
  part has 32 bits and may make up whole seconds.
-/
def ofJson? : Json → Option Duration
  | .object fields =>
    match Json.named? fields with
    | some fields =>
      if fields.length = 2 then
        ofReadParts?
          (Json.unique? (Json.natural? UInt64.size) fields "secs")
          (Json.unique? (Json.natural? UInt32.size) fields "nanos")
      else
        none
    | none => none
  | .array [secs, nanos] =>
    ofReadParts? (secs.natural? UInt64.size) (nanos.natural? UInt32.size)
  | _ => none

end Duration

------------------------------------------------------------
-- Settings
------------------------------------------------------------

namespace SequencerSettings

def toJson (c : SequencerSettings) : Json :=
  .object [Json.field "cache_capacity" (.ofWord c.cacheCapacity)]

def ofJson? : Json → Option SequencerSettings
  | .object fields => do
    let fields ← Json.named? fields
    let cacheCapacity ←
      Json.member? Json.word? default.cacheCapacity fields
        "cache_capacity"
    return ⟨cacheCapacity⟩
  | .array items =>
    if items.length ≤ 1 then do
      let cacheCapacity ←
        Json.item? Json.word? default.cacheCapacity items 0
      return ⟨cacheCapacity⟩
    else
      none
  | _ => none

end SequencerSettings

namespace CacheSettings

def toJson (c : CacheSettings) : Json :=
  .object
    [Json.field "max_cache_entries" (.ofWord c.maxEntries),
      Json.field "cache_expiry" c.expiry.toJson,
      Json.field "background_sync_period" c.refreshPeriod.toJson,
      Json.field "eviction_queue_capacity" (.ofWord c.queueCapacity),
      Json.field "eviction_batch_size" (.ofWord c.batchSize)]

def ofJson? : Json → Option CacheSettings
  | .object fields => do
    let fields ← Json.named? fields
    let maxEntries ←
      Json.member? Json.word? default.maxEntries fields
        "max_cache_entries"
    let expiry ←
      Json.member? Duration.ofJson? default.expiry fields
        "cache_expiry"
    let refreshPeriod ←
      Json.member? Duration.ofJson? default.refreshPeriod fields
        "background_sync_period"
    let queueCapacity ←
      Json.member? Json.word? default.queueCapacity fields
        "eviction_queue_capacity"
    let batchSize ←
      Json.member? Json.word? default.batchSize fields
        "eviction_batch_size"
    return ⟨maxEntries, expiry, refreshPeriod, queueCapacity, batchSize⟩
  | .array items =>
    if items.length ≤ 5 then do
      let maxEntries ←
        Json.item? Json.word? default.maxEntries items 0
      let expiry ←
        Json.item? Duration.ofJson? default.expiry items 1
      let refreshPeriod ←
        Json.item? Duration.ofJson? default.refreshPeriod items 2
      let queueCapacity ←
        Json.item? Json.word? default.queueCapacity items 3
      let batchSize ←
        Json.item? Json.word? default.batchSize items 4
      return ⟨maxEntries, expiry, refreshPeriod, queueCapacity, batchSize⟩
    else
      none
  | _ => none

end CacheSettings

end OrderedLog
