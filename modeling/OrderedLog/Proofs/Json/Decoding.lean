import Mathlib.Data.List.Nodup
import OrderedLog.Json.Codec
import OrderedLog.Proofs.Json.Documents

/-
  This file proves that addresses, identifiers, durations and
  settings are read back from the JSON text written for them.
  Settings are also read from objects that hold only some of
  their fields, in any order and among fields of other names:
  what is there is taken over, and the rest has its default.

  Key definitions include:
    * `Json.decode?`
    * `Json.Holds`
    * `Duration.written`
    * `SequencerSettings.fields`, `SequencerSettings.keeping`
    * `CacheSettings.fields`, `CacheSettings.keeping`
    * `Json.Shows`
    * `Json.FaithfulCodec`

  Key lemmas include:
    * `Json.Holds.member?_eq`
    * `Address.ofJson?_toJson`
    * `StreamId.ofJson?_toJson`
    * `Duration.ofJson?_written`
    * `SequencerSettings.ofJson?_of_holds`
    * `CacheSettings.ofJson?_of_holds`

  Key theorems include:
    * `Json.codec_faithful`
-/

namespace OrderedLog

namespace Json

------------------------------------------------------------
-- Objects that hold some fields of a record
------------------------------------------------------------

/- What a reader of documents makes of a text. -/
def decode?
    {α : Type}
    (read? : Json → Option α)
    (text : String) : Option α :=
  (parse? text).bind read?

/- Fields with their names as characters. -/
def spelledOut
    (fields : List (String × Json)) : List (List Char × Json) :=
  fields.map (fun f => (f.1.toList, f.2))

/-
  Named fields of an object are just those of a record that are
  kept, once each and in any order. Anywhere among them there
  may be others, whose names are not those of the record.
-/
def Holds
    (own : List (String × Json))
    (kept : List String)
    (named : List (List Char × Json)) : Prop :=
  (named.filter (fun f => f.1 ∈ own.map (fun g => g.1.toList))).Perm
    (spelledOut (own.filter (fun f => f.1 ∈ kept)))

/- A name is that of one field, if no two fields have the same. -/
theorem filter_name_eq
    {fields : List (String × Json)}
    {name : String}
    {value : Json}
    (hNames : (fields.map Prod.fst).Nodup)
    (h : (name, value) ∈ fields) :
    fields.filter (fun f => f.1 = name) = [(name, value)] := by
  induction fields with
  | nil => cases h
  | cons f fields ih =>
    rw [List.map_cons, List.nodup_cons] at hNames
    rcases List.mem_cons.mp h with hFirst | hMore
    · have hOthers : fields.filter (fun g => g.1 = name) = [] := by
        rw [List.filter_eq_nil_iff]
        intro g hMem hSame
        apply hNames.1
        rw [← hFirst]
        exact List.mem_map.mpr ⟨g, hMem, of_decide_eq_true hSame⟩
      rw [← hFirst, List.filter_cons_of_pos (by simp), hOthers]
    · have hOther : f.1 ≠ name := by
        intro hSame
        apply hNames.1
        rw [hSame]
        exact List.mem_map.mpr ⟨_, hMore, rfl⟩
      rw [List.filter_cons_of_neg (by simpa using hOther), ih hNames.2 hMore]

namespace Holds

variable {own : List (String × Json)}
variable {kept : List String}
variable {named : List (List Char × Json)}
variable {name : String}
variable {value : Json}

/- What such an object has to say under a name of the record. -/
theorem valuesOf_eq
    (h : Holds own kept named)
    (hNames : (own.map Prod.fst).Nodup)
    (hField : (name, value) ∈ own) :
    valuesOf named name = if name ∈ kept then [value] else [] := by
  have hKnown : name.toList ∈ own.map (fun g => g.1.toList) :=
    List.mem_map.mpr ⟨_, hField, rfl⟩
  have hNamed : named.filter (fun f => f.1 = name.toList) =
      (named.filter
          (fun f => f.1 ∈ own.map (fun g => g.1.toList))).filter
        (fun f => f.1 = name.toList) := by
    rw [List.filter_filter]
    apply List.filter_congr
    intro f _
    by_cases hSame : f.1 = name.toList
    · simp [hSame, hKnown]
    · simp [hSame]
  have hOwn : (spelledOut (own.filter (fun f => f.1 ∈ kept))).filter
      (fun f => f.1 = name.toList) =
        spelledOut (if name ∈ kept then [(name, value)] else []) := by
    have hKept : (own.filter (fun f => f.1 ∈ kept)).filter
        (fun f => f.1.toList = name.toList) =
          (own.filter (fun f => f.1 = name)).filter
            (fun f => f.1 ∈ kept) := by
      rw [List.filter_filter, List.filter_filter]
      simp only [String.toList_inj, Bool.and_comm]
    unfold spelledOut
    rw [List.filter_map]
    simp only [Function.comp_def]
    rw [hKept, filter_name_eq hNames hField]
    by_cases hMem : name ∈ kept
    · simp [hMem]
    · simp [hMem]
  have hPerm := List.Perm.filter (fun f => f.1 = name.toList) h
  rw [← hNamed, hOwn] at hPerm
  unfold valuesOf
  split
  · next hKept =>
    rw [if_pos hKept] at hPerm
    rw [List.perm_singleton.mp hPerm]
    rfl
  · next hMissing =>
    rw [if_neg hMissing] at hPerm
    rw [hPerm.eq_nil]
    rfl

/- A field that is kept has its value, and another one is missing. -/
theorem member?_eq
    {α : Type}
    {read? : Json → Option α}
    {part : α}
    (h : Holds own kept named)
    (hNames : (own.map Prod.fst).Nodup)
    (hField : (name, value) ∈ own)
    (hRead : read? value = some part)
    (missing : α) :
    member? read? missing named name =
      some (if name ∈ kept then part else missing) := by
  unfold member?
  rw [h.valuesOf_eq hNames hField]
  by_cases hKept : name ∈ kept
  · rw [if_pos hKept, if_pos hKept]
    exact hRead
  · rw [if_neg hKept, if_neg hKept]

theorem unique?_eq
    {α : Type}
    (h : Holds own kept named)
    (hNames : (own.map Prod.fst).Nodup)
    (hField : (name, value) ∈ own)
    (hKept : name ∈ kept)
    (read? : Json → Option α) :
    unique? read? named name = read? value := by
  unfold unique?
  rw [h.valuesOf_eq hNames hField, if_pos hKept]

end Holds

/- All fields of a record, in any order, hold all of them. -/
theorem holds_all
    {own fields : List (String × Json)}
    (h : fields.Perm own) :
    Holds own (own.map Prod.fst) (spelledOut fields) := by
  have hKnown : (spelledOut fields).filter
      (fun f => f.1 ∈ own.map (fun g => g.1.toList)) =
        spelledOut fields := by
    rw [List.filter_eq_self]
    intro f hMem
    rcases List.mem_map.mp hMem with ⟨g, hField, hSame⟩
    rw [← hSame]
    exact decide_eq_true (List.mem_map.mpr ⟨g, h.mem_iff.mp hField, rfl⟩)
  have hKept : own.filter (fun f => f.1 ∈ own.map Prod.fst) = own := by
    rw [List.filter_eq_self]
    intro f hField
    exact decide_eq_true (List.mem_map.mpr ⟨f, hField, rfl⟩)
  unfold Holds
  rw [hKnown, hKept]
  exact h.map _

/- Fields as they are written have their names as text. -/
theorem named?_map_field (fields : List (String × Json)) :
    named? (fields.map (fun f => field f.1 f.2)) =
      some (spelledOut fields) := by
  induction fields with
  | nil => rfl
  | cons f fields ih =>
    rw [List.map_cons, field, named?, textOf?_unitsOf, ih]
    rfl

------------------------------------------------------------
-- Simple values
------------------------------------------------------------

theorem natural?_ofNat
    {n bound : Nat}
    (h : n < bound) : natural? bound (number (.ofNat n)) = some n :=
  if_pos h

theorem word?_ofWord (n : UInt64) : word? (ofWord n) = some n := by
  unfold word? ofWord
  rw [natural?_ofNat n.toNat_lt_size, Option.map_some, UInt64.ofNat_toNat]

end Json

theorem Address.ofJson?_toJson (a : Address) : ofJson? a.toJson = some a := by
  unfold ofJson? toJson
  rw [Json.natural?_ofNat a.val_lt]
  exact ofNat?_eq_some_iff.mpr rfl

theorem StreamId.ofJson?_toJson (s : StreamId) :
    ofJson? s.toJson = some s := by
  have hText : (Json.ofText s.chars).text? = some s.chars :=
    Json.textOf?_unitsOf s.chars
  unfold ofJson? toJson
  rw [hText]
  exact s.read?_chars

------------------------------------------------------------
-- Durations
------------------------------------------------------------

namespace Duration

/- The parts of a duration by their names. -/
def fields (d : Duration) : List (String × Json) :=
  [("secs", .ofWord d.secs), ("nanos", .number (.ofNat d.nanos))]

/- A duration as an object, with its parts in either order. -/
def written
    (secsFirst : Bool)
    (d : Duration) : Json :=
  let ordered := if secsFirst then d.fields else d.fields.reverse
  .object (ordered.map (fun f => Json.field f.1 f.2))

/- No seconds are carried over from a part of a second. -/
theorem ofParts?_toNat (d : Duration) :
    ofParts? d.secs.toNat d.nanos = some d := by
  have hTotal : d.secs.toNat + d.nanos / nanosPerSecond = d.secs.toNat := by
    rw [Nat.div_eq_of_lt d.nanos_lt, Nat.add_zero]
  unfold ofParts?
  simp only [hTotal, if_pos d.secs.toNat_lt_size, UInt64.ofNat_toNat,
    Nat.mod_eq_of_lt d.nanos_lt]

theorem ofJson?_written
    (secsFirst : Bool)
    (d : Duration) : ofJson? (d.written secsFirst) = some d := by
  let ordered := if secsFirst then d.fields else d.fields.reverse
  have hPerm : ordered.Perm d.fields := by
    cases secsFirst with
    | false => exact List.reverse_perm d.fields
    | true => exact List.Perm.refl d.fields
  have hHolds := Json.holds_all hPerm
  have hNames : (d.fields.map Prod.fst).Nodup := by
    simp [fields]
  have hSecsField : ("secs", Json.ofWord d.secs) ∈ d.fields :=
    List.mem_cons_self
  have hNanosField : ("nanos", .number (.ofNat d.nanos)) ∈ d.fields :=
    List.mem_cons_of_mem _ List.mem_cons_self
  have hSecs := hHolds.unique?_eq hNames hSecsField
    (List.mem_map.mpr ⟨_, hSecsField, rfl⟩) (Json.natural? UInt64.size)
  have hNanos := hHolds.unique?_eq hNames hNanosField
    (List.mem_map.mpr ⟨_, hNanosField, rfl⟩) (Json.natural? UInt32.size)
  have hLength : (Json.spelledOut ordered).length = 2 := by
    rw [Json.spelledOut, List.length_map, hPerm.length_eq]
    rfl
  have hSmall : d.nanos < UInt32.size :=
    Nat.lt_trans d.nanos_lt (by decide)
  rw [Json.ofWord, Json.natural?_ofNat d.secs.toNat_lt_size] at hSecs
  rw [Json.natural?_ofNat hSmall] at hNanos
  unfold written ofJson?
  simp only [Json.named?_map_field]
  rw [if_pos hLength, hSecs, hNanos]
  exact d.ofParts?_toNat

end Duration

------------------------------------------------------------
-- Settings
------------------------------------------------------------

namespace SequencerSettings

/- The settings by the names they are written under. -/
def fields (c : SequencerSettings) : List (String × Json) :=
  [("cache_capacity", .ofWord c.cacheCapacity)]

/- The settings that are kept, and the default for the others. -/
def keeping
    (kept : List String)
    (c : SequencerSettings) : SequencerSettings where
  cacheCapacity :=
    if "cache_capacity" ∈ kept then c.cacheCapacity
    else default.cacheCapacity

/- What an object holds of some settings is read, and nothing else. -/
theorem ofJson?_of_holds
    {c : SequencerSettings}
    {kept : List String}
    {fields : List (List Json.StringUnit × Json)}
    {named : List (List Char × Json)}
    (hNamed : Json.named? fields = some named)
    (h : Json.Holds c.fields kept named) :
    ofJson? (.object fields) = some (c.keeping kept) := by
  have hNames : (c.fields.map Prod.fst).Nodup := by
    simp [SequencerSettings.fields]
  have hField :
      ("cache_capacity", Json.ofWord c.cacheCapacity) ∈ c.fields :=
    List.mem_cons_self
  have hCapacity := h.member?_eq hNames hField
    (Json.word?_ofWord c.cacheCapacity) default.cacheCapacity
  unfold ofJson?
  simp only [hNamed, hCapacity, Option.bind_eq_bind, Option.bind_some]
  rfl

theorem keeping_all (c : SequencerSettings) :
    c.keeping (c.fields.map Prod.fst) = c := by
  simp [keeping, fields]

/- Settings that are written out are all read back. -/
theorem ofJson?_toJson (c : SequencerSettings) :
    ofJson? c.toJson = some c := by
  have hAll := ofJson?_of_holds (Json.named?_map_field c.fields)
    (Json.holds_all (List.Perm.refl c.fields))
  rw [keeping_all] at hAll
  exact hAll

end SequencerSettings

namespace CacheSettings

/-
  The settings by the names they are written under. The parts of
  the two durations are in either order.
-/
def fields
    (expirySecsFirst periodSecsFirst : Bool)
    (c : CacheSettings) : List (String × Json) :=
  [("max_cache_entries", .ofWord c.maxEntries),
    ("cache_expiry", c.expiry.written expirySecsFirst),
    ("background_sync_period", c.refreshPeriod.written periodSecsFirst),
    ("eviction_queue_capacity", .ofWord c.queueCapacity),
    ("eviction_batch_size", .ofWord c.batchSize)]

/- The settings that are kept, and the defaults for the others. -/
def keeping
    (kept : List String)
    (c : CacheSettings) : CacheSettings where
  maxEntries :=
    if "max_cache_entries" ∈ kept then c.maxEntries
    else default.maxEntries
  expiry :=
    if "cache_expiry" ∈ kept then c.expiry else default.expiry
  refreshPeriod :=
    if "background_sync_period" ∈ kept then c.refreshPeriod
    else default.refreshPeriod
  queueCapacity :=
    if "eviction_queue_capacity" ∈ kept then c.queueCapacity
    else default.queueCapacity
  batchSize :=
    if "eviction_batch_size" ∈ kept then c.batchSize
    else default.batchSize

theorem ofJson?_of_holds
    {c : CacheSettings}
    {expirySecsFirst periodSecsFirst : Bool}
    {kept : List String}
    {fields : List (List Json.StringUnit × Json)}
    {named : List (List Char × Json)}
    (hNamed : Json.named? fields = some named)
    (h : Json.Holds (c.fields expirySecsFirst periodSecsFirst) kept named) :
    ofJson? (.object fields) = some (c.keeping kept) := by
  have hNames :
      ((c.fields expirySecsFirst periodSecsFirst).map Prod.fst).Nodup := by
    simp [CacheSettings.fields]
  have hFields : ∀ field ∈
      [("max_cache_entries", Json.ofWord c.maxEntries),
        ("cache_expiry", c.expiry.written expirySecsFirst),
        ("background_sync_period", c.refreshPeriod.written periodSecsFirst),
        ("eviction_queue_capacity", .ofWord c.queueCapacity),
        ("eviction_batch_size", .ofWord c.batchSize)],
      field ∈ c.fields expirySecsFirst periodSecsFirst :=
    fun _ hMem => hMem
  simp only [List.forall_mem_cons] at hFields
  have hEntries := h.member?_eq hNames hFields.1
    (Json.word?_ofWord c.maxEntries) default.maxEntries
  have hExpiry := h.member?_eq hNames hFields.2.1
    (c.expiry.ofJson?_written expirySecsFirst) default.expiry
  have hPeriod := h.member?_eq hNames hFields.2.2.1
    (c.refreshPeriod.ofJson?_written periodSecsFirst) default.refreshPeriod
  have hQueue := h.member?_eq hNames hFields.2.2.2.1
    (Json.word?_ofWord c.queueCapacity) default.queueCapacity
  have hBatch := h.member?_eq hNames hFields.2.2.2.2.1
    (Json.word?_ofWord c.batchSize) default.batchSize
  unfold ofJson?
  simp only [hNamed, hEntries, hExpiry, hPeriod, hQueue, hBatch,
    Option.bind_eq_bind, Option.bind_some]
  rfl

theorem keeping_all (c : CacheSettings) :
    c.keeping ((c.fields true true).map Prod.fst) = c := by
  simp [keeping, fields]

theorem ofJson?_toJson (c : CacheSettings) : ofJson? c.toJson = some c := by
  have hAll := ofJson?_of_holds (Json.named?_map_field (c.fields true true))
    (Json.holds_all (List.Perm.refl (c.fields true true)))
  rw [keeping_all] at hAll
  exact hAll

end CacheSettings

------------------------------------------------------------
-- Texts
------------------------------------------------------------

namespace Json

theorem decode?_of_layout
    {α : Type}
    {read? : Json → Option α}
    {j : Json}
    {value : α}
    {text : String}
    (hText : Layout j.tokens text.toList)
    (h : read? j = some value) : decode? read? text = some value := by
  unfold decode?
  rw [parse?_of_layout hText]
  exact h

theorem decode?_render
    {α : Type}
    {read? : Json → Option α}
    {j : Json}
    {value : α}
    (h : read? j = some value) : decode? read? j.render = some value := by
  unfold decode?
  rw [parse?_render]
  exact h

/-
  A text of JSON has just those fields of a record that are kept,
  each with its value. The text may lay out the object in any way,
  and the object may have other fields, of any values.
-/
def Shows
    (own : List (String × Json))
    (kept : List String)
    (text : String) : Prop :=
  ∃ fields named,
    named? fields = some named ∧ Holds own kept named ∧
      Layout (object fields).tokens text.toList

/-
  What holds of reading and writing: all that is written is read
  back, and settings that a text does not show have their default.
-/
structure FaithfulCodec : Prop where
  addresses :
    ∀ a : Address, decode? Address.ofJson? a.toJson.render = some a
  streams :
    ∀ s : StreamId, decode? StreamId.ofJson? s.toJson.render = some s
  sequencers :
    ∀ c : SequencerSettings,
      decode? SequencerSettings.ofJson? c.toJson.render = some c
  caches :
    ∀ c : CacheSettings,
      decode? CacheSettings.ofJson? c.toJson.render = some c
  sequencerParts :
    ∀ (c : SequencerSettings) (kept : List String) (text : String),
      Shows c.fields kept text →
        decode? SequencerSettings.ofJson? text = some (c.keeping kept)
  cacheParts :
    ∀ (c : CacheSettings) (expirySecsFirst periodSecsFirst : Bool)
      (kept : List String) (text : String),
      Shows (c.fields expirySecsFirst periodSecsFirst) kept text →
        decode? CacheSettings.ofJson? text = some (c.keeping kept)

/- Decoding undoes encoding, and falls back field by field. -/
theorem codec_faithful : FaithfulCodec where
  addresses a := decode?_render a.ofJson?_toJson
  streams s := decode?_render s.ofJson?_toJson
  sequencers c := decode?_render c.ofJson?_toJson
  caches c := decode?_render c.ofJson?_toJson
  sequencerParts c kept text hShows := by
    rcases hShows with ⟨fields, named, hNamed, hHolds, hText⟩
    exact decode?_of_layout hText
      (SequencerSettings.ofJson?_of_holds hNamed hHolds)
  cacheParts c expirySecsFirst periodSecsFirst kept text hShows := by
    rcases hShows with ⟨fields, named, hNamed, hHolds, hText⟩
    exact decode?_of_layout hText
      (CacheSettings.ofJson?_of_holds hNamed hHolds)

/- Two of the settings, the second one first, and other fields. -/
def sparseFields : List (String × Json) :=
  [ ("note", .array [ofWord 1, .object []]),
    ("cache_expiry", (Duration.ofSecs 2).written false),
    ("Max_cache_entries", .null),
    ("max_cache_entries", ofWord 7) ]

/- They are read from a text with blanks, and the rest is as ever. -/
theorem sparseFields_decoded :
    let c : CacheSettings :=
      ⟨7, Duration.ofSecs 2, Duration.ofSecs 0, 0, 0⟩
    let kept := ["max_cache_entries", "cache_expiry"]
    let document : Json := .object (sparseFields.map (fun f => field f.1 f.2))
    let text := String.ofList
      (document.tokens.flatMap (fun token => token.chars ++ [' ']))
    Shows (c.fields false true) kept text ∧
      decode? CacheSettings.ofJson? text =
        some { CacheSettings.default with
          maxEntries := 7
          expiry := Duration.ofSecs 2 } := by
  intro c kept document text
  have hNamed :
      named? (sparseFields.map (fun f => field f.1 f.2)) =
        some (spelledOut sparseFields) := named?_map_field sparseFields
  have hHolds :
      Holds (c.fields false true) kept (spelledOut sparseFields) := by
    have hSwapped := List.Perm.swap ("max_cache_entries".toList, ofWord 7)
      ("cache_expiry".toList, (Duration.ofSecs 2).written false) []
    unfold Holds
    simpa [sparseFields, spelledOut, CacheSettings.fields, kept, c]
      using hSwapped
  have hText : Layout document.tokens text.toList := by
    rw [String.toList_ofList]
    exact layout_spaced document.tokens
  have hShows : Shows (c.fields false true) kept text :=
    ⟨_, _, hNamed, hHolds, hText⟩
  exact ⟨hShows, codec_faithful.cacheParts c false true kept text hShows⟩

end Json

end OrderedLog
