import OrderedLog.ConflictCache.Verdict
import OrderedLog.Proofs.Text.Decimal
import OrderedLog.Proofs.Text.Identifiers
import OrderedLog.Refusal
import OrderedLog.VersionedId

/-
  This file proves that what is displayed for keys and for
  versions of objects is unambiguous, also within the messages
  that name a key. Each part of a display can be cut off its
  start: identifiers have a fixed length, and numbers end at
  the first character that is no digit.

  Key definitions include:
    * `ConflictKey.moreChars`
    * `AbortReason.opening`
    * `TellApart`

  Key lemmas include:
    * `Address.digits_append_inj`
    * `VersionedId.text_inj`
    * `ConflictKey.chars_append_inj`
    * `ConflictKey.text_inj`
    * `AbortReason.message_inj`
    * `Refusal.message_regression_inj`

  Key theorems include:
    * `displays_tell_apart`
-/

namespace OrderedLog

------------------------------------------------------------
-- Versions of objects
------------------------------------------------------------

namespace Address

/- An address, and the text after it, are told apart from others. -/
theorem digits_append_inj
    {a b : Address}
    {rest rest' : List Char}
    (h : Decimal.Stops rest)
    (h' : Decimal.Stops rest') :
    a.digits ++ rest = b.digits ++ rest' ↔ a = b ∧ rest = rest' := by
  unfold digits
  rw [Decimal.toDigits_append_inj h h']
  constructor
  · intro hBoth
    exact ⟨eq_of_val_eq hBoth.1, hBoth.2⟩
  · intro hBoth
    exact ⟨congrArg val hBoth.1, hBoth.2⟩

theorem digits_inj
    {a b : Address} : a.digits = b.digits ↔ a = b := by
  have hAppend :
      a.digits ++ [] = b.digits ++ [] ↔ a = b ∧ ([] : List Char) = [] :=
    digits_append_inj Decimal.stops_nil Decimal.stops_nil
  simpa using hAppend

end Address

namespace VersionedId

/- Versioned identifiers are equal when they are written alike. -/
theorem text_inj
    {a b : VersionedId} : a.text = b.text ↔ a = b := by
  unfold text chars
  rw [String.ofList_inj, StreamId.chars_append_inj, List.cons.injEq,
    Address.digits_inj]
  constructor
  · intro hParts
    exact eq_of_parts_eq hParts.1 hParts.2.2
  · intro hSame
    rw [hSame]
    exact ⟨rfl, rfl, rfl⟩

end VersionedId

------------------------------------------------------------
-- Conflict keys
------------------------------------------------------------

namespace ConflictKey

/- What is written after the first byte of a parameter. -/
def moreChars : List UInt8 → List Char
  | [] => []
  | b :: rest => ',' :: ' ' :: paramChars (b :: rest)

theorem eq_of_parts_eq
    {k k' : ConflictKey}
    (hStream : k.stream = k'.stream)
    (hParam : k.param = k'.param) : k = k' := by
  cases k
  cases k'
  cases hStream
  cases hParam
  rfl

theorem paramChars_cons
    (b : UInt8)
    (rest : List UInt8) :
    paramChars (b :: rest) =
      Nat.toDigits 10 b.toNat ++ moreChars rest := by
  cases rest with
  | nil => simp [paramChars, moreChars]
  | cons c rest => rfl

/- A number of a parameter ends at a comma or at the bracket. -/
theorem stops_moreChars
    (param : List UInt8)
    (rest : List Char) :
    Decimal.Stops (moreChars param ++ ']' :: rest) := by
  cases param with
  | nil => exact Decimal.stops_cons rest rfl
  | cons b param => exact Decimal.stops_cons _ rfl

/- The bytes of a parameter are told apart up to the closing bracket. -/
theorem moreChars_append_inj
    {param param' : List UInt8}
    {rest rest' : List Char} :
    moreChars param ++ ']' :: rest = moreChars param' ++ ']' :: rest' ↔
      param = param' ∧ rest = rest' := by
  constructor
  · intro hSame
    induction param generalizing param' with
    | nil =>
      cases param' with
      | nil => exact ⟨rfl, (List.cons.inj hSame).2⟩
      | cons b param' => exact absurd (List.cons.inj hSame).1 (by decide)
    | cons a param ih =>
      cases param' with
      | nil => exact absurd (List.cons.inj hSame).1 (by decide)
      | cons b param' =>
        have hDigits :
            Nat.toDigits 10 a.toNat ++ (moreChars param ++ ']' :: rest) =
              Nat.toDigits 10 b.toNat ++
                (moreChars param' ++ ']' :: rest') := by
          rw [← List.append_assoc, ← List.append_assoc,
            ← paramChars_cons, ← paramChars_cons]
          exact (List.cons.inj (List.cons.inj hSame).2).2
        rw [Decimal.toDigits_append_inj (stops_moreChars param rest)
          (stops_moreChars param' rest')] at hDigits
        have hMore := ih hDigits.2
        rw [UInt8.toNat_inj.mp hDigits.1, hMore.1]
        exact ⟨rfl, hMore.2⟩
  · intro hBoth
    rw [hBoth.1, hBoth.2]

/- The closing bracket is not the start of a byte. -/
theorem paramChars_cons_append_ne
    (b : UInt8)
    (param : List UInt8)
    (rest rest' : List Char) :
    paramChars (b :: param) ++ rest ≠ ']' :: rest' := by
  rcases Decimal.exists_toDigits_eq_cons b.toNat with
    ⟨c, more, hDigits, hDigit⟩
  rw [paramChars_cons, hDigits]
  intro hSame
  rw [(List.cons.inj hSame).1] at hDigit
  exact absurd hDigit (by decide)

theorem paramChars_append_inj
    {param param' : List UInt8}
    {rest rest' : List Char} :
    paramChars param ++ ']' :: rest = paramChars param' ++ ']' :: rest' ↔
      param = param' ∧ rest = rest' := by
  cases param with
  | nil =>
    cases param' with
    | nil =>
      have hMore :
          moreChars [] ++ ']' :: rest = moreChars [] ++ ']' :: rest' ↔
            ([] : List UInt8) = [] ∧ rest = rest' :=
        moreChars_append_inj
      exact hMore
    | cons b param' =>
      constructor
      · intro hSame
        exact absurd hSame.symm (paramChars_cons_append_ne b param' _ rest)
      · intro hBoth
        cases hBoth.1
  | cons a param =>
    cases param' with
    | nil =>
      constructor
      · intro hSame
        exact absurd hSame (paramChars_cons_append_ne a param _ rest')
      · intro hBoth
        cases hBoth.1
    | cons b param' =>
      -- the same texts with a comma in front
      have hMore :
          moreChars (a :: param) ++ ']' :: rest =
              moreChars (b :: param') ++ ']' :: rest' ↔
            a :: param = b :: param' ∧ rest = rest' :=
        moreChars_append_inj
      simpa [moreChars] using hMore

/- A key, and the text after it, are told apart from others. -/
theorem chars_append_inj
    {k k' : ConflictKey}
    {rest rest' : List Char} :
    k.chars ++ rest = k'.chars ++ rest' ↔ k = k' ∧ rest = rest' := by
  have hSplit : ∀ (k : ConflictKey) (rest : List Char),
      k.chars ++ rest =
        k.stream.chars ++ '[' :: (paramChars k.param ++ ']' :: rest) := by
    intro k rest
    simp [chars]
  rw [hSplit, hSplit, StreamId.chars_append_inj, List.cons.injEq,
    paramChars_append_inj]
  constructor
  · intro hParts
    rcases hParts with ⟨hStream, _, hParam, hRest⟩
    exact ⟨eq_of_parts_eq hStream hParam, hRest⟩
  · intro hBoth
    rw [hBoth.1, hBoth.2]
    exact ⟨rfl, rfl, rfl, rfl⟩

/- Keys are equal when they are written alike. -/
theorem text_inj
    {k k' : ConflictKey} : k.text = k'.text ↔ k = k' := by
  have hAppend :
      k.chars ++ [] = k'.chars ++ [] ↔ k = k' ∧ ([] : List Char) = [] :=
    chars_append_inj
  unfold text
  rw [String.ofList_inj]
  simpa using hAppend

end ConflictKey

------------------------------------------------------------
-- Messages
------------------------------------------------------------

/- A labelled address, and the text after it, are told apart from others. -/
theorem Address.label_append_inj
    {a b : Address}
    {rest rest' : List Char}
    (h : Decimal.Stops rest)
    (h' : Decimal.Stops rest') :
    a.label.toList ++ rest = b.label.toList ++ rest' ↔
      a = b ∧ rest = rest' := by
  have hLabel : ∀ (a : Address) (rest : List Char),
      a.label.toList ++ rest =
        ['a', 'd', 'd', 'r', ':'] ++ (a.digits ++ rest) := by
    intro a rest
    unfold label
    rw [String.toList_ofList, List.append_assoc, String.toList_ofList]
  rw [hLabel, hLabel, List.append_cancel_left_eq, digits_append_inj h h']

theorem Address.label_inj
    {a b : Address} : a.label = b.label ↔ a = b := by
  have hAppend :
      a.label.toList ++ [] = b.label.toList ++ [] ↔
        a = b ∧ ([] : List Char) = [] :=
    label_append_inj Decimal.stops_nil Decimal.stops_nil
  simpa [String.toList_inj] using hAppend

theorem ConflictKey.text_append_inj
    {k k' : ConflictKey}
    {rest rest' : List Char} :
    k.text.toList ++ rest = k'.text.toList ++ rest' ↔
      k = k' ∧ rest = rest' := by
  unfold text
  rw [String.toList_ofList, String.toList_ofList, chars_append_inj]

namespace AbortReason

/- How the messages of a kind of reason start. -/
def opening : AbortReason → List Char
  | predates _ _ => ['n', 'e']
  | conflict _ _ => ['c', 'o']
  | overflow _ _ => ['c', 'a']

theorem take_message (r : AbortReason) :
    r.message.toList.take 2 = r.opening := by
  unfold message
  cases r <;> simp [opening]

theorem opening_eq
    {r r' : AbortReason}
    (h : r.message = r'.message) : r.opening = r'.opening := by
  rw [← take_message, ← take_message, h]

/- Reasons are equal when their messages are. -/
theorem message_inj
    {r r' : AbortReason} : r.message = r'.message ↔ r = r' := by
  refine ⟨fun hSame => ?_, congrArg message⟩
  have hOpening := opening_eq hSame
  have hChars := congrArg String.toList hSame
  unfold message at hChars
  cases r with
  | predates snapshot bound =>
    cases r' with
    | predates snapshot' bound' =>
      have hStops : ∀ rest, Decimal.Stops (" < ".toList ++ rest) := by
        intro rest
        rw [String.toList_ofList]
        exact Decimal.stops_cons _ rfl
      simp only [String.toList_append, List.append_assoc,
        List.append_cancel_left_eq,
        Address.label_append_inj (hStops _) (hStops _),
        String.toList_inj, Address.label_inj] at hChars
      rw [hChars.1, hChars.2]
    | _ => exact absurd hOpening (by simp [opening])
  | conflict key address =>
    cases r' with
    | conflict key' address' =>
      simp only [String.toList_append, List.append_assoc,
        List.append_cancel_left_eq, ConflictKey.text_append_inj,
        String.toList_inj, Address.label_inj] at hChars
      rw [hChars.1, hChars.2]
    | _ => exact absurd hOpening (by simp [opening])
  | overflow key wildcard =>
    cases r' with
    | overflow key' wildcard' =>
      simp only [String.toList_append, List.append_assoc,
        List.append_cancel_left_eq, ConflictKey.text_append_inj,
        String.toList_inj, Address.label_inj] at hChars
      rw [hChars.1, hChars.2]
    | _ => exact absurd hOpening (by simp [opening])

end AbortReason

namespace Refusal

/- The eleventh letter of a message tells whether it names a key. -/
theorem eleventh_message (r : Refusal) :
    r.message.toList[10]? = some 'r' ↔
      ∃ key previous version, r = regression key previous version := by
  unfold message Address.label
  cases r <;> simp

/- A message that names a key is that of one refusal. -/
theorem message_regression_inj
    {r : Refusal}
    {key : ConflictKey}
    {previous version : Address} :
    r.message = (regression key previous version).message ↔
      r = regression key previous version := by
  refine ⟨fun hSame => ?_, congrArg message⟩
  have hNames : r.message.toList[10]? = some 'r' := by
    rw [hSame]
    exact (eleventh_message _).mpr ⟨key, previous, version, rfl⟩
  rcases (eleventh_message r).mp hNames with
    ⟨key', previous', version', hOther⟩
  subst hOther
  have hStops : ∀ rest, Decimal.Stops (" txVersion=".toList ++ rest) := by
    intro rest
    rw [String.toList_ofList]
    exact Decimal.stops_cons _ rfl
  have hChars := congrArg String.toList hSame
  unfold message at hChars
  simp only [String.toList_append, List.append_assoc,
    List.append_cancel_left_eq, ConflictKey.text_append_inj,
    Address.label_append_inj (hStops _) (hStops _),
    String.toList_inj, Address.label_inj] at hChars
  rw [hChars.1, hChars.2.1, hChars.2.2]

end Refusal

------------------------------------------------------------
-- All identifiers
------------------------------------------------------------

/-
  Whatever names a key or a version of an object in a text can
  be told from any other.
-/
structure TellApart : Prop where
  /- Keys with parameters of any length. -/
  keys : ∀ k k' : ConflictKey, k.text = k'.text ↔ k = k'
  /- Versions of objects. -/
  versions : ∀ id id' : VersionedId, id.text = id'.text ↔ id = id'
  /- Why a transaction is aborted, with the key that is named. -/
  reasons :
    ∀ r r' : AbortReason, r.message = r'.message ↔ r = r'
  /- A refused write, with the key that is named, among all refusals. -/
  refusals :
    ∀ (r : Refusal) (key : ConflictKey) (previous version : Address),
      r.message = (Refusal.regression key previous version).message ↔
        r = .regression key previous version

/- No two identifiers are displayed alike. -/
theorem displays_tell_apart : TellApart where
  keys _ _ := ConflictKey.text_inj
  versions _ _ := VersionedId.text_inj
  reasons _ _ := AbortReason.message_inj
  refusals _ _ _ _ := Refusal.message_regression_inj

end OrderedLog
