import OrderedLog.Json.Basic
import OrderedLog.Proofs.Json.Layouts

/-
  This file proves that a document is read from any text that
  lays out its tokens. As the text without blanks is one of
  them, reading undoes writing.

  Key definitions include:
    * `Json.Follows`

  Key lemmas include:
    * `Json.tokens_apart`
    * `Json.readValue?_tokens`
    * `Json.layout_render`

  Key theorems include:
    * `Json.parse?_of_layout`
    * `Json.parse?_render`
-/

namespace OrderedLog.Json

------------------------------------------------------------
-- Tokens of a document
------------------------------------------------------------

theorem tokens_ne_nil (j : Json) : j.tokens ≠ [] := by
  unfold tokens
  split <;> simp

/- A document does not start like the end of an array. -/
theorem exists_tokens_eq_cons (j : Json) :
    ∃ token more, j.tokens = token :: more ∧ token ≠ .closeBracket := by
  unfold tokens
  split <;> exact ⟨_, _, rfl, by simp⟩

section

variable (item : Json)
variable (items : List Json)
variable (name : List StringUnit)
variable (value : Json)
variable (fields : List (List StringUnit × Json))
variable (rest : List Token)

/- An array starts with its first item. -/
theorem tokens_array_append :
    (array (item :: items)).tokens ++ rest =
      .openBracket :: (item.tokens ++ (itemTokens items ++ rest)) := by
  simp [tokens]

theorem itemTokens_cons_append :
    itemTokens (item :: items) ++ rest =
      .comma :: (item.tokens ++ (itemTokens items ++ rest)) := by
  simp [itemTokens]

/- An object starts with the name of its first field. -/
theorem tokens_object_append :
    (object ((name, value) :: fields)).tokens ++ rest =
      .openBrace :: .string name :: .colon
        :: (value.tokens ++ (fieldTokens fields ++ rest)) := by
  simp [tokens]

theorem fieldTokens_cons_append :
    fieldTokens ((name, value) :: fields) ++ rest =
      .comma :: .string name :: .colon
        :: (value.tokens ++ (fieldTokens fields ++ rest)) := by
  simp [fieldTokens]

end

/- Tokens that no number has to be kept apart from. -/
def Follows (rest : List Token) : Prop :=
  rest.IsChain Token.Apart ∧ ∀ token ∈ rest.head?, token.isNumber = false

theorem isChain_cons_of_not_number
    {token : Token}
    {rest : List Token}
    (hOther : token.isNumber = false)
    (h : rest.IsChain Token.Apart) :
    (token :: rest).IsChain Token.Apart := by
  rw [List.isChain_cons]
  refine ⟨fun next _ hNumber => ?_, h⟩
  rw [hOther] at hNumber
  cases hNumber

theorem follows_cons
    {token : Token}
    {rest : List Token}
    (hOther : token.isNumber = false)
    (h : rest.IsChain Token.Apart) : Follows (token :: rest) := by
  refine ⟨isChain_cons_of_not_number hOther h, fun next hHead => ?_⟩
  rw [List.head?_cons, Option.mem_some_iff] at hHead
  exact hHead ▸ hOther

mutual

theorem isChain_tokens_append
    (j : Json)
    {rest : List Token}
    (h : Follows rest) : (j.tokens ++ rest).IsChain Token.Apart := by
  have hSingle : ∀ token : Token, (token :: rest).IsChain Token.Apart := by
    intro token
    rw [List.isChain_cons]
    exact ⟨fun next hHead _ => h.2 next hHead, h.1⟩
  cases j with
  | null => exact hSingle _
  | bool value => exact hSingle _
  | number value => exact hSingle _
  | string units => exact hSingle _
  | array items =>
    cases items with
    | nil =>
      exact isChain_cons_of_not_number rfl (hSingle _)
    | cons item items =>
      rw [tokens_array_append]
      exact isChain_cons_of_not_number rfl
        (isChain_tokens_append item (follows_itemTokens_append items h.1))
  | object fields =>
    cases fields with
    | nil =>
      exact isChain_cons_of_not_number rfl (hSingle _)
    | cons field fields =>
      cases field with | mk name value =>
      rw [tokens_object_append]
      refine isChain_cons_of_not_number rfl
        (isChain_cons_of_not_number rfl (isChain_cons_of_not_number rfl ?_))
      exact isChain_tokens_append value
        (follows_fieldTokens_append fields h.1)
termination_by sizeOf j

theorem follows_itemTokens_append
    (items : List Json)
    {rest : List Token}
    (h : rest.IsChain Token.Apart) : Follows (itemTokens items ++ rest) := by
  cases items with
  | nil => exact follows_cons rfl h
  | cons item items =>
    rw [itemTokens_cons_append]
    exact follows_cons rfl
      (isChain_tokens_append item (follows_itemTokens_append items h))
termination_by sizeOf items

theorem follows_fieldTokens_append
    (fields : List (List StringUnit × Json))
    {rest : List Token}
    (h : rest.IsChain Token.Apart) :
    Follows (fieldTokens fields ++ rest) := by
  cases fields with
  | nil => exact follows_cons rfl h
  | cons field fields =>
    cases field with | mk name value =>
    rw [fieldTokens_cons_append]
    refine follows_cons rfl
      (isChain_cons_of_not_number rfl (isChain_cons_of_not_number rfl ?_))
    exact isChain_tokens_append value (follows_fieldTokens_append fields h)
termination_by sizeOf fields

end

/- No two numbers follow each other in a document. -/
theorem tokens_apart (j : Json) : j.tokens.IsChain Token.Apart := by
  have hNothing : Follows [] := ⟨List.IsChain.nil, nofun⟩
  have hChain := j.isChain_tokens_append hNothing
  rwa [List.append_nil] at hChain

------------------------------------------------------------
-- Reading
------------------------------------------------------------

/-
  The next three go by induction on a document, its items and its
  fields. Each step down or along leaves at least one token
  behind, so that depth and tokens run out together.
-/

mutual

/- A document is read from its tokens, as deep as there are tokens. -/
theorem readValue?_tokens
    (j : Json)
    (rest : List Token)
    {depth : Nat}
    (h : j.tokens.length ≤ depth) :
    readValue? depth (j.tokens ++ rest) = some (j, rest) := by
  cases depth with
  | zero =>
    exact absurd (List.length_eq_zero_iff.mp (Nat.le_zero.mp h))
      j.tokens_ne_nil
  | succ depth =>
    cases j with
    | null => rfl
    | bool value => rfl
    | number value => rfl
    | string units => rfl
    | array items =>
      cases items with
      | nil => rfl
      | cons item items =>
        have hLength :
            (item.tokens ++ itemTokens items).length ≤ depth := by
          rw [tokens, List.cons_append, List.length_cons] at h
          exact Nat.le_of_succ_le_succ h
        rcases item.exists_tokens_eq_cons with
          ⟨token, more, hTokens, hToken⟩
        rw [tokens_array_append, readValue?,
          readItems?_tokens item items rest hLength]
        intro after hSame
        rw [hTokens] at hSame
        exact hToken (List.cons.inj hSame).1
    | object fields =>
      cases fields with
      | nil => rfl
      | cons field fields =>
        cases field with | mk name value =>
        have hLength :
            (value.tokens ++ fieldTokens fields).length + 2 ≤ depth := by
          rw [tokens, List.cons_append, List.cons_append, List.cons_append,
            List.length_cons, List.length_cons, List.length_cons] at h
          omega
        rw [tokens_object_append, readValue?,
          readFields?_tokens name value fields rest hLength]
        intro after hSame
        cases hSame
termination_by sizeOf j

/- Items are read up to the end of their array. -/
theorem readItems?_tokens
    (item : Json)
    (items : List Json)
    (rest : List Token)
    {depth : Nat}
    (h : (item.tokens ++ itemTokens items).length ≤ depth) :
    readItems? depth (item.tokens ++ (itemTokens items ++ rest)) =
      some (item :: items, rest) := by
  cases depth with
  | zero =>
    rw [List.length_append] at h
    have hSome := List.length_pos_of_ne_nil item.tokens_ne_nil
    omega
  | succ depth =>
    cases items with
    | nil =>
      have hItem : item.tokens.length ≤ depth := by
        rw [itemTokens, List.length_append, List.length_singleton] at h
        omega
      rw [readItems?, readValue?_tokens item _ hItem]
      rfl
    | cons next items =>
      have hItem : item.tokens.length ≤ depth := by
        rw [itemTokens, List.length_append, List.cons_append,
          List.length_cons] at h
        omega
      have hMore :
          (next.tokens ++ itemTokens items).length ≤ depth := by
        rw [itemTokens, List.length_append, List.cons_append,
          List.length_cons] at h
        omega
      rw [readItems?, readValue?_tokens item _ hItem,
        itemTokens_cons_append]
      simp only [readItems?_tokens next items rest hMore]
termination_by sizeOf (item :: items)

/- Fields are read up to the end of their object. -/
theorem readFields?_tokens
    (name : List StringUnit)
    (value : Json)
    (fields : List (List StringUnit × Json))
    (rest : List Token)
    {depth : Nat}
    (h : (value.tokens ++ fieldTokens fields).length + 2 ≤ depth) :
    readFields? depth
        (.string name :: .colon
          :: (value.tokens ++ (fieldTokens fields ++ rest))) =
      some ((name, value) :: fields, rest) := by
  cases depth with
  | zero => omega
  | succ depth =>
    cases fields with
    | nil =>
      have hValue : value.tokens.length ≤ depth := by
        rw [List.length_append] at h
        omega
      rw [readFields?, readValue?_tokens value _ hValue]
      rfl
    | cons field fields =>
      cases field with | mk other next =>
      have hValue : value.tokens.length ≤ depth := by
        rw [List.length_append] at h
        omega
      have hMore :
          (next.tokens ++ fieldTokens fields).length + 2 ≤ depth := by
        rw [fieldTokens, List.length_append, List.cons_append,
          List.cons_append, List.cons_append, List.length_cons,
          List.length_cons, List.length_cons] at h
        omega
      rw [readFields?, readValue?_tokens value _ hValue,
        fieldTokens_cons_append]
      simp only [readFields?_tokens other next fields rest hMore]
termination_by sizeOf ((name, value) :: fields)

end

/- A document is read from each text that lays out its tokens. -/
theorem parse?_of_layout
    {j : Json}
    {text : String}
    (h : Layout j.tokens text.toList) : parse? text = some j := by
  have hRead := j.readValue?_tokens [] (Nat.le_succ j.tokens.length)
  rw [List.append_nil] at hRead
  unfold parse?
  rw [h.scan?_eq j.tokens_apart]
  unfold ofTokens?
  simp only [hRead]

theorem layout_render (j : Json) : Layout j.tokens j.render.toList := by
  unfold render
  rw [String.toList_ofList]
  exact layout_chars j.tokens

/- Reading a document undoes writing it. -/
theorem parse?_render (j : Json) : parse? j.render = some j :=
  parse?_of_layout j.layout_render

end OrderedLog.Json
