import Mathlib.Data.List.Chain
import Mathlib.Data.List.Forall2
import OrderedLog.Json.Token
import OrderedLog.Proofs.Json.Numbers
import OrderedLog.Proofs.Json.Strings

/-
  This file says which texts lay out a sequence of tokens: each
  token is written in one of its ways, with blanks before and
  after it or not. It proves that the tokens of such a text are
  found, as long as no two numbers follow each other.

  Key definitions include:
    * `Token.Spelled`
    * `Token.isNumber`
    * `Token.Apart`
    * `Layout`

  Key lemmas include:
    * `Token.spelled_chars`
    * `Token.Spelled.next?_append`
    * `Token.Spelled.exists_cons`
    * `Layout.ends`
    * `layout_chars`
    * `layout_spaced`

  Key theorems include:
    * `Layout.scan?_eq`
-/

namespace OrderedLog.Json

namespace Token

------------------------------------------------------------
-- Single tokens
------------------------------------------------------------

/- The ways to write a token. Numbers and strings leave a choice. -/
def Spelled : Token → List Char → Prop
  | number n, text => n.Spelled text
  | string units, text =>
    ∃ parts, List.Forall₂ StringUnit.Spelled units parts ∧
      text = '\x22' :: (parts.flatten ++ ['\x22'])
  | token, text => text = token.chars

/- A token is spelled the way it is written. -/
theorem spelled_chars (token : Token) : token.Spelled token.chars := by
  cases token with
  | number n => exact n.spelled_chars
  | string units =>
    refine ⟨units.map StringUnit.chars, ?_, ?_⟩
    · rw [List.forall₂_map_right_iff]
      exact List.forall₂_same.mpr (fun u _ => u.spelled_chars)
    · rw [← List.flatMap_def]
      rfl
  | _ => rfl

/- Whether a token is a number. -/
def isNumber : Token → Bool
  | number _ => true
  | _ => false

/- A number must not follow another one. -/
def Apart (token next : Token) : Prop :=
  token.isNumber = true → next.isNumber = false

/- What does not start another token is read as a number. -/
theorem next?_number
    {c : Char}
    {rest text : List Char}
    {n : Number}
    (h : c = '-' ∨ c.isDigit = true)
    (hScan : Number.scan? (c :: rest) = some (n, text)) :
    next? (c :: rest) = some (number n, text) := by
  have hOther : ∀ d : Char, d ≠ '-' → d.isDigit = false → c ≠ d := by
    intro d hMinus hDigit hSame
    rw [hSame, hDigit] at h
    rcases h with hSign | hNever
    · exact hMinus hSign
    · cases hNever
  rw [next?, hScan]
  all_goals
    intros
    rename_i hSame
    exact hOther _ (by decide) (by decide) (List.cons.inj hSame).1

/- A token is read from each way to write it. -/
theorem Spelled.next?_append
    {token : Token}
    {text rest : List Char}
    (h : token.Spelled text)
    (hEnds : token.isNumber = true → Number.Ends rest) :
    next? (text ++ rest) = some (token, rest) := by
  cases token with
  | number n =>
    have hScan := Number.scan?_append h (hEnds rfl)
    rcases Number.Spelled.exists_cons h with ⟨c, more, hText, hFirst⟩
    rw [hText] at hScan ⊢
    exact next?_number hFirst hScan
  | string units =>
    rcases h with ⟨parts, hParts, hText⟩
    rw [hText, List.cons_append, List.append_assoc, List.singleton_append,
      next?, scanUnits?_append hParts rest]
  | null =>
    have hText : text = ['n', 'u', 'l', 'l'] := h.trans String.toList_ofList
    rw [hText]
    rfl
  | bool value =>
    cases value with
    | true =>
      have hText : text = ['t', 'r', 'u', 'e'] :=
        h.trans String.toList_ofList
      rw [hText]
      rfl
    | false =>
      have hText : text = ['f', 'a', 'l', 's', 'e'] :=
        h.trans String.toList_ofList
      rw [hText]
      rfl
  | _ =>
    rw [h]
    rfl

/- The characters that start tokens other than numbers. -/
def openers : List Char :=
  ['\x7b', '\x7d', '[', ']', ',', ':', 'n', 't', 'f', '\x22']

/- A token other than a number starts with one of these. -/
theorem Spelled.exists_opener
    {token : Token}
    {text : List Char}
    (h : token.Spelled text)
    (hOther : token.isNumber = false) :
    ∃ c ∈ openers, ∃ more, text = c :: more := by
  cases token with
  | number n => cases hOther
  | string units =>
    rcases h with ⟨parts, _, hText⟩
    exact ⟨'\x22', by decide, _, hText⟩
  | null => exact ⟨'n', by decide, _, h.trans String.toList_ofList⟩
  | bool value =>
    cases value with
    | true => exact ⟨'t', by decide, _, h.trans String.toList_ofList⟩
    | false => exact ⟨'f', by decide, _, h.trans String.toList_ofList⟩
  | _ => exact ⟨_, by decide, _, h⟩

/- No token starts with a blank. -/
theorem Spelled.exists_cons
    {token : Token}
    {text : List Char}
    (h : token.Spelled text) :
    ∃ c more, text = c :: more ∧ blank c = false := by
  cases hKind : token.isNumber with
  | true =>
    cases token with
    | number n =>
      rcases Number.Spelled.exists_cons h with ⟨c, more, hText, hFirst⟩
      refine ⟨c, more, hText, ?_⟩
      cases hBlank : blank c with
      | false => rfl
      | true =>
        simp only [blank, decide_eq_true_eq] at hBlank
        rcases hBlank with hSame | hSame | hSame | hSame <;>
          · rw [hSame] at hFirst
            exact absurd hFirst (by decide)
    | _ => cases hKind
  | false =>
    rcases h.exists_opener hKind with ⟨c, hOpener, more, hText⟩
    have hNone : ∀ c ∈ openers, blank c = false := by
      simp [openers, blank]
    exact ⟨c, more, hText, hNone c hOpener⟩

end Token

------------------------------------------------------------
-- Sequences of tokens
------------------------------------------------------------

/- Tokens in their order, with blanks anywhere between them or not. -/
inductive Layout : List Token → List Char → Prop where
  | nil : Layout [] []
  | blank
      {c : Char}
      {tokens : List Token}
      {text : List Char}
      (between : Token.blank c = true)
      (more : Layout tokens text) :
      Layout tokens (c :: text)
  | token
      {token : Token}
      {part : List Char}
      {tokens : List Token}
      {text : List Char}
      (spelled : token.Spelled part)
      (more : Layout tokens text) :
      Layout (token :: tokens) (part ++ text)

/- Tokens without blanks between them are laid out as well. -/
theorem layout_chars (tokens : List Token) :
    Layout tokens (tokens.flatMap Token.chars) := by
  induction tokens with
  | nil => exact Layout.nil
  | cons token tokens ih =>
    rw [List.flatMap_cons]
    exact Layout.token token.spelled_chars ih

/- Nor does it matter if there is a blank after each of them. -/
theorem layout_spaced (tokens : List Token) :
    Layout tokens (tokens.flatMap (fun token => token.chars ++ [' '])) := by
  induction tokens with
  | nil => exact Layout.nil
  | cons token tokens ih =>
    rw [List.flatMap_cons, List.append_assoc]
    exact Layout.token token.spelled_chars (Layout.blank rfl ih)

/- What follows a number does not continue it, unless it is one. -/
theorem Layout.ends
    {tokens : List Token}
    {text : List Char}
    (h : Layout tokens text)
    (hFirst : ∀ token ∈ tokens.head?, token.isNumber = false) :
    Number.Ends text := by
  cases h with
  | nil =>
    intro c hHead
    cases hHead
  | @blank c tokens text between more =>
    intro d hHead
    rw [List.head?_cons, Option.mem_some_iff] at hHead
    subst hHead
    simp only [Token.blank, decide_eq_true_eq] at between
    rcases between with hSame | hSame | hSame | hSame <;>
      · rw [hSame]
        decide
  | token spelled more =>
    rcases spelled.exists_opener (hFirst _ rfl) with
      ⟨c, hOpener, more, hText⟩
    have hNone : ∀ c ∈ Token.openers,
        c.isDigit = false ∧ c ≠ '.' ∧ c ≠ 'e' ∧ c ≠ 'E' := by
      simp [Token.openers]
    intro d hHead
    rw [hText, List.cons_append, List.head?_cons,
      Option.mem_some_iff] at hHead
    exact hNone d (hHead ▸ hOpener)

/- The tokens of a text are found, however they are laid out. -/
theorem Layout.scanUpTo?_eq
    {tokens : List Token}
    {text : List Char}
    (h : Layout tokens text)
    (hApart : tokens.IsChain Token.Apart)
    {size : Nat}
    (hSize : text.length ≤ size) :
    Token.scanUpTo? size text = some tokens := by
  induction h generalizing size with
  | nil =>
    unfold Token.scanUpTo?
    rfl
  | blank between more ih =>
    cases size with
    | zero => exact absurd hSize (Nat.not_succ_le_zero _)
    | succ size =>
      rw [Token.scanUpTo?, if_pos between]
      exact ih hApart (Nat.le_of_succ_le_succ hSize)
  | @token token part tokens text spelled more ih =>
    have hParts := List.isChain_cons.mp hApart
    have hNext : Token.next? (part ++ text) = some (token, text) :=
      spelled.next?_append
        (fun hNumber =>
          more.ends (fun next hHead => hParts.1 next hHead hNumber))
    rcases spelled.exists_cons with ⟨c, rest, hPart, hBlank⟩
    rw [hPart, List.cons_append] at hSize hNext ⊢
    cases size with
    | zero => exact absurd hSize (Nat.not_succ_le_zero _)
    | succ size =>
      have hMore : text.length ≤ size := by
        rw [List.length_cons, List.length_append] at hSize
        omega
      rw [Token.scanUpTo?, hBlank, if_neg (by decide), hNext]
      simp only [ih hParts.2 hMore]

theorem Layout.scan?_eq
    {tokens : List Token}
    {text : List Char}
    (h : Layout tokens text)
    (hApart : tokens.IsChain Token.Apart) :
    Token.scan? text = some tokens :=
  h.scanUpTo?_eq hApart (Nat.le_refl text.length)

end OrderedLog.Json
