/-
  This file defines decidable strict total orders, the
  orders by which maps and sets are sorted.

  Key definitions include:
    * `KeyOrder`
    * `KeyOrder.compare`
    * `KeyOrder.lift`
    * `KeyOrder.lexicographic`
-/

namespace OrderedLog

/-
  A strict order on keys in which any two different keys
  are comparable.
-/
class KeyOrder (κ : Type) extends LT κ where
  decLt : (a b : κ) → Decidable (a < b)
  irrefl : (a : κ) → ¬ a < a
  trans : {a b c : κ} → a < b → b < c → a < c
  connected : {a b : κ} → ¬ a < b → ¬ b < a → a = b

namespace KeyOrder

@[inline]
instance decidableLT
    {κ : Type}
    [KeyOrder κ] : DecidableLT κ :=
  KeyOrder.decLt

/- Which of two keys comes first. -/
def compare
    {κ : Type}
    [KeyOrder κ]
    (a b : κ) : Ordering :=
  if a < b then .lt else if b < a then .gt else .eq

/- An ordered key is never both below and above another. -/
theorem asymm
    {κ : Type}
    [KeyOrder κ]
    {a b : κ}
    (h : a < b) : ¬ b < a :=
  fun h' => irrefl a (trans h h')

/- Different keys are ordered one way or the other. -/
theorem lt_or_lt_of_ne
    {κ : Type}
    [KeyOrder κ]
    {a b : κ}
    (h : a ≠ b) : a < b ∨ b < a := by
  by_cases hab : a < b
  · exact Or.inl hab
  · by_cases hba : b < a
    · exact Or.inr hba
    · exact absurd (connected hab hba) h

/- Smaller keys differ from larger ones. -/
theorem ne_of_lt
    {κ : Type}
    [KeyOrder κ]
    {a b : κ}
    (h : a < b) : a ≠ b :=
  fun e => irrefl b (e ▸ h)

------------------------------------------------------------
-- Orders from other orders
------------------------------------------------------------

/- Keys ordered by an injective measure of them. -/
@[reducible, inline]
def lift
    {κ α : Type}
    [KeyOrder α]
    (f : κ → α)
    (injective : {a b : κ} → f a = f b → a = b) : KeyOrder κ where
  lt a b := f a < f b
  decLt _ _ := inferInstance
  irrefl a := irrefl (f a)
  trans := trans
  connected h h' := injective (connected h h')

/- Keys ordered by one part of them and, within it, by another. -/
@[reducible, inline]
def lexicographic
    {κ α β : Type}
    [KeyOrder α]
    [KeyOrder β]
    [DecidableEq α]
    (f : κ → α)
    (g : κ → β)
    (injective : {a b : κ} → f a = f b → g a = g b → a = b) :
    KeyOrder κ where
  lt a b := f a < f b ∨ (f a = f b ∧ g a < g b)
  decLt _ _ := inferInstance
  irrefl a h := by
    cases h with
    | inl h => exact irrefl _ h
    | inr h => exact irrefl _ h.2
  trans h h' := by
    cases h with
    | inl h =>
      cases h' with
      | inl h' => exact Or.inl (trans h h')
      | inr h' => exact Or.inl (h'.1 ▸ h)
    | inr h =>
      cases h' with
      | inl h' => exact Or.inl (h.1 ▸ h')
      | inr h' => exact Or.inr ⟨h.1.trans h'.1, trans h.2 h'.2⟩
  connected {a b} h h' := by
    have first : f a = f b :=
      connected (fun c => h (Or.inl c)) (fun c => h' (Or.inl c))
    have second : g a = g b :=
      connected
        (fun c => h (Or.inr ⟨first, c⟩))
        (fun c => h' (Or.inr ⟨first.symm, c⟩))
    exact injective first second

------------------------------------------------------------
-- Numbers and byte strings
------------------------------------------------------------

instance : KeyOrder Nat where
  lt a b := a < b
  decLt a b := Nat.decLt a b
  irrefl := Nat.lt_irrefl
  trans := Nat.lt_trans
  connected h h' := by omega

/- Byte strings are ordered as in a dictionary. -/
instance : KeyOrder (List UInt8) where
  lt a b := a < b
  decLt _ _ := inferInstance
  irrefl := List.lt_irrefl
  trans := List.lt_trans
  connected h h' := List.le_antisymm h' h

end KeyOrder

end OrderedLog
