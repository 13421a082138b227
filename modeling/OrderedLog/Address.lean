import OrderedLog.KeyOrder

/-
  This file defines the addresses of the log: the positions
  that the sequencer assigns, which double as the versions
  of the objects built from the log.

  Key definitions include:
    * `Address`
    * `Address.zero`
    * `Address.last`
    * `Address.add?`
    * `Address.next?`
    * `Address.pred?`
    * `Address.label`
-/

namespace OrderedLog

/- A position in the log, one of 64 bits. -/
structure Address where
  val : Nat
  val_lt : val < UInt64.size
deriving DecidableEq

namespace Address

/- Addresses are equal when their positions are. -/
theorem eq_of_val_eq
    {a b : Address}
    (h : a.val = b.val) : a = b := by
  cases a
  cases b
  cases h
  rfl

instance : KeyOrder Address :=
  KeyOrder.lift val eq_of_val_eq

instance : LE Address :=
  ⟨fun a b => a.val ≤ b.val⟩

theorem lt_iff_val_lt
    {a b : Address} : a < b ↔ a.val < b.val :=
  Iff.rfl

theorem le_iff_val_le
    {a b : Address} : a ≤ b ↔ a.val ≤ b.val :=
  Iff.rfl

instance : DecidableLE Address :=
  fun a b => Nat.decLe a.val b.val

/- The first address of a fresh log. -/
def zero : Address :=
  ⟨0, by decide⟩

instance : Inhabited Address :=
  ⟨zero⟩

/- The last address there is. -/
def last : Address :=
  ⟨UInt64.size - 1, by decide⟩

/- The address at a position, if the position is in range. -/
def ofNat? (n : Nat) : Option Address :=
  if h : n < UInt64.size then some ⟨n, h⟩ else none

/- The address at a position counted in 64 bits. -/
def ofNat (n : Nat) : Address :=
  ⟨n % UInt64.size, Nat.mod_lt n (by decide)⟩

/- The larger of two addresses. -/
def max (a b : Address) : Address :=
  if a ≤ b then b else a

/-
  The address `n` positions further on, unless the log has
  no such position.
-/
def add?
    (a : Address)
    (n : Nat) : Option Address :=
  ofNat? (a.val + n)

/- The address right after this one. -/
def next? (a : Address) : Option Address :=
  a.add? 1

/- The address right before this one. -/
def pred? (a : Address) : Option Address :=
  match a with
  | ⟨0, _⟩ => none
  | ⟨n + 1, h⟩ => some ⟨n, Nat.lt_of_succ_lt h⟩

------------------------------------------------------------
-- Order
------------------------------------------------------------

@[simp]
theorem val_zero : zero.val = 0 :=
  rfl

@[simp]
theorem val_max
    (a b : Address) : (a.max b).val = Nat.max a.val b.val := by
  rw [max]
  split
  · next h => exact (Nat.max_eq_right h).symm
  · next h => exact (Nat.max_eq_left (Nat.le_of_not_le h)).symm

theorem not_lt
    {a b : Address} : ¬ a < b ↔ b ≤ a :=
  Nat.not_lt

theorem not_le
    {a b : Address} : ¬ a ≤ b ↔ b < a :=
  Nat.not_le

theorem le_refl (a : Address) : a ≤ a :=
  Nat.le_refl a.val

theorem le_trans
    {a b c : Address}
    (h : a ≤ b)
    (h' : b ≤ c) : a ≤ c :=
  Nat.le_trans h h'

theorem le_antisymm
    {a b : Address}
    (h : a ≤ b)
    (h' : b ≤ a) : a = b :=
  eq_of_val_eq (Nat.le_antisymm h h')

theorem zero_le (a : Address) : zero ≤ a :=
  Nat.zero_le a.val

theorem lt_of_lt_of_le
    {a b c : Address}
    (h : a < b)
    (h' : b ≤ c) : a < c :=
  Nat.lt_of_lt_of_le h h'

theorem lt_of_le_of_lt
    {a b c : Address}
    (h : a ≤ b)
    (h' : b < c) : a < c :=
  Nat.lt_of_le_of_lt h h'

theorem le_last (a : Address) : a ≤ last :=
  Nat.le_pred_of_lt a.val_lt

/- All addresses are below the last one but itself. -/
theorem lt_last_iff
    {a : Address} : a < last ↔ a ≠ last := by
  rw [lt_iff_val_lt, Nat.lt_iff_le_and_ne]
  constructor
  · intro h hSame
    exact h.2 (congrArg val hSame)
  · intro h
    exact ⟨a.le_last, fun hSame => h (eq_of_val_eq hSame)⟩

/- So what is below any address is not the last one. -/
theorem ne_last_of_lt
    {a b : Address}
    (h : a < b) : a ≠ last :=
  lt_last_iff.mp (lt_of_lt_of_le h b.le_last)

theorem le_max_left (a b : Address) : a ≤ a.max b := by
  rw [le_iff_val_le, val_max]
  exact Nat.le_max_left _ _

theorem le_max_right (a b : Address) : b ≤ a.max b := by
  rw [le_iff_val_le, val_max]
  exact Nat.le_max_right _ _

/- The larger of two addresses is one of them. -/
theorem max_eq_or (a b : Address) : a.max b = a ∨ a.max b = b := by
  rw [max]
  split
  · exact Or.inr rfl
  · exact Or.inl rfl

theorem max_eq_left
    {a b : Address}
    (h : b ≤ a) : a.max b = a := by
  apply eq_of_val_eq
  rw [val_max]
  exact Nat.max_eq_left h

theorem max_eq_right
    {a b : Address}
    (h : a ≤ b) : a.max b = b :=
  if_pos h

theorem max_comm (a b : Address) : a.max b = b.max a := by
  apply eq_of_val_eq
  rw [val_max, val_max]
  exact Nat.max_comm a.val b.val

theorem max_self (a : Address) : a.max a = a :=
  max_eq_right a.le_refl

/- The larger of two addresses is a bound if both are. -/
theorem max_le_iff
    {a b c : Address} : a.max b ≤ c ↔ a ≤ c ∧ b ≤ c := by
  rw [le_iff_val_le, val_max]
  exact Nat.max_le

------------------------------------------------------------
-- Moving along the log
------------------------------------------------------------

theorem ofNat?_eq_some_iff
    {n : Nat}
    {a : Address} : ofNat? n = some a ↔ a.val = n := by
  rw [ofNat?]
  split
  · next h =>
    rw [Option.some_inj]
    exact ⟨fun e => e ▸ rfl, fun e => eq_of_val_eq e.symm⟩
  · next h => exact ⟨nofun, fun e => absurd (e ▸ a.val_lt) h⟩

/- Positions are counted without leaving the range. -/
theorem add?_eq_some_iff
    {a b : Address}
    {n : Nat} : a.add? n = some b ↔ b.val = a.val + n :=
  ofNat?_eq_some_iff

/- The last address is the only one without a next one. -/
theorem next?_eq_none_iff
    {a : Address} : a.next? = none ↔ a = last := by
  have below := a.val_lt
  rw [next?, add?, ofNat?]
  split
  · next h =>
    refine ⟨nofun, fun e => ?_⟩
    rw [e] at h
    exact absurd h (by decide)
  · next h =>
    refine ⟨fun _ => eq_of_val_eq ?_, fun _ => rfl⟩
    change a.val = UInt64.size - 1
    omega

/- The next address is one position further on. -/
theorem next?_eq_some_iff
    {a b : Address} : a.next? = some b ↔ b.val = a.val + 1 :=
  add?_eq_some_iff

/- The first address is the only one without one before it. -/
theorem pred?_eq_none_iff
    {a : Address} : a.pred? = none ↔ a = zero := by
  obtain ⟨n, h⟩ := a
  cases n with
  | zero => exact ⟨fun _ => rfl, fun _ => rfl⟩
  | succ n => exact ⟨nofun, nofun⟩

/- The address before another one is one position back. -/
theorem pred?_eq_some_iff
    {a b : Address} : a.pred? = some b ↔ b.val + 1 = a.val := by
  obtain ⟨n, h⟩ := a
  cases n with
  | zero => exact ⟨nofun, nofun⟩
  | succ n =>
    simp only [pred?, Option.some_inj, Nat.add_right_cancel_iff]
    exact ⟨fun e => e ▸ rfl, fun e => eq_of_val_eq e.symm⟩

------------------------------------------------------------
-- Text
------------------------------------------------------------

/- The position in decimal. -/
def digits (a : Address) : List Char :=
  Nat.toDigits 10 a.val

/- How an address is written in messages. -/
def label (a : Address) : String :=
  String.ofList ("addr:".toList ++ a.digits)

/- How an address is written among the fields of a structure. -/
def inspect (a : Address) : String :=
  String.ofList ("Address(".toList ++ a.digits ++ [')'])

end Address

end OrderedLog
