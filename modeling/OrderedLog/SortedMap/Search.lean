import OrderedLog.KeyOrder

/-
  This file defines how the place of a key is found in an
  array of entries that are in ascending order of their keys:
  the part in question is halved until nothing is left of it.

  Key definitions include:
    * `lowerBound`

  Key lemmas include:
    * `lt_lowerBound_iff`
    * `split_at_lowerBound`
-/

namespace OrderedLog

variable {κ ν : Type} [KeyOrder κ]

/-
  The first place from `low` on and before `high` whose key is
  not below a key, or `high`, if halving `halvings` times is
  enough to tell.
-/
@[specialize]
def searchBetween
    (entries : Array (κ × ν))
    (k : κ) :
    (halvings : Nat) → (low high : Nat) → Nat
  | 0, low, _ => low
  | halvings + 1, low, high =>
    if low < high then
      let middle := low + (high - low) / 2
      match entries[middle]? with
      | some e =>
        if e.1 < k then searchBetween entries k halvings (middle + 1) high
        else searchBetween entries k halvings low middle
      | none => low
    else
      low

/- The first place whose key is not below a key. -/
@[specialize]
def lowerBound
    (entries : Array (κ × ν))
    (k : κ) : Nat :=
  searchBetween entries k entries.size 0 entries.size

/- Earlier entries have smaller keys. -/
theorem lt_of_place_lt
    {entries : Array (κ × ν)}
    (sorted : entries.toList.Pairwise (fun a b => a.1 < b.1))
    {i j : Nat}
    {a b : κ × ν}
    (ha : entries[i]? = some a)
    (hb : entries[j]? = some b)
    (h : i < j) : a.1 < b.1 := by
  obtain ⟨hi, rfl⟩ := Array.getElem?_eq_some_iff.mp ha
  obtain ⟨hj, rfl⟩ := Array.getElem?_eq_some_iff.mp hb
  exact List.pairwise_iff_getElem.mp sorted i j hi hj h

/- What a search keeps: all before the bound are below the key. -/
theorem searchBetween_spec
    {entries : Array (κ × ν)}
    (sorted : entries.toList.Pairwise (fun a b => a.1 < b.1))
    (k : κ)
    (halvings low high : Nat)
    (enough : high ≤ low + halvings)
    (inside : low ≤ high)
    (fits : high ≤ entries.size)
    (below : ∀ i e, entries[i]? = some e → i < low → e.1 < k)
    (above : ∀ i e, entries[i]? = some e → high ≤ i → ¬ e.1 < k)
    (i : Nat)
    (e : κ × ν)
    (he : entries[i]? = some e) :
    i < searchBetween entries k halvings low high ↔ e.1 < k := by
  induction halvings generalizing low high with
  | zero =>
    rw [searchBetween]
    constructor
    · exact below i e he
    · intro lt
      exact Nat.lt_of_not_le (fun h => above i e he (by omega) lt)
  | succ halvings ih =>
    rw [searchBetween]
    split
    · next more =>
      have hm : low + (high - low) / 2 < entries.size := by omega
      simp only [Array.getElem?_eq_getElem hm]
      have found := Array.getElem?_eq_getElem hm
      split
      · next lt =>
        apply ih _ _ (by omega) (by omega) fits _ above
        intro j a ha hj
        by_cases same : j = low + (high - low) / 2
        · subst same
          rw [found] at ha
          cases ha
          exact lt
        · exact KeyOrder.trans (lt_of_place_lt sorted ha found (by omega)) lt
      · next notLt =>
        apply ih _ _ (by omega) (by omega) (by omega) below
        intro j a ha hj lt
        by_cases same : j = low + (high - low) / 2
        · subst same
          rw [found] at ha
          cases ha
          exact notLt lt
        · exact notLt
            (KeyOrder.trans (lt_of_place_lt sorted found ha (by omega)) lt)
    · next done =>
      constructor
      · exact below i e he
      · intro lt
        exact Nat.lt_of_not_le (fun h => above i e he (by omega) lt)

/- A search stays within its bounds. -/
theorem searchBetween_le
    (entries : Array (κ × ν))
    (k : κ)
    (halvings low high : Nat)
    (inside : low ≤ high) :
    searchBetween entries k halvings low high ≤ high := by
  induction halvings generalizing low high with
  | zero => exact inside
  | succ halvings ih =>
    rw [searchBetween]
    split
    · simp only
      split
      · split
        · exact ih _ _ (by omega)
        · exact Nat.le_trans (ih _ _ (by omega)) (by omega)
      · exact inside
    · exact inside

/- The keys before the lower bound are those below the key. -/
theorem lt_lowerBound_iff
    {entries : Array (κ × ν)}
    (sorted : entries.toList.Pairwise (fun a b => a.1 < b.1))
    (k : κ)
    {i : Nat}
    {e : κ × ν}
    (he : entries[i]? = some e) :
    i < lowerBound entries k ↔ e.1 < k := by
  apply searchBetween_spec sorted k _ _ _ (by omega) (by omega) (Nat.le_refl _)
  · intro j a _ hj
    omega
  · intro j a ha hj
    have := (Array.getElem?_eq_some_iff.mp ha).1
    omega
  · exact he

/-
  The lower bound splits the entries into those below the key
  and those that are not.
-/
theorem split_at_lowerBound
    {entries : Array (κ × ν)}
    (sorted : entries.toList.Pairwise (fun a b => a.1 < b.1))
    (k : κ) :
    ∃ front back,
      entries.toList = front ++ back
        ∧ front.length = lowerBound entries k
        ∧ (∀ e ∈ front, e.1 < k)
        ∧ (∀ e ∈ back, ¬ e.1 < k) := by
  refine ⟨entries.toList.take (lowerBound entries k),
    entries.toList.drop (lowerBound entries k),
    (List.take_append_drop _ _).symm, ?_, ?_, ?_⟩
  · rw [List.length_take]
    have : lowerBound entries k ≤ entries.toList.length :=
      searchBetween_le entries k _ _ _ (Nat.zero_le _)
    omega
  · intro e he
    obtain ⟨i, hi, rfl⟩ := List.mem_iff_getElem.mp he
    rw [List.length_take] at hi
    rw [List.getElem_take]
    have found : entries[i]? = some entries.toList[i] := by
      simp
    exact (lt_lowerBound_iff sorted k found).mp (by omega)
  · intro e he
    obtain ⟨i, hi, rfl⟩ := List.mem_iff_getElem.mp he
    rw [List.length_drop] at hi
    rw [List.getElem_drop]
    intro lt
    have found :
        entries[lowerBound entries k + i]?
          = some entries.toList[lowerBound entries k + i] := by
      simp
    have := (lt_lowerBound_iff sorted k found).mpr lt
    omega

end OrderedLog
