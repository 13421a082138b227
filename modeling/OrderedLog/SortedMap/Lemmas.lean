import OrderedLog.SortedMap.Basic

/-
  This file proves what each operation on finite maps and
  finite sets does to the value at a key, and that a map is
  determined by its values.

  Key lemmas include:
    * `SortedMap.get?_eq_some_iff`
    * `SortedMap.entries_insert`
    * `SortedMap.get?_insert`
    * `SortedMap.get?_filterKeys`
    * `SortedMap.entries_erase`
    * `SortedMap.get?_rest`
    * `SortedMap.eq_of_get?_eq`
    * `SortedSet.mem_ofList_iff`
-/

namespace OrderedLog

namespace SortedMap

variable {κ ν : Type} [KeyOrder κ]

------------------------------------------------------------
-- Entries and values
------------------------------------------------------------

/- The entries are in strictly ascending order of their keys. -/
theorem entries_sorted (m : SortedMap κ ν) :
    m.entries.Pairwise (fun a b => a.1 < b.1) :=
  m.sorted

/- A value is at a key if they make up an entry. -/
theorem get?_eq_some_iff
    {m : SortedMap κ ν}
    {k : κ}
    {v : ν} : m.get? k = some v ↔ (k, v) ∈ m.entries := by
  obtain ⟨front, back, split, length, below, above⟩ :=
    split_at_lowerBound m.sorted k
  have sorted := m.sorted
  rw [split] at sorted
  have first : m.cells[lowerBound m.cells k]? = back.head? := by
    rw [← Array.getElem?_toList, split, ← length]
    rw [List.getElem?_append_right (Nat.le_refl _), Nat.sub_self,
      List.head?_eq_getElem?]
  rw [get?, first, entries, split]
  have notInFront : (k, v) ∉ front := fun h =>
    KeyOrder.irrefl k (below (k, v) h)
  cases back with
  | nil => simpa using notInFront
  | cons e back =>
    obtain ⟨a, w⟩ := e
    have notLt : ¬ a < k := above (a, w) List.mem_cons_self
    have after := (List.pairwise_cons.mp (List.pairwise_append.mp sorted).2.1).1
    simp only [List.head?_cons]
    constructor
    · intro h
      split at h
      · cases h
      · next notGt =>
        have : a = k := KeyOrder.connected notLt notGt
        subst this
        cases h
        exact List.mem_append_right _ List.mem_cons_self
    · intro h
      cases List.mem_cons.mp ((List.mem_append.mp h).resolve_left notInFront) with
      | inl same =>
        cases same
        rw [if_neg (KeyOrder.irrefl k)]
      | inr later => exact absurd (after (k, v) later) notLt

/- A key has a value if it is one of the keys. -/
theorem mem_iff_exists
    {m : SortedMap κ ν}
    {k : κ} : k ∈ m ↔ ∃ v, m.get? k = some v :=
  Option.isSome_iff_exists

theorem mem_keys_iff
    {m : SortedMap κ ν}
    {k : κ} : k ∈ m.keys ↔ k ∈ m := by
  rw [mem_iff_exists]
  simp [keys, get?_eq_some_iff]

/- A key without a value is none of the keys. -/
theorem get?_eq_none_iff
    {m : SortedMap κ ν}
    {k : κ} : m.get? k = none ↔ k ∉ m := by
  simp [mem_iff_exists, Option.eq_none_iff_forall_ne_some]

/- The keys are in strictly ascending order. -/
theorem keys_sorted (m : SortedMap κ ν) :
    m.keys.Pairwise (fun a b => a < b) :=
  List.pairwise_map.mpr m.sorted

/- No key is there twice. -/
theorem keys_nodup (m : SortedMap κ ν) : m.keys.Nodup :=
  m.keys_sorted.imp (fun below => KeyOrder.ne_of_lt below)

/- Lists in ascending order with the same entries are equal. -/
theorem eq_of_sorted
    {a b : List (κ × ν)}
    (sortedA : a.Pairwise (fun x y => x.1 < y.1))
    (sortedB : b.Pairwise (fun x y => x.1 < y.1))
    (h : ∀ e, e ∈ a ↔ e ∈ b) : a = b := by
  induction a generalizing b with
  | nil =>
    cases b with
    | nil => rfl
    | cons y ys => exact absurd ((h y).mpr List.mem_cons_self) List.not_mem_nil
  | cons x xs ih =>
    cases b with
    | nil => exact absurd ((h x).mp List.mem_cons_self) List.not_mem_nil
    | cons y ys =>
      have belowX := (List.pairwise_cons.mp sortedA).1
      have belowY := (List.pairwise_cons.mp sortedB).1
      have same : x = y := by
        cases List.mem_cons.mp ((h x).mp List.mem_cons_self) with
        | inl e => exact e
        | inr hx =>
          cases List.mem_cons.mp ((h y).mpr List.mem_cons_self) with
          | inl e => exact e.symm
          | inr hy =>
            exact absurd (belowX y hy) (KeyOrder.asymm (belowY x hx))
      subst same
      have rest : xs = ys := by
        apply ih (List.pairwise_cons.mp sortedA).2 (List.pairwise_cons.mp sortedB).2
        intro e
        constructor
        · intro he
          cases List.mem_cons.mp ((h e).mp (List.mem_cons_of_mem _ he)) with
          | inl same => exact absurd (same ▸ belowX e he) (KeyOrder.irrefl _)
          | inr he => exact he
        · intro he
          cases List.mem_cons.mp ((h e).mpr (List.mem_cons_of_mem _ he)) with
          | inl same => exact absurd (same ▸ belowY e he) (KeyOrder.irrefl _)
          | inr he => exact he
      rw [rest]

/- Maps with the same value at every key are equal. -/
theorem eq_of_get?_eq
    {m n : SortedMap κ ν}
    (h : ∀ k, m.get? k = n.get? k) : m = n := by
  apply eq_of_entries_eq
  apply eq_of_sorted m.entries_sorted n.entries_sorted
  intro e
  rw [← get?_eq_some_iff (k := e.1), ← get?_eq_some_iff, h]

------------------------------------------------------------
-- Operations
------------------------------------------------------------

@[simp]
theorem get?_empty
    (k : κ) : (∅ : SortedMap κ ν).get? k = none :=
  rfl

@[simp]
theorem not_mem_empty
    (k : κ) : k ∉ (∅ : SortedMap κ ν) :=
  get?_eq_none_iff.mp (get?_empty k)

/- The maps without keys are the empty one. -/
theorem isEmpty_iff
    {m : SortedMap κ ν} : m.isEmpty = true ↔ m = ∅ := by
  constructor
  · intro hEmpty
    have hCells : m.cells = #[] := Array.isEmpty_iff.mp hEmpty
    exact eq_of_entries_eq (congrArg Array.toList hCells)
  · intro hEmpty
    subst hEmpty
    rfl

/- A map with a key is not the empty one. -/
theorem ne_empty_of_mem
    {m : SortedMap κ ν}
    {k : κ}
    (h : k ∈ m) : m ≠ ∅ := by
  intro hEmpty
  rw [hEmpty] at h
  exact not_mem_empty k h

/- A map that is not the empty one has a key. -/
theorem exists_mem_of_ne_empty
    {m : SortedMap κ ν}
    (h : m ≠ ∅) : ∃ k, k ∈ m := by
  apply Classical.byContradiction
  intro hNone
  apply h
  apply eq_of_get?_eq
  intro k
  rw [get?_empty, get?_eq_none_iff]
  intro hMem
  exact hNone ⟨k, hMem⟩

/- An insertion puts its entry among the entries. -/
theorem entries_insert
    (m : SortedMap κ ν)
    (k : κ)
    (v : ν) : (m.insert k v).entries = insertEntry k v m.entries :=
  toList_insertCell m.sorted k v

/- The entries after an insertion: the new one, and those of other keys. -/
theorem mem_insertEntry_iff
    {k : κ}
    {v : ν}
    {entries : List (κ × ν)}
    (sorted : entries.Pairwise (fun a b => a.1 < b.1))
    {e : κ × ν} :
    e ∈ insertEntry k v entries ↔ e = (k, v) ∨ (e.1 ≠ k ∧ e ∈ entries) := by
  induction entries with
  | nil => simp [insertEntry]
  | cons head rest ih =>
    obtain ⟨a, w⟩ := head
    have below := (List.pairwise_cons.mp sorted).1
    have sortedRest := (List.pairwise_cons.mp sorted).2
    rw [insertEntry]
    split
    · next hak =>
      have : a ≠ k := KeyOrder.ne_of_lt hak
      rw [List.mem_cons, List.mem_cons, ih sortedRest]
      grind
    · split
      · next hka =>
        have other : ∀ e ∈ (a, w) :: rest, e.1 ≠ k := by
          intro e he
          cases List.mem_cons.mp he with
          | inl he => exact he ▸ (KeyOrder.ne_of_lt hka).symm
          | inr he =>
            exact (KeyOrder.ne_of_lt (KeyOrder.trans hka (below e he))).symm
        rw [List.mem_cons]
        grind
      · next hak hka =>
        have : k = a := KeyOrder.connected hka hak
        subst this
        have other : ∀ e ∈ rest, e.1 ≠ k := fun e he =>
          (KeyOrder.ne_of_lt (below e he)).symm
        rw [List.mem_cons, List.mem_cons]
        grind

/- An insertion changes the value at its key alone. -/
theorem get?_insert
    [DecidableEq κ]
    (m : SortedMap κ ν)
    (k : κ)
    (v : ν)
    (a : κ) :
    (m.insert k v).get? a = if a = k then some v else m.get? a := by
  apply Option.ext
  intro w
  rw [get?_eq_some_iff, entries_insert, mem_insertEntry_iff m.entries_sorted]
  split
  · next h =>
    subst h
    simp [eq_comm]
  · next h =>
    rw [get?_eq_some_iff]
    simp [h]

theorem mem_insert_iff
    [DecidableEq κ]
    {m : SortedMap κ ν}
    {k a : κ}
    {v : ν} : a ∈ m.insert k v ↔ a = k ∨ a ∈ m := by
  rw [mem_iff_exists, mem_iff_exists]
  simp only [get?_insert]
  by_cases h : a = k
  · simp [h]
  · simp [h]

/- A merging insertion changes the value at its key alone. -/
theorem get?_insertWith
    [DecidableEq κ]
    (m : SortedMap κ ν)
    (merge : ν → ν → ν)
    (k : κ)
    (v : ν)
    (a : κ) :
    (m.insertWith merge k v).get? a
      = if a = k then some ((m.get? k).elim v (fun w => merge w v))
        else m.get? a := by
  rw [insertWith]
  cases m.get? k with
  | some w => exact get?_insert m k (merge w v) a
  | none => exact get?_insert m k v a

/- A filter keeps the entries whose keys pass. -/
theorem entries_filterKeys
    (m : SortedMap κ ν)
    (p : κ → Bool) :
    (m.filterKeys p).entries = m.entries.filter (fun e => p e.1) :=
  Array.toList_filter

theorem keys_filterKeys
    (m : SortedMap κ ν)
    (p : κ → Bool) : (m.filterKeys p).keys = m.keys.filter p := by
  rw [keys, keys, entries_filterKeys, List.filter_map]
  rfl

/- A filter keeps the values at the keys that pass. -/
theorem get?_filterKeys
    (m : SortedMap κ ν)
    (p : κ → Bool)
    (k : κ) :
    (m.filterKeys p).get? k = if p k then m.get? k else none := by
  apply Option.ext
  intro v
  rw [get?_eq_some_iff, entries_filterKeys, List.mem_filter]
  split
  · next h => simp [h, get?_eq_some_iff]
  · next h => simp [h]

theorem mem_filterKeys_iff
    {m : SortedMap κ ν}
    {p : κ → Bool}
    {k : κ} : k ∈ m.filterKeys p ↔ k ∈ m ∧ p k = true := by
  rw [mem_iff_exists, mem_iff_exists]
  simp only [get?_filterKeys]
  by_cases h : p k = true
  · simp [h]
  · simp [h]

theorem filterKeys_eq_self
    {m : SortedMap κ ν}
    {p : κ → Bool}
    (h : ∀ k, p k = true) : m.filterKeys p = m := by
  apply eq_of_get?_eq
  intro k
  rw [get?_filterKeys, if_pos (h k)]

theorem filterKeys_filterKeys
    (m : SortedMap κ ν)
    (p q : κ → Bool) :
    (m.filterKeys p).filterKeys q =
      m.filterKeys (fun k => p k && q k) := by
  apply eq_of_get?_eq
  intro k
  simp only [get?_filterKeys]
  by_cases h : q k = true
  · simp [h]
  · simp [h]

/- An erasure keeps the entries of other keys. -/
theorem entries_erase
    [DecidableEq κ]
    (m : SortedMap κ ν)
    (k : κ) :
    (m.erase k).entries = m.entries.filter (fun e => e.1 ≠ k) := by
  obtain ⟨front, back, split, length, below, above⟩ :=
    split_at_lowerBound m.sorted k
  have sorted := m.sorted
  rw [split] at sorted
  have size : m.cells.size = front.length + back.length := by
    rw [← Array.length_toList, split, List.length_append]
  have frontKept : front.filter (fun e => e.1 ≠ k) = front :=
    List.filter_eq_self.mpr (fun e he =>
      decide_eq_true (KeyOrder.ne_of_lt (below e he)))
  change _ = m.cells.toList.filter _
  rw [split, List.filter_append, frontKept, erase, ← length]
  cases back with
  | nil =>
    rw [dif_neg (by simp [size])]
    simpa [entries] using split
  | cons e back =>
    have inside : front.length < m.cells.size := by simp [size]
    have found : m.cells[front.length] = e := by
      rw [← Array.getElem_toList]
      simp [split]
    have notLt : ¬ e.1 < k := above e List.mem_cons_self
    have after :=
      (List.pairwise_cons.mp (List.pairwise_append.mp sorted).2.1).1
    rw [dif_pos inside]
    simp only [found]
    split
    · next lt =>
      have kept : (e :: back).filter (fun e => e.1 ≠ k) = e :: back := by
        apply List.filter_eq_self.mpr
        intro a ha
        cases List.mem_cons.mp ha with
        | inl ha => exact decide_eq_true (ha ▸ (KeyOrder.ne_of_lt lt).symm)
        | inr ha =>
          exact decide_eq_true
            (KeyOrder.ne_of_lt (KeyOrder.trans lt (after a ha))).symm
      rw [kept]
      exact split
    · next notGt =>
      have same : e.1 = k := KeyOrder.connected notLt notGt
      have kept : back.filter (fun e => e.1 ≠ k) = back :=
        List.filter_eq_self.mpr (fun a ha =>
          decide_eq_true (same ▸ (KeyOrder.ne_of_lt (after a ha)).symm))
      rw [List.filter_cons_of_neg (by simp [same]), kept]
      exact Cells.toList_removeAt split

@[simp]
theorem get?_erase
    [DecidableEq κ]
    (m : SortedMap κ ν)
    (k a : κ) :
    (m.erase k).get? a = if a = k then none else m.get? a := by
  apply Option.ext
  intro v
  rw [get?_eq_some_iff, entries_erase, List.mem_filter]
  split
  · next h => simp [h]
  · next h => simp [h, get?_eq_some_iff]

theorem mem_erase_iff
    [DecidableEq κ]
    {m : SortedMap κ ν}
    {k a : κ} : a ∈ m.erase k ↔ a ≠ k ∧ a ∈ m := by
  rw [mem_iff_exists, mem_iff_exists]
  simp only [get?_erase]
  by_cases h : a = k
  · simp [h]
  · simp [h]

theorem get?_eraseAll
    [DecidableEq κ]
    (m : SortedMap κ ν)
    (ks : List κ)
    (a : κ) :
    (m.eraseAll ks).get? a = if a ∈ ks then none else m.get? a := by
  rw [eraseAll]
  induction ks generalizing m with
  | nil => simp
  | cons k ks ih =>
    rw [List.foldl_cons, ih, get?_erase]
    by_cases h : a ∈ ks
    · simp [h]
    · by_cases e : a = k
      · simp [e]
      · simp [h, e]

/- The smallest key has the first entry. -/
theorem first?_eq_head?
    (m : SortedMap κ ν) : m.first? = m.entries.head? := by
  rw [first?, entries, List.head?_eq_getElem?, Array.getElem?_toList]

/- The smallest key is not above any other. -/
theorem le_of_first?
    {m : SortedMap κ ν}
    {e : κ × ν}
    (h : m.first? = some e)
    {a : κ}
    (ha : a ∈ m) : a = e.1 ∨ e.1 < a := by
  obtain ⟨v, hv⟩ := mem_iff_exists.mp ha
  have mem := get?_eq_some_iff.mp hv
  have sorted := m.entries_sorted
  rw [first?_eq_head?] at h
  cases he : m.entries with
  | nil => simp [he] at h
  | cons head rest =>
    rw [he] at h mem sorted
    have : head = e := by simpa using h
    subst this
    cases List.mem_cons.mp mem with
    | inl same => exact Or.inl (congrArg Prod.fst same)
    | inr mem => exact Or.inr ((List.pairwise_cons.mp sorted).1 _ mem)

theorem get?_of_first?
    {m : SortedMap κ ν}
    {e : κ × ν}
    (h : m.first? = some e) : m.get? e.1 = some e.2 := by
  rw [first?_eq_head?] at h
  exact get?_eq_some_iff.mpr (List.mem_of_mem_head? h)

/- A map without a smallest key is empty. -/
theorem eq_empty_of_first?
    {m : SortedMap κ ν}
    (h : m.first? = none) : m = ∅ := by
  rw [first?_eq_head?] at h
  exact eq_of_entries_eq (List.head?_eq_none_iff.mp h)

/- The size is the number of entries. -/
theorem size_eq_length
    (m : SortedMap κ ν) : m.size = m.entries.length :=
  Array.length_toList.symm

theorem size_eq_length_keys
    (m : SortedMap κ ν) : m.size = m.keys.length := by
  rw [size_eq_length, keys, List.length_map]

/- The entries without the first one. -/
theorem entries_rest
    (m : SortedMap κ ν) : m.rest.entries = m.entries.tail := by
  have size : m.cells.size = m.entries.length := m.size_eq_length
  rw [rest]
  cases he : m.entries with
  | nil =>
    rw [he, List.length_nil] at size
    rw [dif_neg (by omega), he]
    rfl
  | cons head rest =>
    rw [he, List.length_cons] at size
    rw [dif_pos (by omega)]
    exact @Cells.toList_removeAt _ _ [] _ _ he

/- The first entry and those of the rest. -/
theorem entries_of_first?
    {m : SortedMap κ ν}
    {e : κ × ν}
    (h : m.first? = some e) : m.entries = e :: m.rest.entries := by
  rw [first?_eq_head?] at h
  obtain ⟨later, split⟩ := List.head?_eq_some_iff.mp h
  rw [entries_rest, split, List.tail_cons]

/- The map without its smallest key. -/
theorem rest_eq_erase
    [DecidableEq κ]
    {m : SortedMap κ ν}
    {e : κ × ν}
    (h : m.first? = some e) : m.rest = m.erase e.1 := by
  apply eq_of_entries_eq
  rw [entries_rest, entries_erase]
  have sorted := m.entries_sorted
  rw [first?_eq_head?] at h
  cases he : m.entries with
  | nil => simp [he] at h
  | cons head rest =>
    rw [he] at h sorted
    have same : head = e := by simpa using h
    subst same
    have below := (List.pairwise_cons.mp sorted).1
    have keep : ∀ x ∈ rest, decide (x.1 ≠ head.1) = true := fun x hx =>
      decide_eq_true (KeyOrder.ne_of_lt (below x hx)).symm
    simpa using (List.filter_eq_self.mpr keep).symm

theorem get?_rest
    [DecidableEq κ]
    {m : SortedMap κ ν}
    {e : κ × ν}
    (h : m.first? = some e)
    (a : κ) :
    m.rest.get? a = if a = e.1 then none else m.get? a := by
  rw [rest_eq_erase h, get?_erase]

end SortedMap

------------------------------------------------------------
-- Sets
------------------------------------------------------------

namespace SortedSet

variable {κ : Type} [KeyOrder κ]

theorem mem_add_iff
    {s : SortedSet κ}
    {k a : κ} : a ∈ s.add k ↔ a = k ∨ a ∈ s := by
  rw [SortedMap.mem_iff_exists, SortedMap.mem_iff_exists]
  simp only [add, SortedMap.get?_eq_some_iff, SortedMap.entries_insert,
    SortedMap.mem_insertEntry_iff s.entries_sorted, Prod.mk.injEq]
  by_cases h : a = k
  · simp [h]
  · simp [h]

theorem mem_toList_iff
    {s : SortedSet κ}
    {a : κ} : a ∈ s.toList ↔ a ∈ s :=
  SortedMap.mem_keys_iff

/- The set of a list has the members of the list. -/
theorem mem_ofList_iff
    {ks : List κ}
    {a : κ} : a ∈ ofList ks ↔ a ∈ ks := by
  have general : ∀ (s : SortedSet κ), a ∈ ks.foldl add s ↔ a ∈ ks ∨ a ∈ s := by
    induction ks with
    | nil => simp
    | cons k ks ih =>
      intro s
      rw [List.foldl_cons, ih, mem_add_iff, List.mem_cons, or_left_comm, or_assoc]
  have none : a ∉ (∅ : SortedSet κ) := by
    simp [SortedMap.mem_iff_exists]
  exact (general ∅).trans (or_iff_left none)

/- Sets with the same members are equal. -/
theorem eq_of_mem_iff
    {s t : SortedSet κ}
    (h : ∀ a, a ∈ s ↔ a ∈ t) : s = t := by
  apply SortedMap.eq_of_get?_eq
  intro a
  apply Option.ext
  intro u
  have unit : ∀ (r : SortedSet κ), r.get? a = some u ↔ a ∈ r := fun r =>
    ⟨fun found => SortedMap.mem_iff_exists.mpr ⟨u, found⟩,
      fun mem => (SortedMap.mem_iff_exists.mp mem).elim (fun _ found => found)⟩
  rw [unit, unit, h]

/- A set is listed in ascending order. -/
theorem toList_eq_of_sorted
    {s : SortedSet κ}
    {ks : List κ}
    (sorted : ks.Pairwise (fun a b => a < b))
    (h : ∀ a, a ∈ s ↔ a ∈ ks) : s.toList = ks := by
  have same : s.entries = ks.map (fun k => (k, ())) := by
    apply SortedMap.eq_of_sorted s.entries_sorted
    · exact List.pairwise_map.mpr sorted
    · intro e
      obtain ⟨k, u⟩ := e
      have listed : (k, u) ∈ ks.map (fun k => (k, ())) ↔ k ∈ s := by
        simp [h]
      rw [← SortedMap.get?_eq_some_iff, listed, SortedMap.mem_iff_exists]
      exact ⟨fun found => ⟨u, found⟩, fun found => found.elim (fun _ e => e)⟩
  unfold toList SortedMap.keys
  simp [same, Function.comp_def]

end SortedSet

end OrderedLog
