import OrderedLog.SortedMap.Cells
import OrderedLog.SortedMap.Search

/-
  This file defines finite maps and finite sets, kept in the
  order of their keys. Two of them with the same contents are
  equal, whatever the order they were filled in. A key is
  found by search, so that looking up a value in a large map
  touches few of its entries.

  Key definitions include:
    * `SortedMap`
    * `SortedMap.entries`
    * `SortedMap.get?`
    * `SortedMap.insert`
    * `SortedMap.insertWith`
    * `SortedMap.erase`
    * `SortedMap.filterKeys`
    * `SortedMap.rest`
    * `SortedSet`
    * `SortedSet.ofList`

  Key lemmas include:
    * `SortedMap.sorted_removeAt`
    * `SortedMap.toList_insertCell`
-/

namespace OrderedLog

/- Entries in strictly ascending order of their keys. -/
structure SortedMap
    (κ : Type)
    (ν : Type)
    [KeyOrder κ] where
  cells : Array (κ × ν)
  sorted : cells.toList.Pairwise (fun a b => a.1 < b.1)

namespace SortedMap

variable {κ ν : Type} [KeyOrder κ]

/- The entries in ascending order of their keys. -/
def entries (m : SortedMap κ ν) : List (κ × ν) :=
  m.cells.toList

/- Maps are equal when their entries are. -/
theorem eq_of_entries_eq
    {m n : SortedMap κ ν}
    (h : m.entries = n.entries) : m = n := by
  cases m
  cases n
  cases Array.toList_inj.mp h
  rfl

instance [DecidableEq κ] [DecidableEq ν] : DecidableEq (SortedMap κ ν) :=
  fun m n =>
    if h : m.cells = n.cells then
      isTrue (eq_of_entries_eq (congrArg Array.toList h))
    else
      isFalse (fun e => h (e ▸ rfl))

------------------------------------------------------------
-- Looking up
------------------------------------------------------------

/- The map without entries. -/
def empty : SortedMap κ ν :=
  ⟨#[], List.Pairwise.nil⟩

instance : EmptyCollection (SortedMap κ ν) :=
  ⟨empty⟩

instance : Inhabited (SortedMap κ ν) :=
  ⟨empty⟩

/- The value at a key. -/
@[specialize]
def get?
    (m : SortedMap κ ν)
    (k : κ) : Option ν :=
  match m.cells[lowerBound m.cells k]? with
  | some e => if k < e.1 then none else some e.2
  | none => none

/- Whether a key has a value. -/
def contains
    (m : SortedMap κ ν)
    (k : κ) : Bool :=
  (m.get? k).isSome

instance : Membership κ (SortedMap κ ν) :=
  ⟨fun m k => m.contains k = true⟩

instance
    (k : κ)
    (m : SortedMap κ ν) : Decidable (k ∈ m) :=
  inferInstanceAs (Decidable (m.contains k = true))

/- The keys in ascending order. -/
def keys (m : SortedMap κ ν) : List κ :=
  m.entries.map Prod.fst

/- The values in the order of their keys. -/
def values (m : SortedMap κ ν) : List ν :=
  m.entries.map Prod.snd

/- The number of keys. -/
def size (m : SortedMap κ ν) : Nat :=
  m.cells.size

/- Whether there are no keys. -/
def isEmpty (m : SortedMap κ ν) : Bool :=
  m.cells.isEmpty

/- The entry of the smallest key. -/
def first? (m : SortedMap κ ν) : Option (κ × ν) :=
  m.cells[0]?

------------------------------------------------------------
-- Removing
------------------------------------------------------------

/- The entries whose key passes a test. -/
def filterKeys
    (m : SortedMap κ ν)
    (p : κ → Bool) : SortedMap κ ν :=
  ⟨m.cells.filter (fun e => p e.1), by
    rw [Array.toList_filter]
    exact m.sorted.filter _⟩

/- The entries that are left when the one at a place goes. -/
theorem sorted_removeAt
    (m : SortedMap κ ν)
    {place : Nat}
    (h : place < m.cells.size) :
    (Cells.removeAt m.cells place).toList.Pairwise
      (fun a b => a.1 < b.1) := by
  have split :
      m.cells.toList
        = m.cells.toList.take place
          ++ m.cells[place] :: m.cells.toList.drop (place + 1) := by
    rw [← Array.getElem_toList, List.getElem_cons_drop]
    exact (List.take_append_drop _ _).symm
  have removed := Cells.toList_removeAt split
  have length : (m.cells.toList.take place).length = place := by
    rw [List.length_take, Array.length_toList]
    omega
  rw [length] at removed
  rw [removed, ← List.eraseIdx_eq_take_drop_succ]
  exact m.sorted.sublist (List.eraseIdx_sublist _ _)

/- The map without a key. -/
@[specialize]
def erase
    (m : SortedMap κ ν)
    (k : κ) : SortedMap κ ν :=
  let place := lowerBound m.cells k
  if h : place < m.cells.size then
    if k < m.cells[place].1 then m
    else ⟨Cells.removeAt m.cells place, m.sorted_removeAt h⟩
  else
    m

/- The map without several keys. -/
def eraseAll
    (m : SortedMap κ ν)
    (ks : List κ) : SortedMap κ ν :=
  ks.foldl erase m

/- The map without its smallest key. -/
def rest (m : SortedMap κ ν) : SortedMap κ ν :=
  if h : 0 < m.cells.size then
    ⟨Cells.removeAt m.cells 0, m.sorted_removeAt h⟩
  else
    m

------------------------------------------------------------
-- Inserting
------------------------------------------------------------

/-
  Put an entry in its place, where it takes over from an
  entry of the same key.
-/
def insertEntry
    (k : κ)
    (v : ν) : List (κ × ν) → List (κ × ν)
  | [] => [(k, v)]
  | (a, w) :: rest =>
    if a < k then (a, w) :: insertEntry k v rest
    else if k < a then (k, v) :: (a, w) :: rest
    else (k, v) :: rest

/- What is in a list after an insertion was there or is new. -/
theorem mem_insertEntry
    {k : κ}
    {v : ν}
    {entries : List (κ × ν)}
    {e : κ × ν}
    (h : e ∈ insertEntry k v entries) : e = (k, v) ∨ e ∈ entries := by
  induction entries with
  | nil =>
    simp [insertEntry] at h
    exact Or.inl h
  | cons head rest ih =>
    obtain ⟨a, w⟩ := head
    rw [insertEntry] at h
    split at h
    · cases List.mem_cons.mp h with
      | inl h => exact Or.inr (h ▸ List.mem_cons_self)
      | inr h =>
        cases ih h with
        | inl h => exact Or.inl h
        | inr h => exact Or.inr (List.mem_cons_of_mem _ h)
    · split at h
      · simpa using h
      · cases List.mem_cons.mp h with
        | inl h => exact Or.inl h
        | inr h => exact Or.inr (List.mem_cons_of_mem _ h)

/- An insertion keeps the entries in order. -/
theorem sorted_insertEntry
    (k : κ)
    (v : ν)
    {entries : List (κ × ν)}
    (sorted : entries.Pairwise (fun a b => a.1 < b.1)) :
    (insertEntry k v entries).Pairwise (fun a b => a.1 < b.1) := by
  induction entries with
  | nil => exact List.pairwise_singleton _ _
  | cons head rest ih =>
    obtain ⟨a, w⟩ := head
    have below := (List.pairwise_cons.mp sorted).1
    have sortedRest := (List.pairwise_cons.mp sorted).2
    rw [insertEntry]
    split
    · next hak =>
      refine List.pairwise_cons.mpr ⟨?_, ih sortedRest⟩
      intro e he
      cases mem_insertEntry he with
      | inl he => exact he ▸ hak
      | inr he => exact below e he
    · split
      · next hka =>
        refine List.pairwise_cons.mpr ⟨?_, sorted⟩
        intro e he
        cases List.mem_cons.mp he with
        | inl he => exact he ▸ hka
        | inr he => exact KeyOrder.trans hka (below e he)
      · next hak hka =>
        have : k = a := KeyOrder.connected hka hak
        subst this
        exact List.pairwise_cons.mpr ⟨below, sortedRest⟩

/- An entry passes all entries with smaller keys. -/
theorem insertEntry_append
    {k : κ}
    (v : ν)
    {front back : List (κ × ν)}
    (below : ∀ e ∈ front, e.1 < k) :
    insertEntry k v (front ++ back) = front ++ insertEntry k v back := by
  induction front with
  | nil => rfl
  | cons head front ih =>
    obtain ⟨a, w⟩ := head
    have lt : a < k := below (a, w) List.mem_cons_self
    rw [List.cons_append, insertEntry, if_pos lt,
      ih (fun e he => below e (List.mem_cons_of_mem _ he)), List.cons_append]

/- Put an entry in its place among cells in ascending order. -/
@[specialize]
def insertCell
    (cells : Array (κ × ν))
    (k : κ)
    (v : ν) : Array (κ × ν) :=
  let place := lowerBound cells k
  if h : place < cells.size then
    if k < cells[place].1 then Cells.insertAt cells place (k, v)
    else cells.set place (k, v)
  else
    cells.push (k, v)

/- The search for the place finds the right one. -/
theorem toList_insertCell
    {cells : Array (κ × ν)}
    (sorted : cells.toList.Pairwise (fun a b => a.1 < b.1))
    (k : κ)
    (v : ν) :
    (insertCell cells k v).toList = insertEntry k v cells.toList := by
  obtain ⟨front, back, split, length, below, above⟩ :=
    split_at_lowerBound sorted k
  have size : cells.size = front.length + back.length := by
    rw [← Array.length_toList, split, List.length_append]
  rw [split, insertEntry_append v below, insertCell, ← length]
  cases back with
  | nil =>
    rw [dif_neg (by simp [size])]
    simp [insertEntry, split]
  | cons e back =>
    have inside : front.length < cells.size := by simp [size]
    have found : cells[front.length] = e := by
      rw [← Array.getElem_toList]
      simp [split]
    have notLt : ¬ e.1 < k := above e List.mem_cons_self
    obtain ⟨a, w⟩ := e
    rw [dif_pos inside]
    simp only [found]
    rw [insertEntry, if_neg notLt]
    split
    · exact Cells.toList_insertAt split (k, v)
    · simp [split]

/- The map with a value at a key, in place of any value there. -/
@[specialize]
def insert
    (m : SortedMap κ ν)
    (k : κ)
    (v : ν) : SortedMap κ ν :=
  ⟨insertCell m.cells k v, by
    rw [toList_insertCell m.sorted]
    exact sorted_insertEntry k v m.sorted⟩

/- Insert a value merged with the one that is already there. -/
def insertWith
    (m : SortedMap κ ν)
    (merge : ν → ν → ν)
    (k : κ)
    (v : ν) : SortedMap κ ν :=
  match m.get? k with
  | some w => m.insert k (merge w v)
  | none => m.insert k v

/- The map of a list of entries, where later ones win. -/
def ofEntries (entries : List (κ × ν)) : SortedMap κ ν :=
  entries.foldl (fun m e => m.insert e.1 e.2) empty

end SortedMap

------------------------------------------------------------
-- Sets
------------------------------------------------------------

/- A finite set in ascending order. -/
abbrev SortedSet
    (κ : Type)
    [KeyOrder κ] : Type :=
  SortedMap κ Unit

namespace SortedSet

variable {κ : Type} [KeyOrder κ]

/- The set with one more member. -/
def add
    (s : SortedSet κ)
    (k : κ) : SortedSet κ :=
  s.insert k ()

/- The set of a list's members. -/
def ofList (ks : List κ) : SortedSet κ :=
  ks.foldl add SortedMap.empty

/- The members in ascending order. -/
def toList (s : SortedSet κ) : List κ :=
  s.keys

end SortedSet

end OrderedLog
