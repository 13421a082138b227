import OrderedLog.Proofs.ConflictCache.MinimalEviction
import OrderedLog.Proofs.InPlace

/-
  This file proves which writes a conflict cache refuses, and
  that a refused one leaves no trace. For this a write is
  carried out step by step on a cache that is changed in place,
  with its keys looked at and moved in an order of their own.
  All conditions are checked before the first key moves, so the
  cache is still as it was when one of them fails.

  The order may decide which key a refusal names. It does not
  decide whether a write is refused, nor on which ground, nor
  what becomes of the cache. This is so because the two views of
  the cache are told by where its keys are at the end.

  Key definitions include:
    * `ConflictCache.repeated?`
    * `ConflictCache.lagging?`
    * `ConflictCache.regressing?`
    * `ConflictCache.recordInPlace`
    * `ConflictCache.enterInOrder`
    * `ConflictCache.Ending`
    * `ConflictCache.due`
    * `ConflictCache.RefusesExactly`

  Key lemmas include:
    * `ConflictCache.run_recordInPlace`
    * `ConflictCache.Tidy.foldl_move_perm`
    * `ConflictCache.Tidy.enterInOrder_eq`
    * `ConflictCache.run_recordInPlace_toList`
    * `ConflictCache.due_of_record`
    * `ConflictCache.Tidy.refusesExactly`

  Key theorems include:
    * `ConflictCache.run_refuses_exactly`
-/

namespace OrderedLog

namespace ConflictCache

variable {c d : ConflictCache}
variable {version : Address}
variable {order others : List ConflictKey}

------------------------------------------------------------
-- Writes in place
------------------------------------------------------------

/- A version must not be in the window yet. -/
def repeated?
    (version : Address)
    (c : ConflictCache) : Option Refusal :=
  if c.window.contains version then
    some (.duplicateVersion version)
  else
    none

/- A version must be above the start of the window. -/
def lagging?
    (version : Address)
    (c : ConflictCache) : Option Refusal :=
  match c.firstAddress? with
  | some smallest =>
    if version ≤ smallest then
      some (.belowWindow version smallest)
    else
      none
  | none => none

/- A version must be above the latest write of a key. -/
def regressing?
    (version : Address)
    (key : ConflictKey)
    (c : ConflictCache) : Option Refusal :=
  match c.get? key with
  | some previous =>
    if version ≤ previous then
      some (.regression key previous version)
    else
      none
  | none => none

/- Move keys to their version, and evict until all keys fit. -/
def enterInPlace
    (order : List ConflictKey)
    (version : Address) : InPlace ConflictCache Unit := do
  order.forM (fun key => modify (move version · key))
  modify (fun c =>
    { c with window := c.window.insert version (SortedSet.ofList order) })
  modify shrink
  modify measured

/-
  Record that some keys were written at a version. They are
  looked at, and then moved, in the given order.
-/
def recordInPlace
    (order : List ConflictKey)
    (version : Address) : InPlace ConflictCache Unit := do
  InPlace.check (repeated? version)
  InPlace.check (lagging? version)
  order.forM (fun key => InPlace.check (regressing? version key))
  if order.isEmpty then
    return
  enterInPlace order version

/- Enter an accepted write whose keys move in the given order. -/
def enterInOrder
    (c : ConflictCache)
    (order : List ConflictKey)
    (version : Address) : ConflictCache :=
  let moved := order.foldl (move version) c
  let entered :=
    { moved with
      window := moved.window.insert version (SortedSet.ofList order) }
  entered.shrink.measured

/- Accepted keys move, get their bucket, and then there is room. -/
theorem run_enterInPlace
    (c : ConflictCache)
    (order : List ConflictKey)
    (version : Address) :
    (enterInPlace order version).run c =
      .ok () (c.enterInOrder order version) := by
  unfold enterInPlace
  rw [EStateM.run_bind, InPlace.run_forM_modify (move version)]
  rfl

/- The grounds to refuse a write, in the order they are checked. -/
theorem refusal?_eq
    (c : ConflictCache)
    (order : List ConflictKey)
    (version : Address) :
    c.refusal? order version =
      ((repeated? version c).or (lagging? version c)).or
        (order.findSome? (fun key => regressing? version key c)) := by
  have hKeys :
      c.regression? version order =
        order.findSome? (fun key => regressing? version key c) := rfl
  unfold refusal? repeated? lagging?
  rw [hKeys]
  cases c.window.contains version with
  | true => rfl
  | false =>
    cases c.firstAddress? with
    | none => rfl
    | some smallest =>
      by_cases hLe : version ≤ smallest
      · simp [hLe]
      · simp [hLe]

/-
  A refused write ends with the cache it began with. All that
  changes the cache comes after the last check.
-/
theorem run_recordInPlace
    (c : ConflictCache)
    (order : List ConflictKey)
    (version : Address) :
    (recordInPlace order version).run c =
      match c.refusal? order version with
      | some refusal => .error refusal c
      | none =>
        .ok () (if order.isEmpty then c
          else c.enterInOrder order version) := by
  have hAccepted :
      (if order.isEmpty then pure () else enterInPlace order version :
          InPlace ConflictCache Unit).run c =
        .ok () (if order.isEmpty then c
          else c.enterInOrder order version) := by
    split
    · rfl
    · exact c.run_enterInPlace order version
  unfold recordInPlace
  rw [InPlace.forM_check, InPlace.run_check_bind, InPlace.run_check_bind,
    InPlace.run_check_bind, hAccepted, refusal?_eq]
  cases repeated? version c with
  | some refusal => rfl
  | none =>
    cases lagging? version c with
    | some refusal => rfl
    | none => rfl

------------------------------------------------------------
-- The order of the keys
------------------------------------------------------------

/- Caches whose keys are in the same places have one window. -/
theorem CoherentApart.window_eq
    (hC : c.CoherentApart version)
    (hD : d.CoherentApart version)
    (hPopulatedC : c.Populated)
    (hPopulatedD : d.Populated)
    (h : c.latest = d.latest) : c.window = d.window := by
  have hHolds : ∀ address key,
      c.Holds address key ↔ d.Holds address key := by
    intro address key
    rw [hC address key, hD address key, h]
  apply SortedMap.eq_of_entries_eq
  apply SortedMap.eq_of_sorted c.window.entries_sorted
    d.window.entries_sorted
  intro bucket
  simp only [hPopulatedC.mem_entries_iff, hPopulatedD.mem_entries_iff,
    hHolds]

/- Where moved keys come from does not depend on their order. -/
theorem Tidy.foldl_move_perm
    (h : c.Tidy)
    (hVersion : c.window.get? version = none)
    (hOrder : order.Perm others) :
    order.foldl (move version) c = others.foldl (move version) c := by
  have hApart := h.coherent.apart hVersion
  have hLatest :
      (order.foldl (move version) c).latest =
        (others.foldl (move version) c).latest := by
    apply SortedMap.eq_of_get?_eq
    intro key
    rw [latest_foldl_move, latest_foldl_move]
    simp only [hOrder.mem_iff]
  have hWindow :
      (order.foldl (move version) c).window =
        (others.foldl (move version) c).window :=
    (hApart.foldl_move order).window_eq (hApart.foldl_move others)
      (h.populated.foldl_move version order)
      (h.populated.foldl_move version others) hLatest
  rcases foldl_move_eq version order c with ⟨latest, window, hMoved⟩
  rcases foldl_move_eq version others c with ⟨_, _, hOthers⟩
  rw [hMoved, hOthers] at hLatest hWindow ⊢
  simp only at hLatest hWindow
  rw [hLatest, hWindow]

variable {keys : SortedSet ConflictKey}

/- The keys in some order are those of the set. -/
theorem ofList_of_perm
    (hOrder : order.Perm keys.toList) : SortedSet.ofList order = keys := by
  apply SortedSet.eq_of_mem_iff
  intro key
  rw [SortedSet.mem_ofList_iff, hOrder.mem_iff, SortedSet.mem_toList_iff]

theorem isEmpty_of_perm
    (hOrder : order.Perm keys.toList) :
    order.isEmpty = keys.isEmpty := by
  by_cases hKeys : keys = ∅
  · have hNil : order = [] := by
      rw [hKeys] at hOrder
      exact List.perm_nil.mp hOrder
    rw [hKeys, hNil]
    rfl
  · rcases SortedMap.exists_mem_of_ne_empty hKeys with ⟨key, hKey⟩
    have hOrdered : key ∈ order :=
      hOrder.mem_iff.mpr (SortedSet.mem_toList_iff.mpr hKey)
    have hFull : keys.isEmpty ≠ true :=
      mt SortedMap.isEmpty_iff.mp hKeys
    rw [Bool.eq_false_iff.mpr hFull, List.isEmpty_eq_false_iff]
    exact List.ne_nil_of_mem hOrdered

/- A write in any order of its keys is the write of the set. -/
theorem Tidy.enterInOrder_eq
    (h : c.Tidy)
    (hVersion : c.window.get? version = none)
    (hOrder : order.Perm keys.toList) :
    c.enterInOrder order version = c.enter keys version := by
  unfold enterInOrder ConflictCache.enter
  rw [h.foldl_move_perm hVersion hOrder, ofList_of_perm hOrder]

/- The record of a set goes through its keys from the smallest on. -/
theorem run_recordInPlace_toList
    (c : ConflictCache)
    (keys : SortedSet ConflictKey)
    (version : Address) :
    (recordInPlace keys.toList version).run c =
      match c.record keys version with
      | .error refusal => .error refusal c
      | .ok next => .ok () next := by
  rw [run_recordInPlace]
  unfold record
  cases c.refusal? keys.toList version with
  | some refusal => rfl
  | none =>
    simp only
    rw [isEmpty_of_perm (.refl keys.toList)]
    unfold enterInOrder ConflictCache.enter
    rw [ofList_of_perm (.refl keys.toList)]
    split
    · rfl
    · rfl

variable {write : Write}

/- An accepted write in any order of its keys is their record. -/
theorem Tidy.record_eq_ok
    (h : c.Tidy)
    (hOrder : order.Perm write.keys.toList)
    (hRefusal : c.refusal? write.keys.toList write.version = none) :
    c.record write.keys write.version =
      .ok (if order.isEmpty then c
        else c.enterInOrder order write.version) := by
  have hVersion : c.window.get? write.version = none :=
    SortedMap.get?_eq_none_iff.mpr (refusal?_eq_none_iff.mp hRefusal).1
  rw [isEmpty_of_perm hOrder, h.enterInOrder_eq hVersion hOrder]
  exact record_of_refusal? hRefusal

------------------------------------------------------------
-- Grounds
------------------------------------------------------------

/- A version is not above the first address of the window. -/
def Behind
    (c : ConflictCache)
    (version : Address) : Prop :=
  ∃ first ∈ c.firstAddress?, version ≤ first

instance
    (c : ConflictCache)
    (version : Address) : Decidable (c.Behind version) :=
  inferInstanceAs (Decidable (∃ first ∈ c.firstAddress?, version ≤ first))

/- A key of a write is cached at or above the version. -/
def Blocked
    (c : ConflictCache)
    (write : Write) : Prop :=
  ∃ key ∈ write.keys.toList, ∃ previous ∈ c.get? key,
    write.version ≤ previous

instance
    (c : ConflictCache)
    (write : Write) : Decidable (c.Blocked write) :=
  inferInstanceAs (Decidable
    (∃ key ∈ write.keys.toList, ∃ previous ∈ c.get? key,
      write.version ≤ previous))

theorem refusal?_of_mem
    (h : version ∈ c.window)
    (order : List ConflictKey) :
    c.refusal? order version = some (.duplicateVersion version) :=
  if_pos h

theorem refusal?_of_behind
    (hAbsent : version ∉ c.window)
    {smallest : Address}
    (hFirst : c.firstAddress? = some smallest)
    (hLe : version ≤ smallest)
    (order : List ConflictKey) :
    c.refusal? order version = some (.belowWindow version smallest) := by
  have hContains : c.window.contains version ≠ true := hAbsent
  unfold refusal?
  rw [if_neg hContains, hFirst]
  exact if_pos hLe

/- Only the keys may speak against a version after the start. -/
theorem refusal?_of_ahead
    (hAbsent : version ∉ c.window)
    (hAhead : ¬ c.Behind version)
    (order : List ConflictKey) :
    c.refusal? order version = c.regression? version order := by
  have hContains : c.window.contains version ≠ true := hAbsent
  unfold refusal?
  rw [if_neg hContains]
  cases hFirst : c.firstAddress? with
  | none => rfl
  | some smallest =>
    have hNotLe : ¬ version ≤ smallest := by
      intro hLe
      exact hAhead ⟨smallest, hFirst, hLe⟩
    exact if_neg hNotLe

/- A regression names one of the keys, where it is cached. -/
theorem exists_of_regression?
    {refusal : Refusal}
    (h : c.regression? version order = some refusal) :
    ∃ key ∈ order, ∃ previous ∈ c.get? key,
      version ≤ previous ∧
        refusal = .regression key previous version := by
  unfold regression? at h
  rcases List.exists_of_findSome?_eq_some h with ⟨key, hKey, hRefusal⟩
  split at hRefusal
  · next previous hPrevious =>
    split at hRefusal
    · next hLe =>
      cases hRefusal
      exact ⟨key, hKey, previous, hPrevious, hLe, rfl⟩
    · cases hRefusal
  · cases hRefusal

/- There is no regression if no key is cached that high. -/
theorem not_blocked_iff
    (hOrder : order.Perm write.keys.toList) :
    ¬ c.Blocked write ↔ c.regression? write.version order = none := by
  rw [regression?_eq_none_iff]
  constructor
  · intro hFree key hKey previous hPrevious
    apply Address.not_le.mp
    intro hLe
    exact hFree ⟨key, hOrder.mem_iff.mp hKey, previous, hPrevious, hLe⟩
  · intro hKeys hBlocked
    rcases hBlocked with ⟨key, hKey, previous, hPrevious, hLe⟩
    have hLt := hKeys key (hOrder.mem_iff.mpr hKey) previous hPrevious
    exact Address.not_le.mpr hLt hLe

------------------------------------------------------------
-- Outcomes
------------------------------------------------------------

/- The outcomes of a write. -/
inductive Ending where
  | duplicate
  | belowWindow
  | regression
  | accepted
  /- A refusal that is none of a write. -/
  | unrelated
deriving DecidableEq

/- The outcome that a result stands for. -/
def ending : EStateM.Result Refusal ConflictCache Unit → Ending
  | .error (.duplicateVersion _) _ => .duplicate
  | .error (.belowWindow _ _) _ => .belowWindow
  | .error (.regression _ _ _) _ => .regression
  | .error _ _ => .unrelated
  | .ok () _ => .accepted

/- The outcome that a write calls for. -/
def due
    (c : ConflictCache)
    (write : Write) : Ending :=
  if write.version ∈ c.window then
    .duplicate
  else if c.Behind write.version then
    .belowWindow
  else if c.Blocked write then
    .regression
  else
    .accepted

theorem ending_error_ne
    (refusal : Refusal)
    (left : ConflictCache) : ending (.error refusal left) ≠ .accepted := by
  cases refusal <;> nofun

/- Nothing is recorded but what there is no ground to refuse. -/
theorem due_of_record
    {next : ConflictCache}
    (h : c.record write.keys write.version = .ok next) :
    c.due write = .accepted := by
  have hNone : c.refusal? write.keys.toList write.version = none := by
    unfold record at h
    split at h
    · cases h
    · next hNone => exact hNone
  rcases refusal?_eq_none_iff.mp hNone with ⟨hAbsent, hFirst, hKeys⟩
  have hAhead : ¬ c.Behind write.version := by
    intro hBehind
    rcases hBehind with ⟨first, hSome, hLe⟩
    exact Address.not_le.mpr (hFirst first hSome) hLe
  have hFree : ¬ c.Blocked write := by
    rw [not_blocked_iff (.refl _), regression?_eq_none_iff]
    exact hKeys
  unfold due
  rw [if_neg hAbsent, if_neg hAhead, if_neg hFree]

/- What a refusal tells about the cache and a write is so. -/
def Reports
    (c : ConflictCache)
    (write : Write) : Refusal → Prop
  | .duplicateVersion version =>
    version = write.version
  | .belowWindow version smallest =>
    version = write.version ∧ c.firstAddress? = some smallest
  | .regression key previous version =>
    version = write.version ∧ key ∈ write.keys ∧
      c.get? key = some previous ∧ version ≤ previous
  | _ => False

/-
  A write is accepted, or refused on the first ground that there
  is. A refused one leaves the cache as it was, and so does one
  of no keys.
-/
structure RefusesExactly
    (c : ConflictCache)
    (write : Write)
    (result : EStateM.Result Refusal ConflictCache Unit) : Prop where
  due : ending result = c.due write
  reported :
    ∀ refusal left,
      result = .error refusal left → c.Reports write refusal
  unchanged : ∀ refusal left, result = .error refusal left → left = c
  untouched :
    ∀ next, result = .ok () next → write.keys = ∅ → next = c
  recorded :
    ∀ next,
      result = .ok () next ↔
        c.record write.keys write.version = .ok next

/- What is true of every write that is refused. -/
theorem refusesExactly_of_refused
    {refusal : Refusal}
    (hDue : c.due write = ending (.error refusal c))
    (hReports : c.Reports write refusal) :
    RefusesExactly c write (.error refusal c) := by
  constructor
  · exact hDue.symm
  · intro other left hResult
    cases hResult
    exact hReports
  · intro other left hResult
    cases hResult
    rfl
  · nofun
  · intro next
    constructor
    · nofun
    · intro hRecord
      rw [due_of_record hRecord] at hDue
      exact absurd hDue.symm (ending_error_ne refusal c)

theorem refusesExactly_of_accepted
    {next : ConflictCache}
    (hRecord : c.record write.keys write.version = .ok next) :
    RefusesExactly c write (.ok () next) := by
  constructor
  · exact (due_of_record hRecord).symm
  · nofun
  · nofun
  · intro left hResult hEmpty
    cases hResult
    rcases record_cases_of_keys hRecord with ⟨_, hNext⟩ | ⟨hKeys, _⟩
    · exact hNext
    · exact absurd hEmpty hKeys
  · intro left
    rw [hRecord]
    constructor
    · intro hResult
      cases hResult
      rfl
    · intro hResult
      cases hResult
      rfl

/- A write ends as it must, in any order of its keys. -/
theorem Tidy.refusesExactly
    (h : c.Tidy)
    (hOrder : order.Perm write.keys.toList) :
    RefusesExactly c write
      ((recordInPlace order write.version).run c) := by
  rw [run_recordInPlace]
  by_cases hPresent : write.version ∈ c.window
  · rw [refusal?_of_mem hPresent]
    have hDue : c.due write = .duplicate := if_pos hPresent
    exact refusesExactly_of_refused hDue rfl
  · by_cases hBehind : c.Behind write.version
    · have hDue : c.due write = .belowWindow := by
        unfold ConflictCache.due
        rw [if_neg hPresent, if_pos hBehind]
      rcases hBehind with ⟨smallest, hFirst, hLe⟩
      rw [refusal?_of_behind hPresent hFirst hLe]
      exact refusesExactly_of_refused hDue ⟨rfl, hFirst⟩
    · have hRefusal := refusal?_of_ahead hPresent hBehind
      rw [hRefusal]
      cases hRegression : c.regression? write.version order with
      | some refusal =>
        rcases exists_of_regression? hRegression with
          ⟨key, hKey, previous, hPrevious, hLe, rfl⟩
        have hWritten := hOrder.mem_iff.mp hKey
        have hBlocked : c.Blocked write :=
          ⟨key, hWritten, previous, hPrevious, hLe⟩
        have hDue : c.due write = .regression := by
          unfold ConflictCache.due
          rw [if_neg hPresent, if_neg hBehind, if_pos hBlocked]
        exact refusesExactly_of_refused hDue
          ⟨rfl, SortedSet.mem_toList_iff.mp hWritten, hPrevious, hLe⟩
      | none =>
        have hFree := (not_blocked_iff hOrder).mpr hRegression
        apply refusesExactly_of_accepted
        apply h.record_eq_ok hOrder
        rw [hRefusal]
        exact (not_blocked_iff (.refl _)).mp hFree

/-
  A write is refused if, and only if, its version is in the
  window, or is not above the start of it, or is not above the
  latest write of each of its keys, and then changes nothing.
  The outcome is the same in every order of the keys, after
  whatever requests.
-/
theorem run_refuses_exactly
    (capacity : Nat)
    (capacity_pos : 0 < capacity)
    (bound : Address)
    (requests : List Request)
    (write : Write)
    (order others : List ConflictKey)
    (hOrder : order.Perm write.keys.toList)
    (hOthers : others.Perm write.keys.toList) :
    let c := ((new capacity capacity_pos bound).run requests).2
    let result := (recordInPlace order write.version).run c
    let other := (recordInPlace others write.version).run c
    RefusesExactly c write result ∧ ending result = ending other := by
  intro c result other
  have hTidy : c.Tidy :=
    (settled_run (settled_new capacity capacity_pos bound) requests).tidy
  have hResult := hTidy.refusesExactly hOrder
  have hOther := hTidy.refusesExactly hOthers
  exact ⟨hResult, hResult.due.trans hOther.due.symm⟩

/-
  The write has a new key, one to be moved, and two that are
  cached above its version.
-/
def staggeredWrites : List Request :=
  let keys := keysOf (StreamId.ofNat 7)
  [ .record (keys [1]) (Address.ofNat 5),
    .record (keys [2]) (Address.ofNat 9),
    .record (keys [3]) (Address.ofNat 12) ]

theorem staggeredWrites_refuse_exactly :
    let key (param : UInt8) : ConflictKey := ⟨StreamId.ofNat 7, [param]⟩
    let write : Write :=
      ⟨keysOf (StreamId.ofNat 7) [1, 2, 3, 4], Address.ofNat 8⟩
    let order := [key 4, key 1, key 2, key 3]
    let others := [key 3, key 1, key 2, key 4]
    let c := ((new 9 (by decide) Address.zero).run staggeredWrites).2
    let result := (recordInPlace order write.version).run c
    let other := (recordInPlace others write.version).run c
    order.Perm write.keys.toList ∧ others.Perm write.keys.toList ∧
      ending result = .regression ∧
      RefusesExactly c write result ∧ ending result = ending other := by
  intro key write order others c result other
  have hOrder : order.Perm write.keys.toList := by decide
  have hOthers : others.Perm write.keys.toList := by decide
  have hEnding : ending result = .regression := by decide
  exact ⟨hOrder, hOthers, hEnding,
    run_refuses_exactly 9 (by decide) Address.zero staggeredWrites write
      order others hOrder hOthers⟩

end ConflictCache

end OrderedLog
