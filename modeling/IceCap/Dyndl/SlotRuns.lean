import Mathlib.Data.List.Basic
import IceCap.Dyndl.CRegion
import IceCap.Library.Recorded

/-!
# Runs of slots

`Set::withdraw` counts free entries of the map, in the order of their keys, until it
has as many as it was asked for, and starts again at a used one.  A number that was
never deposited is no entry and does not interrupt the count, so that the range
from the first to the last of the counted keys can have numbers in it that are no
elements of the set.
-/

set_option autoImplicit false

namespace IceCap.Dyndl

open IceCap.Library

namespace SlotSet

/-! ## Windows of free entries -/

/-- The entries of the map from some place on are free, as many as are asked for. -/
def WindowAt (entries : List (Nat × Bool)) (n i : Nat) : Prop :=
  ∀ j < n, ∃ key, entries[i + j]? = some (key, false)

/-- The first window of the map. -/
def FirstWindow (entries : List (Nat × Bool)) (n i : Nat) : Prop :=
  WindowAt entries n i ∧ ∀ earlier < i, ¬ WindowAt entries n earlier

/-- The search is at place `first + count`, and the `count` entries before it are free. -/
structure Searching (entries : List (Nat × Bool)) (n first count : Nat) (locals : Search) : Prop where
  notFound : locals.foundRange = false
  isCount : locals.numFound = count
  less : count < n
  building : locals.buildingRange = decide (count ≠ 0)
  isLow : count ≠ 0 → entries[first]? = some (locals.low, false)
  free : WindowAt entries count first
  noEarlier : ∀ earlier < first, ¬ WindowAt entries n earlier

/-- What the search ends with. -/
def Searched (entries : List (Nat × Bool)) (n : Nat) (found : Search) : Prop :=
  (found.foundRange = false ∧ ∀ i, ¬ WindowAt entries n i) ∨
    found.foundRange = true ∧ ∃ i, FirstWindow entries n i ∧
      entries[i]? = some (found.low, false) ∧ entries[i + (n - 1)]? = some (found.high, false)

/-- The locals after a free entry was counted. -/
def Search.counted (locals : Search) (key : Nat) : Search :=
  let building := if locals.buildingRange = false
    then { locals with buildingRange := true, low := key } else locals
  { building with numFound := building.numFound + 1 }

def Search.reset (locals : Search) : Search :=
  { locals with numFound := 0, low := 0, high := 0, buildingRange := false }

section Steps
variable {entries : List (Nat × Bool)} {n first count key : Nat} {locals : Search}

theorem Searching.low_counted (searching : Searching entries n first count locals)
    (isEntry : entries[first + count]? = some (key, false)) :
    entries[first]? = some ((locals.counted key).low, false) := by
  have building := searching.building
  by_cases isZero : count = 0
  · subst isZero
    have isNew : (locals.counted key).low = key := by simp [Search.counted, building]
    rw [isNew]
    exact isEntry
  · have isOld : (locals.counted key).low = locals.low := by
      simp [Search.counted, building, isZero]
    rw [isOld]
    exact searching.isLow isZero

theorem Searching.window_counted (searching : Searching entries n first count locals)
    (isEntry : entries[first + count]? = some (key, false)) :
    WindowAt entries (count + 1) first := by
  intro j less
  by_cases isLast : j = count
  · exact ⟨key, isLast ▸ isEntry⟩
  · exact searching.free j (by omega)

theorem Searching.counted_facts (searching : Searching entries n first count locals) :
    (locals.counted key).numFound = count + 1 ∧ (locals.counted key).foundRange = false ∧
      (locals.counted key).buildingRange = true := by
  have building := searching.building
  have isCount := searching.isCount
  have notFound := searching.notFound
  unfold Search.counted
  cases isBuilding : locals.buildingRange <;> simp [isCount, notFound, isBuilding]

/-- A free entry is one more. -/
theorem Searching.next_free (searching : Searching entries n first count locals)
    (isEntry : entries[first + count]? = some (key, false)) (notLast : count + 1 ≠ n) :
    Searching entries n first (count + 1) (locals.counted key) := by
  obtain ⟨isCount, notFound, building⟩ := @Searching.counted_facts _ _ _ _ key _ searching
  have less := searching.less
  exact {
    notFound
    isCount
    less := by omega
    building := by rw [building]; simp
    isLow := fun _ => searching.low_counted isEntry
    free := searching.window_counted isEntry
    noEarlier := searching.noEarlier }

/-- No window has a used entry in it, so that the next one begins behind it. -/
theorem Searching.next_used (searching : Searching entries n first count locals)
    (isEntry : entries[first + count]? = some (key, true)) :
    Searching entries n (first + count + 1) 0 locals.reset := by
  have less := searching.less
  refine ⟨searching.notFound, rfl, by omega, rfl, fun isZero => absurd rfl isZero,
    fun j isLess => absurd isLess (Nat.not_lt_zero j), fun earlier isEarlier window => ?_⟩
  by_cases before : earlier < first
  · exact searching.noEarlier earlier before window
  · obtain ⟨other, isFree⟩ := window (first + count - earlier) (by omega)
    have isPlace : earlier + (first + count - earlier) = first + count := by omega
    rw [isPlace, isEntry] at isFree
    simp at isFree

end Steps

theorem search_searched {entries : List (Nat × Bool)} {n : Nat} (rest : List (Nat × Bool)) :
    ∀ (first count : Nat) (locals : Search), entries.drop (first + count) = rest →
      Searching entries n first count locals → Searched entries n (search n rest locals) := by
  induction rest with
  | nil =>
      intro first count locals isRest searching
      have isEnd : entries.length ≤ first + count := List.drop_eq_nil_iff.mp isRest
      have less := searching.less
      refine .inl ⟨searching.notFound, fun i window => ?_⟩
      have notEarlier : ¬ i < first := fun isLess => searching.noEarlier i isLess window
      obtain ⟨key, isLast⟩ := window (n - 1) (by omega)
      have inRange := (List.getElem?_eq_some_iff.mp isLast).1
      omega
  | cons entry rest ih =>
      intro first count locals isRest searching
      obtain ⟨key, used⟩ := entry
      have isEntry : entries[first + count]? = some (key, used) := by
        rw [← Nat.add_zero (first + count), ← List.getElem?_drop, isRest]
        rfl
      have isNext : entries.drop (first + count + 1) = rest := by
        rw [← List.drop_drop, isRest]
        rfl
      cases used with
      | true => exact ih (first + count + 1) 0 locals.reset isNext (searching.next_used isEntry)
      | false =>
          obtain ⟨isCount, _, _⟩ := @Searching.counted_facts _ _ _ _ key _ searching
          have isStep : search n ((key, false) :: rest) locals =
              if (locals.counted key).numFound = n then
                { locals.counted key with high := key, foundRange := true }
              else search n rest (locals.counted key) := rfl
          rw [isStep, isCount]
          by_cases isLast : count + 1 = n
          · rw [if_pos isLast]
            refine .inr ⟨rfl, first, ⟨isLast ▸ searching.window_counted isEntry, searching.noEarlier⟩,
              searching.low_counted isEntry, ?_⟩
            have isPlace : first + (n - 1) = first + count := by omega
            rw [isPlace]
            exact isEntry
          · rw [if_neg isLast]
            exact ih first (count + 1) (locals.counted key) isNext (searching.next_free isEntry isLast)

theorem search_start {entries : List (Nat × Bool)} {n : Nat} (positive : 0 < n) :
    Searched entries n (search n entries .start) := by
  apply search_searched entries 0 0 .start rfl
  exact ⟨rfl, rfl, positive, rfl, fun isZero => absurd rfl isZero,
    fun j less => absurd less (Nat.not_lt_zero j), fun i less => absurd less (Nat.not_lt_zero i)⟩

/-! ## The entries in the order of their keys -/

section Entries
variable {set : SlotSet} {i j n : Nat} {first second : Nat × Bool}

theorem entries_ordered (set : SlotSet) :
    set.elements.toList.Pairwise fun first second => first.1 < second.1 := by
  apply Std.TreeMap.ordered_keys_toList.imp
  intro first second ordered
  exact Nat.compare_eq_lt.mp ordered

theorem entry_lt (isFirst : set.elements.toList[i]? = some first)
    (isSecond : set.elements.toList[j]? = some second) (less : i < j) : first.1 < second.1 := by
  obtain ⟨inRange, rfl⟩ := List.getElem?_eq_some_iff.mp isFirst
  obtain ⟨inRangeToo, rfl⟩ := List.getElem?_eq_some_iff.mp isSecond
  exact List.pairwise_iff_getElem.mp (entries_ordered set) i j inRange inRangeToo less

/-- The keys rise by one at least from each entry to the next. -/
theorem entry_add_le (isFirst : set.elements.toList[i]? = some first) :
    ∀ (d : Nat) (second : Nat × Bool), set.elements.toList[i + d]? = some second →
      first.1 + d ≤ second.1 := by
  intro d
  induction d with
  | zero =>
      intro second isSecond
      rw [Nat.add_zero, isFirst] at isSecond
      exact le_of_eq (congrArg Prod.fst (Option.some.inj isSecond))
  | succ d ih =>
      intro second isSecond
      have inRange := (List.getElem?_eq_some_iff.mp isSecond).1
      have isMiddle := List.getElem?_eq_getElem (l := set.elements.toList) (i := i + d) (by omega)
      have below := ih _ isMiddle
      have above := entry_lt isMiddle isSecond (by omega)
      omega

theorem entry_le_iff (isFirst : set.elements.toList[i]? = some first)
    (isSecond : set.elements.toList[j]? = some second) : first.1 ≤ second.1 ↔ i ≤ j := by
  constructor
  · intro ordered
    by_contra above
    have less := entry_lt isSecond isFirst (Nat.lt_of_not_le above)
    omega
  · intro ordered
    obtain ⟨d, rfl⟩ := Nat.exists_eq_add_of_le ordered
    have below := entry_add_le isFirst d second isSecond
    omega

theorem entry_of_element {key : Nat} {used : Bool} (isElement : set.elements[key]? = some used) :
    ∃ k : Nat, set.elements.toList[k]? = some (key, used) :=
  List.mem_iff_getElem?.mp (Std.TreeMap.mem_toList_iff_getElem?_eq_some.mpr isElement)

theorem element_of_entry {key : Nat} {used : Bool} (isEntry : set.elements.toList[i]? = some (key, used)) :
    set.elements[key]? = some used :=
  Std.TreeMap.mem_toList_iff_getElem?_eq_some.mp (List.mem_iff_getElem?.mpr ⟨i, isEntry⟩)

/-- Between the first and the last key of a window there is no used one. -/
theorem not_used_of_window {low high key : Nat} (window : WindowAt set.elements.toList n i)
    (isLow : set.elements.toList[i]? = some (low, false))
    (isHigh : set.elements.toList[i + (n - 1)]? = some (high, false)) (above : low ≤ key)
    (below : key ≤ high) (positive : 0 < n) : set.elements[key]? ≠ some true := by
  intro isUsed
  obtain ⟨k, isEntry⟩ := entry_of_element isUsed
  have notBefore : i ≤ k := (entry_le_iff isLow isEntry).mp above
  have notAfter : k ≤ i + (n - 1) := (entry_le_iff isEntry isHigh).mp below
  obtain ⟨other, isFree⟩ := window (k - i) (by omega)
  rw [Nat.add_sub_cancel' notBefore, isEntry] at isFree
  simp at isFree

/-- Elements with consecutive numbers are consecutive entries. -/
theorem entries_of_free {low : Nat}
    (areFree : ∀ key, low ≤ key → key < low + n → set.elements[key]? = some false)
    (positive : 0 < n) : ∃ i, ∀ j < n, set.elements.toList[i + j]? = some (low + j, false) := by
  obtain ⟨i, isFirst⟩ := entry_of_element (areFree low (Nat.le_refl low) (by omega))
  refine ⟨i, fun j => ?_⟩
  induction j with
  | zero => exact fun _ => isFirst
  | succ j ih =>
      intro less
      have isBefore := ih (by omega)
      obtain ⟨k, isEntry⟩ := entry_of_element (areFree (low + (j + 1)) (by omega) (by omega))
      have isLater : i + j < k := by
        by_contra notLater
        have ordered := (entry_le_iff isEntry isBefore).mpr (Nat.le_of_not_lt notLater)
        simp only at ordered
        omega
      have inRange := (List.getElem?_eq_some_iff.mp isEntry).1
      have isNext := List.getElem?_eq_getElem (l := set.elements.toList) (i := i + (j + 1)) (by omega)
      have above := entry_lt isBefore isNext (by omega)
      have below := (entry_le_iff isNext isEntry).mpr (by omega)
      have same : k = i + (j + 1) := by
        have back := (entry_le_iff isEntry isNext).mp (by simp only at above ⊢; omega)
        omega
      rw [← same]
      exact isEntry

end Entries

/-! ## What `withdraw` returns -/

/-- Both loops over a range of keys: each key is given the mark that none of them may have. -/
def markAll (used : Bool) : List Nat → SlotSet → Option SlotSet
  | [], set => some set
  | key :: keys, set =>
      if set.elements[key]? = some used then none
      else markAll used keys ⟨set.elements.insert key used⟩

theorem depositAll_eq (keys : List Nat) : ∀ set, depositAll keys set = markAll false keys set := by
  induction keys with
  | nil => exact fun set => rfl
  | cons key keys ih =>
      intro set
      rw [depositAll, depositKey, markAll]
      split
      · rfl
      · exact ih _

theorem useAll_eq (keys : List Nat) : ∀ set, useAll keys set = markAll true keys set := by
  induction keys with
  | nil => exact fun set => rfl
  | cons key keys ih =>
      intro set
      rw [useAll, useKey, markAll]
      split
      · rfl
      · exact ih _

theorem markAll_returns (used : Bool) (keys : List Nat) : ∀ set : SlotSet, keys.Nodup →
    (∀ key ∈ keys, set.elements[key]? ≠ some used) →
    ∃ final, markAll used keys set = some final ∧
      ∀ key : Nat, final.elements[key]? = if key ∈ keys then some used else set.elements[key]? := by
  induction keys with
  | nil => exact fun set _ _ => ⟨set, rfl, fun key => by simp⟩
  | cons key keys ih =>
      intro set distinct unmarked
      obtain ⟨isNew, distinct⟩ := List.nodup_cons.mp distinct
      obtain ⟨final, run, elements⟩ := ih ⟨set.elements.insert key used⟩ distinct (by
        intro other member
        have differs : ¬ key = other := fun same => isNew (same ▸ member)
        rw [Std.TreeMap.getElem?_insert]
        simp only [compare_eq_iff_eq, differs, if_false]
        exact unmarked other (List.mem_cons_of_mem _ member))
      rw [markAll, if_neg (unmarked key List.mem_cons_self)]
      refine ⟨final, run, fun other => ?_⟩
      rw [elements, Std.TreeMap.getElem?_insert]
      by_cases same : key = other
      · simp [same]
      · simp [same, Ne.symm same]

theorem markRange_returns (used : Bool) (set : SlotSet) {low high : Nat}
    (unmarked : ∀ key, low ≤ key → key < high → set.elements[key]? ≠ some used) :
    ∃ final, markAll used (List.range' low (high - low)) set = some final ∧
      ∀ key : Nat, final.elements[key]? =
        if low ≤ key ∧ key < high then some used else set.elements[key]? := by
  have inRange : ∀ key, key ∈ List.range' low (high - low) ↔ low ≤ key ∧ key < high := by
    intro key
    rw [List.mem_range'_1]
    omega
  obtain ⟨final, run, elements⟩ := markAll_returns used (List.range' low (high - low)) set
    List.nodup_range' fun key member =>
      unmarked key ((inRange key).mp member).1 ((inRange key).mp member).2
  refine ⟨final, run, fun key => ?_⟩
  rw [elements]
  simp only [inRange]

/-- The first window is returned, from its first key to its last one. -/
theorem withdraw_spec {set : SlotSet} {n : Nat} (positive : 0 < n) :
    (∃ i low high final, FirstWindow set.elements.toList n i ∧
      set.elements.toList[i]? = some (low, false) ∧
      set.elements.toList[i + (n - 1)]? = some (high, false) ∧
      set.withdraw n = some (some (low, high + 1), final) ∧
      ∀ key : Nat, final.elements[key]? =
        if low ≤ key ∧ key < high + 1 then some true else set.elements[key]?) ∨
    set.withdraw n = some (none, set) ∧ ∀ i, ¬ WindowAt set.elements.toList n i := by
  have searched := @search_start set.elements.toList n positive
  have isRun : set.withdraw n = if (search n set.elements.toList .start).foundRange = true then
      (useAll (List.range' (search n set.elements.toList .start).low
        ((search n set.elements.toList .start).high + 1 - (search n set.elements.toList .start).low))
        set).map fun used => (some ((search n set.elements.toList .start).low,
          (search n set.elements.toList .start).high + 1), used)
    else some (none, set) := rfl
  generalize search n set.elements.toList .start = found at searched isRun
  rw [isRun]
  rcases searched with ⟨missing, noWindow⟩ | ⟨isFound, i, window, isLow, isHigh⟩
  · rw [missing]
    exact .inr ⟨rfl, noWindow⟩
  · have ordered : found.low + (n - 1) ≤ found.high := entry_add_le isLow (n - 1) _ isHigh
    obtain ⟨final, run, elements⟩ := @markRange_returns true set found.low (found.high + 1)
      fun key above below =>
        not_used_of_window window.1 isLow isHigh above (Nat.le_of_lt_succ below) positive
    rw [if_pos isFound, useAll_eq, run]
    exact .inl ⟨i, found.low, found.high, final, window, isLow, isHigh, rfl, elements⟩

/-- The range is `n` free elements, or there are no `n` consecutive free ones. -/
def Answers (pool : Nat → Option Bool) (n : Nat) : Option (Nat × Nat) → Prop
  | some (low, high) => high = low + n ∧ ∀ key, low ≤ key → key < high → pool key = some false
  | none => ¬ ∃ low, ∀ key, low ≤ key → key < low + n → pool key = some false

/-- No number is missing between the keys of the first window. -/
def Adjacent (set : SlotSet) (n : Nat) : Prop :=
  ∀ i, FirstWindow set.elements.toList n i →
    ∃ low, ∀ j < n, set.elements.toList[i + j]? = some (low + j, false)

theorem FirstWindow.unique {entries : List (Nat × Bool)} {n i j : Nat}
    (first : FirstWindow entries n i) (again : FirstWindow entries n j) : i = j := by
  by_contra differ
  rcases Nat.lt_or_gt_of_ne differ with less | less
  · exact again.2 i less first.1
  · exact first.2 j less again.1

theorem withdraw_answers_iff {set final : SlotSet} {n : Nat} {answer : Option (Nat × Nat)}
    (positive : 0 < n) (run : set.withdraw n = some (answer, final)) :
    Answers (fun key => set.elements[key]?) n answer ↔ Adjacent set n := by
  rcases @withdraw_spec set n positive with
    ⟨i, low, high, _, window, isLow, isHigh, isRun, _⟩ | ⟨isRun, noWindow⟩
  · rw [isRun] at run
    obtain ⟨rfl, _⟩ := Prod.mk.inj (Option.some.inj run)
    constructor
    · intro ⟨isRange, _⟩ other isFirst
      obtain rfl := window.unique isFirst
      refine ⟨low, fun j less => ?_⟩
      obtain ⟨key, isEntry⟩ := window.1 j less
      have above : low + j ≤ key := entry_add_le isLow j _ isEntry
      have isPlace : i + (n - 1) = i + j + (n - 1 - j) := by omega
      rw [isPlace] at isHigh
      have below : key + (n - 1 - j) ≤ high := entry_add_le isEntry _ _ isHigh
      have same : key = low + j := by omega
      rw [isEntry, same]
    · intro adjacent
      obtain ⟨first, entries⟩ := adjacent i window
      have sameLow : low = first := by
        have isFirst := entries 0 positive
        rw [Nat.add_zero, isLow] at isFirst
        exact congrArg Prod.fst (Option.some.inj isFirst)
      have sameHigh : high = first + (n - 1) := by
        have isLast := entries (n - 1) (by omega)
        rw [isHigh] at isLast
        exact congrArg Prod.fst (Option.some.inj isLast)
      refine ⟨by omega, fun key above below => ?_⟩
      have isEntry := entries (key - low) (by omega)
      rw [← sameLow, Nat.add_sub_cancel' above] at isEntry
      exact element_of_entry isEntry
  · rw [isRun] at run
    obtain ⟨rfl, _⟩ := Prod.mk.inj (Option.some.inj run)
    apply iff_of_true
    · intro ⟨low, areFree⟩
      obtain ⟨i, entries⟩ := entries_of_free areFree positive
      exact noWindow i fun j less => ⟨_, entries j less⟩
    · exact fun i isFirst => absurd isFirst.1 (noWindow i)

end SlotSet

/-! ## Deposits and withdrawals -/

/-- What the elements are by the history: `none` if never deposited, `false` if free. -/
abbrev Pool := Nat → Option Bool

def Pool.fill (pool : Pool) (low high : Nat) (used : Bool) : Pool := fun key =>
  if low ≤ key ∧ key < high then some used else pool key

structure SlotState where
  set : SlotSet
  pool : Pool

inductive SlotEvent where
  | deposit (low high : Nat)
  | withdraw (n : Nat) (answer : Option (Nat × Nat))

/-- The history after an event. -/
def SlotEvent.record : SlotEvent → Pool → Pool
  | .deposit low high, pool => pool.fill low high false
  | .withdraw _ (some (low, high)), pool => pool.fill low high true
  | .withdraw _ none, pool => pool

def Pool.NotFree (pool : Pool) (low high : Nat) : Prop :=
  ∀ key, low ≤ key → key < high → pool key ≠ some false

/-- A deposit of a range of which nothing is free, or a withdrawal of one element at least. -/
inductive SlotStep : SlotEvent → SlotState → SlotState → Prop where
  | deposit {before : SlotState} {low high : Nat} {set : SlotSet}
      (notFree : before.pool.NotFree low high) (run : before.set.deposit low high = some set) :
      SlotStep (.deposit low high) before ⟨set, (SlotEvent.deposit low high).record before.pool⟩
  | withdraw {before : SlotState} {n : Nat} {answer : Option (Nat × Nat)} {set : SlotSet}
      (positive : 0 < n) (run : before.set.withdraw n = some (answer, set)) :
      SlotStep (.withdraw n answer) before ⟨set, (SlotEvent.withdraw n answer).record before.pool⟩

namespace SlotState

def start : SlotState := ⟨SlotSet.new, fun _ => none⟩

/-- The set has the elements that were deposited, and those used that were withdrawn. -/
def Agrees (state : SlotState) : Prop := ∀ key : Nat, state.set.elements[key]? = state.pool key

end SlotState

theorem SlotState.start_agrees : start.Agrees := fun _ => Std.TreeMap.getElem?_emptyc

variable {before after final : SlotState} {event : SlotEvent}
  {taken : List (SlotState × SlotEvent)}

theorem SlotState.deposit_returns (agrees : before.Agrees) {low high : Nat}
    (notFree : before.pool.NotFree low high) :
    ∃ set, before.set.deposit low high = some set ∧
      ∀ key : Nat, set.elements[key]? = before.pool.fill low high false key := by
  obtain ⟨set, run, elements⟩ := @SlotSet.markRange_returns false before.set low high
    fun key above below => agrees key ▸ notFree key above below
  refine ⟨set, by rw [SlotSet.deposit, SlotSet.depositAll_eq, run], fun key => ?_⟩
  rw [elements, agrees key]
  rfl

theorem SlotState.withdraw_returns (set : SlotSet) {n : Nat} (positive : 0 < n) :
    ∃ answer final, set.withdraw n = some (answer, final) := by
  rcases @SlotSet.withdraw_spec set n positive with ⟨_, _, _, _, _, _, _, run, _⟩ | ⟨run, _⟩
  · exact ⟨_, _, run⟩
  · exact ⟨_, _, run⟩

theorem SlotStep.agrees (step : SlotStep event before after) (agrees : before.Agrees) :
    after.Agrees := by
  cases step with
  | deposit notFree run =>
      obtain ⟨set, isRun, elements⟩ := SlotState.deposit_returns agrees notFree
      rw [run] at isRun
      obtain rfl := Option.some.inj isRun
      exact elements
  | withdraw positive run =>
      rcases @SlotSet.withdraw_spec before.set _ positive with
        ⟨_, low, high, final, _, _, _, isRun, elements⟩ | ⟨isRun, _⟩
      · rw [run] at isRun
        obtain ⟨rfl, rfl⟩ := Prod.mk.inj (Option.some.inj isRun)
        intro key
        rw [elements, agrees key]
        rfl
      · rw [run] at isRun
        obtain ⟨rfl, rfl⟩ := Prod.mk.inj (Option.some.inj isRun)
        exact agrees

/-- A withdrawal was answered with free elements that had been deposited, as many as were asked
for, or there were not so many in a row. -/
def AnsweredRight (state : SlotState) : SlotEvent → Prop
  | .deposit _ _ => True
  | .withdraw n answer => SlotSet.Answers state.pool n answer

def NoGap (state : SlotState) : SlotEvent → Prop
  | .deposit _ _ => True
  | .withdraw n _ => state.set.Adjacent n

theorem SlotStep.answered_iff (step : SlotStep event before after) (agrees : before.Agrees) :
    AnsweredRight before event ↔ NoGap before event := by
  have isPool : before.pool = fun key => before.set.elements[key]? :=
    funext fun key => (agrees key).symm
  cases step with
  | deposit => exact Iff.rfl
  | withdraw positive run =>
      unfold AnsweredRight NoGap
      rw [isPool]
      exact SlotSet.withdraw_answers_iff positive run

/-- The set withdraws real runs: the answers along the run were right, the set holds what the history
says, and no operation panics. -/
structure RealRuns (taken : List (SlotState × SlotEvent)) (final : SlotState) : Prop where
  answered : ∀ entry ∈ taken, AnsweredRight entry.1 entry.2
  agrees : final.Agrees
  deposits : ∀ low high, final.pool.NotFree low high → final.set.deposit low high ≠ none
  withdraws : ∀ n, 0 < n → final.set.withdraw n ≠ none

theorem recorded_agrees (run : Recorded SlotStep .start taken final) : final.Agrees :=
  run.always SlotState.start_agrees fun _ _ _ agrees step => step.agrees agrees

theorem recorded_answered (run : Recorded SlotStep .start taken final) :
    ∀ entry ∈ taken, AnsweredRight entry.1 entry.2 ↔ NoGap entry.1 entry.2 := by
  induction run with
  | start => simp
  | @step taken event before after run step ih =>
      intro entry member
      rcases List.mem_append.mp member with isEarlier | isLast
      · exact ih entry isEarlier
      · obtain rfl := List.mem_singleton.mp isLast
        exact step.answered_iff (recorded_agrees run)

/-- A run is right exactly if no number was missing in the first window of any withdrawal. -/
theorem realRuns_iff (run : Recorded SlotStep .start taken final) :
    RealRuns taken final ↔ ∀ entry ∈ taken, NoGap entry.1 entry.2 := by
  have answered := recorded_answered run
  have agrees := recorded_agrees run
  constructor
  · exact fun real entry member => (answered entry member).mp (real.answered entry member)
  · intro noGap
    refine ⟨fun entry member => (answered entry member).mpr (noGap entry member), agrees, ?_, ?_⟩
    · intro low high notFree
      obtain ⟨_, deposited, _⟩ := SlotState.deposit_returns agrees notFree
      simp [deposited]
    · intro n positive
      obtain ⟨_, _, withdrawn⟩ := SlotState.withdraw_returns final.set positive
      simp [withdrawn]

/-- Two of four elements that were deposited together. -/
theorem realRuns_iff_twoOfFour : ∃ taken final, RealRuns taken final ∧
    taken.map Prod.snd = [.deposit 0 4, .withdraw 2 (some (0, 2))] := by
  have evaluated : ((SlotSet.new.deposit 0 4).bind fun set => set.withdraw 2).map Prod.fst =
      some (some (0, 2)) := by decide +kernel
  obtain ⟨⟨_, last⟩, run, rfl⟩ := Option.map_eq_some_iff.mp evaluated
  obtain ⟨set, deposited, withdrawn⟩ := Option.bind_eq_some_iff.mp run
  have notFree : SlotState.start.pool.NotFree 0 4 := fun _ _ _ => by simp [SlotState.start]
  have first : Recorded SlotStep .start _ _ := Recorded.start.step (.deposit notFree deposited)
  have recorded := first.step (.withdraw (by decide) withdrawn)
  refine ⟨_, _, (realRuns_iff recorded).mpr ?_, rfl⟩
  have noGap : set.Adjacent 2 := by
    apply (SlotSet.withdraw_answers_iff (by decide) withdrawn).mp
    refine ⟨rfl, fun key above below => ?_⟩
    have isElement := recorded_agrees first key
    simp only [SlotEvent.record, Pool.fill] at isElement
    rw [if_pos (by omega)] at isElement
    exact isElement
  simpa [NoGap] using noGap

/-- Three elements of 0, 1, 5 and 6 are answered with six numbers, of which three were never
deposited. -/
theorem withdraw_bridges_gap : ∃ taken final, Recorded SlotStep .start taken final ∧
    taken.map Prod.snd = [.deposit 0 2, .deposit 5 7, .withdraw 3 (some (0, 6))] ∧
    ¬ RealRuns taken final := by
  have evaluated : ((SlotSet.new.deposit 0 2).bind fun set => (set.deposit 5 7).bind fun set =>
      set.withdraw 3).map Prod.fst = some (some (0, 6)) := by decide +kernel
  obtain ⟨⟨_, last⟩, run, rfl⟩ := Option.map_eq_some_iff.mp evaluated
  obtain ⟨set, deposited, run⟩ := Option.bind_eq_some_iff.mp run
  obtain ⟨both, depositedToo, withdrawn⟩ := Option.bind_eq_some_iff.mp run
  have notFree : SlotState.start.pool.NotFree 0 2 := fun _ _ _ => by simp [SlotState.start]
  have first : Recorded SlotStep .start _ _ := Recorded.start.step (.deposit notFree deposited)
  have second := first.step (.deposit (fun key above _ => by
    simp only [SlotEvent.record, Pool.fill, SlotState.start]
    rw [if_neg (by omega)]
    simp) depositedToo)
  have third := second.step (.withdraw (by decide) withdrawn)
  refine ⟨_, _, third, rfl, fun real => ?_⟩
  have wrong := real.answered _ (List.mem_append_right _ (List.mem_singleton_self _))
  exact absurd wrong.1 (by decide)

end IceCap.Dyndl
