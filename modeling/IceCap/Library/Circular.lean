import Mathlib.Data.Nat.ModEq
import Mathlib.Data.List.Basic

/-!
# Memory used in a circle

A stream of bytes that is longer than the memory it goes through is kept by
putting item `i` of the stream at position `i % memory.length`.  `Window` says
which part of the stream the memory has.  Copies into and out of the memory are
checked: one that would leave the memory gives nothing.
-/

set_option autoImplicit false

namespace IceCap.Library

variable {α : Type}

def copyOut (memory : List α) (offset n : Nat) : Option (List α) :=
  if offset + n ≤ memory.length then some ((memory.drop offset).take n) else none

def copyIn (memory : List α) (offset : Nat) (items : List α) : Option (List α) :=
  if offset + items.length ≤ memory.length then
    some (memory.take offset ++ items ++ memory.drop (offset + items.length))
  else none

section Copies
variable {memory result items : List α} {offset n : Nat}

theorem copyOut_eq_some (inside : offset + n ≤ memory.length) :
    copyOut memory offset n = some ((memory.drop offset).take n) :=
  if_pos inside

theorem copyIn_isSome (inside : offset + items.length ≤ memory.length) :
    ∃ result, copyIn memory offset items = some result :=
  ⟨_, if_pos inside⟩

theorem copyIn_length (copied : copyIn memory offset items = some result) :
    result.length = memory.length := by
  unfold copyIn at copied
  split at copied
  · next inside =>
      obtain rfl := Option.some.inj copied
      simp only [List.length_append, List.length_take, List.length_drop]
      omega
  · simp at copied

theorem copyIn_inside (copied : copyIn memory offset items = some result) :
    offset + items.length ≤ memory.length := by
  unfold copyIn at copied
  split at copied
  · next inside => exact inside
  · simp at copied

/-- What is where after a copy. -/
theorem copyIn_getElem? (copied : copyIn memory offset items = some result) (position : Nat) :
    result[position]? = if offset ≤ position ∧ position < offset + items.length
      then items[position - offset]? else memory[position]? := by
  unfold copyIn at copied
  split at copied
  · next inside =>
      obtain rfl := Option.some.inj copied
      have atOffset : (memory.take offset).length = offset := by
        rw [List.length_take]
        omega
      rw [List.getElem?_append, List.getElem?_append, List.length_append, atOffset]
      by_cases before : position < offset
      · have outside : ¬ (offset ≤ position ∧ position < offset + items.length) := by omega
        rw [if_pos (by omega), if_pos before, if_neg outside, List.getElem?_take_of_lt before]
      · by_cases within : position < offset + items.length
        · rw [if_pos within, if_neg before, if_pos ⟨by omega, within⟩]
        · have outside : ¬ (offset ≤ position ∧ position < offset + items.length) := by omega
          rw [if_neg within, if_neg outside, List.getElem?_drop]
          congr 1
          omega
  · simp at copied

end Copies

/-- Where the item `k` places after position `start` is, less than a whole turn on. -/
theorem place_add {size start k : Nat} (less : k < size) :
    (start + k) % size = if start % size + k < size then start % size + k
      else start % size + k - size := by
  have inside : start % size < size := Nat.mod_lt _ (by omega)
  rw [Nat.add_mod, Nat.mod_eq_of_lt less]
  split
  · next noTurn => exact Nat.mod_eq_of_lt noTurn
  · next turn => rw [Nat.mod_eq_sub_mod (by omega), Nat.mod_eq_of_lt (by omega)]

/-- The items of the stream from `low` up to `high` are in the memory. -/
def Window (memory stream : List α) (low high : Nat) : Prop :=
  ∀ i, low ≤ i → i < high → memory[i % memory.length]? = stream[i]?

namespace Window

variable {memory stream : List α} {low low' high : Nat}

theorem narrow (window : Window memory stream low high) (less : low ≤ low') :
    Window memory stream low' high :=
  fun i above below => window i (Nat.le_trans less above) below

/-- Items taken from the places of a window. -/
theorem taken {items : List α} {n : Nat} (window : Window memory stream low high)
    (inside : low + n ≤ high) (length : items.length = n)
    (taken : ∀ k < n, items[k]? = memory[(low + k) % memory.length]?) :
    items = (stream.drop low).take n := by
  apply List.ext_getElem?
  intro k
  by_cases less : k < n
  · rw [taken k less, window (low + k) (by omega) (by omega), List.getElem?_take_of_lt less,
      List.getElem?_drop]
  · rw [List.getElem?_eq_none (by omega), List.getElem?_eq_none]
    rw [List.length_take]
    omega

/-- Two places of a window that fits the memory are different ones. -/
theorem places_differ {size i j : Nat} (less : i < j) (fits : j < i + size) :
    i % size ≠ j % size := by
  intro same
  have divides : size ∣ j - i := (Nat.modEq_iff_dvd' (Nat.le_of_lt less)).mp same
  exact absurd (Nat.le_of_dvd (by omega) divides) (by omega)

/-- The next items of the stream are put in the places after the window. -/
theorem put {items result : List α} (window : Window memory stream low stream.length)
    (fits : stream.length + items.length ≤ low + memory.length)
    (length : result.length = memory.length)
    (isPut : ∀ k < items.length, result[(stream.length + k) % memory.length]? = items[k]?)
    (unchanged : ∀ position, (∀ k < items.length,
      position ≠ (stream.length + k) % memory.length) → result[position]? = memory[position]?) :
    Window result (stream ++ items) low (stream ++ items).length := by
  intro i above below
  rw [length]
  by_cases old : i < stream.length
  · rw [unchanged, window i above old, List.getElem?_append_left old]
    intro k less
    exact places_differ (by omega) (by omega)
  · obtain ⟨k, rfl⟩ := Nat.exists_eq_add_of_le (Nat.le_of_not_lt old)
    rw [List.length_append] at below
    rw [isPut k (by omega), List.getElem?_append_right (by omega)]
    simp

end Window

end IceCap.Library
