import Mathlib.Data.List.Nodup

/-!
# Positions

A table that has for every entry of a list where in the list it is.  It is
filled by walking over the list with the index at hand.
-/

set_option autoImplicit false

namespace IceCap.Library

variable {entries table : List Nat} {i j first : Nat}

/-- Write the position of every entry into the table, under the entry. -/
def writePositions (entries : List (Nat × Nat)) (table : List Nat) : List Nat :=
  entries.foldl (fun table entry => table.set entry.1 entry.2) table

@[simp]
theorem length_writePositions (entries : List (Nat × Nat)) (table : List Nat) :
    (writePositions entries table).length = table.length := by
  induction entries generalizing table with
  | nil => rfl
  | cons entry entries ih => exact (ih _).trans (List.length_set)

theorem writePositions_cons {entry : Nat × Nat} {entries : List (Nat × Nat)} :
    writePositions (entry :: entries) table = writePositions entries (table.set entry.1 entry.2) :=
  rfl

/-- What is not an entry is not written under. -/
theorem writePositions_of_not_mem (isNot : i ∉ entries) :
    (writePositions (entries.zipIdx first) table)[i]? = table[i]? := by
  induction entries generalizing table first with
  | nil => rfl
  | cons entry entries ih =>
      rw [List.mem_cons, not_or] at isNot
      rw [List.zipIdx_cons, writePositions_cons, ih isNot.2, List.getElem?_set_ne (Ne.symm isNot.1)]

/-- Under an entry is where it is. -/
theorem writePositions_of_getElem? (distinct : entries.Nodup) (isEntry : entries[j]? = some i)
    (inTable : i < table.length) :
    (writePositions (entries.zipIdx first) table)[i]? = some (first + j) := by
  induction entries generalizing table first j with
  | nil => simp at isEntry
  | cons entry entries ih =>
      obtain ⟨isNew, distinct⟩ := List.nodup_cons.mp distinct
      rw [List.zipIdx_cons, writePositions_cons]
      cases j with
      | zero =>
          obtain rfl : entry = i := by simpa using isEntry
          rw [writePositions_of_not_mem isNew, List.getElem?_set_self inTable, Nat.add_zero]
      | succ j =>
          rw [List.getElem?_cons_succ] at isEntry
          rw [ih distinct isEntry (by rwa [List.length_set])]
          congr 1
          omega

/-- What every round of a loop over the items and their positions keeps, the loop keeps. -/
theorem foldl_zipIdx_induction {α β : Type} {items : List α} {body : β → α × Nat → β} {value : β}
    (invariant : Nat → β → Prop)
    (step : ∀ n value item, items[n]? = some item → invariant n value →
      invariant (n + 1) (body value (item, n)))
    (starts : invariant 0 value) : invariant items.length (items.zipIdx.foldl body value) := by
  have rounds : ∀ (rest : List α) (n : Nat) (value : β), (∀ k, rest[k]? = items[n + k]?) →
      invariant n value → invariant (n + rest.length) ((rest.zipIdx n).foldl body value) := by
    intro rest
    induction rest with
    | nil => exact fun n value _ holds => holds
    | cons item rest ih =>
        intro n value places holds
        have isNext : items[n]? = some item := (places 0).symm
        have next := ih (n + 1) _ (fun k => by
          rw [Nat.add_assoc, Nat.add_comm 1 k]
          exact places (k + 1)) (step n value item isNext holds)
        rw [List.length_cons, Nat.add_comm rest.length, ← Nat.add_assoc]
        exact next
  simpa using rounds items 0 value (by simp) starts

end IceCap.Library
