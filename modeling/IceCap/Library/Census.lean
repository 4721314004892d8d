import Mathlib.Data.Fintype.Card
import Mathlib.Algebra.BigOperators.Group.Finset.Basic
import Mathlib.Logic.Function.Basic

/-!
# Counting parties

Any number of parties, each of them somewhere.  `census` counts those that are
at a place of a certain kind; when one party moves, the count changes by what it
left and by where it went.
-/

set_option autoImplicit false

namespace IceCap.Library

variable {Party Place : Type} [Fintype Party]

/-- How many parties are at a place of the kind. -/
def census (kind : Place → Bool) (places : Party → Place) : Nat :=
  (Finset.univ.filter fun party => kind (places party) = true).card

variable {kind other : Place → Bool} {places : Party → Place} {party : Party}

theorem census_pos : 0 < census kind places ↔ ∃ party, kind (places party) = true := by
  simp [census, Finset.card_pos, Finset.filter_nonempty_iff]

theorem census_eq_zero : census kind places = 0 ↔ ∀ party, kind (places party) = false := by
  simp [census, Finset.filter_eq_empty_iff]

/-- Where there is at most one, there are no two. -/
theorem census_unique {first second : Party} (few : census kind places ≤ 1)
    (isFirst : kind (places first) = true) (isSecond : kind (places second) = true) :
    first = second := by
  unfold census at few
  rw [Finset.card_le_one] at few
  exact few first (by simpa using isFirst) second (by simpa using isSecond)

/-- A party that is elsewhere leaves room. -/
theorem census_lt (elsewhere : kind (places party) = false) :
    census kind places < Fintype.card Party := by
  apply Finset.card_lt_univ_of_notMem (x := party)
  simp [elsewhere]

/-- One party moves. -/
theorem census_update [DecidableEq Party] (kind : Place → Bool) (places : Party → Place)
    (party : Party) (place : Place) :
    census kind (Function.update places party place) + (kind (places party)).toNat =
      census kind places + (kind place).toNat := by
  have others : ∀ places' : Party → Place, census kind places' =
      (kind (places' party)).toNat +
        ((Finset.univ.erase party).filter fun other => kind (places' other) = true).card := by
    intro places'
    rw [census, ← Finset.insert_erase (Finset.mem_univ party), Finset.filter_insert,
      Finset.erase_insert (Finset.notMem_erase party _)]
    cases isKind : kind (places' party) with
    | true =>
        rw [if_pos rfl, Finset.card_insert_of_notMem (by simp), Bool.toNat_true, Nat.add_comm]
    | false => rw [if_neg (by simp), Bool.toNat_false, Nat.zero_add]
  have same : ((Finset.univ.erase party).filter fun other =>
        kind (Function.update places party place other) = true) =
      (Finset.univ.erase party).filter fun other => kind (places other) = true := by
    refine Finset.filter_congr fun other member => ?_
    rw [Function.update_of_ne (Finset.ne_of_mem_erase member)]
  rw [others (Function.update places party place), others places, same, Function.update_self]
  omega

end IceCap.Library
