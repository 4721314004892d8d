import Mathlib.Algebra.Order.Ring.Nat
import Mathlib.Algebra.BigOperators.Group.List.Basic
import Mathlib.Tactic.Tauto

/-!
# Sums and comparisons modulo a word

A sum formed in words is the remainder of the sum.  Comparing remainders agrees
with comparing the numbers unless one of them has come around just past a
multiple of the modulus.
-/

set_option autoImplicit false

namespace IceCap.Library

/-- A sum formed with a reduction after every step. -/
theorem foldl_add_mod {α : Type} (m : Nat) (value : α → Nat) (items : List α) :
    ∀ start, start < m → items.foldl (fun total item => (total + value item) % m) start =
      (start + (items.map value).sum) % m := by
  induction items with
  | nil =>
      intro start small
      simp [Nat.mod_eq_of_lt small]
  | cons item items ih =>
      intro start small
      have next := ih ((start + value item) % m) (Nat.mod_lt _ (by omega))
      rw [List.foldl_cons, next, List.map_cons, List.sum_cons, Nat.mod_add_mod, Nat.add_assoc]

/-- The request is past the space and ends up within it when it has come around. -/
def ComesAround (m request space : Nat) : Prop :=
  ∃ k, space / m < k ∧ k * m ≤ request ∧ request ≤ k * m + space % m

/-- The space has come around and ends up below a request that it is enough for. -/
def FallsBehind (m request space : Nat) : Prop :=
  ∃ k, k < space / m ∧ k * m + space % m < request ∧ request < (k + 1) * m

/-- Comparing remainders is exact unless one of the two has come around to the wrong side. -/
theorem mod_le_mod_iff {m request space : Nat} (positive : 0 < m) :
    (request % m ≤ space % m ↔ request ≤ space) ↔
      ¬ ComesAround m request space ∧ ¬ FallsBehind m request space := by
  have parts : request / m * m + request % m = request := Nat.div_add_mod' request m
  have spaceParts : space / m * m + space % m = space := Nat.div_add_mod' space m
  have inRound := Nat.mod_lt request positive
  have spaceInRound := Nat.mod_lt space positive
  have later : ∀ {first second : Nat}, first < second → first * m + m ≤ second * m := by
    intro first second less
    rw [← Nat.succ_mul]
    exact Nat.mul_le_mul_right m less
  constructor
  · intro exact
    constructor
    · rintro ⟨k, past, above, within⟩
      have isQuotient : request / m = k :=
        Nat.div_eq_of_lt_le above (by rw [Nat.succ_mul]; omega)
      have apart := later past
      rw [isQuotient] at parts
      omega
    · rintro ⟨k, before, above, inside⟩
      have isQuotient : request / m = k := Nat.div_eq_of_lt_le (by omega) inside
      have apart := later before
      rw [isQuotient] at parts
      omega
  · rintro ⟨notAround, notBehind⟩
    rcases Nat.lt_trichotomy (request / m) (space / m) with before | same | past
    · have apart := later before
      refine iff_of_true ?_ (by omega)
      by_contra outside
      exact notBehind ⟨request / m, before, by omega, by rw [Nat.succ_mul]; omega⟩
    · rw [same] at parts
      omega
    · have apart := later past
      refine iff_of_false ?_ (by omega)
      intro within
      exact notAround ⟨request / m, past, by omega, by omega⟩

theorem ComesAround.lt {m request space : Nat} (positive : 0 < m)
    (around : ComesAround m request space) : space < request := by
  obtain ⟨k, past, above, _⟩ := around
  have later : (space / m + 1) * m ≤ k * m := Nat.mul_le_mul_right m past
  have parts := Nat.div_add_mod' space m
  have inRound := Nat.mod_lt space positive
  rw [Nat.succ_mul] at later
  omega

theorem FallsBehind.le {m request space : Nat} (behind : FallsBehind m request space) :
    request ≤ space := by
  obtain ⟨k, before, _, inside⟩ := behind
  have later : (k + 1) * m ≤ space / m * m := Nat.mul_le_mul_right m before
  have parts := Nat.div_add_mod' space m
  omega

/-- What a comparison of remainders lets through. -/
theorem mod_le_mod_iff_cases {m request space : Nat} (positive : 0 < m) :
    request % m ≤ space % m ↔
      ComesAround m request space ∨ request ≤ space ∧ ¬ FallsBehind m request space := by
  have exact := @mod_le_mod_iff m request space positive
  have around := @ComesAround.lt m request space positive
  have behind := @FallsBehind.le m request space
  rw [← Nat.not_le] at around
  tauto

end IceCap.Library
