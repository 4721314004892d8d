import Mathlib.Algebra.Group.Nat.Defs
import Mathlib.Logic.Basic

/-!
# Alignment and bits

Multiples of powers of two, seen from the bits of a number: `mod_lt_iff` says when
the bits from one place to another are clear.
-/

set_option autoImplicit false

namespace IceCap.Library

variable {n k low : Nat}

/-- The bits from `low` to below `k` are clear. -/
theorem mod_lt_iff : n % 2 ^ k < 2 ^ low ↔ ∀ i, low ≤ i → i < k → n.testBit i = false := by
  constructor
  · intro less i above below
    have isClear := Nat.testBit_lt_two_pow (Nat.lt_of_lt_of_le less
      (Nat.pow_le_pow_right (by decide) above))
    rwa [Nat.testBit_mod_two_pow, decide_eq_true below, Bool.true_and] at isClear
  · intro clear
    apply Nat.lt_pow_two_of_testBit
    intro i above
    rw [Nat.testBit_mod_two_pow]
    by_cases below : i < k
    · rw [clear i above below, Bool.and_false]
    · rw [decide_eq_false below, Bool.false_and]

theorem two_pow_dvd_iff : 2 ^ k ∣ n ↔ ∀ i < k, n.testBit i = false := by
  rw [Nat.dvd_iff_mod_eq_zero, ← Nat.lt_one_iff]
  exact mod_lt_iff.trans ⟨fun clear i => clear i (Nat.zero_le i), fun clear i _ => clear i⟩

/-- Clearing bits below `k`, `low` of them for certain, leaves a multiple of `2 ^ k` if the bits in
between were clear. -/
theorem two_pow_dvd_of_cleared {cleared : Nat}
    (below : ∀ i, i < low → cleared.testBit i = false)
    (above : ∀ i, low ≤ i → i < k → cleared.testBit i = n.testBit i) :
    2 ^ k ∣ cleared ↔ n % 2 ^ k < 2 ^ low := by
  rw [two_pow_dvd_iff, mod_lt_iff]
  constructor
  · intro clear i isAbove isBelow
    rw [← above i isAbove isBelow]
    exact clear i isBelow
  · intro clear i isBelow
    by_cases isLow : i < low
    · exact below i isLow
    · have isAbove : low ≤ i := Nat.le_of_not_lt isLow
      rw [above i isAbove isBelow]
      exact clear i isAbove isBelow

end IceCap.Library
