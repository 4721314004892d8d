import Mathlib.Algebra.Order.Ring.Nat
import Mathlib.Algebra.BigOperators.Group.List.Basic
import Mathlib.Data.List.Forall2

/-!
# Numbers in mixed radix

A number is written with a digit for each radix of a list, the first digit the
least significant.  `encode` and `decode` go from the digits that are below
their radices to the numbers below the product of the radices, and back.
-/

set_option autoImplicit false

namespace IceCap.Library.MixedRadix

def encode : List Nat → List Nat → Nat
  | radix :: radices, digit :: digits => digit + radix * encode radices digits
  | _, _ => 0

def decode : List Nat → Nat → List Nat
  | [], _ => []
  | radix :: radices, n => n % radix :: decode radices (n / radix)

/-- Every digit is below its radix. -/
def Within (radices digits : List Nat) : Prop := List.Forall₂ (fun radix digit => digit < radix) radices digits

variable {radices digits : List Nat} {n : Nat}

theorem encode_lt (within : Within radices digits) : encode radices digits < radices.prod := by
  induction within with
  | nil => simp [encode]
  | @cons radix digit radices digits less within ih =>
      rw [encode, List.prod_cons]
      calc digit + radix * encode radices digits
          < radix + radix * encode radices digits := by omega
        _ = radix * (encode radices digits + 1) := by rw [Nat.mul_add, Nat.mul_one, Nat.add_comm]
        _ ≤ radix * radices.prod := Nat.mul_le_mul_left radix ih

theorem decode_encode (within : Within radices digits) :
    decode radices (encode radices digits) = digits := by
  induction within with
  | nil => rfl
  | @cons radix digit radices digits less within ih =>
      have positive : 0 < radix := Nat.zero_lt_of_lt less
      rw [encode, decode, Nat.add_mul_mod_self_left, Nat.mod_eq_of_lt less,
        Nat.add_mul_div_left _ _ positive, Nat.div_eq_of_lt less, Nat.zero_add, ih]

theorem within_decode (below : n < radices.prod) : Within radices (decode radices n) := by
  induction radices generalizing n with
  | nil => exact .nil
  | cons radix radices ih =>
      rw [List.prod_cons] at below
      have positive : 0 < radix := Nat.pos_of_mul_pos_right (Nat.zero_lt_of_lt below)
      exact .cons (Nat.mod_lt n positive) (ih (Nat.div_lt_of_lt_mul below))

theorem encode_decode (below : n < radices.prod) : encode radices (decode radices n) = n := by
  induction radices generalizing n with
  | nil =>
      rw [List.prod_nil] at below
      simp [encode]
      omega
  | cons radix radices ih =>
      rw [List.prod_cons] at below
      rw [decode, encode, ih (Nat.div_lt_of_lt_mul below)]
      exact Nat.mod_add_div n radix

end IceCap.Library.MixedRadix
