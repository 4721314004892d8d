import Mathlib.Data.Nat.Notation
import Mathlib.Algebra.Group.Nat.Defs

/-!
# Finite types with a numbering

The trait of `finite-set` and the arithmetic of its derive macro.  A type with
several variants numbers the variants one after the other; the fields of a
variant are the digits of a number in mixed radix, the first field least
significant.  All of it is `usize` arithmetic.
-/

set_option autoImplicit false

namespace IceCap.FiniteSet

class Finite (α : Type) where
  cardinality : Nat
  toNat : α → Nat
  /-- Numbers out of bounds panic. -/
  fromNat : Nat → Option α

/-- `cardinality_of_variant`, from the cardinalities of the fields. -/
def cardinalityOfVariant (fields : List Nat) : Nat := fields.foldl (· * ·) 1

/-- `cardinality_of_structure`, from the fields of each variant. -/
def cardinalityOfStructure (variants : List (List Nat)) : Nat :=
  variants.foldl (fun sum fields => sum + cardinalityOfVariant fields) 0

/-- The digits of a variant's fields, given as pairs of a cardinality and a number. -/
def toNatFields : Nat → List (Nat × Nat) → Nat
  | _, [] => 0
  | pastFields, (cardinality, number) :: rest =>
      pastFields * number + toNatFields (pastFields * cardinality) rest

/-- The derived `to_nat` of a value of the variant that follows `pastVariants`. -/
def toNatVariant (pastVariants : List (List Nat)) (fields : List (Nat × Nat)) : Nat :=
  (cardinalityOfStructure pastVariants + toNatFields 1 fields) % 2 ^ 64

/-- The branches of the derived `from_nat`: the variant a number falls in, and what is left. -/
def variantOf : Nat → List (List Nat) → Nat → Option (Nat × Nat)
  | _, [], _ => none
  | pastVariants, fields :: variants, n =>
      if n < pastVariants + cardinalityOfVariant fields then some (0, n - pastVariants)
      else (variantOf (pastVariants + cardinalityOfVariant fields) variants n).map
        fun found => (found.1 + 1, found.2)

/-- The digit of one field. -/
def digit (m pastFields cardinality : Nat) : Nat := m / pastFields % cardinality

end IceCap.FiniteSet
