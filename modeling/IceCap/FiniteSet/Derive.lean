import Mathlib.Data.List.Induction
import Mathlib.Logic.Equiv.Defs
import IceCap.FiniteSet
import IceCap.Library.MixedRadix

/-!
# The derive macro of `finite-set`

`derive_finite_impl`, for a type with any number of variants and any number of
fields in each of them.  The numbering it gives is a bijection with the numbers
below the cardinality if the numberings of the fields' types are.
-/

set_option autoImplicit false

namespace IceCap.FiniteSet

open IceCap.Library

/-- What `test_exhaustively_and_slowly` tests: the numbers below the cardinality are the values. -/
structure Lawful (α : Type) [Finite α] : Prop where
  toNat_lt : ∀ x : α, Finite.toNat x < Finite.cardinality α
  fromNat_toNat : ∀ x : α, Finite.fromNat (Finite.toNat x) = some x
  toNat_fromNat : ∀ n < Finite.cardinality α, ∃ x : α, Finite.fromNat n = some x ∧ Finite.toNat x = n

/-- The type of a field. -/
structure Field where
  type : Type
  finite : Finite type

instance (field : Field) : Finite field.type := field.finite

def Field.cardinality (field : Field) : Nat := field.finite.cardinality

def Field.Lawful (field : Field) : Prop := FiniteSet.Lawful field.type

/-- The values of the fields of a variant. -/
def Values : List Field → Type
  | [] => Unit
  | field :: fields => field.type × Values fields

/-- A value of one of the variants. -/
def Value : List (List Field) → Type
  | [] => Empty
  | fields :: variants => Values fields ⊕ Value variants

/-- A type as the macro sees it. -/
structure Structure (α : Type) where
  variants : List (List Field)
  cases : α ≃ Value variants

/-! ## What the macro emits -/

def cardinalities (fields : List Field) : List Nat := fields.map Field.cardinality

/-- The fields with their cardinalities and numbers. -/
def numbers : (fields : List Field) → Values fields → List (Nat × Nat)
  | [], _ => []
  | field :: fields, (value, values) =>
      (field.cardinality, field.finite.toNat value) :: numbers fields values

/-- The arms of `to_nat`. -/
def toNatFrom (pastVariants : List (List Nat)) : (variants : List (List Field)) →
    Value variants → Nat
  | fields :: _, .inl values => toNatVariant pastVariants (numbers fields values)
  | fields :: variants, .inr value =>
      toNatFrom (pastVariants ++ [cardinalities fields]) variants value

/-- `variant.construct`, with a digit for each field. -/
def construct (m pastFields : Nat) : (fields : List Field) → Option (Values fields)
  | [] => some ()
  | field :: fields => do
      let value ← field.finite.fromNat (digit m pastFields field.cardinality)
      let values ← construct m (pastFields * field.cardinality) fields
      some (value, values)

def constructVariant (m : Nat) : (variants : List (List Field)) → Nat → Option (Value variants)
  | [], _ => none
  | fields :: _, 0 => (construct m 1 fields).map .inl
  | _ :: variants, i + 1 => (constructVariant m variants i).map .inr

/-- The branches of `from_nat`. -/
def fromNatFrom (variants : List (List Field)) (n : Nat) : Option (Value variants) :=
  (variantOf 0 (variants.map cardinalities) n).bind fun found =>
    constructVariant found.2 variants found.1

@[reducible] def deriveFiniteImpl {α : Type} (input : Structure α) : Finite α where
  cardinality := cardinalityOfStructure (input.variants.map cardinalities)
  toNat x := toNatFrom [] input.variants (input.cases x)
  fromNat n := (fromNatFrom input.variants n).map input.cases.symm

/-! ## Sums and products -/

theorem cardinalityOfVariant_eq (fields : List Nat) : cardinalityOfVariant fields = fields.prod := by
  rw [cardinalityOfVariant, List.prod_eq_foldl]

theorem cardinalityOfStructure_append (variants : List (List Nat)) (fields : List Nat) :
    cardinalityOfStructure (variants ++ [fields]) =
      cardinalityOfStructure variants + fields.prod := by
  simp [cardinalityOfStructure, cardinalityOfVariant_eq]

theorem cardinalityOfStructure_eq (variants : List (List Nat)) :
    cardinalityOfStructure variants = (variants.map List.prod).sum := by
  induction variants using List.reverseRecOn with
  | nil => rfl
  | append_singleton variants fields ih => simp [cardinalityOfStructure_append, ih]

/-! ## The numbering without the bounds of `usize` -/

theorem toNatFields_eq (pastFields : Nat) (fields : List (Nat × Nat)) :
    toNatFields pastFields fields =
      pastFields * MixedRadix.encode (fields.map Prod.fst) (fields.map Prod.snd) := by
  induction fields generalizing pastFields with
  | nil => rfl
  | cons field fields ih =>
      rw [toNatFields, ih, List.map_cons, List.map_cons, MixedRadix.encode, Nat.mul_add,
        Nat.mul_assoc]

def digits (fields : List Field) (values : Values fields) : List Nat :=
  (numbers fields values).map Prod.snd

theorem numbers_fst (fields : List Field) (values : Values fields) :
    (numbers fields values).map Prod.fst = cardinalities fields := by
  induction fields with
  | nil => rfl
  | cons field fields ih => exact congrArg (field.cardinality :: ·) (ih values.2)

def number : (variants : List (List Field)) → Value variants → Nat
  | fields :: _, .inl values => MixedRadix.encode (cardinalities fields) (digits fields values)
  | fields :: variants, .inr value => (cardinalities fields).prod + number variants value

theorem toNatFrom_eq (pastVariants : List (List Nat)) (variants : List (List Field))
    (value : Value variants) : toNatFrom pastVariants variants value =
      (cardinalityOfStructure pastVariants + number variants value) % 2 ^ 64 := by
  induction variants generalizing pastVariants with
  | nil => exact value.elim
  | cons fields variants ih =>
      cases value with
      | inl values =>
          rw [toNatFrom, toNatVariant, toNatFields_eq, numbers_fst, Nat.one_mul]
          rfl
      | inr value => rw [toNatFrom, ih, cardinalityOfStructure_append, number, Nat.add_assoc]

/-- `fromNatFrom`, one variant after the other. -/
def ofNumber : (variants : List (List Field)) → Nat → Option (Value variants)
  | [], _ => none
  | fields :: variants, n =>
      if n < (cardinalities fields).prod then (construct n 1 fields).map .inl
      else (ofNumber variants (n - (cardinalities fields).prod)).map .inr

theorem variantOf_bind (pastVariants : Nat) (variants : List (List Field)) {n : Nat}
    (past : pastVariants ≤ n) :
    ((variantOf pastVariants (variants.map cardinalities) n).bind fun found =>
      constructVariant found.2 variants found.1) = ofNumber variants (n - pastVariants) := by
  induction variants generalizing pastVariants with
  | nil => rfl
  | cons fields variants ih =>
      rw [List.map_cons, variantOf, ofNumber, cardinalityOfVariant_eq]
      by_cases here : n < pastVariants + (cardinalities fields).prod
      · rw [if_pos here, if_pos (by omega)]
        rfl
      · rw [if_neg here, if_neg (by omega), Nat.sub_sub, ← ih _ (by omega)]
        cases variantOf (pastVariants + (cardinalities fields).prod) (variants.map cardinalities) n
          with
        | none => rfl
        | some found => rfl

/-! ## The fields of a variant -/

/-- `construct`, from the digits. -/
def fromDigits : (fields : List Field) → List Nat → Option (Values fields)
  | [], _ => some ()
  | _ :: _, [] => none
  | field :: fields, digit :: digits => do
      let value ← field.finite.fromNat digit
      let values ← fromDigits fields digits
      some (value, values)

theorem construct_eq (m pastFields : Nat) (fields : List Field) :
    construct m pastFields fields =
      fromDigits fields (MixedRadix.decode (cardinalities fields) (m / pastFields)) := by
  induction fields generalizing pastFields with
  | nil => rfl
  | cons field fields ih =>
      rw [construct, ih, ← Nat.div_div_eq_div_mul]
      rfl

section Fields
variable {fields : List Field}

theorem digits_within (lawful : ∀ field ∈ fields, field.Lawful) (values : Values fields) :
    MixedRadix.Within (cardinalities fields) (digits fields values) := by
  induction fields with
  | nil => exact .nil
  | cons field fields ih =>
      have isLawful := lawful field List.mem_cons_self
      exact .cons (isLawful.toNat_lt values.1)
        (ih (fun other member => lawful other (List.mem_cons_of_mem _ member)) values.2)

theorem fromDigits_digits (lawful : ∀ field ∈ fields, field.Lawful) (values : Values fields) :
    fromDigits fields (digits fields values) = some values := by
  induction fields with
  | nil => rfl
  | cons field fields ih =>
      have isLawful := lawful field List.mem_cons_self
      have first : field.finite.fromNat (field.finite.toNat values.1) = some values.1 :=
        isLawful.fromNat_toNat values.1
      have rest := ih (fun other member => lawful other (List.mem_cons_of_mem _ member)) values.2
      change (do
        let value ← field.finite.fromNat (field.finite.toNat values.1)
        let values ← fromDigits fields (digits fields values.2)
        some (value, values) : Option (Values (field :: fields))) = some values
      rw [first, rest]
      rfl

theorem digits_fromDigits {given : List Nat} (lawful : ∀ field ∈ fields, field.Lawful)
    (within : MixedRadix.Within (cardinalities fields) given) :
    ∃ values, fromDigits fields given = some values ∧ digits fields values = given := by
  induction fields generalizing given with
  | nil =>
      cases within
      exact ⟨(), rfl, rfl⟩
  | cons field fields ih =>
      cases within with
      | @cons _ digit _ rest less within =>
          have isLawful := lawful field List.mem_cons_self
          obtain ⟨value, isValue, isDigit⟩ := isLawful.toNat_fromNat digit less
          obtain ⟨values, areValues, areDigits⟩ :=
            ih (fun other member => lawful other (List.mem_cons_of_mem _ member)) within
          refine ⟨(value, values), ?_, ?_⟩
          · rw [fromDigits, areValues]
            change (do
              let value ← field.finite.fromNat digit
              some (value, values) : Option (Values (field :: fields))) = _
            rw [show field.finite.fromNat digit = some value from isValue]
            rfl
          · change field.finite.toNat value :: digits fields values = digit :: rest
            rw [areDigits, show field.finite.toNat value = digit from isDigit]

end Fields

/-! ## The law -/

section Law
variable {variants : List (List Field)}

theorem number_lt (lawful : ∀ fields ∈ variants, ∀ field ∈ fields, field.Lawful)
    (value : Value variants) :
    number variants value < (variants.map fun fields => (cardinalities fields).prod).sum := by
  induction variants with
  | nil => exact value.elim
  | cons fields variants ih =>
      rw [List.map_cons, List.sum_cons]
      cases value with
      | inl values =>
          have less := MixedRadix.encode_lt
            (digits_within (lawful fields List.mem_cons_self) values)
          exact Nat.lt_add_right _ less
      | inr value =>
          have less := ih (fun other member => lawful other (List.mem_cons_of_mem _ member)) value
          exact Nat.add_lt_add_left less _

theorem ofNumber_number (lawful : ∀ fields ∈ variants, ∀ field ∈ fields, field.Lawful)
    (value : Value variants) : ofNumber variants (number variants value) = some value := by
  induction variants with
  | nil => exact value.elim
  | cons fields variants ih =>
      cases value with
      | inl values =>
          have isLawful := lawful fields List.mem_cons_self
          have within := digits_within isLawful values
          rw [number, ofNumber, if_pos (MixedRadix.encode_lt within), construct_eq, Nat.div_one,
            MixedRadix.decode_encode within, fromDigits_digits isLawful]
          rfl
      | inr value =>
          rw [number, ofNumber, if_neg (Nat.not_lt.mpr (Nat.le_add_right _ _)),
            Nat.add_sub_cancel_left,
            ih fun other member => lawful other (List.mem_cons_of_mem _ member)]
          rfl

theorem number_ofNumber (lawful : ∀ fields ∈ variants, ∀ field ∈ fields, field.Lawful) {n : Nat}
    (below : n < (variants.map fun fields => (cardinalities fields).prod).sum) :
    ∃ value, ofNumber variants n = some value ∧ number variants value = n := by
  induction variants generalizing n with
  | nil => simp at below
  | cons fields variants ih =>
      rw [List.map_cons, List.sum_cons] at below
      rw [ofNumber]
      by_cases here : n < (cardinalities fields).prod
      · obtain ⟨values, areValues, areDigits⟩ :=
          digits_fromDigits (lawful fields List.mem_cons_self) (MixedRadix.within_decode here)
        refine ⟨.inl values, ?_, ?_⟩
        · rw [if_pos here, construct_eq, Nat.div_one, areValues]
          rfl
        · rw [number, areDigits, MixedRadix.encode_decode here]
      · obtain ⟨value, isValue, isNumber⟩ :=
          ih (fun other member => lawful other (List.mem_cons_of_mem _ member))
            (show n - (cardinalities fields).prod < _ by omega)
        refine ⟨.inr value, ?_, ?_⟩
        · rw [if_neg here, isValue]
          rfl
        · rw [number, isNumber]
          omega

end Law

theorem deriveFiniteImpl_cardinality {α : Type} (input : Structure α) :
    (deriveFiniteImpl input).cardinality =
      (input.variants.map fun fields => (cardinalities fields).prod).sum := by
  change cardinalityOfStructure (input.variants.map cardinalities) = _
  rw [cardinalityOfStructure_eq, List.map_map]
  rfl

/-- What is derived is lawful, if the types of the fields are and the cardinality is a `usize`. -/
theorem deriveFiniteImpl_lawful {α : Type} (input : Structure α)
    (lawful : ∀ fields ∈ input.variants, ∀ field ∈ fields, field.Lawful)
    (fits : (deriveFiniteImpl input).cardinality < 2 ^ 64) :
    (deriveFiniteImpl input).cardinality =
        (input.variants.map fun fields => (fields.map Field.cardinality).prod).sum ∧
      @Lawful α (deriveFiniteImpl input) := by
  have isSum := deriveFiniteImpl_cardinality input
  have isNumber : ∀ x, (deriveFiniteImpl input).toNat x = number input.variants (input.cases x) := by
    intro x
    have less := number_lt lawful (input.cases x)
    change toNatFrom [] input.variants (input.cases x) = _
    rw [toNatFrom_eq]
    change (0 + _) % 2 ^ 64 = _
    rw [Nat.zero_add]
    rw [isSum] at fits
    exact Nat.mod_eq_of_lt (Nat.lt_trans less fits)
  have isOfNumber : ∀ n, (deriveFiniteImpl input).fromNat n =
      (ofNumber input.variants n).map input.cases.symm := by
    intro n
    change (fromNatFrom input.variants n).map _ = _
    rw [fromNatFrom, variantOf_bind 0 input.variants (Nat.zero_le n), Nat.sub_zero]
  refine ⟨isSum, @Lawful.mk α (deriveFiniteImpl input) ?_ ?_ ?_⟩
  · intro x
    rw [isNumber, isSum]
    exact number_lt lawful (input.cases x)
  · intro x
    rw [isNumber, isOfNumber, ofNumber_number lawful]
    exact congrArg some (input.cases.symm_apply_apply x)
  · intro n below
    rw [isSum] at below
    obtain ⟨value, isValue, sameNumber⟩ := number_ofNumber lawful below
    refine ⟨input.cases.symm value, ?_, ?_⟩
    · rw [isOfNumber, isValue]
      rfl
    · rw [isNumber, input.cases.apply_symm_apply, sameNumber]

/-! ## The types of the crate's test -/

inductive A where
  | x
  | y

inductive B where
  | x
  | y
  | z

inductive C where
  | x (a : A) (b : B)
  | y (a : A) (b : B)

def A.structure : Structure A where
  variants := [[], []]
  cases := {
    toFun := fun | .x => .inl () | .y => .inr (.inl ())
    invFun := fun | .inl () => .x | .inr (.inl ()) => .y
    left_inv := by rintro (_ | _) <;> rfl
    right_inv := by rintro (_ | _ | ⟨⟨⟩⟩) <;> rfl }

def B.structure : Structure B where
  variants := [[], [], []]
  cases := {
    toFun := fun | .x => .inl () | .y => .inr (.inl ()) | .z => .inr (.inr (.inl ()))
    invFun := fun | .inl () => .x | .inr (.inl ()) => .y | .inr (.inr (.inl ())) => .z
    left_inv := by rintro (_ | _ | _) <;> rfl
    right_inv := by rintro (_ | _ | _ | ⟨⟨⟩⟩) <;> rfl }

def A.field : Field := ⟨A, deriveFiniteImpl A.structure⟩

def B.field : Field := ⟨B, deriveFiniteImpl B.structure⟩

def C.structure : Structure C where
  variants := [[A.field, B.field], [A.field, B.field]]
  cases := {
    toFun := fun | .x a b => .inl (a, b, ()) | .y a b => .inr (.inl (a, b, ()))
    invFun := fun | .inl (a, b, ()) => .x a b | .inr (.inl (a, b, ())) => .y a b
    left_inv := by rintro (_ | _) <;> rfl
    right_inv := by rintro (_ | _ | ⟨⟨⟩⟩) <;> rfl }

theorem deriveFiniteImpl_lawful_c : (deriveFiniteImpl C.structure).cardinality = 12 ∧
    @Lawful C (deriveFiniteImpl C.structure) := by
  have a : A.field.Lawful := (deriveFiniteImpl_lawful A.structure (by simp [A.structure])
    (by decide)).2
  have b : B.field.Lawful := (deriveFiniteImpl_lawful B.structure (by simp [B.structure])
    (by decide)).2
  have c := deriveFiniteImpl_lawful C.structure (by simp [C.structure, a, b]) (by decide)
  exact ⟨c.1, c.2⟩

end IceCap.FiniteSet
