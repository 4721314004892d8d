import Mathlib.Data.List.Basic

/-!
# Iterating over the bits of a word

`biterate`: `next` takes the lowest bit out of the word until none is left.  Each
step takes out one bit, so a word of width `w` gives at most `w` of them.
-/

set_option autoImplicit false

namespace IceCap

namespace Biterator

variable {w : Nat}

def next (set : BitVec w) : Option (Nat × BitVec w) :=
  if set = 0#w then none
  else
    let r := set.ctz.toNat
    some (r, set ^^^ (1#w <<< r))

def take (set : BitVec w) : Nat → List Nat
  | 0 => []
  | n + 1 =>
      match next set with
      | none => []
      | some (r, rest) => r :: take rest n

end Biterator

def biterate {w : Nat} (set : BitVec w) : List Nat := Biterator.take set w

namespace Biterator

variable {w : Nat} {set rest : BitVec w}

/-- The bit that `next` gives is the lowest one, and it is the only one missing afterwards. -/
theorem next_eq_some {r : Nat} (step : next set = some (r, rest)) :
    set.getLsbD r = true ∧ (∀ i < r, set.getLsbD i = false) ∧
      ∀ i, rest.getLsbD i = (set.getLsbD i && decide (i ≠ r)) := by
  unfold next at step
  split at step
  · simp at step
  · next nonzero =>
      obtain ⟨rfl, rfl⟩ := Prod.mk.inj (Option.some.inj step)
      have isSet := BitVec.getLsbD_true_ctz_of_ne_zero nonzero
      have inWidth : set.ctz.toNat < w := by
        by_contra outside
        rw [BitVec.getLsbD_of_ge _ _ (Nat.le_of_not_lt outside)] at isSet
        simp at isSet
      refine ⟨isSet, fun i below => BitVec.getLsbD_false_of_lt_ctz below, fun i => ?_⟩
      rw [BitVec.getLsbD_xor, BitVec.getLsbD_shiftLeft]
      by_cases same : i = set.ctz.toNat
      · have positive : 0 < w := by omega
        rw [same, isSet]
        simp [inWidth, positive]
      · by_cases less : i < set.ctz.toNat
        · simp [less, same]
        · have other : ¬ i - set.ctz.toNat = 0 := by omega
          simp [same, other]

theorem next_eq_none : next set = none ↔ set = 0#w := by
  unfold next
  split
  · next isZero => simp [isZero]
  · next nonzero => simp [nonzero]

/-- The bits below the one that was taken out stay clear, and it is clear too. -/
theorem next_rises {r low : Nat} (step : next set = some (r, rest))
    (below : ∀ i < low, set.getLsbD i = false) :
    low ≤ r ∧ ∀ i < r + 1, rest.getLsbD i = false := by
  obtain ⟨isSet, lowest, others⟩ := next_eq_some step
  constructor
  · by_contra less
    simp [below r (by omega)] at isSet
  · intro i less
    rw [others]
    by_cases same : i = r
    · simp [same]
    · simp [lowest i (by omega)]

theorem eq_zero_of_clear (clear : ∀ i < w, set.getLsbD i = false) : set = 0#w := by
  apply BitVec.eq_of_getLsbD_eq
  intro i less
  rw [clear i less, BitVec.getLsbD_zero]

theorem take_spec (n : Nat) :
    ∀ (low : Nat) (set : BitVec w), w ≤ low + n → (∀ i < low, set.getLsbD i = false) →
      (∀ i, i ∈ take set n ↔ set.getLsbD i = true) ∧ (take set n).Pairwise (· < ·) := by
  induction n with
  | zero =>
      intro low set enough below
      have isZero := eq_zero_of_clear fun i less => below i (by omega)
      subst isZero
      exact ⟨fun i => by simp [take], .nil⟩
  | succ n ih =>
      intro low set enough below
      unfold take
      cases step : next set with
      | none =>
          have isZero := next_eq_none.mp step
          subst isZero
          simp
      | some taken =>
          obtain ⟨r, rest⟩ := taken
          obtain ⟨isSet, lowest, others⟩ := next_eq_some step
          obtain ⟨above, clear⟩ := next_rises step below
          obtain ⟨members, sorted⟩ := ih (r + 1) rest (by omega) clear
          constructor
          · intro i
            rw [List.mem_cons, members, others]
            by_cases same : i = r
            · simp [same, isSet]
            · simp [same]
          · refine List.pairwise_cons.mpr ⟨fun i member => ?_, sorted⟩
            rw [members, others] at member
            by_contra notAbove
            by_cases same : i = r
            · simp [same] at member
            · simp [lowest i (by omega)] at member

/-- `next`, called again and again until it gives nothing. -/
inductive Gives : BitVec w → List Nat → Prop where
  | nothing {set : BitVec w} (step : next set = none) : Gives set []
  | item {set rest : BitVec w} {r : Nat} {items : List Nat} (step : next set = some (r, rest))
      (others : Gives rest items) : Gives set (r :: items)

theorem Gives.unique {items others : List Nat} (gives : Gives set items) (again : Gives set others) :
    items = others := by
  induction gives generalizing others with
  | nothing step =>
      cases again with
      | nothing => rfl
      | item other => rw [step] at other; cases other
  | item step _ ih =>
      cases again with
      | nothing other => rw [step] at other; cases other
      | item other further =>
          rw [step] at other
          cases other
          rw [ih further]

/-- As many calls as the word is wide are enough. -/
theorem gives_take (n : Nat) :
    ∀ (low : Nat) (set : BitVec w), w ≤ low + n → (∀ i < low, set.getLsbD i = false) →
      Gives set (take set n) := by
  induction n with
  | zero =>
      intro low set enough below
      apply Gives.nothing
      exact next_eq_none.mpr (eq_zero_of_clear fun i less => below i (by omega))
  | succ n ih =>
      intro low set enough below
      unfold take
      cases step : next set with
      | none => exact .nothing step
      | some taken =>
          obtain ⟨above, clear⟩ := next_rises step below
          exact .item step (ih (taken.1 + 1) taken.2 (by omega) clear)

end Biterator

/-- The items are the set bits, -/
theorem mem_biterate {w : Nat} {set : BitVec w} {i : Nat} :
    i ∈ biterate set ↔ set.getLsbD i = true :=
  (Biterator.take_spec w 0 set (by omega) (by simp)).1 i

/-- from the lowest one up. -/
theorem biterate_sorted {w : Nat} (set : BitVec w) : (biterate set).Pairwise (· < ·) :=
  (Biterator.take_spec w 0 set (by omega) (by simp)).2

theorem gives_biterate {w : Nat} (set : BitVec w) : Biterator.Gives set (biterate set) :=
  Biterator.gives_take w 0 set (by omega) (by simp)

/-- The first item is the lowest set bit. -/
theorem biterate_first {w : Nat} {set : BitVec w} {r : Nat} :
    (biterate set).head? = some r ↔
      set.getLsbD r = true ∧ ∀ i < r, set.getLsbD i = false := by
  constructor
  · intro isHead
    refine ⟨mem_biterate.mp (List.mem_of_head? isHead), fun i below => ?_⟩
    by_contra isSet
    have member := mem_biterate.mpr (Bool.not_eq_false _ ▸ isSet)
    obtain ⟨rest, isList⟩ := List.head?_eq_some_iff.mp isHead
    have sorted := biterate_sorted set
    rw [isList] at sorted member
    rcases List.mem_cons.mp member with same | later
    · omega
    · have above := (List.pairwise_cons.mp sorted).1 i later
      omega
  · rintro ⟨isSet, lowest⟩
    have member := mem_biterate.mpr isSet
    have sorted := biterate_sorted set
    cases isList : biterate set with
    | nil => simp [isList] at member
    | cons first rest =>
        have firstSet : set.getLsbD first = true := mem_biterate.mp (by simp [isList])
        rw [isList] at sorted member
        rcases List.mem_cons.mp member with same | later
        · rw [same, List.head?_cons]
        · have below := (List.pairwise_cons.mp sorted).1 r later
          simp [lowest first below] at firstSet

theorem biterate_eq_nil {w : Nat} {set : BitVec w} : biterate set = [] ↔ set = 0#w := by
  rw [List.eq_nil_iff_forall_not_mem]
  constructor
  · intro empty
    refine BitVec.eq_of_getLsbD_eq fun i _ => ?_
    have absent := empty i
    rw [mem_biterate] at absent
    simp [Bool.eq_false_iff.mpr absent]
  · rintro rfl i member
    simp [mem_biterate] at member

end IceCap
