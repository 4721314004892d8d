import Mathlib.Order.Lattice
import Mathlib.Order.Basic
import Mathlib.Data.List.Basic

/-!
# Vectors kept sorted by binary search

A binary search compares elements by a key.  When several elements have the
key that is looked for, it may find any of them, so `BinarySearch` is a search
together with what a caller may rely on.  What is inserted where the search
says leaves the vector sorted.
-/

set_option autoImplicit false

namespace IceCap.Library

variable {α κ : Type} [LinearOrder κ] {key : α → κ}

/-- Sorted by the keys. -/
def Ordered (key : α → κ) (items : List α) : Prop := items.Pairwise fun a b => key a ≤ key b

instance (items : List α) : Decidable (Ordered key items) := List.instDecidablePairwise items

/-- `binary_search`: the index of an element of the same key, or else the index at which one can
be inserted. -/
structure BinarySearch (key : α → κ) where
  search : List α → α → Except Nat Nat
  found : ∀ {items item index}, Ordered key items → search items item = .ok index →
    ∃ other, items[index]? = some other ∧ key other = key item
  missing : ∀ {items item index}, Ordered key items → search items item = .error index →
    index ≤ items.length ∧ (∀ other ∈ items.take index, key other < key item) ∧
      ∀ other ∈ items.drop index, key item < key other

namespace BinarySearch

/-- `binary_search(item).unwrap_or_else(|e| e)` -/
def position (binary : BinarySearch key) (items : List α) (item : α) : Nat :=
  match binary.search items item with
  | .ok index => index
  | .error index => index

variable {binary : BinarySearch key} {items : List α} {item : α}

theorem position_le (ordered : Ordered key items) : binary.position items item ≤ items.length := by
  unfold position
  cases result : binary.search items item with
  | ok index =>
      obtain ⟨other, isAt, _⟩ := binary.found ordered result
      exact Nat.le_of_lt (List.getElem?_eq_some_iff.mp isAt).1
  | error index => exact (binary.missing ordered result).1

theorem before_position (ordered : Ordered key items) :
    ∀ other ∈ items.take (binary.position items item), key other ≤ key item := by
  intro other member
  unfold position at member
  cases result : binary.search items item with
  | ok index =>
      rw [result] at member
      obtain ⟨same, isAt, sameKey⟩ := binary.found ordered result
      obtain ⟨bound, rfl⟩ := List.getElem?_eq_some_iff.mp isAt
      have split := (List.take_append_drop index items).symm
      rw [List.drop_eq_getElem_cons bound] at split
      have apart := List.pairwise_append.mp (split ▸ ordered)
      rw [← sameKey]
      apply apart.2.2 other member
      exact List.mem_cons_self
  | error index =>
      rw [result] at member
      exact le_of_lt ((binary.missing ordered result).2.1 other member)

theorem after_position (ordered : Ordered key items) :
    ∀ other ∈ items.drop (binary.position items item), key item ≤ key other := by
  intro other member
  unfold position at member
  cases result : binary.search items item with
  | ok index =>
      rw [result] at member
      obtain ⟨same, isAt, sameKey⟩ := binary.found ordered result
      obtain ⟨bound, rfl⟩ := List.getElem?_eq_some_iff.mp isAt
      have rest : Ordered key (items.drop index) := ordered.sublist (List.drop_sublist _ _)
      rw [List.drop_eq_getElem_cons bound] at member rest
      rw [← sameKey]
      cases List.mem_cons.mp member with
      | inl isSame => exact ge_of_eq (congrArg key isSame)
      | inr later => exact (List.pairwise_cons.mp rest).1 other later
  | error index =>
      rw [result] at member
      exact le_of_lt ((binary.missing ordered result).2.2 other member)

end BinarySearch

theorem ordered_cons {item : α} {items : List α} :
    Ordered key (item :: items) ↔
      (∀ other ∈ items, key item ≤ key other) ∧ Ordered key items := List.pairwise_cons

/-- `insert` at an index within the vector. -/
def insertAt (items : List α) (index : Nat) (item : α) : List α :=
  items.take index ++ item :: items.drop index

theorem insertAt_perm {items : List α} {index : Nat} {item : α} :
    (insertAt items index item).Perm (item :: items) := by
  calc insertAt items index item
    _ |>.Perm (item :: (items.take index ++ items.drop index)) := List.perm_middle
    _ = item :: items := by rw [List.take_append_drop]

theorem Ordered.insertAt {binary : BinarySearch key} {items : List α} {item : α}
    (ordered : Ordered key items) :
    Ordered key (insertAt items (binary.position items item) item) := by
  apply List.pairwise_append.mpr
  refine ⟨ordered.sublist (List.take_sublist _ _), ?_, ?_⟩
  · apply List.pairwise_cons.mpr
    exact ⟨binary.after_position ordered, ordered.sublist (List.drop_sublist _ _)⟩
  · intro first inFront last member
    have low := binary.before_position ordered first inFront
    cases List.mem_cons.mp member with
    | inl isItem => exact isItem ▸ low
    | inr behind => exact le_trans low (binary.after_position ordered last behind)

/-! ## A search that finds the first of the elements -/

def shift : Except Nat Nat → Except Nat Nat
  | .ok index => .ok (index + 1)
  | .error index => .error (index + 1)

def findFirst (key : α → κ) : List α → α → Except Nat Nat
  | [], _ => .error 0
  | other :: rest, item =>
      if key other < key item then shift (findFirst key rest item)
      else if key other = key item then .ok 0
      else .error 0

theorem findFirst_found {items : List α} {item : α} {index : Nat}
    (result : findFirst key items item = .ok index) :
    ∃ other, items[index]? = some other ∧ key other = key item := by
  induction items generalizing index with
  | nil => cases result
  | cons first rest ih =>
      unfold findFirst at result
      split at result
      · cases inRest : findFirst key rest item with
        | error other => simp [inRest, shift] at result
        | ok other =>
            rw [inRest] at result
            cases result
            exact ih inRest
      · split at result
        · next same =>
            cases result
            exact ⟨first, rfl, same⟩
        · cases result

theorem findFirst_missing {items : List α} {item : α} {index : Nat}
    (ordered : Ordered key items) (result : findFirst key items item = .error index) :
    index ≤ items.length ∧ (∀ other ∈ items.take index, key other < key item) ∧
      ∀ other ∈ items.drop index, key item < key other := by
  induction items generalizing index with
  | nil =>
      cases result
      simp
  | cons first rest ih =>
      obtain ⟨firstLeast, ordered⟩ := ordered_cons.mp ordered
      unfold findFirst at result
      split at result
      · next smaller =>
          cases inRest : findFirst key rest item with
          | ok other => simp [inRest, shift] at result
          | error other =>
              rw [inRest] at result
              cases result
              obtain ⟨bound, below, above⟩ := ih ordered inRest
              simp only [List.length_cons, List.take_succ_cons, List.drop_succ_cons]
              refine ⟨Nat.succ_le_succ bound, ?_, above⟩
              intro low member
              cases List.mem_cons.mp member with
              | inl isFirst => exact isFirst ▸ smaller
              | inr later => exact below low later
      · next notSmaller =>
          split at result
          · cases result
          · next differs =>
              cases result
              have strict := lt_of_le_of_ne (not_lt.mp notSmaller) (Ne.symm differs)
              refine ⟨Nat.zero_le _, by simp, ?_⟩
              intro high member
              cases List.mem_cons.mp member with
              | inl isFirst => exact isFirst ▸ strict
              | inr later => exact lt_of_lt_of_le strict (firstLeast high later)

def firstSearch (key : α → κ) : BinarySearch key where
  search := findFirst key
  found _ result := findFirst_found result
  missing := findFirst_missing

end IceCap.Library
