import Mathlib.Order.Lattice
import Mathlib.Order.Basic
import Mathlib.Data.List.Basic

/-!
# Maps as sorted lists

A map is the list of its entries, in the order of their keys.  What is inserted
behind all other keys is the last entry, so a map is rebuilt from its entries
by inserting them in order.
-/

set_option autoImplicit false

namespace IceCap.Library.SortedMap

variable {κ α : Type} [LinearOrder κ]

/-- An entry of the same key is replaced. -/
def insert (key : κ) (value : α) : List (κ × α) → List (κ × α)
  | [] => [(key, value)]
  | (other, old) :: rest =>
      if key < other then (key, value) :: (other, old) :: rest
      else if key = other then (key, value) :: rest
      else (other, old) :: insert key value rest

def get (key : κ) : List (κ × α) → Option α
  | [] => none
  | (other, value) :: rest => if key = other then some value else get key rest

def Ascending (entries : List (κ × α)) : Prop := entries.Pairwise fun first second => first.1 < second.1

theorem mem_insert {key : κ} {value : α} {entries : List (κ × α)} {entry : κ × α}
    (member : entry ∈ insert key value entries) : entry = (key, value) ∨ entry ∈ entries := by
  induction entries with
  | nil => exact .inl (List.mem_singleton.mp member)
  | cons first rest ih =>
      rw [insert] at member
      split at member
      · exact List.mem_cons.mp member
      · split at member
        · exact (List.mem_cons.mp member).imp_right (List.mem_cons_of_mem _)
        · cases List.mem_cons.mp member with
          | inl isFirst => exact .inr (isFirst ▸ List.mem_cons_self)
          | inr later => exact (ih later).imp_right (List.mem_cons_of_mem _)

theorem get_insert_self (key : κ) (value : α) (entries : List (κ × α)) :
    get key (insert key value entries) = some value := by
  induction entries with
  | nil => exact if_pos rfl
  | cons first rest ih =>
      rw [insert]
      split
      · exact if_pos rfl
      · split
        · exact if_pos rfl
        · next differs => exact (if_neg differs).trans ih

theorem get_insert_of_ne {key other : κ} (differs : other ≠ key) (value : α)
    (entries : List (κ × α)) : get other (insert key value entries) = get other entries := by
  induction entries with
  | nil => exact if_neg differs
  | cons first rest ih =>
      rw [insert]
      split
      · exact if_neg differs
      · split
        · next same =>
            obtain ⟨found, old⟩ := first
            obtain rfl : key = found := same
            rw [get, get, if_neg differs, if_neg differs]
        · rw [get, get, ih]

theorem mem_of_get {key : κ} {value : α} {entries : List (κ × α)}
    (found : get key entries = some value) : (key, value) ∈ entries := by
  induction entries with
  | nil => simp [get] at found
  | cons first rest ih =>
      obtain ⟨other, old⟩ := first
      rw [get] at found
      split at found
      · next same =>
          obtain rfl := Option.some.inj found
          exact same ▸ List.mem_cons_self
      · exact List.mem_cons_of_mem _ (ih found)

theorem Ascending.insert {entries : List (κ × α)} (ascending : Ascending entries) (key : κ)
    (value : α) : Ascending (insert key value entries) := by
  induction entries with
  | nil => exact List.pairwise_singleton _ _
  | cons first rest ih =>
      obtain ⟨least, ascending⟩ := List.pairwise_cons.mp ascending
      rw [SortedMap.insert]
      split
      · next smaller =>
          apply List.pairwise_cons.mpr
          refine ⟨?_, List.pairwise_cons.mpr ⟨least, ascending⟩⟩
          intro other member
          cases List.mem_cons.mp member with
          | inl isFirst => exact isFirst ▸ smaller
          | inr later => exact lt_trans smaller (least other later)
      · next notSmaller =>
          split
          · next same => exact List.pairwise_cons.mpr ⟨fun other later => same ▸ least other later, ascending⟩
          · next differs =>
              have larger := lt_of_le_of_ne (not_lt.mp notSmaller) (Ne.symm differs)
              apply List.pairwise_cons.mpr
              refine ⟨?_, ih ascending⟩
              intro other member
              cases mem_insert member with
              | inl isNew => exact isNew ▸ larger
              | inr later => exact least other later

theorem insert_last {key : κ} {value : α} {entries : List (κ × α)}
    (largest : ∀ entry ∈ entries, entry.1 < key) :
    insert key value entries = entries ++ [(key, value)] := by
  induction entries with
  | nil => rfl
  | cons first rest ih =>
      have isLarger := largest first List.mem_cons_self
      rw [insert, if_neg (not_lt.mpr (le_of_lt isLarger)), if_neg (ne_of_gt isLarger),
        ih fun entry member => largest entry (List.mem_cons_of_mem _ member)]
      rfl

end IceCap.Library.SortedMap
