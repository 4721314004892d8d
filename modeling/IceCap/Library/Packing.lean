import Mathlib.Algebra.Order.Ring.Nat
import Mathlib.Algebra.BigOperators.Group.List.Basic

/-!
# Greedy packing

Items of different sizes go into packets that hold so much each.  An item that
does not fit into the packet at hand closes it and opens the next one.  The
packets in their order have the items in theirs, and none holds too much as long
as every single item fits into a packet.
-/

set_option autoImplicit false

namespace IceCap.Library

variable {Item : Type}

/-- The packets that are closed, and the one at hand when the items are used up. -/
def pack (limit : Nat) (size : Item → Nat) :
    List Item → List Item → List (List Item) × List Item
  | packet, [] => ([], packet)
  | packet, item :: items =>
      if limit < (packet.map size).sum + size item then
        let rest := pack limit size [item] items
        (packet :: rest.1, rest.2)
      else pack limit size (packet ++ [item]) items

variable {limit : Nat} {size : Item → Nat} {packet items : List Item}

theorem pack_nil : pack limit size packet [] = ([], packet) := rfl

theorem pack_full {item : Item} (full : limit < (packet.map size).sum + size item) :
    pack limit size packet (item :: items) =
      (packet :: (pack limit size [item] items).1, (pack limit size [item] items).2) :=
  if_pos full

theorem pack_fits {item : Item} (fits : (packet.map size).sum + size item ≤ limit) :
    pack limit size packet (item :: items) = pack limit size (packet ++ [item]) items :=
  if_neg (Nat.not_lt.mpr fits)

/-- The packets have the items in order. -/
theorem pack_flatten :
    (pack limit size packet items).1.flatten ++ (pack limit size packet items).2 =
      packet ++ items := by
  induction items generalizing packet with
  | nil => simp [pack_nil]
  | cons item items ih =>
      by_cases fits : (packet.map size).sum + size item ≤ limit
      · rw [pack_fits fits, ih, List.append_assoc, List.singleton_append]
      · rw [pack_full (Nat.lt_of_not_le fits), List.flatten_cons, List.append_assoc, ih,
          List.singleton_append]

/-- No packet holds more than the limit. -/
theorem pack_bounded (small : (packet.map size).sum ≤ limit)
    (each : ∀ item ∈ items, size item ≤ limit) :
    (∀ closed ∈ (pack limit size packet items).1, (closed.map size).sum ≤ limit) ∧
      ((pack limit size packet items).2.map size).sum ≤ limit := by
  induction items generalizing packet with
  | nil => exact ⟨by simp [pack_nil], small⟩
  | cons item items ih =>
      obtain ⟨itemFits, each⟩ := List.forall_mem_cons.mp each
      by_cases fits : (packet.map size).sum + size item ≤ limit
      · rw [pack_fits fits]
        apply ih _ each
        simpa using fits
      · rw [pack_full (Nat.lt_of_not_le fits)]
        obtain ⟨closedBounded, lastBounded⟩ := @ih [item] (by simpa using itemFits) each
        exact ⟨List.forall_mem_cons.mpr ⟨small, closedBounded⟩, lastBounded⟩

end IceCap.Library
