import IceCap.Library.LittleEndian

/-!
# Numbers of fixed widths

A record of numbers, each in its own number of big-endian bytes, one after the
other.  Each comes back up to what its field has room for.
-/

set_option autoImplicit false

namespace IceCap.Library

/-- Pairs of a width and a number. -/
def beFields (fields : List (Nat × Nat)) : List UInt8 :=
  fields.flatMap fun field => beBytes field.1 field.2

/-- The numbers, if the bytes are as many as their widths say. -/
def ofBeFields : List Nat → List UInt8 → Option (List Nat)
  | [], bytes => if bytes = [] then some [] else none
  | width :: widths, bytes =>
      if width ≤ bytes.length then
        (ofBeFields widths (bytes.drop width)).map (ofBeBytes (bytes.take width) :: ·)
      else none

theorem length_beFields (fields : List (Nat × Nat)) :
    (beFields fields).length = (fields.map Prod.fst).sum := by
  simp [beFields, List.length_flatMap]

theorem ofBeFields_beFields (fields : List (Nat × Nat)) :
    ofBeFields (fields.map Prod.fst) (beFields fields) =
      some (fields.map fun field => field.2 % 256 ^ field.1) := by
  induction fields with
  | nil => rfl
  | cons field fields ih =>
      have isFirst : (beFields (field :: fields)).take field.1 = beBytes field.1 field.2 := by
        rw [beFields, List.flatMap_cons, List.take_left' (length_beBytes _ _)]
      have areOthers : (beFields (field :: fields)).drop field.1 = beFields fields := by
        rw [beFields, List.flatMap_cons, List.drop_left' (length_beBytes _ _)]
        rfl
      have enough : field.1 ≤ (beFields (field :: fields)).length := by
        rw [length_beFields, List.map_cons, List.sum_cons]
        exact Nat.le_add_right _ _
      rw [List.map_cons, ofBeFields, if_pos enough, isFirst, areOthers, ih, ofBeBytes_beBytes]
      rfl

/-- Bytes that are read as so many numbers. -/
theorem ofBeFields_replicate (width : Nat) (numbers : List Nat) :
    ofBeFields (List.replicate numbers.length width)
        (numbers.flatMap fun number => beBytes width number) =
      some (numbers.map (· % 256 ^ width)) := by
  have comesBack := ofBeFields_beFields (numbers.map fun number => (width, number))
  simpa [beFields, List.flatMap_map, Function.comp_def, List.map_const'] using comesBack

end IceCap.Library
