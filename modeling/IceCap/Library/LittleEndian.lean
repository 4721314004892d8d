import Mathlib.Algebra.Order.Ring.Nat

/-!
# Words as bytes

A number as a fixed number of bytes: little-endian, with the lowest one first,
and big-endian, with the highest one first.
-/

set_option autoImplicit false

namespace IceCap.Library

/-- The lowest bytes of a number. -/
def leBytes : Nat → Nat → List UInt8
  | 0, _ => []
  | width + 1, n => UInt8.ofNat n :: leBytes width (n / 256)

def ofLeBytes : List UInt8 → Nat
  | [] => 0
  | byte :: bytes => byte.toNat + 256 * ofLeBytes bytes

@[simp]
theorem length_leBytes (width n : Nat) : (leBytes width n).length = width := by
  induction width generalizing n with
  | zero => rfl
  | succ width ih => rw [leBytes, List.length_cons, ih]

theorem ofLeBytes_lt (bytes : List UInt8) : ofLeBytes bytes < 256 ^ bytes.length := by
  induction bytes with
  | nil => exact Nat.one_pos
  | cons byte bytes ih =>
      have small := byte.toNat_lt
      rw [ofLeBytes, List.length_cons, pow_succ]
      omega

theorem ofLeBytes_leBytes (width n : Nat) : ofLeBytes (leBytes width n) = n % 256 ^ width := by
  induction width generalizing n with
  | zero => rw [leBytes, ofLeBytes, pow_zero, Nat.mod_one]
  | succ width ih =>
      have lowest : (UInt8.ofNat n).toNat = n % 256 := UInt8.toNat_ofNat'
      rw [leBytes, ofLeBytes, ih, lowest, pow_succ, Nat.mul_comm (256 ^ width), Nat.mod_mul]

/-- What has no room is left out. -/
theorem leBytes_mod (width n : Nat) : leBytes width (n % 256 ^ width) = leBytes width n := by
  induction width generalizing n with
  | zero => rfl
  | succ width ih =>
      have lowest : UInt8.ofNat (n % 256 ^ (width + 1)) = UInt8.ofNat n := by
        apply UInt8.toNat_inj.mp
        have divides : 256 ∣ 256 ^ (width + 1) := ⟨256 ^ width, by rw [pow_succ, Nat.mul_comm]⟩
        rw [UInt8.toNat_ofNat', UInt8.toNat_ofNat']
        exact Nat.mod_mod_of_dvd n divides
      have higher : n % 256 ^ (width + 1) / 256 = n / 256 % 256 ^ width := by
        rw [pow_succ, Nat.mul_comm, Nat.mod_mul_right_div_self]
      rw [leBytes, leBytes, lowest, higher, ih]

/-! ## Big-endian -/

def beBytes (width n : Nat) : List UInt8 := (leBytes width n).reverse

def ofBeBytes (bytes : List UInt8) : Nat := ofLeBytes bytes.reverse

@[simp]
theorem length_beBytes (width n : Nat) : (beBytes width n).length = width := by
  rw [beBytes, List.length_reverse, length_leBytes]

theorem ofBeBytes_beBytes (width n : Nat) : ofBeBytes (beBytes width n) = n % 256 ^ width := by
  rw [ofBeBytes, beBytes, List.reverse_reverse, ofLeBytes_leBytes]

theorem beBytes_mod (width n : Nat) : beBytes width (n % 256 ^ width) = beBytes width n := by
  rw [beBytes, leBytes_mod, beBytes]

theorem ofBeBytes_lt (bytes : List UInt8) : ofBeBytes bytes < 256 ^ bytes.length := by
  have less := ofLeBytes_lt bytes.reverse
  rwa [List.length_reverse] at less

theorem ofLeBytes_eq_zero {bytes : List UInt8} :
    ofLeBytes bytes = 0 ↔ bytes = List.replicate bytes.length 0 := by
  induction bytes with
  | nil => simp [ofLeBytes]
  | cons byte bytes ih =>
      rw [ofLeBytes, List.length_cons, List.replicate_succ, List.cons.injEq, ← ih, Nat.add_eq_zero_iff]
      apply and_congr
      · exact UInt8.toNat_inj (b := 0)
      · omega

theorem ofBeBytes_eq_zero {bytes : List UInt8} :
    ofBeBytes bytes = 0 ↔ bytes = List.replicate bytes.length 0 := by
  rw [ofBeBytes, ofLeBytes_eq_zero, List.length_reverse, List.reverse_eq_iff, List.reverse_replicate]

end IceCap.Library
