import Mathlib.Data.String.Basic
import IceCap.Library.LittleEndian
import IceCap.Library.Loop
import IceCap.Library.SortedMap

/-!
# Flattened device trees

The constants and the types of the device tree library, and the arithmetic of
its reader and its writer.  A map from names is the sorted list of its entries.
-/

set_option autoImplicit false

namespace IceCap.Fdt

open IceCap.Library

def magic : UInt32 := 0xd00dfeed
def headerSize : Nat := 10 * 4

def version : UInt32 := 17
def lastCompVersion : UInt32 := 16

def tokBeginNode : UInt32 := 1
def tokEndNode : UInt32 := 2
def tokProp : UInt32 := 3
def tokNop : UInt32 := 4
def tokEnd : UInt32 := 9

structure Header where
  magic : UInt32
  totalsize : UInt32
  offDtStruct : UInt32
  offDtStrings : UInt32
  offMemRsvmap : UInt32
  version : UInt32
  lastCompVersion : UInt32
  bootCpuidPhys : UInt32
  sizeDtStrings : UInt32
  sizeDtStruct : UInt32
  deriving DecidableEq, Repr

structure PropHeader where
  len : UInt32
  nameOff : UInt32
  deriving DecidableEq, Repr

structure ReserveEntry where
  address : UInt64
  size : UInt64
  deriving DecidableEq, Repr

structure Value where
  raw : List UInt8
  deriving DecidableEq, Repr

inductive Node where
  | mk (properties : List (String × Value)) (children : List (String × Node))

namespace Node

def properties : Node → List (String × Value)
  | mk properties _ => properties

def children : Node → List (String × Node)
  | mk _ children => children

/-- A property of the maps of a node and of every node below it. -/
inductive All (holds : List (String × Value) → List (String × Node) → Prop) : Node → Prop
  | mk {properties : List (String × Value)} {children : List (String × Node)}
      (here : holds properties children) (below : ∀ entry ∈ children, All holds entry.2) :
      All holds (.mk properties children)

/-- What a map is: its entries are in the order of their keys, with none of them twice. -/
def Ordered (node : Node) : Prop :=
  node.All fun properties children =>
    SortedMap.Ascending properties ∧ SortedMap.Ascending children

end Node

structure DeviceTree where
  memRsvmap : List ReserveEntry
  root : Node
  bootCpuidPhys : UInt32

/-- The source has one error.  `unfinished` is the end of a loop that has run out of the rounds it
is modelled with. -/
inductive Failure where
  | malformed
  | unfinished
  deriving DecidableEq, Repr

/-! ## Arithmetic -/

def usizeModulus : Nat := 2 ^ 64
def u32Modulus : Nat := 2 ^ 32

section Arithmetic
variable {ε σ : Type}

/-- A sum of words.  A build that checks for overflow panics, and the release profile wraps. -/
def add (checks : Bool) (modulus x y : Nat) : Exec ε σ Nat :=
  if x + y < modulus then pure (x + y)
  else if checks then Exec.panic
  else pure ((x + y) % modulus)

/-- `align_up`, where nothing overflows. -/
def alignedUp (x n : Nat) : Nat := if x = 0 then 0 else ((x - 1) ||| (n - 1)) + 1

def alignUp (checks : Bool) (x n : Nat) : Exec ε σ Nat :=
  if x = 0 then pure 0 else add checks usizeModulus ((x - 1) ||| (n - 1)) 1

variable {checks : Bool} {modulus x y : Nat}

theorem add_eq (less : x + y < modulus) : (add checks modulus x y : Exec ε σ Nat) = pure (x + y) :=
  if_pos less

/-- The lowest bits are set. -/
theorem or_two_pow_sub_one (x k : Nat) : x ||| (2 ^ k - 1) = 2 ^ k * (x / 2 ^ k) + (2 ^ k - 1) := by
  have positive := Nat.two_pow_pos k
  have small : x % 2 ^ k ||| (2 ^ k - 1) = 2 ^ k - 1 := by
    have below : x % 2 ^ k ||| (2 ^ k - 1) < 2 ^ k :=
      Nat.or_lt_two_pow (Nat.mod_lt x positive) (Nat.sub_lt positive Nat.one_pos)
    have above : 2 ^ k - 1 ≤ x % 2 ^ k ||| (2 ^ k - 1) := Nat.right_le_or
    omega
  calc x ||| (2 ^ k - 1)
    _ = 2 ^ k * (x / 2 ^ k) ||| x % 2 ^ k ||| (2 ^ k - 1) := by
      rw [← Nat.two_pow_add_eq_or_of_lt (Nat.mod_lt x positive), Nat.div_add_mod]
    _ = 2 ^ k * (x / 2 ^ k) ||| (2 ^ k - 1) := by rw [Nat.or_assoc, small]
    _ = 2 ^ k * (x / 2 ^ k) + (2 ^ k - 1) :=
      (Nat.two_pow_add_eq_or_of_lt (Nat.sub_lt positive Nat.one_pos) _).symm

/-- The next multiple. -/
def aligned (x k : Nat) : Nat := (x + (2 ^ k - 1)) / 2 ^ k * 2 ^ k

theorem le_aligned (x k : Nat) : x ≤ aligned x k := by
  have isSum := Nat.div_add_mod' (x + (2 ^ k - 1)) (2 ^ k)
  have inRound := Nat.mod_lt (x + (2 ^ k - 1)) (Nat.two_pow_pos k)
  unfold aligned
  omega

theorem aligned_lt (x k : Nat) : aligned x k < x + 2 ^ k := by
  have below := Nat.div_mul_le_self (x + (2 ^ k - 1)) (2 ^ k)
  have positive := Nat.two_pow_pos k
  unfold aligned
  omega

theorem alignedUp_eq (x k : Nat) : alignedUp x (2 ^ k) = aligned x k := by
  have positive := Nat.two_pow_pos k
  unfold alignedUp aligned
  split
  · next isZero =>
      rw [isZero, Nat.zero_add, Nat.div_eq_of_lt (Nat.sub_lt positive Nat.one_pos), Nat.zero_mul]
  · next notZero =>
      have isSum : x + (2 ^ k - 1) = x - 1 + 2 ^ k := by omega
      rw [isSum, Nat.add_div_right _ positive, or_two_pow_sub_one, Nat.succ_mul, Nat.mul_comm]
      omega

theorem alignUp_eq {k : Nat} (less : x + 2 ^ k ≤ usizeModulus) :
    (alignUp checks x (2 ^ k) : Exec ε σ Nat) = pure (aligned x k) := by
  have below := aligned_lt x k
  rw [← alignedUp_eq] at below ⊢
  unfold alignUp
  by_cases isZero : x = 0
  · rw [if_pos isZero, alignedUp, if_pos isZero]
  · rw [alignedUp, if_neg isZero] at below
    rw [if_neg isZero, alignedUp, if_neg isZero]
    exact add_eq (by omega)

end Arithmetic

/-! ## Slices -/

section Slices
variable {α : Type}

/-- `get(start..)`, which is `None` beyond the end. -/
def sliceFrom (buf : List α) (start : Nat) : Option (List α) :=
  if start ≤ buf.length then some (buf.drop start) else none

/-- `get(start..stop)`, which is `None` beyond the end and where the bounds are inverted. -/
def slice (buf : List α) (start stop : Nat) : Option (List α) :=
  if start ≤ stop ∧ stop ≤ buf.length then some ((buf.drop start).take (stop - start)) else none

end Slices

/-- `str::from_utf8` -/
def fromUtf8 (bytes : List UInt8) : Option String := String.fromUTF8? ⟨bytes.toArray⟩

theorem fromUtf8_size {bytes : List UInt8} {s : String} (isString : fromUtf8 bytes = some s) :
    s.utf8ByteSize = bytes.length := by
  unfold fromUtf8 String.fromUTF8? at isString
  split at isString
  · next valid =>
      cases isString
      exact List.size_toArray
  · cases isString

end IceCap.Fdt
