import Mathlib.Data.Prod.Lex
import Mathlib.Logic.Function.Basic
import IceCap.Biterate
import IceCap.Events.Server
import IceCap.Library.Fair
import IceCap.Sel4.Notification

/-!
# Bitfields

The way of an event to its client: `InSpace::signal` sets the bit of the event
and, if the bit was clear, signals the notification with the badge of the bit's
group; the client waits on the notification and clears the groups in the badge,
calling back for each bit.

Any number of signallers share the words with one receiver.  A step is one
atomic access to a word, one signal, one wait or one callback, so that anything
can happen between the `fetch_or` and the signal of a signaller and between the
wait and the last `swap` of the receiver.
-/

set_option autoImplicit false

namespace IceCap.Events

open IceCap.Library IceCap.Sel4

/-- The words of a bitfield, by group. -/
structure Bitfield where
  group : Nat → BitVec 64

namespace Bitfield

def groupBits : Nat := 64

def clear : Bitfield := ⟨fun _ => 0⟩

def set (bitfield : Bitfield) (bit : Nat) : Bool × Bitfield :=
  let groupIndex := bit / groupBits
  let memberIndex := bit % groupBits
  let member := 1#64 <<< memberIndex
  let old := bitfield.group groupIndex
  (old &&& member == 0, ⟨Function.update bitfield.group groupIndex (old ||| member)⟩)

/-- `self.group(group_index).swap(0, ..)`. -/
def swap (bitfield : Bitfield) (groupIndex : Nat) : BitVec 64 × Bitfield :=
  (bitfield.group groupIndex, ⟨Function.update bitfield.group groupIndex 0⟩)

def isSet (bitfield : Bitfield) (bit : Nat) : Bool :=
  (bitfield.group (bit / groupBits)).getLsbD (bit % groupBits)

theorem getLsbD_member {index other : Nat} (isIndex : other < 64) :
    (1#64 <<< index).getLsbD other = decide (other = index) := by
  by_cases same : other = index
  · subst same
    simp [isIndex]
  · by_cases below : other < index
    · simp [below, same]
    · have apart : ¬ other - index = 0 := by omega
      simp [isIndex, below, same, apart]

variable {bitfield : Bitfield} {bit other : Nat}

@[simp] theorem isSet_clear : clear.isSet bit = false := by
  simp [isSet, clear]

/-- `set` tells whether the bit was clear. -/
theorem set_fst : (bitfield.set bit).1 = !bitfield.isSet bit := by
  have inWord : bit % 64 < 64 := Nat.mod_lt _ (by decide)
  simp only [set, isSet, groupBits]
  cases isSet : (bitfield.group (bit / 64)).getLsbD (bit % 64) with
  | false =>
      rw [Bool.not_false, beq_iff_eq]
      apply BitVec.eq_of_getLsbD_eq
      intro index isIndex
      rw [BitVec.getLsbD_and, getLsbD_member isIndex]
      by_cases same : index = bit % 64
      · simp [same, isSet]
      · simp [same]
  | true =>
      rw [Bool.not_true, beq_eq_false_iff_ne]
      intro isZero
      have member := congrArg (fun word => word.getLsbD (bit % 64)) isZero
      simp only [BitVec.getLsbD_and, getLsbD_member inWord, isSet] at member
      simp at member

theorem isSet_set : (bitfield.set bit).2.isSet other = (bitfield.isSet other || other == bit) := by
  have inWord : other % 64 < 64 := Nat.mod_lt _ (by decide)
  simp only [set, isSet, groupBits]
  by_cases sameGroup : other / 64 = bit / 64
  · rw [sameGroup, Function.update_self, BitVec.getLsbD_or, getLsbD_member inWord]
    have same : other % 64 = bit % 64 ↔ other = bit := by omega
    simp only [same]
    rfl
  · have differs : other ≠ bit := fun same => sameGroup (by rw [same])
    rw [Function.update_of_ne sameGroup]
    simp [differs]

theorem isSet_swap {group : Nat} : (bitfield.swap group).2.isSet bit =
    (bitfield.isSet bit && decide (bit / groupBits ≠ group)) := by
  simp only [swap, isSet, groupBits]
  by_cases sameGroup : bit / 64 = group
  · simp [sameGroup]
  · simp [sameGroup, Function.update_of_ne]

/-- The bits that are called back for a group are the set bits of the group. -/
theorem mem_bits {group : Nat} (isGroup : bit / groupBits = group) :
    bit ∈ (biterate (bitfield.swap group).1).map (group * groupBits + ·) ↔
      bitfield.isSet bit = true := by
  subst isGroup
  rw [List.mem_map]
  simp only [mem_biterate, swap, isSet, groupBits]
  constructor
  · intro ⟨index, isSet, same⟩
    have isIndex : index < 64 := by
      by_contra outside
      rw [BitVec.getLsbD_of_ge _ _ (by omega)] at isSet
      exact Bool.noConfusion isSet
    rwa [show bit % 64 = index by omega]
  · intro isSet
    exact ⟨bit % 64, isSet, by omega⟩

end Bitfield

/-! ## The words of the event server -/

/-- The bitfield that begins at an address of the store. -/
def Store.bitfield {K : Type} (store : Store K) (address : Nat) : Bitfield :=
  ⟨fun group => (store.words[(address + 8 * group) % 2 ^ 64]?.getD 0).toBitVec⟩

/-- The word that `setBit` writes. -/
def Store.setWord {K : Type} (address index : Nat) (store : Store K) : Store K :=
  let word := (address + 8 * (index / 64)) % 2 ^ 64
  let new := store.words[word]?.getD 0 ||| 1 <<< UInt64.ofNat (index % 64)
  { store with words := store.words.insert word new }

theorem toBitVec_member {index : Nat} :
    (1 <<< UInt64.ofNat (index % 64) : UInt64).toBitVec = 1#64 <<< (index % 64) := by
  have inWord : index % 64 < 64 := Nat.mod_lt _ (by decide)
  simp [UInt64.toBitVec_shiftLeft]

theorem setBit_eq {K : Type} {store : Store K} {address index : Nat} (isBit : index < 2 ^ 32) :
    setBit address index store =
      .ok ((store.bitfield address).set index).1 (store.setWord address index) := by
  simp only [setBit, Nat.mod_eq_of_lt isBit, Bitfield.set, Store.bitfield, Bitfield.groupBits]
  congr 1
  rw [Bool.eq_iff_iff, beq_iff_eq, beq_iff_eq, ← UInt64.toBitVec_inj, UInt64.toBitVec_and,
    toBitVec_member]
  rfl

end IceCap.Events
