import Mathlib.Algebra.Group.Nat.Defs
import Mathlib.Data.Set.Function

/-!
# Addresses of blocks and pages

The table indices of a virtual address, from the highest level down: three of
them make the address of a block of 2 MiB, four that of a page.  In `page_at` the
sum binds tighter than the shift, so that the index of the page becomes part of
the number of places to shift by.
-/

set_option autoImplicit false

namespace IceCap.Firmware

def levelSizeBits : Nat := 9

def pageSizeBits : Nat := 12
def pageSize : Nat := 1 <<< pageSizeBits

def blockSizeBits : Nat := pageSizeBits + levelSizeBits
def blockSize : Nat := 1 <<< blockSizeBits

def blockAt (a b c : Nat) : Nat :=
  a * (1 <<< (levelSizeBits * 2)) + b * (1 <<< (levelSizeBits * 1)) + c * (1 <<< (levelSizeBits * 0))

def pageAt (a b c d : Nat) : Nat := blockAt a b c <<< (levelSizeBits + d)

def vaddrAtBlock (a b c : Nat) : Nat := blockAt a b c <<< blockSizeBits

def vaddrAtPage (a b c d : Nat) : Nat := pageAt a b c d <<< pageSizeBits

/-- The address of the IPC buffer of a node of a VM. -/
def ipcBufferAddr (nodeIndex : Nat) : Nat := vaddrAtPage 4 0 0 nodeIndex

theorem blockSize_eq : blockSize = 2097152 := rfl

theorem pageSize_eq : pageSize = 4096 := rfl

theorem blockAt_eq (a b c : Nat) : blockAt a b c = a * 262144 + b * 512 + c := by
  simp [blockAt, levelSizeBits]

theorem vaddrAtBlock_eq (a b c : Nat) : vaddrAtBlock a b c = blockAt a b c * blockSize := by
  rw [vaddrAtBlock, Nat.shiftLeft_eq]
  rfl

/-- Every step of the page's index doubles the address. -/
theorem vaddrAtPage_eq (a b c d : Nat) : vaddrAtPage a b c d = vaddrAtBlock a b c * 2 ^ d := by
  rw [vaddrAtPage, pageAt, vaddrAtBlock, Nat.shiftLeft_eq, Nat.shiftLeft_eq, Nat.shiftLeft_eq,
    Nat.mul_assoc, Nat.mul_assoc, ← Nat.pow_add, ← Nat.pow_add]
  congr 2
  unfold blockSizeBits
  omega

/-- The indices of a page, each below the number of a table's entries. -/
structure PageIndex where
  a : Nat
  b : Nat
  c : Nat
  d : Nat
  aLess : a < 512
  bLess : b < 512
  cLess : c < 512
  dLess : d < 512

namespace PageIndex

def vaddr (page : PageIndex) : Nat := vaddrAtPage page.a page.b page.c page.d

def block (page : PageIndex) : Nat := vaddrAtBlock page.a page.b page.c

/-- The page is the `d`-th one of its block. -/
def Extends (page : PageIndex) : Prop := page.vaddr = page.block + page.d * pageSize

/-- The page lies in its block. -/
def Inside (page : PageIndex) : Prop :=
  page.block ≤ page.vaddr ∧ page.vaddr + pageSize ≤ page.block + blockSize

variable {page other : PageIndex}

theorem extends_iff : page.Extends ↔ page.d = 0 := by
  have less := page.dLess
  have isBlock := vaddrAtBlock_eq page.a page.b page.c
  unfold Extends vaddr
  rw [vaddrAtPage_eq, ← block]
  rw [← block, blockSize_eq] at isBlock
  rw [pageSize_eq]
  constructor
  · intro isSum
    by_contra positive
    have grows : page.block * 2 ≤ page.block * 2 ^ page.d :=
      Nat.mul_le_mul_left _ (Nat.le_self_pow positive 2)
    have isZero : page.block = 0 := by omega
    rw [isZero] at isSum
    omega
  · intro isFirst
    rw [isFirst]
    omega

theorem inside_of_extends (holds : page.Extends) : page.Inside := by
  have less := page.dLess
  unfold Extends at holds
  unfold Inside
  rw [holds, pageSize_eq, blockSize_eq]
  omega

/-- Pages that extend their blocks have an address of their own each. -/
theorem eq_of_vaddr (holds : page.Extends) (otherHolds : other.Extends)
    (same : page.vaddr = other.vaddr) : page = other := by
  unfold Extends at holds otherHolds
  rw [same, otherHolds, block, block, vaddrAtBlock_eq, vaddrAtBlock_eq, blockAt_eq, blockAt_eq,
    blockSize_eq, pageSize_eq] at holds
  obtain ⟨a, b, c, d, _, bLess, cLess, dLess⟩ := page
  obtain ⟨a', b', c', d', _, bLess', cLess', dLess'⟩ := other
  simp only at holds
  have sameD : d = d' := by omega
  have sameC : c = c' := by omega
  have sameB : b = b' := by omega
  have sameA : a = a' := by omega
  subst sameA sameB sameC sameD
  rfl

/-- The pages of some indices extend their blocks, lie in them and have addresses of their own
exactly if all of them are the first of their blocks. -/
theorem extends_pages_iff (pages : Set PageIndex) :
    ((∀ page ∈ pages, page.Extends ∧ page.Inside) ∧ Set.InjOn vaddr pages) ↔
      ∀ page ∈ pages, page.d = 0 := by
  constructor
  · intro holds page member
    exact extends_iff.mp (holds.1 page member).1
  · intro first
    have extends_ : ∀ page ∈ pages, page.Extends := fun page member =>
      extends_iff.mpr (first page member)
    exact ⟨fun page member => ⟨extends_ page member, inside_of_extends (extends_ page member)⟩,
      fun page member other isOther => eq_of_vaddr (extends_ page member) (extends_ other isOther)⟩

end PageIndex

/-- The IPC buffer of node 1 is at another block, and outside of the one of node 0. -/
theorem ipcBuffer_collides :
    ipcBufferAddr 1 = vaddrAtBlock 8 0 0 ∧ ipcBufferAddr 1 ≠ vaddrAtBlock 4 0 0 + 1 * pageSize ∧
      vaddrAtBlock 4 0 0 + blockSize ≤ ipcBufferAddr 1 := by
  decide

end IceCap.Firmware
