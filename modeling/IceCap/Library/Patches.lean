import Mathlib.Data.List.Basic

/-!
# A memory that is written over

A memory gives the item at each address, and a patch is a stretch of items with the
address it is written to.  What a patch has put into the memory stays there as long
as the later ones that reach the same addresses agree with it.
-/

set_option autoImplicit false

namespace IceCap.Library

structure Patch (α : Type) where
  offset : Nat
  content : List α
  deriving DecidableEq, Repr

/-- What a memory holds from an address on. -/
def window {α : Type} (memory : Nat → α) (offset length : Nat) : List α :=
  (List.range length).map fun i => memory (offset + i)

namespace Patch

variable {α : Type} {patch other : Patch α} {memory : Nat → α} {address : Nat}

/-- What the patch has for an address. -/
def item (patch : Patch α) (address : Nat) : Option α :=
  if patch.offset ≤ address then patch.content[address - patch.offset]? else none

def apply (patch : Patch α) (memory : Nat → α) (address : Nat) : α :=
  (patch.item address).getD (memory address)

/-- Where both have something it is the same. -/
def Agrees (patch other : Patch α) : Prop :=
  ∀ address first second, patch.item address = some first → other.item address = some second →
    first = second

/-- The memory has what the patch has. -/
def In (patch : Patch α) (memory : Nat → α) : Prop :=
  ∀ address found, patch.item address = some found → memory address = found

theorem apply_in : patch.In (patch.apply memory) := by
  intro address found isItem
  rw [apply, isItem, Option.getD_some]

theorem In.apply (isIn : patch.In memory) (agrees : patch.Agrees other) :
    patch.In (other.apply memory) := by
  intro address found isItem
  rw [Patch.apply]
  cases isOther : other.item address with
  | none => exact isIn address found isItem
  | some second => exact (agrees address found second isItem isOther).symm

theorem In.window_eq (isIn : patch.In memory) :
    window memory patch.offset patch.content.length = patch.content := by
  apply List.ext_getElem
  · simp [window]
  · intro i _ inside
    have isItem : patch.item (patch.offset + i) = some patch.content[i] := by
      simp [item, inside]
    simpa [window] using isIn _ _ isItem

end Patch

end IceCap.Library
