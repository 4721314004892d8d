import Mathlib.Data.Nat.Notation

/-!
# Notifications

A notification object of the kernel holds the badges signalled since the last
wait, all in one word.  A wait on an empty one blocks.
-/

set_option autoImplicit false

namespace IceCap.Sel4

abbrev Badge := BitVec 64

structure Notification where
  pending : Option Badge
  deriving DecidableEq, Repr

namespace Notification

def empty : Notification := ⟨none⟩

/-- A signal before the last one has been waited for adds its badge to the word. -/
def signal (nfn : Notification) (badge : Badge) : Notification :=
  ⟨some (nfn.pending.getD 0 ||| badge)⟩

/-- The badges and the empty notification, or `none` for a wait that blocks. -/
def wait (nfn : Notification) : Option (Badge × Notification) :=
  nfn.pending.map fun badge => (badge, empty)

theorem wait_eq_some {nfn next : Notification} {badge : Badge} :
    nfn.wait = some (badge, next) ↔ nfn.pending = some badge ∧ next = empty := by
  unfold wait
  cases nfn.pending with
  | none => simp
  | some old => simp [eq_comm]

end Notification

end IceCap.Sel4
