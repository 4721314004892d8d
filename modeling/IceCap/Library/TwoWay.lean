import Mathlib.Logic.Function.Basic

/-!
# A relation kept in both directions

A program that has to find `b` from `a` and `a` from `b` stores the pair twice,
in a map `forward` and in a map `backward`.  `TwoWay live forward backward` says
that the two agree on every `b` that is `live`.  The rules below say which
updates of the two maps keep them in agreement.
-/

set_option autoImplicit false

namespace IceCap.Library

variable {α β : Type}

def TwoWay (live : β → Prop) (forward : α → Option β) (backward : β → Option α) : Prop :=
  ∀ a b, live b → (forward a = some b ↔ backward b = some a)

namespace TwoWay

variable {live live' : β → Prop} {forward : α → Option β} {backward : β → Option α}

theorem forward_injective (agree : TwoWay live forward backward) {first second : α} {b : β}
    (isLive : live b) (isFirst : forward first = some b) (isSecond : forward second = some b) :
    first = second := by
  have one := (agree first b isLive).mp isFirst
  have other := (agree second b isLive).mp isSecond
  exact Option.some.inj (one.symm.trans other)

theorem mono (agree : TwoWay live forward backward) (fewer : ∀ b, live' b → live b) :
    TwoWay live' forward backward :=
  fun a b isLive => agree a b (fewer b isLive)

/-- New places that nothing refers to. -/
theorem grow (agree : TwoWay live forward backward)
    (fresh : ∀ b, live' b → ¬ live b → backward b = none ∧ ∀ a, forward a ≠ some b) :
    TwoWay live' forward backward := by
  intro a b isLive
  by_cases old : live b
  · exact agree a b old
  · obtain ⟨isEmpty, unused⟩ := fresh b isLive old
    simp [isEmpty, unused a]

/-- A source that no live place refers to may be cut off on its own side only. -/
theorem cut [DecidableEq α] (agree : TwoWay live forward backward) {a : α}
    (unused : ∀ b, live b → backward b ≠ some a) :
    TwoWay live (Function.update forward a none) backward := by
  intro a' b isLive
  by_cases same : a' = a
  · subst same
    simp [unused b isLive]
  · simpa [same] using agree a' b isLive

section Update
variable [DecidableEq α] [DecidableEq β]

theorem link (agree : TwoWay live forward backward) {a : α} {b : β} (freeSource : forward a = none)
    (freePlace : backward b = none) :
    TwoWay live (Function.update forward a (some b)) (Function.update backward b (some a)) := by
  intro a' b' isLive
  have before := agree a' b' isLive
  by_cases sameSource : a' = a
  · subst sameSource
    by_cases samePlace : b' = b
    · subst samePlace
      simp
    · rw [freeSource] at before
      simp only [Function.update_self, Function.update_of_ne samePlace, ← before]
      simp [Ne.symm samePlace]
  · by_cases samePlace : b' = b
    · subst samePlace
      rw [freePlace] at before
      simp only [Function.update_self, Function.update_of_ne sameSource, before]
      simp [Ne.symm sameSource]
    · simpa [sameSource, samePlace] using before

theorem unlink (agree : TwoWay live forward backward) {a : α} {b : β}
    (linked : forward a = some b) :
    TwoWay live (Function.update forward a none) (Function.update backward b none) := by
  intro a' b' isLive
  have before := agree a' b' isLive
  by_cases sameSource : a' = a
  · subst sameSource
    by_cases samePlace : b' = b
    · simp [samePlace]
    · rw [linked] at before
      simp only [Function.update_self, Function.update_of_ne samePlace, ← before]
      simp [Ne.symm samePlace]
  · by_cases samePlace : b' = b
    · subst samePlace
      have isFirst := (agree a b' isLive).mp linked
      rw [isFirst] at before
      simp only [Function.update_self, Function.update_of_ne sameSource, before]
      simp [Ne.symm sameSource]
    · simpa [sameSource, samePlace] using before

/-- What is linked to one place is linked to a free one instead. -/
theorem relink (agree : TwoWay live forward backward) {a : α} {source target : β}
    (isLive : live source) (linked : backward source = some a) (isFree : backward target = none) :
    TwoWay live (Function.update forward a (some target))
      (Function.update (Function.update backward source none) target (some a)) := by
  have isForward : forward a = some source := (agree a source isLive).mpr linked
  have apart : target ≠ source := by
    rintro rfl
    simp [isFree] at linked
  have moved := (agree.unlink isForward).link (a := a) (b := target) (by simp)
    (by simp [apart, isFree])
  simpa using moved

end Update

end TwoWay

end IceCap.Library
