import Mathlib.Data.List.Basic
import IceCap.Sel4

/-!
# Slots of a CNode

`Set` of `cregion/set.rs` and `CRegion` of `cregion/mod.rs`.  A slot of the map
is free (`false`) or used (`true`).  The panics of `deposit` and `withdraw` are
the outer `none`.
-/

set_option autoImplicit false

namespace IceCap.Dyndl

open IceCap.Library IceCap.Sel4

abbrev Slot := Nat

structure SlotSet where
  elements : Std.TreeMap Nat Bool

namespace SlotSet

def new : SlotSet := ⟨∅⟩

/-- One round of the loop of `deposit`. -/
def depositKey (set : SlotSet) (key : Nat) : Option SlotSet :=
  if set.elements[key]? = some false then none
  else some ⟨set.elements.insert key false⟩

def depositAll : List Nat → SlotSet → Option SlotSet
  | [], set => some set
  | key :: keys, set => (set.depositKey key).bind (depositAll keys)

/-- `deposit(low..high)`. -/
def deposit (set : SlotSet) (low high : Nat) : Option SlotSet :=
  depositAll (List.range' low (high - low)) set

/-- The locals of `withdraw`'s search. -/
structure Search where
  numFound : Nat
  low : Nat
  high : Nat
  buildingRange : Bool
  foundRange : Bool
  deriving DecidableEq, Repr

def Search.start : Search := ⟨0, 0, 0, false, false⟩

def search (n : Nat) : List (Nat × Bool) → Search → Search
  | [], locals => locals
  | (key, used) :: rest, locals =>
      if used = false then
        let building := if locals.buildingRange = false
          then { locals with buildingRange := true, low := key } else locals
        let counted := { building with numFound := building.numFound + 1 }
        if counted.numFound = n then { counted with high := key, foundRange := true }
        else search n rest counted
      else search n rest { locals with numFound := 0, low := 0, high := 0, buildingRange := false }

def useKey (set : SlotSet) (key : Nat) : Option SlotSet :=
  if set.elements[key]? = some true then none
  else some ⟨set.elements.insert key true⟩

def useAll : List Nat → SlotSet → Option SlotSet
  | [], set => some set
  | key :: keys, set => (set.useKey key).bind (useAll keys)

/-- The range `low..high` is returned as the pair of its bounds. -/
def withdraw (set : SlotSet) (n : Nat) : Option (Option (Nat × Nat) × SlotSet) :=
  let found := search n set.elements.toList .start
  if found.foundRange then
    (useAll (List.range' found.low (found.high + 1 - found.low)) set).map
      fun used => (some (found.low, found.high + 1), used)
  else some (none, set)

end SlotSet

structure CRegion where
  root : RelativeCPtr
  guardValue : UInt64
  guardSize : UInt64
  radix : Nat
  set : SlotSet

namespace CRegion

/-- `0..1 << radix`; the shift count of a 64-bit word is taken modulo 64. -/
def new (root : RelativeCPtr) (guardValue guardSize : UInt64) (radix : Nat) : Option CRegion :=
  (SlotSet.new.deposit 0 (2 ^ (radix % 64))).map fun set => ⟨root, guardValue, guardSize, radix, set⟩

def alloc (cregion : CRegion) : Option (Option Slot × CRegion) :=
  (cregion.set.withdraw 1).map fun result =>
    (result.1.map Prod.fst, { cregion with set := result.2 })

def free (cregion : CRegion) (slot : Slot) : Option CRegion :=
  (cregion.set.deposit slot (slot + 1)).map fun set => { cregion with set := set }

def cptrWithDepth (cregion : CRegion) (slot : Slot) : CPtrWithDepth :=
  let guarded := (cregion.root.path.cptr <<< cregion.guardSize) ||| cregion.guardValue
  ⟨(guarded <<< UInt64.ofNat cregion.radix) ||| UInt64.ofNat slot,
    cregion.root.path.depth + cregion.guardSize.toNat + cregion.radix⟩

def context (cregion : CRegion) : CPtr := cregion.root.root

def relativeCPtr (cregion : CRegion) (slot : Slot) : RelativeCPtr :=
  ⟨cregion.context, cregion.cptrWithDepth slot⟩

/-- The slot is in the map and marked used. -/
def Used (cregion : CRegion) (slot : Slot) : Prop := cregion.set.elements[slot]? = some true

/-- The slot is in the map and not marked used. -/
def Free (cregion : CRegion) (slot : Slot) : Prop := cregion.set.elements[slot]? = some false

/-! ## The two operations on single slots -/

private theorem search_one (entries : List (Nat × Bool)) :
    (∃ key, (key, false) ∈ entries ∧ SlotSet.search 1 entries .start = ⟨1, key, key, true, true⟩) ∨
      (SlotSet.search 1 entries .start = .start ∧ ∀ key, (key, false) ∉ entries) := by
  induction entries with
  | nil => exact Or.inr ⟨rfl, by simp⟩
  | cons entry rest ih =>
      obtain ⟨key, used⟩ := entry
      cases used with
      | false => exact Or.inl ⟨key, by simp, rfl⟩
      | true =>
          rcases ih with ⟨found, member, result⟩ | ⟨result, none⟩
          · exact Or.inl ⟨found, by simp [member], result⟩
          · exact Or.inr ⟨result, by simpa using none⟩

theorem withdraw_one {set final : SlotSet} {answer : Option (Nat × Nat)}
    (run : set.withdraw 1 = some (answer, final)) :
    (∃ key, set.elements[key]? = some false ∧ answer = some (key, key + 1) ∧
      final = ⟨set.elements.insert key true⟩) ∨ (answer = none ∧ final = set) := by
  rcases search_one set.elements.toList with ⟨key, member, result⟩ | ⟨result, _⟩
  · have isFree : set.elements[key]? = some false :=
      Std.TreeMap.mem_toList_iff_getElem?_eq_some.mp member
    refine Or.inl ⟨key, isFree, ?_⟩
    simp [SlotSet.withdraw, result, SlotSet.useAll, SlotSet.useKey, isFree] at run
    exact ⟨run.1.symm, run.2.symm⟩
  · refine Or.inr ?_
    rw [SlotSet.withdraw, result] at run
    simp [SlotSet.Search.start] at run
    exact ⟨run.1.symm, run.2.symm⟩

/-- A slot that `alloc` hands out was free, and is the only one to change. -/
theorem alloc_spec {cregion final : CRegion} {slot : Slot}
    (run : cregion.alloc = some (some slot, final)) :
    cregion.Free slot ∧
      final = { cregion with set := ⟨cregion.set.elements.insert slot true⟩ } := by
  simp only [alloc, Option.map_eq_some_iff, Prod.mk.injEq] at run
  obtain ⟨⟨answer, set⟩, withdrawn, answered, updated⟩ := run
  rcases withdraw_one withdrawn with ⟨key, isFree, found, changed⟩ | ⟨missing, _⟩
  · have same : key = slot := by simpa [found] using answered
    subst same changed
    exact ⟨isFree, updated.symm⟩
  · simp [missing] at answered

/-- Where there is a free slot, `alloc` hands one out. -/
theorem alloc_of_free {cregion : CRegion} {slot : Slot} (isFree : cregion.Free slot) :
    ∃ found final, cregion.alloc = some (some found, final) := by
  rcases search_one cregion.set.elements.toList with ⟨key, member, result⟩ | ⟨_, none⟩
  · have keyFree : cregion.set.elements[key]? = some false :=
      Std.TreeMap.mem_toList_iff_getElem?_eq_some.mp member
    refine ⟨key, { cregion with set := ⟨cregion.set.elements.insert key true⟩ }, ?_⟩
    simp [alloc, SlotSet.withdraw, result, SlotSet.useAll, SlotSet.useKey, keyFree]
  · exact absurd (Std.TreeMap.mem_toList_iff_getElem?_eq_some.mpr isFree) (none slot)

/-- At least so many slots are free. -/
def HasFree (cregion : CRegion) (n : Nat) : Prop :=
  ∃ slots : List Slot, slots.Nodup ∧ slots.length = n ∧ ∀ slot ∈ slots, cregion.Free slot

theorem HasFree.mono {cregion : CRegion} {n m : Nat} (hasFree : cregion.HasFree n) (less : m ≤ n) :
    cregion.HasFree m := by
  obtain ⟨slots, distinct, isLength, areFree⟩ := hasFree
  refine ⟨slots.take m, (List.take_sublist m slots).nodup distinct, ?_, fun slot member =>
    areFree slot (List.mem_of_mem_take member)⟩
  rw [List.length_take]
  omega

/-- Handing out a slot leaves all others. -/
theorem HasFree.alloc {cregion : CRegion} {n : Nat} (hasFree : cregion.HasFree (n + 1)) :
    ∃ slot final, cregion.alloc = some (some slot, final) ∧ final.HasFree n := by
  obtain ⟨slots, distinct, isLength, areFree⟩ := hasFree
  obtain ⟨first, isFirst⟩ := List.exists_mem_of_length_pos (by omega : 0 < slots.length)
  obtain ⟨slot, final, allocated⟩ := alloc_of_free (areFree first isFirst)
  refine ⟨slot, final, allocated, ?_⟩
  have others : final.HasFree (slots.erase slot).length := by
    refine ⟨slots.erase slot, distinct.erase slot, rfl, fun other member => ?_⟩
    obtain ⟨differs, wasFree⟩ := (List.Nodup.mem_erase_iff distinct).mp member
    rw [(alloc_spec allocated).2, Free, Std.TreeMap.getElem?_insert]
    rw [if_neg (by simpa using Ne.symm differs)]
    exact areFree other wasFree
  refine others.mono ?_
  rw [List.length_erase]
  split <;> omega

/-- A used slot can be given back. -/
theorem free_of_used {cregion : CRegion} {slot : Slot} (used : cregion.Used slot) :
    cregion.free slot =
      some { cregion with set := ⟨cregion.set.elements.insert slot false⟩ } := by
  have found : cregion.set.elements[slot]? = some true := used
  simp [free, SlotSet.deposit, SlotSet.depositAll, SlotSet.depositKey, found]

theorem free_spec {cregion final : CRegion} {slot : Slot} (run : cregion.free slot = some final) :
    final = { cregion with set := ⟨cregion.set.elements.insert slot false⟩ } := by
  simp only [free, SlotSet.deposit, SlotSet.depositAll, SlotSet.depositKey, Nat.add_sub_cancel_left,
    List.range'_one, Option.map_eq_some_iff, Option.bind_eq_some_iff] at run
  obtain ⟨set, ⟨middle, changed, same⟩, updated⟩ := run
  split at changed
  · simp at changed
  · simp only [Option.some.injEq] at changed same
    subst changed same
    exact updated.symm

/-! ## New CNodes -/

theorem depositAll_unused (keys : List Nat) :
    ∀ {set final : SlotSet}, SlotSet.depositAll keys set = some final →
      ∀ slot : Slot, final.elements[slot]? = some true → set.elements[slot]? = some true := by
  induction keys with
  | nil =>
      intro set final run slot isUsed
      obtain rfl := Option.some.inj run
      exact isUsed
  | cons key keys ih =>
      intro set final run slot isUsed
      obtain ⟨middle, first, rest⟩ := Option.bind_eq_some_iff.mp run
      have used := ih rest slot isUsed
      unfold SlotSet.depositKey at first
      split at first
      · simp at first
      · rw [← Option.some.inj first, Std.TreeMap.getElem?_insert] at used
        split at used
        · simp at used
        · exact used

/-- No slot of a new CNode is in use. -/
theorem new_unused {root : RelativeCPtr} {guardValue guardSize : UInt64} {radix : Nat}
    {cregion : CRegion} (isNew : new root guardValue guardSize radix = some cregion) (slot : Slot) :
    ¬ cregion.Used slot := by
  obtain ⟨set, deposited, rfl⟩ := Option.map_eq_some_iff.mp isNew
  intro isUsed
  have used := depositAll_unused _ deposited slot isUsed
  simp [SlotSet.new] at used

theorem depositAll_free (keys : List Nat) :
    ∀ {set final : SlotSet}, SlotSet.depositAll keys set = some final →
      ∀ slot : Slot, slot ∈ keys ∨ set.elements[slot]? = some false →
        final.elements[slot]? = some false := by
  induction keys with
  | nil =>
      intro set final run slot isFree
      obtain rfl := Option.some.inj run
      simpa using isFree
  | cons key keys ih =>
      intro set final run slot isFree
      obtain ⟨middle, first, rest⟩ := Option.bind_eq_some_iff.mp run
      apply ih rest slot
      unfold SlotSet.depositKey at first
      split at first
      · simp at first
      · rw [← Option.some.inj first, Std.TreeMap.getElem?_insert]
        by_cases isKey : key = slot
        · simp [isKey]
        · rw [List.mem_cons] at isFree
          simpa [isKey, Ne.symm isKey] using isFree

/-- A new CNode has all of its slots free. -/
theorem new_hasFree {root : RelativeCPtr} {guardValue guardSize : UInt64} {radix : Nat}
    {cregion : CRegion} (isNew : new root guardValue guardSize radix = some cregion) :
    cregion.HasFree (2 ^ (radix % 64)) := by
  obtain ⟨set, deposited, rfl⟩ := Option.map_eq_some_iff.mp isNew
  refine ⟨List.range' 0 (2 ^ (radix % 64) - 0), List.nodup_range' , by simp, fun slot member => ?_⟩
  exact depositAll_free _ deposited slot (.inl member)

end CRegion

end IceCap.Dyndl
