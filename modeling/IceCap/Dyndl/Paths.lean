import IceCap.Dyndl.ModelIndex
import IceCap.Dyndl.RealizerSlots

/-!
# The capabilities of different realms

The capability pointer of an object of a realm has the slot of the realm's CNode in
the bits above those of the realm's own CNode, and the slot of the object in the
lowest bits.  A realm that is started has a CNode in a slot that none has had before,
and its objects are in different slots of it: so the objects of all realms have
different capability pointers.
-/

set_option autoImplicit false

namespace IceCap.Dyndl

open IceCap.Library IceCap.Sel4

namespace CRegion

variable {cregion base : CRegion} {slot : Slot}

/-! ## Bits of a capability pointer -/

theorem lt_word {radix : Nat} (small : slot < 2 ^ (radix % 64)) : slot < 2 ^ 64 :=
  Nat.lt_of_lt_of_le small
    (Nat.pow_le_pow_right (by decide) (Nat.le_of_lt (Nat.mod_lt _ (by decide))))

theorem cptr_toNat (small : slot < 2 ^ (cregion.radix % 64)) :
    (cregion.cptrWithDepth slot).cptr.toNat =
      ((cregion.root.path.cptr <<< cregion.guardSize) ||| cregion.guardValue).toNat *
        2 ^ (cregion.radix % 64) % 2 ^ 64 ||| slot := by
  have isRadix : cregion.radix % 2 ^ 64 % 64 = cregion.radix % 64 :=
    Nat.mod_mod_of_dvd _ (by decide)
  rw [cptrWithDepth, UInt64.toNat_or, UInt64.toNat_shiftLeft, UInt64.toNat_ofNat',
    UInt64.toNat_ofNat', isRadix, Nat.shiftLeft_eq, Nat.mod_eq_of_lt (lt_word small)]

/-- The slot is in the lowest bits. -/
theorem cptr_mod (small : slot < 2 ^ (cregion.radix % 64)) :
    (cregion.cptrWithDepth slot).cptr.toNat % 2 ^ (cregion.radix % 64) = slot := by
  have divides : 2 ^ (cregion.radix % 64) ∣ 2 ^ 64 :=
    Nat.pow_dvd_pow 2 (Nat.le_of_lt (Nat.mod_lt _ (by decide)))
  rw [cptr_toNat small, Nat.or_mod_two_pow, Nat.mod_mod_of_dvd _ divides, Nat.mul_mod_left,
    Nat.zero_or, Nat.mod_eq_of_lt small]

/-- Above the guard and the slot are the bits of the path to the CNode. -/
theorem cptr_div {bits : Nat} (noGuard : cregion.guardValue = 0)
    (shifted : cregion.guardSize.toNat + cregion.radix + bits = 64) (positive : 0 < bits)
    (small : slot < 2 ^ (cregion.radix % 64)) :
    (cregion.cptrWithDepth slot).cptr.toNat / 2 ^ (64 - bits) =
      cregion.root.path.cptr.toNat % 2 ^ bits := by
  have isRadix : cregion.radix % 64 = cregion.radix := Nat.mod_eq_of_lt (by omega)
  have isGuard : cregion.guardSize.toNat % 64 = cregion.guardSize.toNat :=
    Nat.mod_eq_of_lt (by omega)
  have isShift : 64 - bits = cregion.guardSize.toNat + cregion.radix := by omega
  have below : slot / 2 ^ (64 - bits) = 0 := by
    apply Nat.div_eq_of_lt
    rw [isRadix] at small
    exact Nat.lt_of_lt_of_le small (Nat.pow_le_pow_right (by decide) (by omega))
  have isWord : 2 ^ 64 = 2 ^ bits * 2 ^ (64 - bits) := by
    rw [← Nat.pow_add]
    congr 1
    omega
  have moved : cregion.root.path.cptr.toNat * 2 ^ cregion.guardSize.toNat % 2 ^ 64 *
      2 ^ cregion.radix % 2 ^ 64 = cregion.root.path.cptr.toNat % 2 ^ bits * 2 ^ (64 - bits) := by
    rw [Nat.mod_mul_mod, Nat.mul_assoc, ← Nat.pow_add, ← isShift]
    conv_lhs => rw [isWord]
    exact Nat.mul_mod_mul_right _ _ _
  have noBits : (0 : UInt64).toNat = 0 := rfl
  rw [cptr_toNat small, Nat.or_div_two_pow, below, Nat.or_zero, noGuard, isRadix, UInt64.toNat_or,
    UInt64.toNat_shiftLeft, isGuard, Nat.shiftLeft_eq, noBits, Nat.or_zero, moved]
  exact Nat.mul_div_cancel _ (Nat.two_pow_pos _)

/-! ## CNodes in the slots of a CNode -/

/-- The CNode is in the slot, and has a guard of zeros. -/
structure Below (base : CRegion) (slot : Slot) (cregion : CRegion) : Prop where
  root : cregion.root = base.relativeCPtr slot
  noGuard : cregion.guardValue = 0

/-- The slot that is in the path to the object. -/
def slotOnPath (base : CRegion) (cptr : CPtr) : Nat :=
  cptr.toNat / 2 ^ (64 - (base.cptrWithDepth 0).depth) % 2 ^ (base.radix % 64)

theorem Below.slotOnPath_eq {cptr : CPtr} {objectSlot : Slot} (below : base.Below slot cregion)
    (isCPtr : (cregion.cptrWithDepth objectSlot).localCPtr = some cptr)
    (small : slot < 2 ^ (base.radix % 64)) (objectSmall : objectSlot < 2 ^ (cregion.radix % 64)) :
    base.slotOnPath cptr = slot := by
  unfold CPtrWithDepth.localCPtr at isCPtr
  split at isCPtr
  · next isDepth =>
      obtain rfl := Option.some.inj isCPtr
      simp only [cptrWithDepth, below.root, relativeCPtr] at isDepth
      have fewer : base.radix % 64 ≤ (base.cptrWithDepth 0).depth :=
        Nat.le_trans (Nat.mod_le _ _) (Nat.le_add_left _ _)
      by_cases isZero : (base.cptrWithDepth 0).depth = 0
      · have noBits : base.radix % 64 = 0 := by omega
        rw [noBits, Nat.pow_zero, Nat.lt_one_iff] at small
        rw [slotOnPath, noBits, Nat.pow_zero, Nat.mod_one, small]
      · have isRoot : cregion.root.path.cptr = (base.cptrWithDepth slot).cptr := by
          rw [below.root, relativeCPtr]
        rw [slotOnPath, cptr_div below.noGuard (by simp only [cptrWithDepth] at isZero ⊢; omega)
          (Nat.pos_of_ne_zero isZero) objectSmall, isRoot,
          Nat.mod_mod_of_dvd _ (Nat.pow_dvd_pow 2 fewer), cptr_mod small]
  · simp at isCPtr

/-- The capability is one in a CNode in the slot. -/
def Leads (base : CRegion) (slot : Slot) (cptr : CPtr) : Prop :=
  ∃ cregion objectSlot, base.Below slot cregion ∧ objectSlot < 2 ^ (cregion.radix % 64) ∧
    (cregion.cptrWithDepth objectSlot).localCPtr = some cptr

theorem Leads.unique {cptr : CPtr} {other : Slot} (leads : base.Leads slot cptr)
    (leadsToo : base.Leads other cptr) (small : slot < 2 ^ (base.radix % 64))
    (smallToo : other < 2 ^ (base.radix % 64)) : slot = other := by
  obtain ⟨_, _, below, objectSmall, isCPtr⟩ := leads
  obtain ⟨_, _, belowToo, objectSmallToo, isCPtrToo⟩ := leadsToo
  rw [← below.slotOnPath_eq isCPtr small objectSmall,
    ← belowToo.slotOnPath_eq isCPtrToo smallToo objectSmallToo]

theorem localCPtr_injective {first second : Slot} {cptr : CPtr}
    (isFirst : (cregion.cptrWithDepth first).localCPtr = some cptr)
    (isSecond : (cregion.cptrWithDepth second).localCPtr = some cptr)
    (small : first < 2 ^ (cregion.radix % 64)) (smallToo : second < 2 ^ (cregion.radix % 64)) :
    first = second := by
  have isCPtr : ∀ {slot : Slot}, (cregion.cptrWithDepth slot).localCPtr = some cptr →
      (cregion.cptrWithDepth slot).cptr = cptr := by
    intro slot isLocal
    unfold CPtrWithDepth.localCPtr at isLocal
    split at isLocal
    · exact Option.some.inj isLocal
    · simp at isLocal
  rw [← cptr_mod small, ← cptr_mod smallToo, isCPtr isFirst, isCPtr isSecond]

/-! ## The place of a CNode -/

/-- All but which of its slots are used. -/
def place (cregion : CRegion) : RelativeCPtr × UInt64 × UInt64 × Nat :=
  (cregion.root, cregion.guardValue, cregion.guardSize, cregion.radix)

theorem relativeCPtr_of_place (same : cregion.place = base.place) :
    cregion.relativeCPtr slot = base.relativeCPtr slot := by
  simp only [place, Prod.mk.injEq] at same
  obtain ⟨isRoot, isValue, isSize, isRadix⟩ := same
  simp only [relativeCPtr, context, cptrWithDepth, isRoot, isValue, isSize, isRadix]

theorem alloc_place {found : Option Slot × CRegion} (run : cregion.alloc = some found) :
    found.2.place = cregion.place := by
  obtain ⟨_, _, rfl⟩ := Option.map_eq_some_iff.mp run
  rfl

theorem free_place {next : CRegion} (run : cregion.free slot = some next) :
    next.place = cregion.place := by
  rw [free_spec run]
  rfl

theorem new_place {root : RelativeCPtr} {guardValue guardSize : UInt64} {radix : Nat}
    (isNew : new root guardValue guardSize radix = some cregion) :
    cregion.place = (root, guardValue, guardSize, radix) := by
  obtain ⟨_, _, rfl⟩ := Option.map_eq_some_iff.mp isNew
  rfl

theorem depositAll_keys (keys : List Nat) :
    ∀ {set final : SlotSet}, SlotSet.depositAll keys set = some final →
      ∀ slot : Slot, final.elements[slot]?.isSome = true →
        slot ∈ keys ∨ set.elements[slot]?.isSome = true := by
  induction keys with
  | nil =>
      intro set final run slot isElement
      obtain rfl := Option.some.inj run
      exact .inr isElement
  | cons key keys ih =>
      intro set final run slot isElement
      obtain ⟨middle, first, rest⟩ := Option.bind_eq_some_iff.mp run
      rcases ih rest slot isElement with later | isMiddle
      · exact .inl (List.mem_cons_of_mem _ later)
      · unfold SlotSet.depositKey at first
        split at first
        · simp at first
        · rw [← Option.some.inj first, Std.TreeMap.getElem?_insert] at isMiddle
          by_cases isKey : key = slot
          · exact .inl (by rw [isKey]; exact List.mem_cons_self)
          · exact .inr (by simpa [isKey] using isMiddle)

/-- The slots of a new CNode are those that its size says. -/
theorem new_small {root : RelativeCPtr} {guardValue guardSize : UInt64} {radix : Nat}
    (isNew : new root guardValue guardSize radix = some cregion) (isFree : cregion.Free slot) :
    slot < 2 ^ (cregion.radix % 64) := by
  obtain ⟨set, deposited, rfl⟩ := Option.map_eq_some_iff.mp isNew
  have found : set.elements[slot]? = some false := isFree
  rcases depositAll_keys _ deposited slot (by rw [found]; rfl) with member | isElement
  · rw [List.mem_range'_1, Nat.sub_zero, Nat.zero_add] at member
    exact member.2
  · simp [SlotSet.new] at isElement

end CRegion

/-! ## The allocator's own CNode -/

namespace Allocator

variable {K : Type} {sizes : Sizes} {kernel : Kernel K} {state final : Machine K}

/-- Where the allocator's CNode is, which no call changes. -/
def place (state : Machine K) := state.allocator.cregion.place

theorem onKernel_place {call : Exec Failure K Unit} : Exec.Spares place (onKernel call) :=
  .focus fun _ _ => rfl

theorem allocSlot_place : Exec.Spares place (allocSlot : Exec Failure (Machine K) Slot) := by
  refine .bind (.runs fun state value next run => ?_) fun _ => .unwrap _
  obtain ⟨result, allocated, isResult⟩ := Option.map_eq_some_iff.mp run
  cases isResult
  exact CRegion.alloc_place allocated

theorem freeSlot_place {slot : Slot} :
    Exec.Spares place (freeSlot slot : Exec Failure (Machine K) Unit) := by
  refine .runs fun state value next run => ?_
  obtain ⟨result, freed, isResult⟩ := Option.map_eq_some_iff.mp run
  cases isResult
  exact CRegion.free_place freed

theorem addLeaf_place {untypedId : UntypedId} :
    Exec.Spares place (addLeaf untypedId : Exec Failure (Machine K) Unit) := .modify fun _ => rfl

theorem getLeaf_place {sizeBits : Nat} :
    Exec.Spares place (getLeaf sizeBits : Exec Failure (Machine K) UntypedId) := by
  refine .runs fun state value next run => ?_
  obtain ⟨result, _, isResult⟩ := Option.map_eq_some_iff.mp run
  cases isResult
  rfl

theorem removeLeaf_place {untypedId : UntypedId} :
    Exec.Spares place (removeLeaf untypedId : Exec Failure (Machine K) Unit) := by
  refine .runs fun state value next run => ?_
  obtain ⟨result, _, isResult⟩ := Option.map_eq_some_iff.mp run
  cases isResult
  rfl

theorem withNode_place {α : Type} {untypedId : UntypedId}
    {borrow : CRegion → Node → Option (α × Node)} :
    Exec.Spares place (withNode untypedId borrow : Exec Failure (Machine K) α) := by
  refine .runs fun state value next run => ?_
  obtain ⟨result, _, isResult⟩ := Option.map_eq_some_iff.mp run
  cases isResult
  rfl

theorem splitUntyped_place {held : UntypedId} : Exec.Spares place (splitUntyped kernel held) :=
  .bind allocSlot_place fun _ => .bind allocSlot_place fun _ => .bind withNode_place fun _ =>
    .bind .get fun _ => .bind onKernel_place fun _ => .bind onKernel_place fun _ =>
    .bind addLeaf_place fun _ => .bind addLeaf_place fun _ => .pure _

theorem splitTimes_place (times : Nat) :
    ∀ {held : UntypedId}, Exec.Spares place (splitTimes kernel times held) := by
  induction times with
  | zero =>
      intro held
      exact .pure _
  | succ times ih =>
      intro held
      exact .bind splitUntyped_place fun _ => .bind removeLeaf_place fun _ => ih

theorem createObject_place {destinationCNode : RelativeCPtr} {slot : Slot}
    {blueprint : ObjectBlueprint} :
    Exec.Spares place (createObject sizes kernel destinationCNode slot blueprint) :=
  .bind getLeaf_place fun _ => .bind (splitTimes_place _) fun _ => .bind withNode_place fun _ =>
    .bind onKernel_place fun _ => .pure _

theorem createCnode_place {radix : Nat} : Exec.Spares place (createCnode sizes kernel radix) :=
  .bind allocSlot_place fun _ => .bind .get fun _ => .bind (.unwrap _) fun _ =>
    .bind allocSlot_place fun _ => .bind createObject_place fun _ => .bind onKernel_place fun _ =>
    .bind onKernel_place fun _ => .bind freeSlot_place fun _ => .pure _

theorem createObjects_place (blueprints : List ObjectBlueprint) :
    ∀ {realmCRegion : CRegion}, Exec.Spares place (createObjects sizes kernel blueprints realmCRegion) := by
  induction blueprints with
  | nil =>
      intro realmCRegion
      exact .pure _
  | cons blueprint blueprints ih =>
      intro realmCRegion
      exact .bind (.unwrap _) fun _ => .bind (.unwrap _) fun _ => .bind createObject_place fun _ =>
        .bind ih fun _ => .pure _

theorem revokeNode_place {node : Node} : Exec.Spares place (revokeNode kernel node) :=
  .bind .get fun _ => .bind (.unwrap _) fun _ => onKernel_place

theorem dropChild_place {child : Node} {untypedId : UntypedId} :
    Exec.Spares place (dropChild child untypedId : Exec Failure (Machine K) Unit) :=
  .ite (.pure _) (.bind (.unwrap _) fun _ => .bind freeSlot_place fun _ => removeLeaf_place)

theorem mergeChildren_place {low high depth : Nat} {node : Node} :
    Exec.Spares place (mergeChildren kernel low high depth node) := by
  cases node with
  | empty => exact .panic
  | node label left right =>
      exact .ite (.bind dropChild_place fun _ => .bind dropChild_place fun _ =>
        .bind revokeNode_place fun _ => .bind addLeaf_place fun _ => .pure _) (.pure _)

theorem revokeAndFreeHelper_place {untypedId : UntypedId} {node : Node} :
    ∀ {low high depth : Nat},
      Exec.Spares place (revokeAndFreeHelper kernel untypedId low high depth node) := by
  induction node with
  | empty =>
      intro low high depth
      unfold revokeAndFreeHelper
      exact .panic
  | node label left right leftInduction rightInduction =>
      intro low high depth
      unfold revokeAndFreeHelper
      refine .ite ?_ ?_
      · exact .bind (.assert _) fun _ => .bind (.assert _) fun _ => .bind (.assert _) fun _ =>
          .bind (.assert _) fun _ => .bind revokeNode_place fun _ => .bind (.unwrap _) fun _ =>
          .bind addLeaf_place fun _ => .pure _
      · exact .bind (.assert _) fun _ => .ite
          (.bind leftInduction fun _ => mergeChildren_place)
          (.bind rightInduction fun _ => mergeChildren_place)

theorem revokeAndFree_place {untypedId : UntypedId} :
    Exec.Spares place (revokeAndFree kernel untypedId) :=
  .bind .get fun _ => .bind revokeAndFreeHelper_place fun _ => .modify fun _ => rfl

/-! ## The CNode of a realm -/

theorem createCnode_cregion {radix : Nat} {cregion : CRegion} {untypedId : UntypedId} {realmSlot : Slot}
    (run : createCnode sizes kernel radix state = .ok (cregion, untypedId, realmSlot) final) :
    ∃ guardSize, CRegion.new (state.allocator.cregion.relativeCPtr realmSlot) 0 guardSize radix =
      some cregion := by
  simp only [createCnode, Exec.bind_eq_ok, Exec.get_eq_ok, Exec.unwrap_eq_ok, Exec.pure_eq_ok,
    Prod.mk.injEq] at run
  obtain ⟨slot, afterSlot, slotRun, _, _, ⟨rfl, rfl⟩, found, _, ⟨isNew, rfl⟩, _, _, _, _, _, _, _, _,
    _, _, _, _, _, _, _, ⟨rfl, _, rfl⟩, _⟩ := run
  rw [CRegion.relativeCPtr_of_place (allocSlot_place.keeps _ _ _ slotRun)] at isNew
  exact ⟨_, isNew⟩

/-- The objects are created in slots that were free, each in one of its own. -/
theorem createObjects_slots (blueprints : List ObjectBlueprint) :
    ∀ {cregion cregion' : CRegion} {slots : List Slot} {untypedIds : List UntypedId}
      {state final : Machine K},
      createObjects sizes kernel blueprints cregion state = .ok (cregion', slots, untypedIds) final →
      slots.Nodup ∧ (∀ slot ∈ slots, cregion.Free slot) ∧ cregion'.place = cregion.place := by
  induction blueprints with
  | nil =>
      intro cregion cregion' slots untypedIds state final run
      simp only [createObjects, Exec.pure_eq_ok, Prod.mk.injEq] at run
      obtain ⟨⟨rfl, rfl, _⟩, _⟩ := run
      exact ⟨List.nodup_nil, by simp, rfl⟩
  | cons blueprint blueprints ih =>
      intro cregion cregion' slots untypedIds state final run
      simp only [createObjects, Exec.bind_eq_ok, Exec.unwrap_eq_ok, Exec.pure_eq_ok,
        Prod.mk.injEq] at run
      obtain ⟨⟨answer, next⟩, _, ⟨allocated, rfl⟩, slot, _, ⟨isSlot, rfl⟩, _, _, _, rest, _, restRun,
        ⟨rfl, rfl, _⟩, _⟩ := run
      obtain rfl : answer = some slot := isSlot
      obtain ⟨isFree, isNext⟩ := CRegion.alloc_spec allocated
      obtain ⟨distinct, areFree, samePlace⟩ := ih restRun
      have others : ∀ other ∈ rest.2.1, slot ≠ other ∧ cregion.Free other := by
        intro other member
        have stillFree := areFree other member
        rw [isNext, CRegion.Free, Std.TreeMap.getElem?_insert] at stillFree
        split at stillFree
        · simp at stillFree
        · next differs => exact ⟨by simpa using differs, stillFree⟩
      refine ⟨List.nodup_cons.mpr ⟨fun member => (others slot member).1 rfl, distinct⟩, ?_,
        samePlace.trans (CRegion.alloc_place allocated)⟩
      exact List.forall_mem_cons.mpr ⟨isFree, fun other member => (others other member).2⟩

end Allocator

/-! ## The objects of a realm -/

namespace PartialSubsystem

variable {base : CRegion} {sizes : Sizes} {slot : Slot} {subsystem : PartialSubsystem}
  {i j : ObjId} {cptr : CPtr}

/-- The capability of a local object. -/
def frame (subsystem : PartialSubsystem) (i : ObjId) : Option CPtr :=
  (subsystem.modelView.reverse[i]?).bind fun index =>
    (subsystem.localObjectSlots[index]?).bind fun slot =>
      (subsystem.cregion.cptrWithDepth slot).localCPtr

/-- The realm has its CNode in the slot, and its objects in different slots of that. -/
structure Rooted (base : CRegion) (sizes : Sizes) (slot : Slot) (subsystem : PartialSubsystem) :
    Prop where
  below : base.Below slot subsystem.cregion
  distinct : subsystem.localObjectSlots.Nodup
  small : ∀ objectSlot ∈ subsystem.localObjectSlots,
    objectSlot < 2 ^ (subsystem.cregion.radix % 64)
  isView : subsystem.modelView = ModelView.new sizes subsystem.model

theorem frame_eq_some : subsystem.frame i = some cptr ↔
    ∃ index objectSlot : Nat, subsystem.modelView.reverse[i]? = some index ∧
      subsystem.localObjectSlots[index]? = some objectSlot ∧
      (subsystem.cregion.cptrWithDepth objectSlot).localCPtr = some cptr := by
  simp [frame, Option.bind_eq_some_iff]

theorem Rooted.leads (rooted : subsystem.Rooted base sizes slot)
    (isFrame : subsystem.frame i = some cptr) : base.Leads slot cptr := by
  obtain ⟨_, objectSlot, _, isSlot, isCPtr⟩ := frame_eq_some.mp isFrame
  exact ⟨_, objectSlot, rooted.below, rooted.small _ (List.mem_of_getElem? isSlot), isCPtr⟩

/-- The local objects of a realm have different capabilities. -/
theorem Rooted.frame_injective (rooted : subsystem.Rooted base sizes slot)
    (isLocal : subsystem.model.IsLocal i) (isLocalToo : subsystem.model.IsLocal j)
    (isFrame : subsystem.frame i = some cptr) (isFrameToo : subsystem.frame j = some cptr) :
    i = j := by
  have indexes := ModelView.new_indexes sizes subsystem.model
  rw [← rooted.isView] at indexes
  obtain ⟨first, firstSlot, isFirst, isSlot, isCPtr⟩ := frame_eq_some.mp isFrame
  obtain ⟨second, secondSlot, isSecond, isSlotToo, isCPtrToo⟩ := frame_eq_some.mp isFrameToo
  have sameSlot : firstSlot = secondSlot := CRegion.localCPtr_injective isCPtr isCPtrToo
    (rooted.small _ (List.mem_of_getElem? isSlot))
    (rooted.small _ (List.mem_of_getElem? isSlotToo))
  rw [← sameSlot] at isSlotToo
  have sameIndex : first = second :=
    (List.getElem?_inj (List.getElem?_eq_some_iff.mp isSlot).1 rooted.distinct).mp
      (isSlot.trans isSlotToo.symm)
  obtain ⟨index, isIndex, isObject⟩ := indexes.position_local isLocal
  obtain ⟨indexToo, isIndexToo, isObjectToo⟩ := indexes.position_local isLocalToo
  obtain rfl := Option.some.inj (isFirst.symm.trans isIndex)
  obtain rfl := Option.some.inj (isSecond.symm.trans isIndexToo)
  rw [sameIndex] at isObject
  exact Option.some.inj (isObject.symm.trans isObjectToo)

end PartialSubsystem

namespace Realizer

variable {K : Type} {platform : Platform K} {base : CRegion} {built : Node}
  {live : List UntypedId} {reserved : List Slot} {state final : Realizer K} {model : Model}
  {started : PartialSubsystem}

/-- A realm that is started has its CNode in a slot that no realm has had before. -/
theorem realizeStart_rooted (sound : Sound base built live reserved state.machine)
    (samePlace : state.machine.allocator.cregion.place = base.place)
    (run : realizeStart platform model state = .ok started final) :
    ∃ realmSlot, Sound base built (started.ids ++ live) (realmSlot :: reserved) final.machine ∧
      started.Rooted base platform.sizes realmSlot ∧
      final.machine.allocator.cregion.place = base.place := by
  obtain ⟨blueprints, counts, cregion, cnodeUntypedId, realmSlot, middle, objects, last, _, _,
    cnodeRun, objectsRun, rfl, rfl⟩ := realizeStart_eq_ok run
  have created := Allocator.createObjects_sound _ (Allocator.createCnode_sound sound cnodeRun)
    objectsRun
  have perm : (cnodeUntypedId :: objects.2.2 ++ live).Perm
      (objects.2.2.reverse ++ cnodeUntypedId :: live) := by
    refine List.Perm.trans ?_ List.perm_middle.symm
    exact ((List.reverse_perm _).symm.append_right _).cons _
  obtain ⟨guardSize, isNew⟩ := Allocator.createCnode_cregion cnodeRun
  rw [CRegion.relativeCPtr_of_place samePlace] at isNew
  obtain ⟨distinct, areFree, isPlace⟩ := Allocator.createObjects_slots _ objectsRun
  have isPlace := isPlace.trans (CRegion.new_place isNew)
  simp only [CRegion.place, Prod.mk.injEq] at isPlace
  obtain ⟨isRoot, isValue, _, isRadix⟩ := isPlace
  have sameRadix : objects.1.radix = cregion.radix := by
    have isPlace := CRegion.new_place isNew
    simp only [CRegion.place, Prod.mk.injEq] at isPlace
    rw [isRadix, isPlace.2.2.2]
  refine ⟨realmSlot, created.perm perm, ⟨⟨isRoot, isValue⟩, distinct, ?_, rfl⟩, ?_⟩
  · intro objectSlot member
    rw [sameRadix]
    exact CRegion.new_small isNew (areFree objectSlot member)
  · have kept := ((Allocator.createObjects_place _).keeps _ _ _ objectsRun).trans
      (Allocator.createCnode_place.keeps _ _ _ cnodeRun)
    exact kept.trans samePlace

theorem destroy_place {destroyed : Subsystem} :
    Exec.Spares (fun state => Allocator.place state.machine) (destroy platform destroyed) :=
  .bind (Allocator.revokeAndFree_place.inside fun _ _ => rfl) fun _ =>
    .bind (.forEach fun _ => Allocator.revokeAndFree_place.inside fun _ _ => rfl) fun _ =>
    .modify fun _ => rfl

end Realizer

end IceCap.Dyndl
