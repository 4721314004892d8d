import Mathlib.Data.List.Perm.Lattice
import IceCap.Dyndl.AllocatorTree

/-!
# The allocator's invariant

`Consistent` relates the capability derivation tree, the leaf index and the
CNode of the allocator to the ids that are live.  It is stated over the parts
and not over an `Allocator`, because in the middle of a call the tree is not in
order: a leaf taken from the index is described by the tree in which it is
already consumed.  So splitting, consuming, freeing and merging are each one
replacement of a subtree (`Consistent.replace`) in a tree that is in order.
-/

set_option autoImplicit false

namespace IceCap.Dyndl

open IceCap.Library IceCap.Sel4

/-- The tree, the index and the slots agree with each other and with the live ids.  The slots in
`reserved` are taken from the CNode and not (or no longer) in the tree; the other slots are as they
were in `base`, the CNode the allocator was built with. -/
structure Consistent (base : CRegion) (built : Node) (live : List UntypedId) (reserved : List Slot) (tree : Node)
    (count : UntypedId → Nat) (cregion : CRegion) : Prop where
  skeleton : Node.Skeleton 64 tree
  listed : ∀ id, count id = (Node.freeIds 0 64 tree).count id
  consumed : ∀ id, live.count id = (Node.consumedIds 0 64 tree).count id
  collapsed : Node.collapse tree = built
  slotsNodup : (reserved ++ Node.slots tree).Nodup
  slotsTaken : ∀ slot ∈ reserved ++ Node.slots tree, base.Free slot
  slotsMarked : ∀ slot, cregion.set.elements[slot]? =
    if slot ∈ reserved ++ Node.slots tree then some true else base.set.elements[slot]?

namespace Consistent

variable {base : CRegion} {built : Node} {live live' : List UntypedId} {reserved reserved' : List Slot}
variable {tree : Node} {count count' : UntypedId → Nat} {cregion final : CRegion}
variable {frames : List (BlockTree.Frame NodeType)} {old new : Node}

/-- Replace a subtree; the index, the live ids and the slots change by what the subtree held. -/
theorem replace
    (holds : Consistent base built live reserved (BlockTree.plug frames old) count cregion)
    (oldFilled : old ≠ .empty) (newFilled : new ≠ .empty)
    (skeleton : Node.Skeleton 64 (BlockTree.plug frames new))
    (collapsed : Node.collapse (BlockTree.plug frames new) =
      Node.collapse (BlockTree.plug frames old))
    (listed : ∀ id,
      count' id + (Node.freeIds (BlockTree.holeBlock Node.root frames).paddr
          (BlockTree.holeBlock Node.root frames).sizeBits old).count id =
        count id + (Node.freeIds (BlockTree.holeBlock Node.root frames).paddr
          (BlockTree.holeBlock Node.root frames).sizeBits new).count id)
    (consumed : ∀ id,
      live'.count id + (Node.consumedIds (BlockTree.holeBlock Node.root frames).paddr
          (BlockTree.holeBlock Node.root frames).sizeBits old).count id =
        live.count id + (Node.consumedIds (BlockTree.holeBlock Node.root frames).paddr
          (BlockTree.holeBlock Node.root frames).sizeBits new).count id)
    (slots : (reserved' ++ Node.slots new).Perm (reserved ++ Node.slots old)) :
    Consistent base built live' reserved' (BlockTree.plug frames new) count' cregion := by
  have moved : (reserved' ++ Node.slots (BlockTree.plug frames new)).Perm
      (reserved ++ Node.slots (BlockTree.plug frames old)) := by
    have before := BlockTree.valuesOf_plug Node.slotOf frames old
    have after := BlockTree.valuesOf_plug Node.slotOf frames new
    rw [List.perm_iff_count] at before after slots ⊢
    intro slot
    have before := before slot
    have after := after slot
    have same := slots slot
    simp only [List.count_append, Node.slots] at before after same ⊢
    omega
  refine ⟨skeleton, ?_, ?_, collapsed.trans holds.collapsed, moved.nodup_iff.mpr holds.slotsNodup,
    fun slot member => holds.slotsTaken slot (moved.mem_iff.mp member), fun slot => ?_⟩
  · intro id
    have before := (BlockTree.blocksWhere_plug Node.isDeletable_shallow Node.root frames old
      oldFilled).count_eq id
    have after := (BlockTree.blocksWhere_plug Node.isDeletable_shallow Node.root frames new
      newFilled).count_eq id
    have was := holds.listed id
    have change := listed id
    simp only [List.count_append, Node.root, Node.freeIds] at before after was change ⊢
    omega
  · intro id
    have before := (BlockTree.blocksWhere_plug Node.isConsumed_shallow Node.root frames old
      oldFilled).count_eq id
    have after := (BlockTree.blocksWhere_plug Node.isConsumed_shallow Node.root frames new
      newFilled).count_eq id
    have was := holds.consumed id
    have change := consumed id
    simp only [List.count_append, Node.root, Node.consumedIds] at before after was change ⊢
    omega
  · simp only [holds.slotsMarked slot, moved.mem_iff]

/-- The order in which ids were created makes no difference. -/
theorem perm (same : live'.Perm live)
    (holds : Consistent base built live reserved tree count cregion) :
    Consistent base built live' reserved tree count cregion :=
  ⟨holds.skeleton, holds.listed, fun id => (same.count_eq id).trans (holds.consumed id),
    holds.collapsed, holds.slotsNodup, holds.slotsTaken, holds.slotsMarked⟩

/-- The slots in use are marked used. -/
theorem used {slot : Slot} (holds : Consistent base built live reserved tree count cregion)
    (member : slot ∈ reserved ++ Node.slots tree) : cregion.Used slot := by
  rw [CRegion.Used, holds.slotsMarked, if_pos member]

/-- A slot taken from the CNode is not one of those already taken. -/
theorem alloc {slot : Slot} (holds : Consistent base built live reserved tree count cregion)
    (run : cregion.alloc = some (some slot, final)) :
    Consistent base built live (slot :: reserved) tree count final := by
  obtain ⟨isFree, changed⟩ := CRegion.alloc_spec run
  have marked := holds.slotsMarked slot
  rw [isFree] at marked
  have isNew : slot ∉ reserved ++ Node.slots tree := by
    intro member
    simp [member] at marked
  rw [if_neg isNew] at marked
  refine ⟨holds.skeleton, holds.listed, holds.consumed, holds.collapsed,
    List.nodup_cons.mpr ⟨isNew, holds.slotsNodup⟩, ?_, ?_⟩
  · intro other member
    rcases List.mem_cons.mp member with same | old
    · rw [same]
      exact marked.symm
    · exact holds.slotsTaken other old
  · intro other
    subst changed
    rw [Std.TreeMap.getElem?_insert, holds.slotsMarked other]
    simp only [Std.LawfulEqCmp.compare_eq_iff_eq, List.cons_append, List.mem_cons]
    by_cases same : slot = other
    · rw [if_pos same, if_pos (.inl same.symm)]
    · simp [same, Ne.symm same]

/-- A reserved slot can be given back. -/
theorem free {slot : Slot}
    (holds : Consistent base built live (slot :: reserved) tree count cregion) :
    ∃ final, cregion.free slot = some final ∧
      Consistent base built live reserved tree count final := by
  have distinct := List.nodup_cons.mp holds.slotsNodup
  refine ⟨_, CRegion.free_of_used (holds.used (by simp)), holds.skeleton, holds.listed,
    holds.consumed, holds.collapsed, distinct.2,
    fun other member => holds.slotsTaken other (List.mem_cons_of_mem _ member), ?_⟩
  intro other
  rw [Std.TreeMap.getElem?_insert, holds.slotsMarked other]
  simp only [Std.LawfulEqCmp.compare_eq_iff_eq, List.cons_append, List.mem_cons]
  by_cases same : slot = other
  · have wasFree : base.set.elements[slot]? = some false := holds.slotsTaken slot (by simp)
    have notTaken : slot ∉ reserved ++ Node.slots tree := distinct.1
    subst same
    rw [if_pos rfl, if_neg notTaken, wasFree]
  · simp [same, Ne.symm same]

/-- Where a filled hole lies in a tree in order. -/
theorem hole_bounds (holds : Consistent base built live reserved (BlockTree.plug frames old) count cregion)
    (filled : old ≠ .empty) : frames.length ≤ 64 ∧
      (BlockTree.holeBlock Node.root frames).sizeBits = 64 - frames.length := by
  have shallow := (Node.Skeleton.of_plug frames 64 old filled (.inl holds.skeleton)).1
  exact ⟨shallow, (BlockTree.holeBlock_bounds Node.root frames shallow).1⟩

/-- `replace` for a subtree that suits its surroundings. -/
theorem replaceWith (holds : Consistent base built live reserved (BlockTree.plug frames old) count cregion)
    (replaces : Node.Replaces (BlockTree.holeBlock Node.root frames).sizeBits old new)
    (listed : ∀ id,
      count' id + (Node.freeIds (BlockTree.holeBlock Node.root frames).paddr
          (BlockTree.holeBlock Node.root frames).sizeBits old).count id =
        count id + (Node.freeIds (BlockTree.holeBlock Node.root frames).paddr
          (BlockTree.holeBlock Node.root frames).sizeBits new).count id)
    (consumed : ∀ id,
      live'.count id + (Node.consumedIds (BlockTree.holeBlock Node.root frames).paddr
          (BlockTree.holeBlock Node.root frames).sizeBits old).count id =
        live.count id + (Node.consumedIds (BlockTree.holeBlock Node.root frames).paddr
          (BlockTree.holeBlock Node.root frames).sizeBits new).count id)
    (slots : (reserved' ++ Node.slots new).Perm (reserved ++ Node.slots old)) :
    Consistent base built live' reserved' (BlockTree.plug frames new) count' cregion := by
  obtain ⟨shallow, sized⟩ := holds.hole_bounds replaces.oldFilled
  have above := Node.Replaces.plug frames _ _ _ replaces
  rw [sized, Nat.sub_add_cancel shallow] at above
  exact holds.replace replaces.oldFilled replaces.newFilled (above.skeleton holds.skeleton)
    above.collapsed listed consumed slots

/-- A leaf is consumed as it leaves the index. -/
theorem consume {kind : AccessibleNodeType} {held : UntypedId}
    (holds : Consistent base built live reserved (BlockTree.plug frames (Node.leaf kind)) count cregion)
    (isHole : BlockTree.holeBlock Node.root frames = held)
    (listed : ∀ id, count' id + (if held = id then 1 else 0) = count id) :
    Consistent base built (held :: live) reserved (BlockTree.plug frames (Node.consumedLeaf kind))
      count' cregion := by
  refine holds.replaceWith (Node.Replaces.consume _ kind) ?_ ?_ (by simp)
  · intro id
    simpa [isHole, List.count_singleton] using listed id
  · intro id
    simp [isHole, List.count_cons]

/-- A consumed leaf becomes two halves, of which the upper one is consumed. -/
theorem split {kind : AccessibleNodeType} {held : UntypedId} {lower upper : Slot}
    (holds : Consistent base built (held :: live) (upper :: lower :: reserved)
      (BlockTree.plug frames (Node.consumedLeaf kind)) count cregion)
    (isHole : BlockTree.holeBlock Node.root frames = held) (divisible : 0 < held.sizeBits)
    (listed : ∀ id, count' id = count id + if held.lower = id then 1 else 0) :
    Consistent base built (held.upper :: live) reserved
      (BlockTree.plug frames (Node.splitLeaf kind lower upper)) count' cregion := by
  obtain ⟨paddr, sizeBits⟩ := held
  obtain ⟨half, rfl⟩ := Nat.exists_eq_add_one_of_ne_zero (Nat.ne_of_gt divisible)
  refine holds.replaceWith (isHole ▸ Node.Replaces.split half kind lower upper) ?_ ?_ ?_
  · intro id
    rw [isHole, Node.freeIds_splitLeaf]
    simpa [Block.lower, List.count_singleton] using listed id
  · intro id
    rw [isHole, Node.consumedIds_splitLeaf]
    simp [Block.upper, List.count_cons]
    omega
  · rw [Node.slots_splitLeaf, Node.slots_consumedLeaf, List.perm_iff_count]
    intro slot
    simp [List.count_cons]
    omega

/-- What a subtree has consumable is listed. -/
theorem count_ge (holds : Consistent base built live reserved (BlockTree.plug frames old) count cregion)
    (filled : old ≠ .empty) (id : UntypedId) :
    (Node.freeIds (BlockTree.holeBlock Node.root frames).paddr
      (BlockTree.holeBlock Node.root frames).sizeBits old).count id ≤ count id := by
  have parts := (BlockTree.blocksWhere_plug Node.isDeletable_shallow Node.root frames old
    filled).count_eq id
  have listed := holds.listed id
  simp only [List.count_append, Node.root, Node.freeIds] at parts listed ⊢
  omega

/-- A consumed leaf is given up and listed, where no merge is due. -/
theorem release {frame : BlockTree.Frame NodeType} {kind : AccessibleNodeType} {held : UntypedId}
    (holds : Consistent base built (held :: live) reserved
      (BlockTree.plug (frame :: frames) (Node.consumedLeaf kind)) count cregion)
    (isHole : BlockTree.holeBlock Node.root (frame :: frames) = held)
    (busy : frame.label = .inaccessible ∨ Node.isDeletable frame.sibling = false)
    (listed : ∀ id, count' id = count id + if held = id then 1 else 0) :
    Consistent base built live reserved (BlockTree.plug (frame :: frames) (Node.leaf kind)) count'
      cregion := by
  obtain ⟨shallow, _⟩ := holds.hole_bounds (by simp [Node.consumedLeaf])
  rw [List.length_cons] at shallow
  have above := Node.Replaces.plug frames _ _ _
    (Node.Replaces.release (64 - (frames.length + 1)) frame kind busy)
  rw [show 64 - (frames.length + 1) + 1 + frames.length = 64 by omega] at above
  refine holds.replace (by simp [Node.consumedLeaf]) (by simp [Node.leaf])
    (above.skeleton holds.skeleton) above.collapsed ?_ ?_ (by simp)
  · intro id
    simpa [isHole, List.count_singleton] using listed id
  · intro id
    simp [isHole, List.count_cons]

/-- The root of the tree has no parent that could be merged. -/
theorem releaseRoot {kind : AccessibleNodeType}
    (holds : Consistent base built (Node.root :: live) reserved (Node.consumedLeaf kind) count cregion)
    (listed : ∀ id, count' id = count id + if Node.root = id then 1 else 0) :
    Consistent base built live reserved (Node.leaf kind) count' cregion := by
  have whole : Consistent base built (Node.root :: live) reserved
      (BlockTree.plug [] (Node.consumedLeaf kind)) count cregion := holds
  change Consistent base built live reserved (BlockTree.plug [] (Node.leaf kind)) count' cregion
  refine whole.replace (by simp [Node.consumedLeaf]) (by simp [Node.leaf])
    holds.skeleton.release rfl ?_ ?_ (by simp)
  · intro id
    simpa [BlockTree.holeBlock, List.count_singleton] using listed id
  · intro id
    simp [BlockTree.holeBlock, List.count_cons]

/-- A split node with one half taken and one consumable becomes taken as a whole. -/
theorem merge {kind : AccessibleNodeType} {left right : Node} {parent child : UntypedId}
    (sibling : UntypedId) (leftSlot rightSlot : Slot)
    (holds : Consistent base built (child :: live) reserved
      (BlockTree.plug frames (.node (.accessible false kind) left right)) count cregion)
    (isParent : BlockTree.holeBlock Node.root frames = parent)
    (isFree : Node.freeIds parent.paddr parent.sizeBits (.node (.accessible false kind) left right) =
      [sibling])
    (isConsumed : Node.consumedIds parent.paddr parent.sizeBits
      (.node (.accessible false kind) left right) = [child])
    (isSlots : Node.slots (.node (.accessible false kind) left right) =
      Node.slots (Node.leaf kind) ++ [leftSlot, rightSlot]) :
    ∃ count', (∀ id, count id = count' id + if sibling = id then 1 else 0) ∧
      Consistent base built (parent :: live) (leftSlot :: rightSlot :: reserved)
        (BlockTree.plug frames (Node.consumedLeaf kind)) count' cregion := by
  have large := holds.count_ge (by simp)
  simp only [isParent, isFree, List.count_singleton, beq_iff_eq] at large
  have split : ∀ id, count id =
      (count id - if sibling = id then 1 else 0) + if sibling = id then 1 else 0 :=
    fun id => (Nat.sub_add_cancel (large id)).symm
  refine ⟨fun id => count id - if sibling = id then 1 else 0, split,
    holds.replaceWith (Node.Replaces.merge _ kind left right) ?_ ?_ ?_⟩
  · intro id
    simp only [isParent, isFree, List.count_singleton, beq_iff_eq, Node.freeIds_consumedLeaf,
      List.count_nil]
    exact (split id).symm
  · intro id
    obtain ⟨paddr, sizeBits⟩ := parent
    simp [isParent, isConsumed, List.count_cons]
    omega
  · rw [isSlots, Node.slots_consumedLeaf, List.perm_iff_count]
    intro slot
    simp [List.count_cons]
    omega

end Consistent

end IceCap.Dyndl
