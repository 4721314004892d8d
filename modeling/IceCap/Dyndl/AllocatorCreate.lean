import IceCap.Dyndl.AllocatorInvariant

/-!
# Creating objects keeps the allocator consistent

`create_object` takes a leaf out of the index, splits it down its upper halves
and consumes the last one.  `Holding` is the state in between: the tree still
has the leaf, the index does not, and in the tree with the leaf consumed
everything is in order.
-/

set_option autoImplicit false

namespace IceCap.Dyndl

open IceCap.Library IceCap.Sel4

variable {K : Type} {base : CRegion} {built : Node} {live : List UntypedId} {reserved : List Slot}

/-- The invariant of a machine between two calls, apart from the slots in `reserved`. -/
def Sound (base : CRegion) (built : Node) (live : List UntypedId) (reserved : List Slot)
    (state : Machine K) : Prop :=
  Consistent base built live reserved state.allocator.capDerivationTree state.allocator.leafNodes.count
    state.allocator.cregion

/-- A leaf of the tree has been taken out of the index and not been consumed yet. -/
def Holding (base : CRegion) (built : Node) (live : List UntypedId) (reserved : List Slot)
    (held : UntypedId) (state : Machine K) : Prop :=
  ∃ frames kind, state.allocator.capDerivationTree = BlockTree.plug frames (Node.leaf kind) ∧
    BlockTree.holeBlock Node.root frames = held ∧
    Consistent base built (held :: live) reserved (BlockTree.plug frames (Node.consumedLeaf kind))
      state.allocator.leafNodes.count state.allocator.cregion

namespace Allocator

variable {sizes : Sizes} {kernel : Kernel K} {state final : Machine K}

/-! ## The calls on the parts -/

theorem allocSlot_eq_ok {slot : Slot} (run : allocSlot state = .ok slot final) :
    ∃ cregion, state.allocator.cregion.alloc = some (some slot, cregion) ∧
      final = withCRegion cregion state := by
  simp only [allocSlot, Exec.bind_eq_ok, Exec.runs_eq_ok, Option.map_eq_some_iff,
    Exec.unwrap_eq_ok, Prod.mk.injEq] at run
  obtain ⟨answer, middle, ⟨⟨found, cregion⟩, allocated, answered, moved⟩, isSome, same⟩ := run
  subst answered isSome moved same
  exact ⟨cregion, allocated, rfl⟩

theorem allocSlot_sound {slot : Slot} (sound : Sound base built live reserved state)
    (run : allocSlot state = .ok slot final) : Sound base built live (slot :: reserved) final := by
  obtain ⟨cregion, allocated, rfl⟩ := allocSlot_eq_ok run
  exact Consistent.alloc sound allocated

theorem allocSlot_holding {slot : Slot} {held : UntypedId}
    (holding : Holding base built live reserved held state) (run : allocSlot state = .ok slot final) :
    Holding base built live (slot :: reserved) held final := by
  obtain ⟨cregion, allocated, rfl⟩ := allocSlot_eq_ok run
  obtain ⟨frames, kind, isTree, isHole, consistent⟩ := holding
  exact ⟨frames, kind, isTree, isHole, consistent.alloc allocated⟩

/-- The kernel's state plays no part in the invariant. -/
theorem onKernel_allocator {call : Exec Failure K Unit} (run : onKernel call state = .ok () final) :
    final.allocator = state.allocator := by
  obtain ⟨inner, _, rfl⟩ := Exec.focus_eq_ok.mp run
  rfl

/-! ## Splitting and consuming -/

/-- Taking a leaf of the index. -/
theorem getLeaf_holding {sizeBits : Nat} {leaf : UntypedId}
    (sound : Sound base built live reserved state) (run : getLeaf sizeBits state = .ok leaf final) :
    Holding base built live reserved leaf final ∧ sizeBits ≤ leaf.sizeBits := by
  simp only [getLeaf, Exec.runs_eq_ok, Option.map_eq_some_iff, Prod.mk.injEq] at run
  obtain ⟨⟨found, leaves⟩, taken, rfl, rfl⟩ := run
  obtain ⟨large, counts⟩ := LeafNodes.getLeaf_spec taken
  refine ⟨?_, large⟩
  have isFree : found ∈ Node.freeIds 0 64 state.allocator.capDerivationTree := by
    rw [← List.count_pos_iff, ← sound.listed found, ← counts found]
    simp
  obtain ⟨frames, hole, isTree, deletable, filled, isHole⟩ :=
    BlockTree.exists_plug_of_mem _ 0 64 found isFree
  obtain ⟨kind, rfl⟩ := Node.eq_leaf_of_isDeletable deletable
  have consistent : Consistent base built live reserved (BlockTree.plug frames (Node.leaf kind))
      state.allocator.leafNodes.count state.allocator.cregion := isTree ▸ sound
  exact ⟨frames, kind, isTree.symm, isHole, consistent.consume isHole counts⟩

/-- What is done to a node of the tree is done in place. -/
theorem withNode_eq_ok {α : Type} {frames : List (BlockTree.Frame NodeType)} {hole : Node}
    {untypedId : UntypedId} {borrow : CRegion → Node → Option (α × Node)} {value : α}
    (isTree : state.allocator.capDerivationTree = BlockTree.plug frames hole)
    (filled : hole ≠ .empty) (shallow : frames.length ≤ 64)
    (isHole : BlockTree.holeBlock Node.root frames = untypedId)
    (run : withNode untypedId borrow state = .ok value final) :
    ∃ node, borrow state.allocator.cregion hole = some (value, node) ∧
      final = withTree (BlockTree.plug frames node) state := by
  simp only [withNode, Exec.runs_eq_ok, isTree, Node.getNodeMut_plug filled shallow isHole,
    Option.map_map, Option.map_eq_some_iff, Function.comp, Prod.mk.injEq] at run
  obtain ⟨⟨found, node⟩, borrowed, rfl, rfl⟩ := run
  exact ⟨node, borrowed, rfl⟩

theorem splitUntyped_eq_ok {held : UntypedId} {children : UntypedId × UntypedId}
    (run : splitUntyped kernel held state = .ok children final) :
    ∃ leftSlot middle rightSlot last localCPtr after,
      allocSlot state = .ok leftSlot middle ∧ allocSlot middle = .ok rightSlot last ∧
      withNode held (splitNode leftSlot rightSlot) last = .ok localCPtr after ∧
      children = (held.lower, held.upper) ∧
      final.allocator = { after.allocator with
        leafNodes := (after.allocator.leafNodes.addLeaf held.lower).addLeaf held.upper } := by
  simp only [splitUntyped, addLeaf, Exec.bind_eq_ok, Exec.get_eq_ok, Exec.pure_eq_ok,
    Exec.modify_eq_ok] at run
  obtain ⟨leftSlot, middle, leftRun, rightSlot, last, rightRun, localCPtr, after, nodeRun, _, _,
    ⟨rfl, rfl⟩, ⟨⟩, afterFirst, firstRun, ⟨⟩, afterSecond, secondRun, ⟨⟩, afterAdd, rfl, ⟨⟩,
    afterAddRight, rfl, isChildren, rfl⟩ := run
  refine ⟨leftSlot, middle, rightSlot, last, localCPtr, _, leftRun, rightRun, nodeRun,
    isChildren.symm, ?_⟩
  have unchanged := (onKernel_allocator secondRun).trans (onKernel_allocator firstRun)
  simp only [withLeaves, unchanged, Block.lower, Block.upper]

/-- Splitting a held node hands over to its upper half, once that is out of the index. -/
theorem splitUntyped_holding {held : UntypedId} {children : UntypedId × UntypedId}
    {leaves : LeafNodes} (holding : Holding base built live reserved held state)
    (divisible : 0 < held.sizeBits) (run : splitUntyped kernel held state = .ok children final)
    (removed : final.allocator.leafNodes.removeLeaf children.2 = some leaves) :
    children.2 = held.upper ∧ Holding base built live reserved held.upper (withLeaves leaves final) := by
  obtain ⟨leftSlot, middle, rightSlot, last, localCPtr, after, leftRun, rightRun, nodeRun, rfl,
    isFinal⟩ := splitUntyped_eq_ok run
  obtain ⟨frames, kind, isTree, isHole, consistent⟩ :=
    allocSlot_holding (allocSlot_holding holding leftRun) rightRun
  obtain ⟨shallow, sized⟩ := consistent.hole_bounds (by simp [Node.consumedLeaf])
  obtain ⟨node, borrowed, rfl⟩ :=
    withNode_eq_ok isTree (by simp [Node.leaf]) shallow isHole nodeRun
  have isSplit : node = .node (.accessible false kind) (Node.leaf (.managed leftSlot))
      (Node.leaf (.managed rightSlot)) := by
    simp only [splitNode, Node.leaf, Node.isConsumed, Bool.false_eq_true, if_false,
      Option.map_eq_some_iff, Prod.mk.injEq] at borrowed
    obtain ⟨_, _, _, isNode⟩ := borrowed
    exact isNode.symm
  subst isSplit
  -- The index gained both halves and lost the upper one again.
  have counts : ∀ id, leaves.count id =
      last.allocator.leafNodes.count id + if held.lower = id then 1 else 0 := by
    have isListed : 0 < final.allocator.leafNodes.count held.upper := by
      simp [isFinal, LeafNodes.count_addLeaf]
    obtain ⟨leaves', removed', counts⟩ := LeafNodes.removeLeaf_spec isListed
    obtain rfl := Option.some.inj (removed'.symm.trans removed)
    intro id
    have change := counts id
    simp only [isFinal, withTree, LeafNodes.count_addLeaf] at change
    omega
  have halves := consistent.split isHole divisible counts
  refine ⟨rfl, .upper (.accessible false kind) (Node.leaf (.managed leftSlot)) :: frames,
    .managed rightSlot, ?_, ?_, ?_⟩
  · rw [BlockTree.plug_cons]
    simp only [withLeaves, isFinal, withTree, BlockTree.Frame.fill]
  · simp [BlockTree.holeBlock, isHole]
  · simp only [withLeaves, isFinal, withTree]
    exact halves

/-- The loop of `create_object` ends with a node of the requested size. -/
theorem splitTimes_holding (times : Nat) :
    ∀ {held result : UntypedId} {state final : Machine K},
      Holding base built live reserved held state → times ≤ held.sizeBits →
      splitTimes kernel times held state = .ok result final →
      Holding base built live reserved result final := by
  induction times with
  | zero =>
      intro held result state final holding _ run
      simp only [splitTimes, Exec.pure_eq_ok] at run
      obtain ⟨rfl, rfl⟩ := run
      exact holding
  | succ times ih =>
      intro held result state final holding large run
      simp only [splitTimes, Exec.bind_eq_ok, removeLeaf, Exec.runs_eq_ok, Option.map_eq_some_iff,
        Prod.mk.injEq] at run
      obtain ⟨children, middle, splitRun, _, _, ⟨leaves, removed, _, rfl⟩, rest⟩ := run
      obtain ⟨isUpper, holding⟩ := splitUntyped_holding holding (by omega) splitRun removed
      rw [isUpper] at rest
      exact ih holding (by simp only [Block.upper]; omega) rest

/-- Consuming the held node makes it a live one. -/
theorem consumeNode_sound {held : UntypedId} {localCPtr : CPtr}
    (holding : Holding base built live reserved held state)
    (run : withNode held consumeNode state = .ok localCPtr final) :
    Sound base built (held :: live) reserved final := by
  obtain ⟨frames, kind, isTree, isHole, consistent⟩ := holding
  obtain ⟨shallow, sized⟩ := consistent.hole_bounds (by simp [Node.consumedLeaf])
  obtain ⟨node, borrowed, rfl⟩ := withNode_eq_ok isTree (by simp [Node.leaf]) shallow isHole run
  have isConsumed : node = Node.consumedLeaf kind := by
    simp only [consumeNode, Node.leaf, Node.setConsumed, Option.bind_some, Option.map_eq_some_iff,
      Prod.mk.injEq] at borrowed
    obtain ⟨_, _, _, isNode⟩ := borrowed
    exact isNode.symm
  subst isConsumed
  exact consistent

theorem createObject_sound {destinationCNode : RelativeCPtr} {slot : Slot}
    {blueprint : ObjectBlueprint} {untypedId : UntypedId} (sound : Sound base built live reserved state)
    (run : createObject sizes kernel destinationCNode slot blueprint state = .ok untypedId final) :
    Sound base built (untypedId :: live) reserved final := by
  simp only [createObject, Exec.bind_eq_ok, Exec.pure_eq_ok] at run
  obtain ⟨leaf, afterLeaf, leafRun, held, afterSplit, splitRun, localCPtr, afterNode, nodeRun, ⟨⟩,
    afterRetype, retypeRun, rfl, rfl⟩ := run
  obtain ⟨holding, large⟩ := getLeaf_holding sound leafRun
  have consumed := consumeNode_sound (splitTimes_holding _ holding (by omega) splitRun) nodeRun
  simp only [Sound, onKernel_allocator retypeRun]
  exact consumed

/-! ## The two public calls -/

theorem createCnode_sound {radix : Nat} {realmCRegion : CRegion} {untypedId : UntypedId}
    {realmSlot : Slot} (sound : Sound base built live reserved state)
    (run : createCnode sizes kernel radix state = .ok (realmCRegion, untypedId, realmSlot) final) :
    Sound base built (untypedId :: live) (realmSlot :: reserved) final := by
  simp only [createCnode, Exec.bind_eq_ok, Exec.get_eq_ok, Exec.unwrap_eq_ok, Exec.pure_eq_ok,
    Prod.mk.injEq] at run
  obtain ⟨slot, afterSlot, slotRun, _, _, ⟨rfl, rfl⟩, cregion, _, ⟨isCRegion, rfl⟩, tempSlot,
    afterTemp, tempRun, created, afterObject, objectRun, ⟨⟩, afterMutate, mutateRun, ⟨⟩,
    afterDelete, deleteRun, ⟨⟩, afterFree, freeRun, ⟨_, isCreated, isSlot⟩, rfl⟩ := run
  subst isCreated isSlot
  have object := createObject_sound (allocSlot_sound (allocSlot_sound sound slotRun) tempRun)
    objectRun
  have unchanged := (onKernel_allocator deleteRun).trans (onKernel_allocator mutateRun)
  simp only [freeSlot, Exec.runs_eq_ok, Option.map_eq_some_iff, Prod.mk.injEq, unchanged] at freeRun
  obtain ⟨cregion', freed, _, rfl⟩ := freeRun
  obtain ⟨cregion'', freed', consistent⟩ := Consistent.free object
  obtain rfl := Option.some.inj (freed'.symm.trans freed)
  simp only [Sound, withCRegion, unchanged]
  exact consistent

theorem createObjects_sound (blueprints : List ObjectBlueprint) :
    ∀ {live : List UntypedId} {realmCRegion realmCRegion' : CRegion} {slots : List Slot}
      {untypedIds : List UntypedId} {state final : Machine K},
      Sound base built live reserved state →
      createObjects sizes kernel blueprints realmCRegion state =
        .ok (realmCRegion', slots, untypedIds) final →
      Sound base built (untypedIds.reverse ++ live) reserved final := by
  induction blueprints with
  | nil =>
      intro live realmCRegion realmCRegion' slots untypedIds state final sound run
      simp only [createObjects, Exec.pure_eq_ok, Prod.mk.injEq] at run
      obtain ⟨⟨_, _, rfl⟩, rfl⟩ := run
      exact sound
  | cons blueprint blueprints ih =>
      intro live realmCRegion realmCRegion' slots untypedIds state final sound run
      simp only [createObjects, Exec.bind_eq_ok, Exec.unwrap_eq_ok, Exec.pure_eq_ok,
        Prod.mk.injEq] at run
      obtain ⟨allocated, _, ⟨_, rfl⟩, slot, _, ⟨_, rfl⟩, untypedId, middle, objectRun, rest, last,
        restRun, ⟨_, _, rfl⟩, rfl⟩ := run
      have tail := ih (createObject_sound sound objectRun) restRun
      simpa using tail

end Allocator

end IceCap.Dyndl
