import IceCap.Dyndl.Node

/-!
# The object allocator

`AllocatorBuilder` and `Allocator` of `allocator/mod.rs`, over an arbitrary
kernel.  A call runs on the allocator together with the kernel's state.  The
kernel calls the code unwraps panic when the kernel refuses; the ones under `?`
return the kernel's error and leave the allocator as it is at that point.
-/

set_option autoImplicit false

namespace IceCap.Dyndl

open IceCap.Library IceCap.Sel4

structure ElaboratedUntyped where
  cptr : CPtr
  untypedId : UntypedId
  deriving DecidableEq, Repr

structure Allocator where
  cregion : CRegion
  fragmentationThresholdSizeBits : Nat
  capDerivationTree : Node
  leafNodes : LeafNodes

structure AllocatorBuilder where
  cregion : CRegion
  fragmentationThresholdSizeBits : Nat
  untyped : List ElaboratedUntyped

namespace AllocatorBuilder

def new (cregion : CRegion) : AllocatorBuilder := ⟨cregion, 0, []⟩

def addUntyped (builder : AllocatorBuilder) (untyped : ElaboratedUntyped) : AllocatorBuilder :=
  { builder with untyped := builder.untyped ++ [untyped] }

def setFragmentationThresholdSizeBits (builder : AllocatorBuilder) (sizeBits : Nat) :
    AllocatorBuilder :=
  { builder with fragmentationThresholdSizeBits := sizeBits }

def builtInNode (cptr : CPtr) : Node := .node (.accessible false (.builtIn cptr)) .empty .empty

/-- The walk down to the node of the untyped, creating the missing nodes as `Inaccessible`. -/
def placeBuiltIn (untyped : ElaboratedUntyped) : Nat → Nat → Nat → Node → Node
  | 0, _, _, _ => builtInNode untyped.cptr
  | depth + 1, low, high, node =>
      if untyped.untypedId.sizeBits < depth + 1 then
        match (if node.isEmpty then Node.new else node) with
        | .empty => .empty
        | .node label left right =>
            if untyped.untypedId.paddr < Node.halfAddr low high then
              .node label (placeBuiltIn untyped depth low (Node.halfAddr low high - 1) left) right
            else
              .node label left (placeBuiltIn untyped depth (Node.halfAddr low high) high right)
      else builtInNode untyped.cptr

/-- One round of the loop of `build`. -/
def buildOne (allocator : Allocator) (untyped : ElaboratedUntyped) : Option Allocator :=
  if untyped.untypedId.paddr = 0 ∧ untyped.untypedId.sizeBits = 64 then none
  else if Node.maxAddr < untyped.untypedId.paddr then none
  else if 64 < untyped.untypedId.sizeBits then none
  else some { allocator with
    capDerivationTree := placeBuiltIn untyped 64 0 Node.maxAddr allocator.capDerivationTree
    leafNodes := allocator.leafNodes.addLeaf untyped.untypedId }

def buildAll : List ElaboratedUntyped → Allocator → Option Allocator
  | [], allocator => some allocator
  | untyped :: rest, allocator => (buildOne allocator untyped).bind (buildAll rest)

def build (builder : AllocatorBuilder) : Option Allocator :=
  buildAll builder.untyped
    ⟨builder.cregion, builder.fragmentationThresholdSizeBits, Node.new, LeafNodes.new⟩

end AllocatorBuilder

/-- An allocator and the kernel it runs on. -/
structure Machine (K : Type) where
  allocator : Allocator
  kernel : K

namespace Allocator

variable {K : Type} (sizes : Sizes) (kernel : Kernel K)

/-! ## Calls on the parts of the allocator -/

def withCRegion (cregion : CRegion) (state : Machine K) : Machine K :=
  { state with allocator := { state.allocator with cregion := cregion } }

def withTree (tree : Node) (state : Machine K) : Machine K :=
  { state with allocator := { state.allocator with capDerivationTree := tree } }

def withLeaves (leaves : LeafNodes) (state : Machine K) : Machine K :=
  { state with allocator := { state.allocator with leafNodes := leaves } }

def onKernel (call : Exec Failure K Unit) : Exec Failure (Machine K) Unit :=
  Exec.focus Machine.kernel (fun inner state => { state with kernel := inner }) call

/-- `self.cregion.alloc().unwrap()`. -/
def allocSlot : Exec Failure (Machine K) Slot := do
  let slot ← Exec.runs fun state => state.allocator.cregion.alloc.map fun result =>
    (result.1, withCRegion result.2 state)
  Exec.unwrap slot

/-- `self.cregion.free(slot)`. -/
def freeSlot (slot : Slot) : Exec Failure (Machine K) Unit :=
  Exec.runs fun state => (state.allocator.cregion.free slot).map fun cregion =>
    ((), withCRegion cregion state)

def addLeaf (untypedId : UntypedId) : Exec Failure (Machine K) Unit :=
  Exec.modify fun state => withLeaves (state.allocator.leafNodes.addLeaf untypedId) state

def getLeaf (sizeBits : Nat) : Exec Failure (Machine K) UntypedId :=
  Exec.runs fun state => (state.allocator.leafNodes.getLeaf sizeBits).map fun result =>
    (result.1, withLeaves result.2 state)

def removeLeaf (untypedId : UntypedId) : Exec Failure (Machine K) Unit :=
  Exec.runs fun state => (state.allocator.leafNodes.removeLeaf untypedId).map fun leaves =>
    ((), withLeaves leaves state)

/-- `Node::get_node_mut(&mut self.cap_derivation_tree, &untyped_id)` and what is done with it. -/
def withNode {α : Type} (untypedId : UntypedId) (borrow : CRegion → Node → Option (α × Node)) :
    Exec Failure (Machine K) α :=
  Exec.runs fun state =>
    (Node.getNodeMut state.allocator.capDerivationTree untypedId
      (borrow state.allocator.cregion)).map fun result => (result.1, withTree result.2 state)

/-! ## Space -/

/-- `consumable_space`, in the wrapping arithmetic of `usize`. -/
def consumableSpace (leaves : LeafNodes) : Nat :=
  leaves.leafNodes.toList.foldl
    (fun total entry => (total + 2 ^ (entry.1 % 64) * entry.2.length) % 2 ^ 64) 0

def requiredSpace (countBySizeBits : List Nat) : Nat :=
  (countBySizeBits.zipIdx).foldl
    (fun total entry => (total + 2 ^ (entry.2 % 64) * entry.1) % 2 ^ 64) 0

def peekSpace (allocator : Allocator) (countBySizeBits : List Nat) : Bool :=
  decide (requiredSpace countBySizeBits ≤ consumableSpace allocator.leafNodes)

/-! ## Creating objects -/

def managedNode (slot : Slot) : Node := .node (.accessible false (.managed slot)) .empty .empty

/-- `assert!(!node.is_consumed())`, the local cptr, and the two new children.  A refused retype
panics, so it makes no difference that the children are set before the kernel is asked. -/
def splitNode (leftSlot rightSlot : Slot) (cregion : CRegion) : Node → Option (CPtr × Node)
  | .empty => none
  | .node label left right =>
      if Node.isConsumed (.node label left right) then none
      else (Node.localCPtr cregion (.node label left right)).map fun localCPtr =>
        (localCPtr, .node label (managedNode leftSlot) (managedNode rightSlot))

def splitUntyped (untypedId : UntypedId) : Exec Failure (Machine K) (UntypedId × UntypedId) := do
  let newSizeBits := untypedId.sizeBits - 1
  let leftSlot ← allocSlot
  let rightSlot ← allocSlot
  let localCPtr ← withNode untypedId (splitNode leftSlot rightSlot)
  let state ← Exec.get
  onKernel (kernel.callUnwrap (.retype localCPtr (.untyped newSizeBits)
    state.allocator.cregion.root (UInt64.ofNat leftSlot) 1))
  onKernel (kernel.callUnwrap (.retype localCPtr (.untyped newSizeBits)
    state.allocator.cregion.root (UInt64.ofNat rightSlot) 1))
  let leftChild : UntypedId := ⟨untypedId.paddr, newSizeBits⟩
  addLeaf leftChild
  let rightChild : UntypedId := ⟨untypedId.paddr + 2 ^ newSizeBits, newSizeBits⟩
  addLeaf rightChild
  pure (leftChild, rightChild)

/-- The loop of `create_object`, down the right side of the tree. -/
def splitTimes : Nat → UntypedId → Exec Failure (Machine K) UntypedId
  | 0, untypedId => pure untypedId
  | times + 1, untypedId => do
      let children ← splitUntyped kernel untypedId
      removeLeaf children.2
      splitTimes times children.2

/-- `node.set_consumed(true)` and `node.local_cptr(&self.cregion)`. -/
def consumeNode (cregion : CRegion) (node : Node) : Option (CPtr × Node) :=
  (Node.setConsumed true node).bind fun consumed =>
    (Node.localCPtr cregion consumed).map fun localCPtr => (localCPtr, consumed)

def createObject (destinationCNode : RelativeCPtr) (slot : Slot) (blueprint : ObjectBlueprint) :
    Exec Failure (Machine K) UntypedId := do
  let physSizeBits := blueprint.physicalSizeBits sizes
  let leaf ← getLeaf physSizeBits
  let untypedId ← splitTimes kernel (leaf.sizeBits - physSizeBits) leaf
  let localCPtr ← withNode untypedId consumeNode
  onKernel (kernel.callUnwrap (.retype localCPtr blueprint destinationCNode (UInt64.ofNat slot) 1))
  pure untypedId

def createCnode (radix : Nat) : Exec Failure (Machine K) (CRegion × UntypedId × Slot) := do
  let realmSlot ← allocSlot
  let state ← Exec.get
  let realmCNode := state.allocator.cregion.relativeCPtr realmSlot
  let guardSize := 64 - UInt64.ofNat realmCNode.path.depth - UInt64.ofNat radix
  let realmCRegion ← Exec.unwrap (CRegion.new realmCNode 0 guardSize radix)
  let tempSlot ← allocSlot
  let tempRelCPtr := state.allocator.cregion.relativeCPtr tempSlot
  let untypedId ← createObject sizes kernel state.allocator.cregion.root tempSlot (.cnode radix)
  onKernel (kernel.call (.mutate realmCRegion.root tempRelCPtr ⟨0, guardSize⟩))
  onKernel (kernel.call (.delete tempRelCPtr))
  freeSlot tempSlot
  pure (realmCRegion, untypedId, realmSlot)

/-- The realm's own CNode is passed in and handed back with the slots taken. -/
def createObjects : List ObjectBlueprint → CRegion →
    Exec Failure (Machine K) (CRegion × List Slot × List UntypedId)
  | [], realmCRegion => pure (realmCRegion, [], [])
  | blueprint :: blueprints, realmCRegion => do
      let allocated ← Exec.unwrap realmCRegion.alloc
      let slot ← Exec.unwrap allocated.1
      let untypedId ← createObject sizes kernel allocated.2.root slot blueprint
      let rest ← createObjects blueprints allocated.2
      pure (rest.1, slot :: rest.2.1, untypedId :: rest.2.2)

/-! ## Freeing objects -/

/-- `node.relative_cptr(&self.cregion).revoke()?`. -/
def revokeNode (node : Node) : Exec Failure (Machine K) Unit := do
  let state ← Exec.get
  let target ← Exec.unwrap (Node.relativeCPtr state.allocator.cregion node)
  onKernel (kernel.call (.revoke target))

/-- Clean up one child of a node that is about to be merged. -/
def dropChild (child : Node) (untypedId : UntypedId) : Exec Failure (Machine K) Unit :=
  if child.isEmpty then pure ()
  else do
    let slot ← Exec.unwrap (Node.getSlot child)
    freeSlot slot
    removeLeaf untypedId

/-- The end of `revoke_and_free_helper`, on the way back up the tree. -/
def mergeChildren (low high depthFromRoot : Nat) : Node → Exec Failure (Machine K) Node
  | .empty => Exec.panic
  | .node label left right =>
      if Node.isAccessible (.node label left right) = true ∧
          (left.isEmpty = true ∨ Node.isDeletable left = true) ∧
          (right.isEmpty = true ∨ Node.isDeletable right = true) then do
        dropChild left ⟨low, 64 - (depthFromRoot + 1)⟩
        dropChild right ⟨Node.halfAddr low high, 64 - (depthFromRoot + 1)⟩
        revokeNode kernel (.node label .empty .empty)
        addLeaf ⟨low, 64 - depthFromRoot⟩
        pure (.node label .empty .empty)
      else pure (.node label left right)

/-- Recursing into a missing child is the failed `assert!(!node.left.is_none())`. -/
def revokeAndFreeHelper (untypedId : UntypedId) :
    Nat → Nat → Nat → Node → Exec Failure (Machine K) Node
  | _, _, _, .empty => Exec.panic
  | low, high, depthFromRoot, .node label left right =>
      if 64 - depthFromRoot = untypedId.sizeBits then do
        Exec.assert (Node.isAccessible (.node label left right) = true)
        Exec.assert (Node.isConsumed (.node label left right) = true)
        Exec.assert (left.isEmpty = true ∧ right.isEmpty = true)
        Exec.assert (low = untypedId.paddr)
        revokeNode kernel (.node label left right)
        let freed ← Exec.unwrap (Node.setConsumed false (.node label left right))
        addLeaf untypedId
        pure freed
      else do
        Exec.assert (low ≤ untypedId.paddr ∧ untypedId.paddr ≤ high)
        if untypedId.paddr < Node.halfAddr low high then do
          let child ← revokeAndFreeHelper untypedId low (Node.halfAddr low high - 1)
            (depthFromRoot + 1) left
          mergeChildren kernel low high depthFromRoot (.node label child right)
        else do
          let child ← revokeAndFreeHelper untypedId (Node.halfAddr low high) high
            (depthFromRoot + 1) right
          mergeChildren kernel low high depthFromRoot (.node label left child)

/-- The tree is cloned, and the clone written back only when the helper returns `Ok`. -/
def revokeAndFree (untypedId : UntypedId) : Exec Failure (Machine K) Unit := do
  let state ← Exec.get
  let node ← revokeAndFreeHelper kernel untypedId 0 Node.maxAddr 0
    state.allocator.capDerivationTree
  Exec.modify (withTree node)

end Allocator

end IceCap.Dyndl
