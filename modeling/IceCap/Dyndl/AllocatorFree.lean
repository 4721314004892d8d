import IceCap.Dyndl.AllocatorCreate

/-!
# Freeing an object

`revoke_and_free` walks down to the node, gives it up, and on the way back
merges every parent whose two children are consumable.  So the call is one step at the
node followed by a climb over the frames above it.  `Released` is what holds at
each level of the climb until a parent does not merge.

None of the assertions on the way can fail; how the call ends is up to the
kernel, which is asked to revoke the node and the parents that merge.
-/

set_option autoImplicit false

namespace IceCap.Dyndl

open IceCap.Library IceCap.Sel4

variable {K : Type} {base : CRegion} {built : Node} {live : List UntypedId} {reserved : List Slot}

namespace Allocator

variable {kernel : Kernel K} {state final : Machine K}

/-! ## Giving up a node -/

/-- The capability of a node, as a revoke names it. -/
def revokeTarget (cregion : CRegion) : AccessibleNodeType → RelativeCPtr
  | .builtIn localCPtr => relative cregion.context localCPtr
  | .managed slot => cregion.relativeCPtr slot

/-- What the kernel is asked for. -/
def revocations (kernel : Kernel K) (cregion : CRegion) (kinds : List AccessibleNodeType) :
    Exec Failure K Unit :=
  Exec.forEach kinds fun kind => kernel.call (.revoke (revokeTarget cregion kind))

/-- Revoke a node and list it. -/
def giveUp (kernel : Kernel K) (consumed : Bool) (kind : AccessibleNodeType) (untypedId : UntypedId) :
    Exec Failure (Machine K) Node := do
  revokeNode kernel (.node (.accessible consumed kind) .empty .empty)
  addLeaf untypedId
  pure (Node.leaf kind)

theorem revokeNode_apply {consumed : Bool} {kind : AccessibleNodeType} :
    revokeNode kernel (.node (.accessible consumed kind) .empty .empty) state =
      onKernel (kernel.call (.revoke (revokeTarget state.allocator.cregion kind))) state := by
  cases kind <;> rfl

theorem giveUp_eq_ok {consumed : Bool} {kind : AccessibleNodeType} {untypedId : UntypedId} {after : K}
    (granted : kernel.call (.revoke (revokeTarget state.allocator.cregion kind)) state.kernel =
      .ok () after) :
    giveUp kernel consumed kind untypedId state = .ok (Node.leaf kind)
      (withLeaves (state.allocator.leafNodes.addLeaf untypedId) { state with kernel := after }) := by
  simp only [giveUp, Exec.bind_eq_ok, revokeNode_apply, onKernel, Exec.focus_eq_ok, addLeaf,
    Exec.modify_eq_ok, Exec.pure_eq_ok]
  exact ⟨(), _, ⟨after, granted, rfl⟩, (), _, rfl, trivial, rfl⟩

theorem giveUp_eq_err {consumed : Bool} {kind : AccessibleNodeType} {untypedId : UntypedId} {after : K}
    {error : Failure}
    (refused : kernel.call (.revoke (revokeTarget state.allocator.cregion kind)) state.kernel =
      .err error after) :
    giveUp kernel consumed kind untypedId state = .err error { state with kernel := after } := by
  rw [giveUp, Exec.bind_eq_err, revokeNode_apply, onKernel, Exec.focus_eq_err]
  exact .inl ⟨after, refused, rfl⟩

/-! ## Merging two children -/

/-- A child that is about to be merged gives back its slot and leaves the index. -/
theorem dropChild_ok {slot : Slot} (untypedId : UntypedId) {tree : Node}
    {count : UntypedId → Nat}
    (consistent : Consistent base built live (slot :: reserved) tree count state.allocator.cregion)
    (isListed : 0 < state.allocator.leafNodes.count untypedId) :
    ∃ final, dropChild (Node.leaf (.managed slot)) untypedId state = .ok () final ∧
      final.kernel = state.kernel ∧
      final.allocator.cregion = { state.allocator.cregion with
        set := ⟨state.allocator.cregion.set.elements.insert slot false⟩ } ∧
      Consistent base built live reserved tree count final.allocator.cregion ∧
      ∀ id, final.allocator.leafNodes.count id + (if untypedId = id then 1 else 0) =
        state.allocator.leafNodes.count id := by
  obtain ⟨cregion, freed, kept⟩ := consistent.free
  obtain ⟨leaves, removed, counts⟩ := LeafNodes.removeLeaf_spec isListed
  refine ⟨withLeaves leaves (withCRegion cregion state), ?_, rfl, CRegion.free_spec freed, kept,
    counts⟩
  have isSlot : Node.getSlot (Node.leaf (.managed slot)) = some slot := rfl
  rw [dropChild, if_neg (by simp [Node.leaf, BlockTree.isEmpty])]
  simp only [Exec.bind_eq_ok, Exec.unwrap_eq_ok, freeSlot, removeLeaf, Exec.runs_eq_ok]
  refine ⟨slot, state, ⟨isSlot, rfl⟩, (), withCRegion cregion state, ?_, ?_⟩
  · rw [freed]
    rfl
  · simp only [withCRegion, removed]
    rfl

/-- The machine has given slots back and done nothing else to its CNode. -/
structure GivesBack (before after : CRegion) : Prop where
  target : ∀ kind, revokeTarget after kind = revokeTarget before kind
  used : ∀ slot, after.Used slot → before.Used slot

theorem GivesBack.trans {first second third : CRegion} (earlier : GivesBack first second)
    (later : GivesBack second third) : GivesBack first third :=
  ⟨fun kind => (later.target kind).trans (earlier.target kind),
    fun slot isUsed => earlier.used slot (later.used slot isUsed)⟩

theorem GivesBack.insert {cregion : CRegion} {slot : Slot} :
    GivesBack cregion { cregion with set := ⟨cregion.set.elements.insert slot false⟩ } := by
  refine ⟨fun kind => by cases kind <;> rfl, fun other isUsed => ?_⟩
  rw [CRegion.Used, Std.TreeMap.getElem?_insert] at isUsed
  split at isUsed
  · simp at isUsed
  · exact isUsed

/-- Two consumable halves give way to their parent, which is then given up. -/
theorem mergeChildren_due {frames : List (BlockTree.Frame NodeType)}
    {parentKind : AccessibleNodeType} {leftSlot rightSlot : Slot} {count : UntypedId → Nat}
    {low depth : Nat} (divisible : depth < 64)
    (listed : ∀ id, state.allocator.leafNodes.count id = count id +
      (if (Block.mk low (64 - depth)).lower = id then 1 else 0) +
      if (Block.mk low (64 - depth)).upper = id then 1 else 0)
    (consistent : Consistent base built (⟨low, 64 - depth⟩ :: live)
      (leftSlot :: rightSlot :: reserved)
      (BlockTree.plug frames (Node.consumedLeaf parentKind)) count state.allocator.cregion) :
    ∃ middle,
      mergeChildren kernel low (low + 2 ^ (64 - depth) - 1) depth
        (.node (.accessible false parentKind) (Node.leaf (.managed leftSlot))
          (Node.leaf (.managed rightSlot))) state =
        giveUp kernel false parentKind ⟨low, 64 - depth⟩ middle ∧
      middle.kernel = state.kernel ∧
      GivesBack state.allocator.cregion middle.allocator.cregion ∧
      state.allocator.cregion.Used rightSlot ∧ middle.allocator.cregion.Free rightSlot ∧
      (∀ id, middle.allocator.leafNodes.count id = count id) ∧
      Consistent base built (⟨low, 64 - depth⟩ :: live) reserved
        (BlockTree.plug frames (Node.consumedLeaf parentKind)) count middle.allocator.cregion := by
  obtain ⟨half, isHalf⟩ : ∃ half, 64 - depth = half + 1 := ⟨63 - depth, by omega⟩
  have isLeft : (⟨low, 64 - (depth + 1)⟩ : UntypedId) = (Block.mk low (64 - depth)).lower := by
    simp only [Block.lower]
    congr 1
  have isRight : (⟨Node.halfAddr low (low + 2 ^ (64 - depth) - 1), 64 - (depth + 1)⟩ : UntypedId) =
      (Block.mk low (64 - depth)).upper := by
    simp only [Block.upper, isHalf, Node.halfAddr_eq]
    congr 1
    omega
  obtain ⟨afterLeft, leftRun, leftKernel, leftSlots, leftKept, leftCounts⟩ := dropChild_ok
    (Block.mk low (64 - depth)).lower consistent (by rw [listed]; simp)
  obtain ⟨middle, rightRun, rightKernel, rightSlots, rightKept, rightCounts⟩ := dropChild_ok
    (Block.mk low (64 - depth)).upper leftKept (by
      have total := listed (Block.mk low (64 - depth)).upper
      have rest := leftCounts (Block.mk low (64 - depth)).upper
      simp only [if_true] at total
      omega)
  have gaveLeft : GivesBack state.allocator.cregion afterLeft.allocator.cregion :=
    leftSlots ▸ .insert
  have gaveRight : GivesBack afterLeft.allocator.cregion middle.allocator.cregion :=
    rightSlots ▸ .insert
  refine ⟨middle, ?_, rightKernel.trans leftKernel, gaveLeft.trans gaveRight,
    consistent.used (by simp), ?_, ?_, rightKept⟩
  · rw [mergeChildren, if_pos ⟨rfl, .inr rfl, .inr rfl⟩, isLeft, isRight]
    rw [Exec.bind_of_ok leftRun, Exec.bind_of_ok rightRun]
    rfl
  · rw [rightSlots, CRegion.Free, Std.TreeMap.getElem?_insert]
    simp
  · intro id
    have total := listed id
    have left := leftCounts id
    have right := rightCounts id
    omega

/-- Without two consumable children nothing happens. -/
theorem mergeChildren_keeps {low high depth : Nat} {label : NodeType} {left right : Node}
    (busy : label = .inaccessible ∨ (left ≠ .empty ∧ Node.isDeletable left = false) ∨
      (right ≠ .empty ∧ Node.isDeletable right = false)) :
    mergeChildren kernel low high depth (.node label left right) state =
      .ok (.node label left right) state := by
  rw [mergeChildren, if_neg]
  · rfl
  · rintro ⟨accessible, leftReady, rightReady⟩
    rcases busy with rfl | ⟨filled, notDeletable⟩ | ⟨filled, notDeletable⟩
    · simp [Node.isAccessible] at accessible
    · simp [filled, notDeletable] at leftReady
    · simp [filled, notDeletable] at rightReady

theorem isDeletable_fill_filled (frame : BlockTree.Frame NodeType) {child : Node}
    (filled : child ≠ .empty) : Node.isDeletable (frame.fill child) = false := by
  have notEmpty : child.isEmpty = false := by simpa using filled
  cases frame <;> simp [BlockTree.Frame.fill, Node.isDeletable, notEmpty]

/-! ## The climb -/

/-- The parents that merge once the node below them is consumable, up to the first that does not. -/
def merging : List (BlockTree.Frame NodeType) → List AccessibleNodeType
  | [] => []
  | frame :: frames =>
      match frame.label with
      | .inaccessible => []
      | .accessible _ kind => if Node.isDeletable frame.sibling then kind :: merging frames else []

/-- The way back up over the frames. -/
def climb (kernel : Kernel K) :
    List (BlockTree.Frame NodeType) → Node → Exec Failure (Machine K) Node
  | [], node => pure node
  | frame :: frames, node => do
      let parent ← mergeChildren kernel (BlockTree.holeBlock Node.root frames).paddr
        ((BlockTree.holeBlock Node.root frames).paddr + 2 ^ (64 - frames.length) - 1) frames.length
        (frame.fill node)
      climb kernel frames parent

/-- With everything settled the climb changes nothing. -/
theorem climb_settled (frames : List (BlockTree.Frame NodeType)) :
    ∀ {child : Node}, child ≠ .empty → Node.isDeletable child = false →
      climb kernel frames child state = .ok (BlockTree.plug frames child) state := by
  induction frames with
  | nil =>
      intro child _ _
      rfl
  | cons frame frames ih =>
      intro child filled busy
      have unmerged : mergeChildren kernel (BlockTree.holeBlock Node.root frames).paddr
          ((BlockTree.holeBlock Node.root frames).paddr + 2 ^ (64 - frames.length) - 1)
          frames.length (frame.fill child) state = .ok (frame.fill child) state := by
        cases frame with
        | lower label right => exact mergeChildren_keeps (.inr (.inl ⟨filled, busy⟩))
        | upper label left => exact mergeChildren_keeps (.inr (.inr ⟨filled, busy⟩))
      rw [climb, Exec.bind_of_ok unmerged, BlockTree.plug_cons]
      exact ih (BlockTree.fill_ne_empty _ _) (isDeletable_fill_filled frame filled)

/-- The node given up is listed, and its parent is next. -/
def Released (base : CRegion) (built : Node) (live : List UntypedId) (reserved : List Slot)
    (frames : List (BlockTree.Frame NodeType)) (kind : AccessibleNodeType) (state : Machine K) :
    Prop :=
  ∃ count, (∀ id, state.allocator.leafNodes.count id =
      count id + if BlockTree.holeBlock Node.root frames = id then 1 else 0) ∧
    Consistent base built (BlockTree.holeBlock Node.root frames :: live) reserved
      (BlockTree.plug frames (Node.consumedLeaf kind)) count state.allocator.cregion

/-- One level of the climb: the parent is given up in turn, or the climb is over. -/
theorem Released.level {frame : BlockTree.Frame NodeType} {frames : List (BlockTree.Frame NodeType)}
    {kind : AccessibleNodeType} (shallow : frames.length < 64)
    (released : Released base built live reserved (frame :: frames) kind state) :
    (merging (frame :: frames) = [] ∧
      climb kernel (frame :: frames) (Node.leaf kind) state =
        .ok (BlockTree.plug (frame :: frames) (Node.leaf kind)) state ∧
      Consistent base built live reserved (BlockTree.plug (frame :: frames) (Node.leaf kind))
        state.allocator.leafNodes.count state.allocator.cregion) ∨
    ∃ parentKind slot middle, merging (frame :: frames) = parentKind :: merging frames ∧
      climb kernel (frame :: frames) (Node.leaf kind) state =
        (giveUp kernel false parentKind (BlockTree.holeBlock Node.root frames) >>=
          climb kernel frames) middle ∧
      middle.kernel = state.kernel ∧ GivesBack state.allocator.cregion middle.allocator.cregion ∧
      state.allocator.cregion.Used slot ∧ middle.allocator.cregion.Free slot ∧
      Consistent base built (BlockTree.holeBlock Node.root frames :: live) reserved
        (BlockTree.plug frames (Node.consumedLeaf parentKind)) middle.allocator.leafNodes.count
        middle.allocator.cregion := by
  obtain ⟨count, listed, consistent⟩ := released
  have inOrder := Node.Skeleton.of_plug frames 64 _ (BlockTree.fill_ne_empty _ _)
    (.inl consistent.skeleton)
  have leafFilled : Node.leaf kind ≠ .empty := by simp [Node.leaf]
  have sized := (BlockTree.holeBlock_bounds Node.root frames (by
    simp only [Node.root]
    omega)).1
  obtain ⟨low, isParent⟩ : ∃ low, BlockTree.holeBlock Node.root frames =
      ⟨low, 64 - frames.length⟩ := ⟨_, Block.ext_iff.mpr ⟨rfl, sized⟩⟩
  by_cases due : frame.label ≠ .inaccessible ∧ Node.isDeletable frame.sibling = true
  · -- Both children are consumable: the parent takes their place.
    right
    obtain ⟨parentKind, slot, isLabel, rfl, siblingManaged⟩ :=
      (Node.parent_cases inOrder.2).resolve_left due.1
    obtain ⟨siblingKind, isSibling⟩ := Node.eq_leaf_of_isDeletable due.2
    obtain ⟨siblingSlot, rfl⟩ : ∃ siblingSlot, siblingKind = .managed siblingSlot := by
      rw [isSibling] at siblingManaged
      cases siblingKind with
      | builtIn localCPtr => simp [Node.isManaged, Node.leaf] at siblingManaged
      | managed siblingSlot => exact ⟨siblingSlot, rfl⟩
    obtain ⟨half, isHalf⟩ : ∃ half, 64 - frames.length = half + 1 :=
      ⟨63 - frames.length, by omega⟩
    have isMerging : merging (frame :: frames) = parentKind :: merging frames := by
      rw [merging, isLabel]
      exact if_pos due.2
    rw [isMerging, isParent]
    cases frame with
    | lower label right =>
        obtain rfl : label = .accessible false parentKind := isLabel
        obtain rfl : right = Node.leaf (.managed siblingSlot) := isSibling
        simp only [BlockTree.holeBlock, isParent] at listed consistent
        obtain ⟨count', counts, merged⟩ := consistent.merge
          (Block.mk low (64 - frames.length)).upper slot siblingSlot isParent
          (by rw [isHalf]; rfl) (by rw [isHalf]; rfl) (by cases parentKind <;> rfl)
        obtain ⟨middle, run, sameKernel, gave, isUsed, isFree, isCount, kept⟩ :=
          mergeChildren_due shallow (fun id => by rw [listed, counts]; omega) merged
        refine ⟨parentKind, siblingSlot, middle, rfl, ?_, sameKernel, gave, isUsed, isFree,
          funext isCount ▸ kept⟩
        rw [climb, isParent]
        exact Exec.bind_congr_apply run
    | upper label left =>
        obtain rfl : label = .accessible false parentKind := isLabel
        obtain rfl : left = Node.leaf (.managed siblingSlot) := isSibling
        simp only [BlockTree.holeBlock, isParent] at listed consistent
        obtain ⟨count', counts, merged⟩ := consistent.merge
          (Block.mk low (64 - frames.length)).lower siblingSlot slot isParent
          (by rw [isHalf]; rfl) (by rw [isHalf]; rfl) (by cases parentKind <;> rfl)
        obtain ⟨middle, run, sameKernel, gave, isUsed, isFree, isCount, kept⟩ :=
          mergeChildren_due shallow (fun id => by rw [listed, counts]) merged
        refine ⟨parentKind, slot, middle, rfl, ?_, sameKernel, gave, isUsed, isFree,
          funext isCount ▸ kept⟩
        rw [climb, isParent]
        exact Exec.bind_congr_apply run
  · -- The parent stays as it is, and so does everything above it.
    left
    have busy : frame.label = .inaccessible ∨ Node.isDeletable frame.sibling = false := by
      by_cases isLabel : frame.label = .inaccessible
      · exact .inl isLabel
      · exact .inr (by simpa [isLabel] using due)
    have siblingBusy : frame.label = .inaccessible ∨
        (frame.sibling ≠ .empty ∧ Node.isDeletable frame.sibling = false) := by
      rcases Node.parent_cases inOrder.2 with isLabel | ⟨_, _, isLabel, _, managed⟩
      · exact .inl isLabel
      · refine .inr ⟨?_, busy.resolve_left (by simp [isLabel])⟩
        simpa using Node.ne_empty_of_isManaged managed
    have unmerged : mergeChildren kernel (BlockTree.holeBlock Node.root frames).paddr
        ((BlockTree.holeBlock Node.root frames).paddr + 2 ^ (64 - frames.length) - 1)
        frames.length (frame.fill (Node.leaf kind)) state =
          .ok (frame.fill (Node.leaf kind)) state := by
      cases frame with
      | lower label right => exact mergeChildren_keeps (siblingBusy.imp_right .inr)
      | upper label left => exact mergeChildren_keeps (siblingBusy.imp_right .inl)
    refine ⟨?_, ?_, consistent.release rfl busy listed⟩
    · rw [merging]
      split
      · rfl
      · next isLabel =>
          have notDeletable := busy.resolve_left (by simp [isLabel])
          simp [notDeletable]
    · rw [climb, Exec.bind_of_ok unmerged, BlockTree.plug_cons]
      exact climb_settled frames (BlockTree.fill_ne_empty _ _)
        (isDeletable_fill_filled frame leafFilled)

theorem revocations_congr {before after : CRegion} (gave : GivesBack before after)
    (kinds : List AccessibleNodeType) :
    revocations kernel after kinds = revocations kernel before kinds := by
  unfold revocations
  simp only [gave.target]

/-- The climb ends as the kernel answers the revokes of the parents that merge; where it refuses
one, a slot has been given back before. -/
theorem Released.climb_ends (frames : List (BlockTree.Frame NodeType)) :
    ∀ {kind : AccessibleNodeType} {state : Machine K}, frames.length ≤ 64 →
      Released base built live reserved frames kind state →
      (∀ after, revocations kernel state.allocator.cregion (merging frames) state.kernel =
          .ok () after →
        ∃ node final, climb kernel frames (Node.leaf kind) state = .ok node final ∧
          Consistent base built live reserved node final.allocator.leafNodes.count
            final.allocator.cregion) ∧
      (∀ error after, revocations kernel state.allocator.cregion (merging frames) state.kernel =
          .err error after →
        ∃ slot final, climb kernel frames (Node.leaf kind) state = .err error final ∧
          state.allocator.cregion.Used slot ∧ final.allocator.cregion.Free slot) := by
  induction frames with
  | nil =>
      intro kind state _ released
      obtain ⟨count, listed, consistent⟩ := released
      refine ⟨fun after _ => ⟨Node.leaf kind, state, rfl, consistent.releaseRoot listed⟩,
        fun error after refused => ?_⟩
      simp [revocations, merging] at refused
  | cons frame frames ih =>
      intro kind state shallow released
      rw [List.length_cons] at shallow
      rcases released.level (by omega) with ⟨isLast, run, settled⟩ |
        ⟨parentKind, slot, middle, isMerging, run, sameKernel, gave, isUsed, isFree, kept⟩
      · rw [isLast, run]
        refine ⟨fun after _ => ⟨_, _, rfl, settled⟩, fun error after refused => ?_⟩
        simp [revocations] at refused
      · rw [isMerging, ← revocations_congr gave, ← sameKernel, run]
        have isFirst : revocations kernel middle.allocator.cregion (parentKind :: merging frames) =
            kernel.call (.revoke (revokeTarget middle.allocator.cregion parentKind)) >>=
              fun _ => revocations kernel middle.allocator.cregion (merging frames) := rfl
        rw [isFirst]
        cases asked : kernel.call (.revoke (revokeTarget middle.allocator.cregion parentKind))
            middle.kernel with
        | panic => exact absurd asked kernel.call_ne_panic
        | err failure refusedAt =>
            constructor
            · intro after granted
              obtain ⟨_, _, first, _⟩ := Exec.bind_eq_ok.mp granted
              simp [asked] at first
            · intro error after refused
              rcases Exec.bind_eq_err.mp refused with first | ⟨_, _, first, _⟩
              · obtain ⟨rfl, rfl⟩ := Outcome.err.inj (asked.symm.trans first)
                exact ⟨slot, _, Exec.bind_eq_err.mpr (.inl (giveUp_eq_err asked)), isUsed, isFree⟩
              · simp [asked] at first
        | ok value grantedAt =>
            have gaveUp := @giveUp_eq_ok _ _ _ false _
              (BlockTree.holeBlock Node.root frames) _ asked
            rw [Exec.bind_of_ok gaveUp]
            have next : Released base built live reserved frames parentKind
                (withLeaves (middle.allocator.leafNodes.addLeaf (BlockTree.holeBlock Node.root frames))
                  { middle with kernel := grantedAt }) :=
              ⟨middle.allocator.leafNodes.count, fun id => LeafNodes.count_addLeaf, kept⟩
            obtain ⟨ends, fails⟩ := ih (by omega) next
            constructor
            · intro after granted
              obtain ⟨_, _, first, rest⟩ := Exec.bind_eq_ok.mp granted
              obtain ⟨_, rfl⟩ := Outcome.ok.inj (asked.symm.trans first)
              exact ends after rest
            · intro error after refused
              rcases Exec.bind_eq_err.mp refused with first | ⟨_, _, first, rest⟩
              · simp [asked] at first
              · obtain ⟨_, rfl⟩ := Outcome.ok.inj (asked.symm.trans first)
                obtain ⟨other, final, failed, wasUsed, nowFree⟩ := fails error after rest
                exact ⟨other, final, failed, gave.used other wasUsed, nowFree⟩

/-! ## The walk down -/

/-- The helper is one step at the node followed by the climb. -/
theorem revokeAndFreeHelper_plug {untypedId : UntypedId} (frames : List (BlockTree.Frame NodeType)) :
    ∀ {hole : Node}, frames.length ≤ 64 → untypedId.sizeBits ≤ 64 - frames.length →
      untypedId.paddr ∈ (BlockTree.holeBlock Node.root frames).range →
      revokeAndFreeHelper kernel untypedId 0 Node.maxAddr 0 (BlockTree.plug frames hole) state =
        (revokeAndFreeHelper kernel untypedId (BlockTree.holeBlock Node.root frames).paddr
            ((BlockTree.holeBlock Node.root frames).paddr + 2 ^ (64 - frames.length) - 1)
            frames.length hole >>= climb kernel frames) state := by
  induction frames with
  | nil =>
      intro hole _ _ _
      rw [BlockTree.plug_nil, Node.maxAddr_eq, Exec.bind_apply]
      simp only [BlockTree.holeBlock, Node.root, List.length_nil, Nat.sub_zero]
      cases revokeAndFreeHelper kernel untypedId 0 (0 + 2 ^ 64 - 1) 0 hole state <;> rfl
  | cons frame frames ih =>
      intro hole shallow small inside
      rw [List.length_cons] at shallow small
      obtain ⟨half, isHalf⟩ : ∃ half, 64 - frames.length = half + 1 :=
        ⟨63 - frames.length, by omega⟩
      have childHalf : 64 - (frame :: frames).length = half := by
        rw [List.length_cons]
        omega
      have sized := (BlockTree.holeBlock_bounds Node.root frames (by
        simp only [Node.root]
        omega)).1
      obtain ⟨low, isParent⟩ : ∃ low, BlockTree.holeBlock Node.root frames = ⟨low, half + 1⟩ :=
        ⟨_, Block.ext_iff.mpr ⟨rfl, sized.trans isHalf⟩⟩
      have divisible : 0 < (BlockTree.holeBlock Node.root frames).sizeBits := by
        rw [isParent]
        exact Nat.succ_pos half
      have halves := Block.halves_subset _ divisible
      have isClimb : climb kernel (frame :: frames) = fun node =>
          mergeChildren kernel (BlockTree.holeBlock Node.root frames).paddr
            ((BlockTree.holeBlock Node.root frames).paddr + 2 ^ (64 - frames.length) - 1)
            frames.length (frame.fill node) >>= climb kernel frames := rfl
      rw [BlockTree.plug_cons, isClimb, childHalf]
      cases frame with
      | lower label right =>
          have inParent := halves.1 inside
          rw [ih (by omega) (by omega) inParent, ← Exec.bind_assoc]
          apply Exec.bind_congr_apply
          simp only [BlockTree.holeBlock, isParent, Block.lower, Block.mem_range,
            Nat.add_sub_cancel] at inside inParent ⊢
          rw [BlockTree.Frame.fill, revokeAndFreeHelper, if_neg (by omega), isHalf]
          rw [Exec.bind_apply, Exec.assert, if_pos ⟨inside.1, by omega⟩]
          simp only [Node.halfAddr_eq, if_pos inside.2]
          rfl
      | upper label left =>
          have inParent := halves.2 inside
          rw [ih (by omega) (by omega) inParent, ← Exec.bind_assoc]
          apply Exec.bind_congr_apply
          have top : low + 2 ^ (half + 1) - 1 = low + 2 ^ half + 2 ^ half - 1 := by
            rw [pow_succ]
            omega
          simp only [BlockTree.holeBlock, isParent, Block.upper, Block.mem_range,
            Nat.add_sub_cancel] at inside inParent ⊢
          rw [BlockTree.Frame.fill, revokeAndFreeHelper, if_neg (by omega), isHalf]
          rw [Exec.bind_apply, Exec.assert, if_pos ⟨by omega, by omega⟩]
          simp only [Node.halfAddr_eq, if_neg (Nat.not_lt.mpr inside.1)]
          rw [← top]
          rfl

/-- The step at the node. -/
theorem revokeAndFreeHelper_leaf {untypedId : UntypedId} {kind : AccessibleNodeType} {high depth : Nat}
    (isLevel : 64 - depth = untypedId.sizeBits) :
    revokeAndFreeHelper kernel untypedId untypedId.paddr high depth (Node.consumedLeaf kind) =
      giveUp kernel true kind untypedId := by
  rw [Node.consumedLeaf, revokeAndFreeHelper, if_pos isLevel]
  funext state
  simp only [Exec.bind_apply, Exec.assert, Node.isAccessible, Node.isConsumed, BlockTree.isEmpty,
    if_true, and_self, Node.setConsumed, Exec.unwrap, giveUp]
  rfl

/-! ## The call -/

/-- Where a live id is in the tree. -/
theorem exists_consumedLeaf {untypedId : UntypedId} (sound : Sound base built live reserved state)
    (isLive : untypedId ∈ live) :
    ∃ frames kind,
      state.allocator.capDerivationTree = BlockTree.plug frames (Node.consumedLeaf kind) ∧
      BlockTree.holeBlock Node.root frames = untypedId := by
  have isConsumed : untypedId ∈ Node.consumedIds 0 64 state.allocator.capDerivationTree := by
    rw [← List.count_pos_iff, ← sound.consumed untypedId]
    exact List.count_pos_iff.mpr isLive
  obtain ⟨frames, hole, isTree, consumed, filled, isHole⟩ :=
    BlockTree.exists_plug_of_mem _ 0 64 untypedId isConsumed
  have inOrder := Node.Skeleton.of_plug frames 64 hole filled (.inl (isTree ▸ sound.skeleton))
  obtain ⟨kind, rfl⟩ := Node.eq_consumedLeaf consumed inOrder.2
  exact ⟨frames, kind, isTree.symm, isHole⟩

section Call
variable {frames : List (BlockTree.Frame NodeType)} {kind : AccessibleNodeType}
variable {untypedId : UntypedId}

theorem revokeAndFree_eq (sound : Sound base built live reserved state)
    (isTree : state.allocator.capDerivationTree = BlockTree.plug frames (Node.consumedLeaf kind))
    (isHole : BlockTree.holeBlock Node.root frames = untypedId) :
    revokeAndFree kernel untypedId state =
      (giveUp kernel true kind untypedId >>= fun node =>
        climb kernel frames node >>= fun root => Exec.modify (withTree root)) state := by
  have skeleton : Node.Skeleton 64 (BlockTree.plug frames (Node.consumedLeaf kind)) :=
    isTree ▸ sound.skeleton
  have filled : Node.consumedLeaf kind ≠ .empty := by simp [Node.consumedLeaf]
  have shallow := (Node.Skeleton.of_plug frames 64 _ filled (.inl skeleton)).1
  have sized : (BlockTree.holeBlock Node.root frames).sizeBits = 64 - frames.length :=
    (BlockTree.holeBlock_bounds Node.root frames shallow).1
  rw [isHole] at sized
  have inside : untypedId.paddr ∈ (BlockTree.holeBlock Node.root frames).range := by
    rw [isHole, Block.mem_range]
    exact ⟨Nat.le_refl _, Nat.lt_add_of_pos_right (Nat.two_pow_pos _)⟩
  have walk := @revokeAndFreeHelper_plug _ kernel state untypedId frames (Node.consumedLeaf kind)
    shallow (Nat.le_of_eq sized) inside
  have isStart : revokeAndFree kernel untypedId state =
      (revokeAndFreeHelper kernel untypedId 0 Node.maxAddr 0 state.allocator.capDerivationTree >>=
        fun root => Exec.modify (withTree root)) state := rfl
  rw [isStart, isTree, Exec.bind_apply, walk, ← Exec.bind_apply, isHole,
    revokeAndFreeHelper_leaf sized.symm, Exec.bind_assoc]

/-- With the node given up, the climb is next. -/
theorem released_of_live (sound : Sound base built live reserved state) (isLive : untypedId ∈ live)
    (isTree : state.allocator.capDerivationTree = BlockTree.plug frames (Node.consumedLeaf kind))
    (isHole : BlockTree.holeBlock Node.root frames = untypedId) (after : K) :
    Released base built (live.erase untypedId) reserved frames kind
      (withLeaves (state.allocator.leafNodes.addLeaf untypedId) { state with kernel := after }) := by
  refine ⟨state.allocator.leafNodes.count, fun id => ?_, ?_⟩
  · rw [isHole]
    exact LeafNodes.count_addLeaf
  · rw [isHole, ← isTree]
    refine ⟨sound.skeleton, sound.listed, fun id => ?_, sound.collapsed, sound.slotsNodup,
      sound.slotsTaken, sound.slotsMarked⟩
    rw [← sound.consumed id]
    exact ((List.perm_cons_erase isLive).count_eq id).symm

theorem revokeAndFree_refused (sound : Sound base built live reserved state)
    (isTree : state.allocator.capDerivationTree = BlockTree.plug frames (Node.consumedLeaf kind))
    (isHole : BlockTree.holeBlock Node.root frames = untypedId) {error : Failure} {after : K}
    (refused : kernel.call (.revoke (revokeTarget state.allocator.cregion kind)) state.kernel =
      .err error after) :
    revokeAndFree kernel untypedId state = .err error { state with kernel := after } := by
  rw [revokeAndFree_eq sound isTree isHole, Exec.bind_eq_err]
  exact .inl (giveUp_eq_err refused)

/-- After the first revoke the free ends as the kernel answers the others. -/
theorem revokeAndFree_granted (sound : Sound base built live reserved state)
    (isLive : untypedId ∈ live)
    (isTree : state.allocator.capDerivationTree = BlockTree.plug frames (Node.consumedLeaf kind))
    (isHole : BlockTree.holeBlock Node.root frames = untypedId) {first : K}
    (granted : kernel.call (.revoke (revokeTarget state.allocator.cregion kind)) state.kernel =
      .ok () first) :
    (∀ after, revocations kernel state.allocator.cregion (merging frames) first = .ok () after →
      ∃ final, revokeAndFree kernel untypedId state = .ok () final ∧
        Sound base built (live.erase untypedId) reserved final) ∧
    (∀ error after,
      revocations kernel state.allocator.cregion (merging frames) first = .err error after →
      ∃ slot final, revokeAndFree kernel untypedId state = .err error final ∧
        state.allocator.cregion.Used slot ∧ final.allocator.cregion.Free slot) := by
  have skeleton : Node.Skeleton 64 (BlockTree.plug frames (Node.consumedLeaf kind)) :=
    isTree ▸ sound.skeleton
  have filled : Node.consumedLeaf kind ≠ .empty := by simp [Node.consumedLeaf]
  have shallow := (Node.Skeleton.of_plug frames 64 _ filled (.inl skeleton)).1
  have released := released_of_live sound isLive isTree isHole first
  obtain ⟨ends, fails⟩ := @Released.climb_ends _ _ _ _ _ kernel frames _ _ shallow released
  have gaveUp := @giveUp_eq_ok _ _ _ true _ untypedId _ granted
  rw [revokeAndFree_eq sound isTree isHole, Exec.bind_of_ok gaveUp]
  constructor
  · intro after answered
    obtain ⟨root, final, run, settled⟩ := ends after answered
    exact ⟨withTree root final, Exec.bind_of_ok run, settled⟩
  · intro error after answered
    obtain ⟨slot, final, run, wasUsed, isFree⟩ := fails error after answered
    exact ⟨slot, final, Exec.bind_eq_err.mpr (.inl run), wasUsed, isFree⟩

end Call

theorem revocations_ne_panic {cregion : CRegion} (kinds : List AccessibleNodeType) {before : K} :
    revocations kernel cregion kinds before ≠ .panic := by
  induction kinds generalizing before with
  | nil => simp [revocations]
  | cons kind kinds ih =>
      intro panicked
      rcases Exec.bind_eq_panic.mp panicked with first | ⟨_, middle, _, rest⟩
      · exact kernel.call_ne_panic first
      · exact ih rest

theorem revocations_ok (succeeds : kernel.Succeeds) (cregion : CRegion)
    (kinds : List AccessibleNodeType) (before : K) :
    ∃ after, revocations kernel cregion kinds before = .ok () after := by
  induction kinds generalizing before with
  | nil => exact ⟨before, rfl⟩
  | cons kind kinds ih =>
      have granted := succeeds.call_eq_ok (.revoke (revokeTarget cregion kind)) before
      obtain ⟨after, rest⟩ := ih (kernel.invoke (.revoke (revokeTarget cregion kind)) before).2
      exact ⟨after, (Exec.bind_of_ok granted).trans rest⟩

/-- Freeing a live id returns, and takes it from the live ids. -/
theorem revokeAndFree_sound (succeeds : kernel.Succeeds) {untypedId : UntypedId}
    (sound : Sound base built live reserved state) (isLive : untypedId ∈ live) :
    ∃ final, revokeAndFree kernel untypedId state = .ok () final ∧
      Sound base built (live.erase untypedId) reserved final := by
  obtain ⟨frames, kind, isTree, isHole⟩ := exists_consumedLeaf sound isLive
  have granted := succeeds.call_eq_ok (.revoke (revokeTarget state.allocator.cregion kind))
    state.kernel
  obtain ⟨after, answered⟩ := revocations_ok succeeds state.allocator.cregion (merging frames) _
  exact (revokeAndFree_granted sound isLive isTree isHole granted).1 after answered

/-! ## A kernel that may refuse -/

theorem revokeNode_within {node : Node} :
    Exec.Within (revokeNode kernel node) (revokeNode kernel.lenient node) :=
  .bind (.refl _) fun _ => .bind (.refl _) fun _ => .focus Kernel.call_within

theorem mergeChildren_within {low high depth : Nat} {node : Node} :
    Exec.Within (mergeChildren kernel low high depth node)
      (mergeChildren kernel.lenient low high depth node) := by
  cases node with
  | empty => exact .refl _
  | node label left right =>
      apply Exec.Within.ite
      · exact .bind (.refl _) fun _ => .bind (.refl _) fun _ =>
          .bind revokeNode_within fun _ => .refl _
      · exact .refl _

theorem revokeAndFreeHelper_within {untypedId : UntypedId} {low high depth : Nat} {node : Node} :
    Exec.Within (revokeAndFreeHelper kernel untypedId low high depth node)
      (revokeAndFreeHelper kernel.lenient untypedId low high depth node) := by
  induction node generalizing low high depth with
  | empty =>
      unfold revokeAndFreeHelper
      exact .refl _
  | node label left right leftInduction rightInduction =>
      unfold revokeAndFreeHelper
      apply Exec.Within.ite
      · exact .bind (.refl _) fun _ => .bind (.refl _) fun _ => .bind (.refl _) fun _ =>
          .bind (.refl _) fun _ => .bind revokeNode_within fun _ => .refl _
      · refine .bind (.refl _) fun _ => .ite ?_ ?_
        · exact .bind leftInduction fun _ => mergeChildren_within
        · exact .bind rightInduction fun _ => mergeChildren_within

theorem revokeAndFree_within {untypedId : UntypedId} :
    Exec.Within (revokeAndFree kernel untypedId) (revokeAndFree kernel.lenient untypedId) :=
  .bind (.refl _) fun _ => .bind revokeAndFreeHelper_within fun _ => .refl _

/-- Whatever the kernel does, a free that returns has taken the id from the live ids. -/
theorem revokeAndFree_kept {untypedId : UntypedId} {final : Machine K}
    (sound : Sound base built live reserved state) (isLive : untypedId ∈ live)
    (run : revokeAndFree kernel untypedId state = .ok () final) :
    Sound base built (live.erase untypedId) reserved final := by
  obtain ⟨final', run', kept⟩ :=
    revokeAndFree_sound kernel.lenient_succeeds sound isLive
  rw [revokeAndFree_within _ _ _ run] at run'
  cases run'
  exact kept

end Allocator

end IceCap.Dyndl
