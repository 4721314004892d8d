import Mathlib.Algebra.Group.Nat.Defs
import IceCap.Dyndl.AllocatorRuns
import IceCap.Library.Wrapping

/-!
# What `peek_space` compares

The space requested and the space free are sums over the natural numbers;
`peek_space` forms both in words and compares the remainders.  The free space
fits a word unless the whole address space is free, so it is the request that
can wrap around.
-/

set_option autoImplicit false

namespace IceCap.Dyndl

open IceCap.Library IceCap.Sel4

/-! ## Free space -/

namespace LeafNodes

def space (leaves : LeafNodes) : Nat := Block.space leaves.listed

theorem listed_perm {leaves final : LeafNodes} {extra : List UntypedId}
    (counts : ∀ id, leaves.count id = extra.count id + final.count id) :
    leaves.listed.Perm (extra ++ final.listed) := by
  rw [List.perm_iff_count]
  intro id
  rw [List.count_append, count_listed, count_listed]
  exact counts id

/-- What is taken out of the index is taken from the space. -/
theorem space_eq_add {leaves final : LeafNodes} {extra : List UntypedId}
    (counts : ∀ id, leaves.count id = extra.count id + final.count id) :
    leaves.space = Block.space extra + final.space := by
  rw [space, Block.space_perm (listed_perm counts), Block.space_append]
  rfl

/-- The sum over the sizes is the sum over the ids. -/
theorem space_eq_sum (leaves : LeafNodes) :
    leaves.space = (leaves.leafNodes.toList.map fun entry => 2 ^ entry.1 * entry.2.length).sum := by
  have filed : ∀ entry ∈ leaves.leafNodes.toList, ∀ id ∈ entry.2, id.sizeBits = entry.1 := by
    intro entry member
    exact (leaves.filed entry.1 entry.2 (Std.TreeMap.mem_toList_iff_getElem?_eq_some.mp member)).2
  unfold space listed
  generalize leaves.leafNodes.toList = entries at filed
  induction entries with
  | nil => rfl
  | cons entry entries ih =>
      have uniform : Block.space entry.2 = 2 ^ entry.1 * entry.2.length := by
        have sized : (entry.2.map fun id => 2 ^ id.sizeBits) =
            List.replicate entry.2.length (2 ^ entry.1) := by
          rw [List.eq_replicate_iff]
          refine ⟨List.length_map _, fun size member => ?_⟩
          obtain ⟨id, isId, rfl⟩ := List.mem_map.mp member
          rw [filed entry List.mem_cons_self id isId]
        rw [Block.space, sized, List.sum_replicate_nat, Nat.mul_comm]
      rw [List.flatMap_cons, Block.space_append, uniform, List.map_cons, List.sum_cons,
        ih fun other member => filed other (List.mem_cons_of_mem _ member)]

theorem key_lt {leaves : LeafNodes} {bound : Nat} (small : ∀ id ∈ leaves.listed, id.sizeBits < bound)
    {entry : Nat × List UntypedId} (member : entry ∈ leaves.leafNodes.toList) : entry.1 < bound := by
  obtain ⟨filled, sized⟩ := leaves.filed entry.1 entry.2
    (Std.TreeMap.mem_toList_iff_getElem?_eq_some.mp member)
  obtain ⟨id, isId⟩ := List.exists_mem_of_ne_nil _ filled
  rw [← sized id isId]
  exact small id (List.mem_flatMap.mpr ⟨entry, member, isId⟩)

end LeafNodes

namespace Allocator

theorem consumableSpace_eq {leaves : LeafNodes} (small : ∀ id ∈ leaves.listed, id.sizeBits < 64) :
    consumableSpace leaves = leaves.space % 2 ^ 64 := by
  unfold consumableSpace
  rw [foldl_add_mod (2 ^ 64) (fun entry : Nat × List UntypedId => 2 ^ (entry.1 % 64) * entry.2.length)
    _ 0 (by decide), Nat.zero_add, leaves.space_eq_sum]
  congr 2
  apply List.map_congr_left
  intro entry member
  rw [Nat.mod_eq_of_lt (LeafNodes.key_lt small member)]

/-- The sum over `i` of `counts[i] * 2 ^ i`. -/
def requested (counts : List Nat) : Nat :=
  (counts.zipIdx.map fun entry => entry.1 * 2 ^ entry.2).sum

theorem requiredSpace_eq {counts : List Nat} (short : counts.length ≤ 64) :
    requiredSpace counts = requested counts % 2 ^ 64 := by
  unfold requiredSpace
  rw [foldl_add_mod (2 ^ 64) (fun entry : Nat × Nat => 2 ^ (entry.2 % 64) * entry.1) _ 0
    (by decide), Nat.zero_add, requested]
  congr 2
  apply List.map_congr_left
  intro entry member
  have below := (List.mem_zipIdx member).2.1
  rw [Nat.mod_eq_of_lt (by omega), Nat.mul_comm]

end Allocator

/-! ## Sizes over whole runs -/

/-- What `build` sets up: the root is no untyped, so every leaf is smaller than the address space. -/
structure Sized (allocator : Allocator) : Prop where
  rooted : ∃ left right, allocator.capDerivationTree = .node .inaccessible left right
  small : ∀ id, 0 < allocator.leafNodes.count id → id.sizeBits < 64

theorem Sized.listed {allocator : Allocator} (sized : Sized allocator) :
    ∀ id ∈ allocator.leafNodes.listed, id.sizeBits < 64 := by
  intro id member
  apply sized.small
  rw [← LeafNodes.count_listed]
  exact List.count_pos_iff.mpr member

namespace AllocatorBuilder

theorem placeBuiltIn_rooted {untyped : ElaboratedUntyped} {depth low high : Nat}
    {left right : Node} (above : untyped.untypedId.sizeBits < depth + 1) :
    ∃ left' right', placeBuiltIn untyped (depth + 1) low high (.node .inaccessible left right) =
      .node .inaccessible left' right' := by
  rw [placeBuiltIn, if_pos above]
  simp only [BlockTree.isEmpty, Bool.false_eq_true, if_false]
  split
  · exact ⟨_, _, rfl⟩
  · exact ⟨_, _, rfl⟩

theorem buildOne_sized {allocator final : Allocator} {untyped : ElaboratedUntyped}
    (aligned : 2 ^ untyped.untypedId.sizeBits ∣ untyped.untypedId.paddr) (sized : Sized allocator)
    (run : buildOne allocator untyped = some final) : Sized final := by
  unfold buildOne at run
  split at run
  · simp at run
  next notWhole =>
  split at run
  · simp at run
  next inRange =>
  split at run
  · simp at run
  next fits =>
  -- An aligned untyped of the size of the address space starts at 0.
  have small : untyped.untypedId.sizeBits < 64 := by
    by_contra large
    have whole : untyped.untypedId.sizeBits = 64 := by omega
    rw [whole] at aligned
    have isZero := Nat.eq_zero_of_dvd_of_lt aligned (by simp only [Node.maxAddr] at inRange; omega)
    exact notWhole ⟨isZero, whole⟩
  obtain ⟨left, right, isTree⟩ := sized.rooted
  rw [← Option.some.inj run]
  constructor
  · rw [isTree]
    exact placeBuiltIn_rooted small
  · intro id isListed
    rw [LeafNodes.count_addLeaf] at isListed
    by_cases same : untyped.untypedId = id
    · exact same ▸ small
    · rw [if_neg same] at isListed
      exact sized.small id isListed

theorem build_sized {builder : AllocatorBuilder} {allocator : Allocator}
    (aligned : ∀ id ∈ builder.untypedIds, 2 ^ id.sizeBits ∣ id.paddr)
    (isBuilt : builder.build = some allocator) : Sized allocator := by
  have placed : ∀ (untypeds : List ElaboratedUntyped) {allocator final : Allocator},
      (∀ untyped ∈ untypeds, 2 ^ untyped.untypedId.sizeBits ∣ untyped.untypedId.paddr) →
      Sized allocator → buildAll untypeds allocator = some final → Sized final := by
    intro untypeds
    induction untypeds with
    | nil =>
        intro allocator final _ sized run
        rw [← Option.some.inj run]
        exact sized
    | cons untyped untypeds ih =>
        intro allocator final aligned sized run
        obtain ⟨middle, first, rest⟩ := Option.bind_eq_some_iff.mp run
        exact ih (fun other member => aligned other (List.mem_cons_of_mem _ member))
          (buildOne_sized (aligned untyped List.mem_cons_self) sized first) rest
  refine placed builder.untyped (fun untyped member => aligned _ (List.mem_map_of_mem member))
    ⟨⟨.empty, .empty, rfl⟩, fun id isListed => ?_⟩ isBuilt
  simp [LeafNodes.count_new] at isListed

end AllocatorBuilder

namespace Allocator

variable {K : Type} {sizes : Sizes} {kernel : Kernel K} {state final : Machine K}

/-- The invariant on the machine, which the kernel's state plays no part in. -/
def MaintainsSized {α : Type} (call : Exec Failure (Machine K) α) : Prop :=
  Exec.Maintains (fun state => Sized state.allocator) call

/-- A call that leaves the tree and the index alone. -/
theorem maintainsSized_of_spares {α : Type} {call : Exec Failure (Machine K) α}
    (spares : Exec.Spares (fun state : Machine K =>
      (state.allocator.capDerivationTree, state.allocator.leafNodes)) call) :
    MaintainsSized call := by
  intro state final run sized
  have same := spares state final run
  simp only [Prod.mk.injEq] at same
  exact ⟨same.1 ▸ sized.rooted, same.2 ▸ sized.small⟩

theorem onKernel_sized {call : Exec Failure K Unit} : MaintainsSized (onKernel call) :=
  maintainsSized_of_spares (.focus fun _ _ => rfl)

theorem allocSlot_sized : MaintainsSized (allocSlot : Exec Failure (Machine K) Slot) := by
  refine .bind (.runs fun state value next sized run => ?_) fun _ =>
    maintainsSized_of_spares (.unwrap _)
  obtain ⟨result, _, isResult⟩ := Option.map_eq_some_iff.mp run
  cases isResult
  exact ⟨sized.rooted, sized.small⟩

theorem freeSlot_sized {slot : Slot} :
    MaintainsSized (freeSlot slot : Exec Failure (Machine K) Unit) := by
  refine .runs fun state value next sized run => ?_
  obtain ⟨result, _, isResult⟩ := Option.map_eq_some_iff.mp run
  cases isResult
  exact ⟨sized.rooted, sized.small⟩

theorem addLeaf_sized {untypedId : UntypedId} (small : untypedId.sizeBits < 64) :
    MaintainsSized (addLeaf untypedId : Exec Failure (Machine K) Unit) := by
  refine .modify fun state sized => ⟨sized.rooted, fun id isListed => ?_⟩
  simp only [withLeaves, LeafNodes.count_addLeaf] at isListed
  by_cases same : untypedId = id
  · exact same ▸ small
  · rw [if_neg same] at isListed
    exact sized.small id isListed

theorem getLeaf_sized {sizeBits : Nat} :
    MaintainsSized (getLeaf sizeBits : Exec Failure (Machine K) UntypedId) := by
  refine .runs fun state value next sized run => ?_
  obtain ⟨⟨leaf, leaves⟩, taken, isResult⟩ := Option.map_eq_some_iff.mp run
  cases isResult
  refine ⟨sized.rooted, fun id isListed => sized.small id ?_⟩
  rw [← (LeafNodes.getLeaf_spec taken).2 id]
  exact Nat.lt_add_right _ isListed

theorem getLeaf_small {sizeBits : Nat} {leaf : UntypedId} (sized : Sized state.allocator)
    (run : getLeaf sizeBits state = .ok leaf final) : leaf.sizeBits < 64 := by
  simp only [getLeaf, Exec.runs_eq_ok, Option.map_eq_some_iff, Prod.mk.injEq] at run
  obtain ⟨⟨found, leaves⟩, taken, rfl, rfl⟩ := run
  apply sized.small
  rw [← (LeafNodes.getLeaf_spec taken).2 found, if_pos rfl]
  exact Nat.succ_pos _

/-- Removing a leaf takes ids out of the index, if it is filed under any. -/
theorem removeLeaf_count_le {leaves final : LeafNodes} {removed id : UntypedId}
    (run : leaves.removeLeaf removed = some final) : final.count id ≤ leaves.count id := by
  unfold LeafNodes.removeLeaf at run
  split at run
  · rw [← Option.some.inj run, LeafNodes.count_store]
    split
    · next sizes =>
        rw [LeafNodes.count, ← sizes]
        exact (List.eraseP_sublist).count_le id
    · exact le_refl _
  · simp at run

theorem removeLeaf_sized {untypedId : UntypedId} :
    MaintainsSized (removeLeaf untypedId : Exec Failure (Machine K) Unit) := by
  refine .runs fun state value next sized run => ?_
  obtain ⟨leaves, removed, isResult⟩ := Option.map_eq_some_iff.mp run
  cases isResult
  refine ⟨sized.rooted, fun id isListed => sized.small id ?_⟩
  exact Nat.lt_of_lt_of_le isListed (removeLeaf_count_le removed)

/-- The walk to a node below the root leaves the root what it is. -/
theorem withNode_sized {α : Type} {untypedId : UntypedId}
    {borrow : CRegion → Node → Option (α × Node)} (small : untypedId.sizeBits < 64) :
    MaintainsSized (withNode untypedId borrow : Exec Failure (Machine K) α) := by
  refine .runs fun state value next sized run => ?_
  obtain ⟨⟨found, tree⟩, walked, isResult⟩ := Option.map_eq_some_iff.mp run
  cases isResult
  refine ⟨?_, sized.small⟩
  obtain ⟨left, right, isTree⟩ := sized.rooted
  rw [isTree, Node.getNodeMut] at walked
  split at walked
  · rw [Node.walkMut, if_pos small] at walked
    split at walked
    · obtain ⟨_, _, isNode⟩ := Option.map_eq_some_iff.mp walked
      cases isNode
      exact ⟨_, _, rfl⟩
    · obtain ⟨_, _, isNode⟩ := Option.map_eq_some_iff.mp walked
      cases isNode
      exact ⟨_, _, rfl⟩
  · simp at walked

theorem splitUntyped_sized {held : UntypedId} (small : held.sizeBits < 64) :
    MaintainsSized (splitUntyped kernel held) := by
  refine .bind allocSlot_sized fun leftSlot => .bind allocSlot_sized fun rightSlot =>
    .bind (withNode_sized small) fun localCPtr => .bind (maintainsSized_of_spares .get) fun _ =>
    .bind onKernel_sized fun _ => .bind onKernel_sized fun _ => ?_
  exact .bind (addLeaf_sized (by simp only; omega)) fun _ =>
    .bind (addLeaf_sized (by simp only; omega)) fun _ => maintainsSized_of_spares (.pure _)

theorem splitTimes_sized (times : Nat) :
    ∀ {held : UntypedId}, held.sizeBits < 64 → MaintainsSized (splitTimes kernel times held) := by
  induction times with
  | zero =>
      intro held _
      exact maintainsSized_of_spares (.pure _)
  | succ times ih =>
      intro held small
      refine Exec.Maintains.bindWhere (splitUntyped_sized small) ?_ fun children isSmall =>
        .bind removeLeaf_sized fun _ => ih isSmall
      intro state children middle _ run
      obtain ⟨_, _, _, _, _, _, _, _, _, rfl, _⟩ := splitUntyped_eq_ok run
      simp only [Block.upper]
      omega

theorem splitTimes_small (times : Nat) :
    ∀ {held result : UntypedId} {state final : Machine K}, held.sizeBits < 64 →
      splitTimes kernel times held state = .ok result final → result.sizeBits < 64 := by
  induction times with
  | zero =>
      intro held result state final small run
      rw [← (Exec.pure_eq_ok.mp run).1]
      exact small
  | succ times ih =>
      intro held result state final small run
      obtain ⟨children, middle, splitRun, rest⟩ := Exec.bind_eq_ok.mp run
      obtain ⟨_, last, _, rest⟩ := Exec.bind_eq_ok.mp rest
      obtain ⟨_, _, _, _, _, _, _, _, _, rfl, _⟩ := splitUntyped_eq_ok splitRun
      exact ih (by simp only [Block.upper]; omega) rest

theorem createObject_sized {destinationCNode : RelativeCPtr} {slot : Slot}
    {blueprint : ObjectBlueprint} :
    MaintainsSized (createObject sizes kernel destinationCNode slot blueprint) := by
  refine Exec.Maintains.bindWhere getLeaf_sized (fun state leaf _ sized run => getLeaf_small sized run)
    fun leaf leafSmall => ?_
  refine Exec.Maintains.bindWhere (splitTimes_sized _ leafSmall)
    (fun state held _ _ run => splitTimes_small _ leafSmall run) fun held heldSmall => ?_
  exact .bind (withNode_sized heldSmall) fun _ => .bind onKernel_sized fun _ =>
    maintainsSized_of_spares (.pure _)

theorem createCnode_sized {radix : Nat} : MaintainsSized (createCnode sizes kernel radix) := by
  refine .bind allocSlot_sized fun realmSlot => .bind (maintainsSized_of_spares .get) fun _ =>
    .bind (maintainsSized_of_spares (.unwrap _)) fun _ => .bind allocSlot_sized fun tempSlot =>
    .bind createObject_sized fun _ => ?_
  exact .bind onKernel_sized fun _ => .bind onKernel_sized fun _ => .bind freeSlot_sized fun _ =>
    maintainsSized_of_spares (.pure _)

theorem createObjects_sized (blueprints : List ObjectBlueprint) :
    ∀ {realmCRegion : CRegion}, MaintainsSized (createObjects sizes kernel blueprints realmCRegion) := by
  induction blueprints with
  | nil =>
      intro realmCRegion
      exact maintainsSized_of_spares (.pure _)
  | cons blueprint blueprints ih =>
      intro realmCRegion
      exact .bind (maintainsSized_of_spares (.unwrap _)) fun _ =>
        .bind (maintainsSized_of_spares (.unwrap _)) fun _ => .bind createObject_sized fun _ =>
        .bind ih fun _ => maintainsSized_of_spares (.pure _)

theorem revokeNode_sized {node : Node} : MaintainsSized (revokeNode kernel node) :=
  .bind (maintainsSized_of_spares .get) fun _ => .bind (maintainsSized_of_spares (.unwrap _))
    fun _ => onKernel_sized

theorem dropChild_sized {child : Node} {untypedId : UntypedId} :
    MaintainsSized (dropChild child untypedId : Exec Failure (Machine K) Unit) :=
  .ite (maintainsSized_of_spares (.pure _)) (.bind (maintainsSized_of_spares (.unwrap _)) fun _ =>
    .bind freeSlot_sized fun _ => removeLeaf_sized)

theorem mergeChildren_sized {low high depth : Nat} {node : Node} (below : 0 < depth) :
    MaintainsSized (mergeChildren kernel low high depth node) := by
  cases node with
  | empty => exact maintainsSized_of_spares .panic
  | node label left right =>
      apply Exec.Maintains.ite
      · exact .bind dropChild_sized fun _ => .bind dropChild_sized fun _ =>
          .bind revokeNode_sized fun _ => .bind (addLeaf_sized (by simp only; omega)) fun _ =>
          maintainsSized_of_spares (.pure _)
      · exact maintainsSized_of_spares (.pure _)

theorem revokeAndFreeHelper_sized {untypedId : UntypedId} {node : Node} :
    ∀ {low high depth : Nat}, 0 < depth →
      MaintainsSized (revokeAndFreeHelper kernel untypedId low high depth node) := by
  induction node with
  | empty =>
      intro low high depth _
      unfold revokeAndFreeHelper
      exact maintainsSized_of_spares .panic
  | node label left right leftInduction rightInduction =>
      intro low high depth below
      unfold revokeAndFreeHelper
      split
      · next isLevel =>
          exact .bind (maintainsSized_of_spares (.assert _)) fun _ =>
            .bind (maintainsSized_of_spares (.assert _)) fun _ =>
            .bind (maintainsSized_of_spares (.assert _)) fun _ =>
            .bind (maintainsSized_of_spares (.assert _)) fun _ => .bind revokeNode_sized fun _ =>
            .bind (maintainsSized_of_spares (.unwrap _)) fun _ => .bind (addLeaf_sized (by omega))
            fun _ => maintainsSized_of_spares (.pure _)
      · refine .bind (maintainsSized_of_spares (.assert _)) fun _ => .ite ?_ ?_
        · exact .bind (leftInduction (Nat.succ_pos _)) fun _ => mergeChildren_sized below
        · exact .bind (rightInduction (Nat.succ_pos _)) fun _ => mergeChildren_sized below

/-- The root is walked through, and stays what it is. -/
theorem revokeAndFreeHelper_root_sized {untypedId : UntypedId} {left right : Node} {low high : Nat} :
    MaintainsSized (revokeAndFreeHelper kernel untypedId low high 0 (.node .inaccessible left right)) ∧
      Exec.Yields (fun node => ∃ left' right', node = .node .inaccessible left' right')
        (revokeAndFreeHelper kernel untypedId low high 0 (.node .inaccessible left right)) := by
  have merged : ∀ {left right : Node}, mergeChildren kernel low high 0
      (.node .inaccessible left right) = pure (.node .inaccessible left right) := by
    intro left right
    funext state
    exact mergeChildren_keeps (.inl rfl)
  unfold revokeAndFreeHelper
  split
  · have refused : ¬ Node.isAccessible (.node .inaccessible left right) = true := by
      simp [Node.isAccessible]
    constructor
    · intro state final run _
      rcases Exec.ends_bind.mp run with ⟨error, failed⟩ | ⟨_, _, asserted, _⟩
      · simp at failed
      · exact absurd (Exec.assert_eq_ok.mp asserted).1 refused
    · intro state value final run
      obtain ⟨_, _, asserted, _⟩ := Exec.bind_eq_ok.mp run
      exact absurd (Exec.assert_eq_ok.mp asserted).1 refused
  · constructor
    · refine .bind (maintainsSized_of_spares (.assert _)) fun _ => .ite ?_ ?_
      · exact .bind (revokeAndFreeHelper_sized (Nat.succ_pos _)) fun _ =>
          merged ▸ maintainsSized_of_spares (.pure _)
      · exact .bind (revokeAndFreeHelper_sized (Nat.succ_pos _)) fun _ =>
          merged ▸ maintainsSized_of_spares (.pure _)
    · refine .bind fun _ => .ite (.bind fun _ => ?_) (.bind fun _ => ?_)
      · exact merged ▸ .pure ⟨_, _, rfl⟩
      · exact merged ▸ .pure ⟨_, _, rfl⟩

theorem revokeAndFree_sized {untypedId : UntypedId} :
    MaintainsSized (revokeAndFree kernel untypedId : Exec Failure (Machine K) Unit) := by
  intro state final run sized
  obtain ⟨left, right, isTree⟩ := sized.rooted
  have helper := @revokeAndFreeHelper_root_sized K kernel untypedId left right 0 Node.maxAddr
  rcases Exec.ends_bind.mp run with ⟨error, failed⟩ | ⟨before, middle, got, rest⟩
  · simp at failed
  · obtain ⟨rfl, rfl⟩ := Exec.get_eq_ok.mp got
    rw [isTree] at rest
    rcases Exec.ends_bind.mp rest with failed | ⟨node, middle, freed, modified⟩
    · exact helper.1 state final (.inr failed) sized
    · have kept := helper.1 state middle (.inl ⟨node, freed⟩) sized
      rw [modified.of_ok rfl]
      exact ⟨helper.2 _ _ _ freed, kept.small⟩

end Allocator

/-! ## Exactness -/

section Exactness

variable {K : Type} (sizes : Sizes) (kernel : Kernel K)

/-- A call on the allocator, with whatever arguments. -/
inductive AllocatorCall where
  | createCnode (radix : Nat)
  | createObjects (realmCRegion : CRegion) (blueprints : List ObjectBlueprint)
  | revokeAndFree (untypedId : UntypedId)

def AllocatorCall.perform : AllocatorCall → Exec Failure (Machine K) Unit
  | .createCnode radix => do
      let _ ← Allocator.createCnode sizes kernel radix
      pure ()
  | .createObjects realmCRegion blueprints => do
      let _ ← Allocator.createObjects sizes kernel blueprints realmCRegion
      pure ()
  | .revokeAndFree untypedId => Allocator.revokeAndFree kernel untypedId

/-- One call, which may have ended with an error. -/
def Calls (before after : Machine K) : Prop :=
  ∃ call : AllocatorCall, Exec.Ends (call.perform sizes kernel) before after

variable {sizes kernel}

theorem AllocatorCall.perform_sized (call : AllocatorCall) :
    Allocator.MaintainsSized (call.perform sizes kernel) := by
  cases call with
  | createCnode radix =>
      exact .bind Allocator.createCnode_sized fun _ => Allocator.maintainsSized_of_spares (.pure _)
  | createObjects realmCRegion blueprints =>
      exact .bind (Allocator.createObjects_sized blueprints) fun _ =>
        Allocator.maintainsSized_of_spares (.pure _)
  | revokeAndFree untypedId => exact Allocator.revokeAndFree_sized

theorem calls_sized {before after : Machine K} (sized : Sized before.allocator)
    (run : Relation.ReflTransGen (Calls sizes kernel) before after) : Sized after.allocator := by
  induction run with
  | refl => exact sized
  | tail _ step ih =>
      obtain ⟨call, ended⟩ := step
      exact call.perform_sized _ _ ended ih

/-- After any calls, `peek_space` compares the remainders of what is requested and what is free. -/
theorem peekSpace_iff_mod {builder : AllocatorBuilder} {allocator : Allocator}
    (aligned : ∀ id ∈ builder.untypedIds, 2 ^ id.sizeBits ∣ id.paddr)
    (isBuilt : builder.build = some allocator) (kernelState : K) {state : Machine K}
    (run : Relation.ReflTransGen (Calls sizes kernel) ⟨allocator, kernelState⟩ state)
    {counts : List Nat} (short : counts.length ≤ 64) :
    state.allocator.peekSpace counts = true ↔
      Allocator.requested counts % 2 ^ 64 ≤ state.allocator.leafNodes.space % 2 ^ 64 := by
  have sized := calls_sized (AllocatorBuilder.build_sized aligned isBuilt) run
  rw [Allocator.peekSpace, decide_eq_true_eq, Allocator.requiredSpace_eq short,
    Allocator.consumableSpace_eq sized.listed]

end Exactness

end IceCap.Dyndl
