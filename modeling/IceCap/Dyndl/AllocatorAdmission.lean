import Mathlib.Algebra.Order.Ring.GeomSum
import IceCap.Dyndl.AllocatorSpace

/-!
# Admission on a fresh allocator

If no two untypeds have the same size, no two leaves ever do until something is
freed: a creation takes the smallest leaf that is large enough and leaves one
leaf of each size between it and the object.  Leaves of distinct sizes that are
all too small are too small together, so a creation fails only when the space is
exhausted.
-/

set_option autoImplicit false

namespace IceCap.Library.Block

/-! ## Blocks of distinct sizes -/

/-- Blocks of distinct sizes below `bits` do not fill a block of `2 ^ bits`. -/
theorem space_lt {blocks : List Block} {bits : Nat} (distinct : (blocks.map sizeBits).Nodup)
    (small : ∀ block ∈ blocks, block.sizeBits < bits) : space blocks < 2 ^ bits := by
  have sum : space blocks = ∑ size ∈ (blocks.map sizeBits).toFinset, 2 ^ size := by
    rw [List.sum_toFinset _ distinct, List.map_map]
    rfl
  rw [sum]
  apply Nat.geomSum_lt (le_refl 2)
  intro size member
  obtain ⟨block, isBlock, rfl⟩ := List.mem_map.mp (List.mem_toFinset.mp member)
  exact small block isBlock

theorem le_space {blocks : List Block} {block : Block} (member : block ∈ blocks) :
    2 ^ block.sizeBits ≤ space blocks :=
  List.single_le_sum (fun _ _ => Nat.zero_le _) _ (List.mem_map_of_mem member)

/-- So there is room for an object exactly if one of them is large enough. -/
theorem space_lt_iff {blocks : List Block} {bits : Nat} (distinct : (blocks.map sizeBits).Nodup) :
    space blocks < 2 ^ bits ↔ ∀ block ∈ blocks, block.sizeBits < bits := by
  constructor
  · intro less block member
    have part := le_space member
    exact (Nat.pow_lt_pow_iff_right (by decide)).mp (Nat.lt_of_le_of_lt part less)
  · exact space_lt distinct

/-- The lower halves left behind by splitting the upper half again and again. -/
def halves : Nat → Block → List Block
  | 0, _ => []
  | times + 1, block => block.lower :: halves times block.upper

theorem halves_sizeBits (times : Nat) :
    ∀ {block : Block} {size : Nat}, times ≤ block.sizeBits →
      (size ∈ (halves times block).map sizeBits ↔
        block.sizeBits - times ≤ size ∧ size < block.sizeBits) := by
  induction times with
  | zero =>
      intro block size _
      simp [halves]
  | succ times ih =>
      intro block size large
      rw [halves, List.map_cons, List.mem_cons, ih (by simp only [upper]; omega)]
      simp only [lower, upper]
      omega

theorem halves_distinct (times : Nat) :
    ∀ {block : Block}, times ≤ block.sizeBits → ((halves times block).map sizeBits).Nodup := by
  induction times with
  | zero =>
      intro block _
      exact List.nodup_nil
  | succ times ih =>
      intro block large
      have upperLarge : times ≤ block.upper.sizeBits := by
        simp only [upper]
        omega
      rw [halves, List.map_cons, List.nodup_cons, halves_sizeBits times upperLarge]
      refine ⟨?_, ih upperLarge⟩
      simp only [lower, upper]
      omega

theorem space_halves (times : Nat) :
    ∀ {block : Block}, times ≤ block.sizeBits →
      space (halves times block) + 2 ^ (block.sizeBits - times) = 2 ^ block.sizeBits := by
  induction times with
  | zero =>
      intro block _
      simp [halves]
  | succ times ih =>
      intro block large
      obtain ⟨half, isHalf⟩ : ∃ half, block.sizeBits = half + 1 := ⟨block.sizeBits - 1, by omega⟩
      have lowerSize : block.lower.sizeBits = half := by simp [lower, isHalf]
      have upperSize : block.upper.sizeBits = half := by simp [upper, isHalf]
      have rest := @ih block.upper (by omega)
      rw [upperSize] at rest
      rw [halves, space_cons, isHalf, lowerSize, pow_succ, Nat.add_sub_add_right]
      omega

end IceCap.Library.Block

namespace IceCap.Dyndl

open IceCap.Library IceCap.Sel4

/-! ## The leaf that is taken -/

namespace LeafNodes

variable {leaves final : LeafNodes} {sizeBits : Nat} {leaf : UntypedId}

theorem ofSize_isSome_iff : (leaves.leafNodes[sizeBits]?).isSome = true ↔
    ∃ id, 0 < leaves.count id ∧ id.sizeBits = sizeBits := by
  constructor
  · intro present
    obtain ⟨ids, lookup⟩ := Option.isSome_iff_exists.mp present
    obtain ⟨filled, sized⟩ := leaves.filed sizeBits ids lookup
    obtain ⟨id, isId⟩ := List.exists_mem_of_ne_nil ids filled
    refine ⟨id, ?_, sized id isId⟩
    rw [count, ofSize, sized id isId, lookup]
    exact List.count_pos_iff.mpr isId
  · rintro ⟨id, isListed, rfl⟩
    cases lookup : leaves.leafNodes[id.sizeBits]? with
    | none => simp [count, ofSize, lookup] at isListed
    | some ids => rfl

theorem popLeaf_isSome (present : (leaves.leafNodes[sizeBits]?).isSome = true) :
    ∃ leaf final, leaves.popLeaf sizeBits = some (leaf, final) := by
  obtain ⟨ids, lookup⟩ := Option.isSome_iff_exists.mp present
  have isVector : leaves.ofSize sizeBits = ids := by simp [ofSize, lookup]
  have filled := (leaves.filed sizeBits ids lookup).1
  have last : (leaves.ofSize sizeBits).getLast? = some (ids.getLast filled) := by
    rw [isVector, List.getLast?_eq_some_getLast filled]
  rw [popLeaf, last]
  exact ⟨_, _, rfl⟩

/-- The search for the next larger size finds the least one, as the keys are in order. -/
theorem nextSmallestSize_least {size : Nat}
    (present : (leaves.leafNodes[size]?).isSome = true) (larger : sizeBits < size) :
    (leaves.leafNodes[leaves.nextSmallestSize sizeBits]?).isSome = true ∧
      sizeBits < leaves.nextSmallestSize sizeBits ∧ leaves.nextSmallestSize sizeBits ≤ size := by
  have isKey : ∀ key, key ∈ leaves.leafNodes.keys ↔ (leaves.leafNodes[key]?).isSome = true := by
    intro key
    rw [Std.TreeMap.mem_keys, Std.TreeMap.isSome_getElem?_iff_mem]
  have ordered : leaves.leafNodes.keys.Pairwise (· < ·) :=
    Std.TreeMap.ordered_keys.imp fun less => Nat.compare_eq_lt.mp less
  have found : ∃ key, (leaves.leafNodes.keys.find? fun untypedSize =>
      decide (sizeBits < untypedSize)) = some key := by
    rw [← Option.isSome_iff_exists, List.find?_isSome]
    exact ⟨size, (isKey size).mpr present, decide_eq_true larger⟩
  obtain ⟨key, isFound⟩ := found
  have isNext : leaves.nextSmallestSize sizeBits = key := by
    rw [nextSmallestSize, isFound, Option.getD_some]
  obtain ⟨passes, before, after, isKeys, earlier⟩ := List.find?_eq_some_iff_append.mp isFound
  rw [isNext, ← isKey]
  refine ⟨by rw [isKeys]; simp, of_decide_eq_true passes, ?_⟩
  have isMember := (isKey size).mpr present
  rw [isKeys] at isMember ordered
  rcases List.mem_append.mp isMember with isBefore | isLater
  · have refused := earlier size isBefore
    simp [larger] at refused
  · rcases List.mem_cons.mp isLater with rfl | isAfter
    · exact le_refl _
    · exact Nat.le_of_lt ((List.pairwise_cons.mp (List.pairwise_append.mp ordered).2.1).1 size isAfter)

/-- `get_leaf` fails only if every leaf is smaller than the object. -/
theorem getLeaf_eq_none_iff (positive : 0 < sizeBits) :
    leaves.getLeaf sizeBits = none ↔ ∀ id, 0 < leaves.count id → id.sizeBits < sizeBits := by
  constructor
  · intro refused id isListed
    by_contra large
    have present : (leaves.leafNodes[id.sizeBits]?).isSome = true :=
      ofSize_isSome_iff.mpr ⟨id, isListed, rfl⟩
    unfold getLeaf at refused
    split at refused
    · next here =>
        obtain ⟨leaf, final, popped⟩ := popLeaf_isSome here
        simp [popped] at refused
    · next absent =>
        have larger : sizeBits < id.sizeBits := by
          rcases Nat.lt_or_eq_of_le (Nat.le_of_not_lt large) with less | same
          · exact less
          · rw [same] at absent
            exact absurd present absent
        obtain ⟨isKey, above, _⟩ := nextSmallestSize_least present larger
        obtain ⟨leaf, final, popped⟩ := popLeaf_isSome isKey
        rw [if_pos (by omega), popped] at refused
        simp at refused
  · intro small
    cases taken : leaves.getLeaf sizeBits with
    | none => rfl
    | some result =>
        obtain ⟨large, counts⟩ := getLeaf_spec taken
        have isListed := counts result.1
        rw [if_pos rfl] at isListed
        have below := small result.1 (by omega)
        omega

/-- The leaf taken is the smallest that is large enough. -/
theorem getLeaf_least (run : leaves.getLeaf sizeBits = some (leaf, final)) :
    ∀ id, 0 < leaves.count id → sizeBits ≤ id.sizeBits → leaf.sizeBits ≤ id.sizeBits := by
  intro id isListed large
  have present : (leaves.leafNodes[id.sizeBits]?).isSome = true :=
    ofSize_isSome_iff.mpr ⟨id, isListed, rfl⟩
  unfold getLeaf at run
  split at run
  · rw [(popLeaf_spec run).1]
    exact large
  · next absent =>
      split at run
      · have larger : sizeBits < id.sizeBits := by
          rcases Nat.lt_or_eq_of_le large with less | same
          · exact less
          · rw [same] at absent
            exact absurd present absent
        rw [(popLeaf_spec run).1]
        exact (nextSmallestSize_least present larger).2.2
      · simp at run

end LeafNodes

/-! ## What a creation does to the leaves -/

namespace Allocator

variable {K : Type} {sizes : Sizes} {kernel : Kernel K} {state final : Machine K}
  {base : CRegion} {built : Node} {live : List UntypedId} {reserved : List Slot}

/-- A split leaves the lower half in the index, once the upper half is taken out again. -/
theorem splitUntyped_counts {held : UntypedId} {children : UntypedId × UntypedId}
    {leaves : LeafNodes} (run : splitUntyped kernel held state = .ok children final)
    (removed : final.allocator.leafNodes.removeLeaf children.2 = some leaves) (id : UntypedId) :
    leaves.count id = state.allocator.leafNodes.count id + if held.lower = id then 1 else 0 := by
  obtain ⟨leftSlot, middle, rightSlot, last, localCPtr, after, leftRun, rightRun, nodeRun, rfl,
    isFinal⟩ := splitUntyped_eq_ok run
  obtain ⟨_, _, rfl⟩ := allocSlot_eq_ok leftRun
  obtain ⟨_, _, rfl⟩ := allocSlot_eq_ok rightRun
  simp only [withNode, Exec.runs_eq_ok, Option.map_eq_some_iff, Prod.mk.injEq] at nodeRun
  obtain ⟨_, _, _, rfl⟩ := nodeRun
  have isListed : 0 < final.allocator.leafNodes.count held.upper := by
    simp [isFinal, LeafNodes.count_addLeaf]
  obtain ⟨leaves', removed', counts⟩ := LeafNodes.removeLeaf_spec isListed
  obtain rfl := Option.some.inj (removed'.symm.trans removed)
  have change := counts id
  simp only [isFinal, withTree, withCRegion, LeafNodes.count_addLeaf] at change
  omega

theorem splitTimes_counts (times : Nat) :
    ∀ {held result : UntypedId} {state final : Machine K}, times ≤ held.sizeBits →
      splitTimes kernel times held state = .ok result final →
      result.sizeBits = held.sizeBits - times ∧ ∀ id, final.allocator.leafNodes.count id =
        state.allocator.leafNodes.count id + (Block.halves times held).count id := by
  induction times with
  | zero =>
      intro held result state final _ run
      obtain ⟨rfl, rfl⟩ := Exec.pure_eq_ok.mp run
      exact ⟨rfl, fun id => by simp [Block.halves]⟩
  | succ times ih =>
      intro held result state final large run
      simp only [splitTimes, Exec.bind_eq_ok, removeLeaf, Exec.runs_eq_ok, Option.map_eq_some_iff,
        Prod.mk.injEq] at run
      obtain ⟨children, middle, splitRun, _, _, ⟨leaves, removed, _, rfl⟩, rest⟩ := run
      have counts := splitUntyped_counts splitRun removed
      obtain ⟨_, _, _, _, _, _, _, _, _, rfl, _⟩ := splitUntyped_eq_ok splitRun
      obtain ⟨isSize, restCounts⟩ := ih (by simp only [Block.upper]; omega) rest
      refine ⟨by rw [isSize]; simp only [Block.upper]; omega, fun id => ?_⟩
      rw [restCounts id, Block.halves, List.count_cons]
      simp only [withLeaves, counts id, beq_iff_eq]
      omega

/-- A creation takes a leaf out of the index and puts back what is left of it. -/
theorem createObject_counts {destinationCNode : RelativeCPtr} {slot : Slot}
    {blueprint : ObjectBlueprint} {untypedId : UntypedId}
    (run : createObject sizes kernel destinationCNode slot blueprint state = .ok untypedId final) :
    ∃ leaf rest, state.allocator.leafNodes.getLeaf (blueprint.physicalSizeBits sizes) =
        some (leaf, rest) ∧
      ∀ id, final.allocator.leafNodes.count id = rest.count id +
        (Block.halves (leaf.sizeBits - blueprint.physicalSizeBits sizes) leaf).count id := by
  simp only [createObject, getLeaf, Exec.bind_eq_ok, Exec.pure_eq_ok, Exec.runs_eq_ok,
    Option.map_eq_some_iff, Prod.mk.injEq] at run
  obtain ⟨leaf, _, ⟨⟨found, rest⟩, taken, rfl, rfl⟩, held, afterSplit, splitRun, localCPtr, afterNode,
    nodeRun, ⟨⟩, afterRetype, retypeRun, rfl, rfl⟩ := run
  refine ⟨found, rest, taken, fun id => ?_⟩
  simp only [withNode, Exec.runs_eq_ok, Option.map_eq_some_iff, Prod.mk.injEq] at nodeRun
  obtain ⟨_, _, _, rfl⟩ := nodeRun
  have counts := (splitTimes_counts _ (Nat.sub_le _ _) splitRun).2 id
  simp only [onKernel_allocator retypeRun, withTree, counts, withLeaves]

end Allocator

/-! ## Leaves of distinct sizes -/

/-- No two leaves have the same size. -/
def LeafNodes.Distinct (leaves : LeafNodes) : Prop := (leaves.listed.map Block.sizeBits).Nodup

namespace Allocator

variable {K : Type} {sizes : Sizes} {kernel : Kernel K} {state final : Machine K}

theorem getLeaf_eq_none_iff_space {leaves : LeafNodes} {sizeBits : Nat} (distinct : leaves.Distinct)
    (positive : 0 < sizeBits) : leaves.getLeaf sizeBits = none ↔ leaves.space < 2 ^ sizeBits := by
  rw [LeafNodes.getLeaf_eq_none_iff positive, LeafNodes.space, Block.space_lt_iff distinct]
  simp only [← List.count_pos_iff, LeafNodes.count_listed]

/-- A creation keeps the sizes distinct and takes the size of the object from the space. -/
theorem createObject_distinct {destinationCNode : RelativeCPtr} {slot : Slot}
    {blueprint : ObjectBlueprint} {untypedId : UntypedId}
    (distinct : state.allocator.leafNodes.Distinct)
    (run : createObject sizes kernel destinationCNode slot blueprint state = .ok untypedId final) :
    final.allocator.leafNodes.Distinct ∧ final.allocator.leafNodes.space +
      2 ^ blueprint.physicalSizeBits sizes = state.allocator.leafNodes.space := by
  obtain ⟨leaf, rest, taken, counts⟩ := createObject_counts run
  obtain ⟨large, takenCounts⟩ := LeafNodes.getLeaf_spec taken
  have before : ∀ id, state.allocator.leafNodes.count id = [leaf].count id + rest.count id := by
    intro id
    rw [← takenCounts id, List.count_singleton, Nat.add_comm]
    simp
  have after : ∀ id, final.allocator.leafNodes.count id =
      (Block.halves (leaf.sizeBits - blueprint.physicalSizeBits sizes) leaf).count id +
        rest.count id := by
    intro id
    rw [counts id, Nat.add_comm]
  have short : leaf.sizeBits - blueprint.physicalSizeBits sizes ≤ leaf.sizeBits := Nat.sub_le _ _
  constructor
  · have wasDistinct : ((leaf :: rest.listed).map Block.sizeBits).Nodup :=
      ((LeafNodes.listed_perm before).map Block.sizeBits).nodup_iff.mp distinct
    rw [List.map_cons, List.nodup_cons] at wasDistinct
    rw [LeafNodes.Distinct, ((LeafNodes.listed_perm after).map Block.sizeBits).nodup_iff,
      List.map_append, List.nodup_append]
    refine ⟨Block.halves_distinct _ short, wasDistinct.2, ?_⟩
    rintro size isHalf _ isRest rfl
    -- The sizes left behind are between the object and the leaf, where no other leaf is.
    rw [Block.halves_sizeBits _ short] at isHalf
    obtain ⟨id, isListed, rfl⟩ := List.mem_map.mp isRest
    have wasListed : 0 < state.allocator.leafNodes.count id := by
      rw [before id, ← LeafNodes.count_listed rest]
      exact Nat.lt_add_left _ (List.count_pos_iff.mpr isListed)
    have least := LeafNodes.getLeaf_least taken id wasListed (by omega)
    omega
  · have parts := Block.space_halves _ short
    rw [LeafNodes.space_eq_add before, LeafNodes.space_eq_add after, Block.space_cons,
      Block.space_nil]
    rw [Nat.sub_sub_self large] at parts
    omega

end Allocator

/-! ## Creations that return -/

namespace Allocator

variable {K : Type} {sizes : Sizes} {kernel : Kernel K} {state : Machine K} {base : CRegion}
  {built : Node} {live : List UntypedId} {reserved : List Slot} {n : Nat}

theorem allocSlot_returns (hasFree : state.allocator.cregion.HasFree (n + 1)) :
    ∃ slot final, allocSlot state = .ok slot final ∧ final.allocator.cregion.HasFree n := by
  obtain ⟨slot, cregion, allocated, rest⟩ := hasFree.alloc
  refine ⟨slot, withCRegion cregion state, ?_, rest⟩
  simp [allocSlot, allocated]

theorem onKernel_returns (succeeds : kernel.Succeeds) (invocation : Invocation) :
    ∃ final, onKernel (kernel.callUnwrap invocation) state = .ok () final ∧
      final.allocator = state.allocator := by
  refine ⟨{ state with kernel := (kernel.invoke invocation state.kernel).2 }, ?_, rfl⟩
  rw [onKernel, Exec.focus_eq_ok]
  exact ⟨_, succeeds.callUnwrap_eq_ok invocation state.kernel, rfl⟩

theorem withNode_returns {α : Type} {held : UntypedId}
    {borrow : CRegion → Node → Option (α × Node)}
    (holding : Holding base built live reserved held state)
    (borrowed : ∀ kind, ∃ value node, borrow state.allocator.cregion (Node.leaf kind) =
      some (value, node)) :
    ∃ value tree, withNode held borrow state = .ok value (withTree tree state) := by
  obtain ⟨frames, kind, isTree, isHole, consistent⟩ := holding
  obtain ⟨shallow, _⟩ := consistent.hole_bounds (by simp [Node.consumedLeaf])
  obtain ⟨value, node, isNode⟩ := borrowed kind
  refine ⟨value, BlockTree.plug frames node, ?_⟩
  rw [withNode, Exec.runs_eq_ok, isTree,
    Node.getNodeMut_plug (by simp [Node.leaf]) shallow isHole, isNode]
  rfl

theorem splitUntyped_returns (succeeds : kernel.Succeeds) {held : UntypedId}
    (holding : Holding base built live reserved held state)
    (hasFree : state.allocator.cregion.HasFree (n + 2)) :
    ∃ final leaves, splitUntyped kernel held state = .ok (held.lower, held.upper) final ∧
      final.allocator.leafNodes.removeLeaf held.upper = some leaves ∧
      final.allocator.cregion.HasFree n := by
  obtain ⟨leftSlot, middle, leftRun, hasFree⟩ := allocSlot_returns hasFree
  obtain ⟨rightSlot, last, rightRun, hasFree⟩ := allocSlot_returns hasFree
  have holding := allocSlot_holding (allocSlot_holding holding leftRun) rightRun
  have isSplit : ∃ localCPtr tree, withNode held (splitNode leftSlot rightSlot) last =
      .ok localCPtr (withTree tree last) := withNode_returns holding fun kind => ⟨_, _, rfl⟩
  obtain ⟨localCPtr, tree, nodeRun⟩ := isSplit
  obtain ⟨afterLeft, firstRun, sameLeft⟩ := @onKernel_returns _ _ (withTree tree last) succeeds
    (.retype localCPtr (.untyped (held.sizeBits - 1)) last.allocator.cregion.root
      (UInt64.ofNat leftSlot) 1)
  obtain ⟨afterRight, secondRun, sameRight⟩ := @onKernel_returns _ _ afterLeft succeeds
    (.retype localCPtr (.untyped (held.sizeBits - 1)) last.allocator.cregion.root
      (UInt64.ofNat rightSlot) 1)
  obtain ⟨final, splitRun⟩ : ∃ final, splitUntyped kernel held state =
      .ok (held.lower, held.upper) final := by
    simp only [splitUntyped, addLeaf, Exec.bind_eq_ok, Exec.get_eq_ok, Exec.pure_eq_ok,
      Exec.modify_eq_ok]
    exact ⟨_, leftSlot, middle, leftRun, rightSlot, last, rightRun, localCPtr, _, nodeRun, _, _,
      ⟨rfl, rfl⟩, (), afterLeft, firstRun, (), afterRight, secondRun, (), _, rfl, (), _, rfl, rfl,
      rfl⟩
  obtain ⟨_, _, _, _, _, after, leftRun', rightRun', nodeRun', _, isFinal⟩ :=
    splitUntyped_eq_ok splitRun
  obtain ⟨rfl, rfl⟩ := Outcome.ok.inj (leftRun.symm.trans leftRun')
  obtain ⟨rfl, rfl⟩ := Outcome.ok.inj (rightRun.symm.trans rightRun')
  obtain ⟨_, rfl⟩ := Outcome.ok.inj (nodeRun.symm.trans nodeRun')
  have isListed : 0 < final.allocator.leafNodes.count held.upper := by
    simp [isFinal, LeafNodes.count_addLeaf]
  obtain ⟨leaves, removed, _⟩ := LeafNodes.removeLeaf_spec isListed
  refine ⟨final, leaves, splitRun, removed, ?_⟩
  rw [isFinal]
  exact hasFree

theorem splitTimes_returns (succeeds : kernel.Succeeds) (times : Nat) :
    ∀ {held : UntypedId} {state : Machine K}, Holding base built live reserved held state →
      times ≤ held.sizeBits → state.allocator.cregion.HasFree (n + 2 * times) →
      ∃ result final, splitTimes kernel times held state = .ok result final ∧
        Holding base built live reserved result final ∧ final.allocator.cregion.HasFree n := by
  induction times with
  | zero =>
      intro held state holding _ hasFree
      exact ⟨held, state, rfl, holding, hasFree⟩
  | succ times ih =>
      intro held state holding large hasFree
      obtain ⟨middle, leaves, splitRun, removed, rest⟩ :=
        @splitUntyped_returns _ _ _ _ _ _ _ (n + 2 * times) succeeds _ holding hasFree
      have upper := (splitUntyped_holding holding (by omega) splitRun removed).2
      obtain ⟨result, final, restRun, held', settled⟩ :=
        ih upper (by simp only [Block.upper]; omega) rest
      refine ⟨result, final, ?_, held', settled⟩
      simp only [splitTimes, Exec.bind_eq_ok, removeLeaf, Exec.runs_eq_ok]
      exact ⟨_, middle, splitRun, (), withLeaves leaves middle, by rw [removed]; rfl, restRun⟩

/-- With slots and a kernel that grants everything, a creation returns if there is a leaf for it. -/
theorem createObject_returns (succeeds : kernel.Succeeds) {destinationCNode : RelativeCPtr}
    {slot : Slot} {blueprint : ObjectBlueprint} (sound : Sound base built live reserved state)
    (small : ∀ id ∈ state.allocator.leafNodes.listed, id.sizeBits < 64)
    (hasLeaf : state.allocator.leafNodes.getLeaf (blueprint.physicalSizeBits sizes) ≠ none)
    (hasFree : state.allocator.cregion.HasFree (n + 126)) :
    ∃ untypedId final,
      createObject sizes kernel destinationCNode slot blueprint state = .ok untypedId final ∧
        final.allocator.cregion.HasFree n := by
  obtain ⟨⟨leaf, leaves⟩, taken⟩ := Option.ne_none_iff_exists'.mp hasLeaf
  have leafRun : getLeaf (blueprint.physicalSizeBits sizes) state =
      .ok leaf (withLeaves leaves state) := by
    simp [getLeaf, taken]
  obtain ⟨holding, large⟩ := getLeaf_holding sound leafRun
  have isListed : leaf ∈ state.allocator.leafNodes.listed := by
    rw [← List.count_pos_iff, LeafNodes.count_listed, ← (LeafNodes.getLeaf_spec taken).2 leaf,
      if_pos rfl]
    exact Nat.succ_pos _
  have below := small leaf isListed
  obtain ⟨held, afterSplit, splitRun, holding, rest⟩ :=
    @splitTimes_returns _ _ _ _ _ _ n succeeds (leaf.sizeBits - blueprint.physicalSizeBits sizes)
      leaf _ holding (Nat.sub_le _ _) (hasFree.mono (by omega))
  have isConsumed : ∃ localCPtr tree, withNode held consumeNode afterSplit =
      .ok localCPtr (withTree tree afterSplit) := withNode_returns holding fun kind => ⟨_, _, rfl⟩
  obtain ⟨localCPtr, tree, nodeRun⟩ := isConsumed
  obtain ⟨final, retypeRun, same⟩ := @onKernel_returns _ _ (withTree tree afterSplit) succeeds
    (.retype localCPtr blueprint destinationCNode (UInt64.ofNat slot) 1)
  refine ⟨held, final, ?_, ?_⟩
  · simp only [createObject, Exec.bind_eq_ok, Exec.pure_eq_ok]
    exact ⟨leaf, _, leafRun, held, afterSplit, splitRun, localCPtr, _, nodeRun, (), final, retypeRun,
      rfl, rfl⟩
  · rw [same]
    exact rest

end Allocator

/-! ## Admission -/

/-- What `create_object` is asked for. -/
structure CreateRequest where
  destinationCNode : RelativeCPtr
  slot : Slot
  blueprint : ObjectBlueprint

section Admission

variable {K : Type} (sizes : Sizes) (kernel : Kernel K)

def CreateRequest.sizeBits (request : CreateRequest) : Nat := request.blueprint.physicalSizeBits sizes

def CreateRequest.create (request : CreateRequest) : Exec Failure (Machine K) Unit := do
  let _ ← Allocator.createObject sizes kernel request.destinationCNode request.slot request.blueprint
  pure ()

/-- The exact total of the objects. -/
def totalSize (requests : List CreateRequest) : Nat :=
  (requests.map fun request => 2 ^ request.sizeBits sizes).sum

variable {sizes kernel} {base : CRegion} {built : Node} {state final : Machine K}

/-- Nothing has been freed, and there are slots for so many more objects. -/
structure Fresh (base : CRegion) (built : Node) (objects : Nat) (state : Machine K) : Prop where
  sound : ∃ live, Sound base built live [] state
  sized : Sized state.allocator
  distinct : state.allocator.leafNodes.Distinct
  hasFree : state.allocator.cregion.HasFree (126 * objects)

theorem CreateRequest.create_eq_ok {request : CreateRequest} :
    request.create sizes kernel state = .ok () final ↔ ∃ untypedId,
      Allocator.createObject sizes kernel request.destinationCNode request.slot request.blueprint
        state = .ok untypedId final := by
  simp [CreateRequest.create]

/-- A creation on a fresh allocator returns and leaves it fresh, or there is not enough space and
`get_leaf` fails. -/
theorem Fresh.create (succeeds : kernel.Succeeds) {objects : Nat} {request : CreateRequest}
    (fresh : Fresh base built (objects + 1) state) (positive : 0 < request.sizeBits sizes) :
    (state.allocator.leafNodes.space < 2 ^ request.sizeBits sizes ∧
        request.create sizes kernel state = .panic) ∨
      (2 ^ request.sizeBits sizes ≤ state.allocator.leafNodes.space ∧
        ∃ final, request.create sizes kernel state = .ok () final ∧ Fresh base built objects final ∧
          final.allocator.leafNodes.space + 2 ^ request.sizeBits sizes =
            state.allocator.leafNodes.space) := by
  have isSpace := Allocator.getLeaf_eq_none_iff_space fresh.distinct positive
  rcases Nat.lt_or_ge state.allocator.leafNodes.space (2 ^ request.sizeBits sizes) with
    less | enough
  · refine .inl ⟨less, ?_⟩
    have refused : Allocator.getLeaf (request.blueprint.physicalSizeBits sizes) state = .panic := by
      have none : state.allocator.leafNodes.getLeaf (request.blueprint.physicalSizeBits sizes) =
        none := isSpace.mpr less
      rw [Allocator.getLeaf, Exec.runs_eq_panic, none, Option.map_none]
    rw [CreateRequest.create, Exec.bind_eq_panic, Allocator.createObject, Exec.bind_eq_panic]
    exact .inl (.inl refused)
  · refine .inr ⟨enough, ?_⟩
    have hasLeaf : state.allocator.leafNodes.getLeaf (request.blueprint.physicalSizeBits sizes) ≠
        none := by
      intro none
      have less := isSpace.mp none
      omega
    obtain ⟨live, sound⟩ := fresh.sound
    obtain ⟨untypedId, final, run, hasFree⟩ :=
      @Allocator.createObject_returns _ sizes _ _ _ _ _ _ (126 * objects) succeeds
        request.destinationCNode request.slot _ sound fresh.sized.listed hasLeaf fresh.hasFree
    obtain ⟨distinct, space⟩ := Allocator.createObject_distinct fresh.distinct run
    have isFinal : request.create sizes kernel state = .ok () final :=
      CreateRequest.create_eq_ok.mpr ⟨untypedId, run⟩
    exact ⟨final, isFinal, ⟨⟨_, Allocator.createObject_sound sound run⟩,
      Allocator.createObject_sized _ _ (.inl ⟨untypedId, run⟩) fresh.sized, distinct, hasFree⟩, space⟩

/-- Creations on a fresh allocator take exactly the objects' sizes from the space. -/
theorem Fresh.creates (succeeds : kernel.Succeeds) {objects : Nat} (requests : List CreateRequest) :
    ∀ {state final : Machine K}, Fresh base built (requests.length + objects) state →
      (∀ request ∈ requests, 0 < request.sizeBits sizes) →
      Exec.forEach requests (CreateRequest.create sizes kernel) state = .ok () final →
      Fresh base built objects final ∧
        final.allocator.leafNodes.space + totalSize sizes requests =
          state.allocator.leafNodes.space := by
  induction requests with
  | nil =>
      intro state final fresh _ run
      obtain ⟨_, rfl⟩ := Exec.pure_eq_ok.mp run
      rw [List.length_nil, Nat.zero_add] at fresh
      exact ⟨fresh, rfl⟩
  | cons request requests ih =>
      intro state final fresh positive run
      obtain ⟨_, middle, first, rest⟩ := Exec.bind_eq_ok.mp run
      rw [List.length_cons, Nat.add_right_comm] at fresh
      rcases fresh.create succeeds (positive request List.mem_cons_self) with
        ⟨_, panicked⟩ | ⟨_, next, created, freshNext, space⟩
      · rw [panicked] at first
        simp at first
      · obtain ⟨_, rfl⟩ := Outcome.ok.inj (created.symm.trans first)
        obtain ⟨settled, restSpace⟩ := ih freshNext
          (fun other member => positive other (List.mem_cons_of_mem _ member)) rest
        refine ⟨settled, ?_⟩
        rw [← space, ← restSpace, totalSize, List.map_cons, List.sum_cons, totalSize]
        omega

/-- Requests that fit together are all met. -/
theorem Fresh.creates_all (succeeds : kernel.Succeeds) (requests : List CreateRequest) :
    ∀ {state : Machine K}, Fresh base built requests.length state →
      (∀ request ∈ requests, 0 < request.sizeBits sizes) →
      totalSize sizes requests ≤ state.allocator.leafNodes.space →
      ∃ final, Exec.forEach requests (CreateRequest.create sizes kernel) state = .ok () final := by
  induction requests with
  | nil =>
      intro state _ _ _
      exact ⟨state, rfl⟩
  | cons request requests ih =>
      intro state fresh positive fits
      rw [totalSize, List.map_cons, List.sum_cons, ← totalSize] at fits
      rcases fresh.create succeeds (positive request List.mem_cons_self) with
        ⟨less, _⟩ | ⟨_, next, created, freshNext, space⟩
      · omega
      · obtain ⟨final, rest⟩ := ih freshNext
          (fun other member => positive other (List.mem_cons_of_mem _ member)) (by omega)
        refine ⟨final, ?_⟩
        rw [Exec.forEach_cons, Exec.bind_eq_ok]
        exact ⟨(), next, created, rest⟩

/-- Untypeds of distinct sizes that do not overlap. -/
structure AllocatorBuilder.Graded (builder : AllocatorBuilder) : Prop where
  apart : builder.untypedIds.Pairwise Block.Apart
  aligned : ∀ id ∈ builder.untypedIds, 2 ^ id.sizeBits ∣ id.paddr
  distinct : (builder.untypedIds.map Block.sizeBits).Nodup
  total : Block.space builder.untypedIds < 2 ^ 64

theorem AllocatorBuilder.Graded.wellFormed {builder : AllocatorBuilder} (graded : builder.Graded) :
    builder.WellFormed where
  apart := graded.apart
  aligned := graded.aligned
  small := (Block.space_lt_iff graded.distinct).mp graded.total

theorem AllocatorBuilder.Graded.fresh {builder : AllocatorBuilder} (graded : builder.Graded)
    {allocator : Allocator} (isBuilt : builder.build = some allocator) (kernelState : K)
    {objects : Nat} (hasFree : builder.cregion.HasFree (126 * objects)) :
    Fresh allocator.cregion allocator.capDerivationTree objects ⟨allocator, kernelState⟩ ∧
      allocator.leafNodes.space = Block.space builder.untypedIds := by
  have placed := AllocatorBuilder.build_placed graded.wellFormed isBuilt
  have listed : allocator.leafNodes.listed.Perm builder.untypedIds := by
    rw [List.perm_iff_count]
    intro id
    rw [LeafNodes.count_listed]
    exact placed.listed id
  refine ⟨⟨⟨[], placed.sound kernelState⟩, AllocatorBuilder.build_sized graded.aligned isBuilt, ?_,
    ?_⟩, Block.space_perm listed⟩
  · rw [LeafNodes.Distinct, (listed.map Block.sizeBits).nodup_iff]
    exact graded.distinct
  · rw [AllocatorBuilder.build_cregion isBuilt]
    exact hasFree

/-- On a fresh allocator a creation fails exactly if the space that is left is too small for it, so
that whatever fits in total is created. -/
theorem creates_iff_space (succeeds : kernel.Succeeds) {builder : AllocatorBuilder}
    (graded : builder.Graded) {allocator : Allocator} (isBuilt : builder.build = some allocator)
    (kernelState : K) (requests : List CreateRequest)
    (positive : ∀ request ∈ requests, 0 < request.sizeBits sizes)
    (hasFree : builder.cregion.HasFree (126 * requests.length)) :
    (∀ earlier request later, requests = earlier ++ request :: later → ∀ state,
      Exec.forEach earlier (CreateRequest.create sizes kernel) ⟨allocator, kernelState⟩ =
        .ok () state →
      state.allocator.leafNodes.space + totalSize sizes earlier = Block.space builder.untypedIds ∧
      (state.allocator.leafNodes.getLeaf (request.sizeBits sizes) = none ↔
        state.allocator.leafNodes.space < 2 ^ request.sizeBits sizes) ∧
      (request.create sizes kernel state = .panic ↔
        state.allocator.leafNodes.space < 2 ^ request.sizeBits sizes)) ∧
    (totalSize sizes requests ≤ Block.space builder.untypedIds →
      ∃ state, Exec.forEach requests (CreateRequest.create sizes kernel) ⟨allocator, kernelState⟩ =
        .ok () state) := by
  obtain ⟨fresh, isSpace⟩ := graded.fresh isBuilt kernelState hasFree
  constructor
  · rintro earlier request later rfl state run
    have isLength : (earlier ++ request :: later).length =
        earlier.length + (later.length + 1) := by
      simp
    rw [isLength] at fresh
    obtain ⟨settled, space⟩ := Fresh.creates succeeds earlier fresh
      (fun other member => positive other (List.mem_append_left _ member)) run
    have isPositive := positive request (by simp)
    refine ⟨space.trans isSpace, Allocator.getLeaf_eq_none_iff_space settled.distinct isPositive, ?_⟩
    rcases settled.create succeeds isPositive with ⟨less, panicked⟩ | ⟨enough, final, created, _⟩
    · exact iff_of_true panicked less
    · refine iff_of_false ?_ (Nat.not_lt.mpr enough)
      rw [created]
      simp
  · intro fits
    exact Fresh.creates_all succeeds requests fresh positive (isSpace ▸ fits)

/-- The untypeds of `exampleBuilder` and a CNode with 256 slots. -/
def gradedBuilder : AllocatorBuilder :=
  { exampleBuilder with
    cregion := ⟨⟨1, ⟨2, 58⟩⟩, 0, 2, 8,
      ⟨Std.TreeMap.ofList ((List.range 256).map fun slot => (slot, false))⟩⟩ }

theorem gradedBuilder_graded : gradedBuilder.Graded where
  apart := exampleBuilder_wellFormed.apart
  aligned := exampleBuilder_wellFormed.aligned
  distinct := by decide
  total := by decide

/-- A page and a TCB are created from 20 KiB. -/
theorem creates_iff_space_gradedBuilder : ∃ allocator state,
    gradedBuilder.build = some allocator ∧
      Exec.forEach [⟨⟨1, ⟨2, 58⟩⟩, 0, .smallPage⟩, ⟨⟨1, ⟨2, 58⟩⟩, 1, .tcb⟩]
        (CreateRequest.create exampleSizes permissive) ⟨allocator, ()⟩ = .ok () state := by
  obtain ⟨allocator, isBuilt⟩ : ∃ allocator, gradedBuilder.build = some allocator :=
    Option.isSome_iff_exists.mp (by decide +kernel)
  have hasFree : gradedBuilder.cregion.HasFree 252 :=
    ⟨List.range 252, List.nodup_range, List.length_range, by unfold CRegion.Free; decide +kernel⟩
  have created := (@creates_iff_space _ exampleSizes _ permissive_succeeds _ gradedBuilder_graded _
    isBuilt ()
    [⟨⟨1, ⟨2, 58⟩⟩, 0, .smallPage⟩, ⟨⟨1, ⟨2, 58⟩⟩, 1, .tcb⟩] (by decide) hasFree).2 (by decide)
  obtain ⟨state, run⟩ := created
  exact ⟨allocator, state, isBuilt, run⟩

end Admission

end IceCap.Dyndl
