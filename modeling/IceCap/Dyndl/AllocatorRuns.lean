import Mathlib.Logic.Relation
import IceCap.Dyndl.AllocatorFree

/-!
# The allocator over whole runs

What `build` makes of a list of untypeds, and what holds after any sequence of
creations and frees: the index lists the consumable leaves, leaves and live ids
partition the untypeds (`run_partitions`), and freeing everything gives back
the tree that was built (`run_coalesces`).
-/

set_option autoImplicit false

namespace IceCap.Dyndl

open IceCap.Library IceCap.Sel4

/-! ## Building -/

namespace Node

/-- The trees `build` makes: built-in leaves under inaccessible nodes. -/
inductive Built : Nat → Node → Prop where
  | empty (bits : Nat) : Built bits .empty
  | leaf (bits : Nat) (localCPtr : CPtr) : Built bits (leaf (.builtIn localCPtr))
  | inner {bits : Nat} {left right : Node} (leftBuilt : Built bits left)
      (rightBuilt : Built bits right) : Built (bits + 1) (.node .inaccessible left right)

theorem Built.skeleton {bits : Nat} {node : Node} (built : Built bits node) :
    Skeleton bits node := by
  induction built with
  | empty bits => exact .empty bits
  | leaf bits localCPtr => exact .region rfl (.leaf bits false _)
  | inner _ _ leftInduction rightInduction => exact .inner leftInduction rightInduction

theorem Built.collapse_eq {bits : Nat} {node : Node} (built : Built bits node) :
    collapse node = node := by
  induction built with
  | empty bits => rfl
  | leaf bits localCPtr => rfl
  | inner _ _ leftInduction rightInduction => rw [collapse, leftInduction, rightInduction]

theorem Built.slots_eq {bits : Nat} {node : Node} (built : Built bits node) : slots node = [] := by
  induction built with
  | empty bits => rfl
  | leaf bits localCPtr => rfl
  | inner _ _ leftInduction rightInduction =>
      rw [slots_node, leftInduction, rightInduction]
      rfl

theorem Built.consumedIds_eq {bits : Nat} {node : Node} (built : Built bits node) :
    ∀ low, consumedIds low bits node = [] := by
  induction built with
  | empty bits => intro low; rfl
  | leaf bits localCPtr => intro low; rfl
  | inner _ _ leftInduction rightInduction =>
      intro low
      rw [consumedIds_node, leftInduction, rightInduction]
      rfl

theorem Built.freeIds_eq {bits : Nat} {node : Node} (built : Built bits node) :
    ∀ low, freeIds low bits node = builtInIds low bits node := by
  induction built with
  | empty bits => intro low; rfl
  | leaf bits localCPtr => intro low; rfl
  | inner _ _ leftInduction rightInduction =>
      intro low
      rw [freeIds_node, builtInIds_node, leftInduction, rightInduction]
      rfl

end Node

namespace AllocatorBuilder

/-- No built-in node lies in a block that an untyped apart from all of them fills. -/
private theorem builtInIds_eq_nil {bits : Nat} {node : Node} (untypedId : UntypedId)
    (built : Node.Built bits node) (filled : untypedId.sizeBits = bits)
    (apart : ∀ id ∈ Node.builtInIds untypedId.paddr bits node, Block.Apart untypedId id) :
    Node.builtInIds untypedId.paddr bits node = [] := by
  apply List.eq_nil_iff_forall_not_mem.mpr
  intro id member
  have inside := (BlockTree.blocksWhere_bounds _ node _ bits built.skeleton.fits id member).1
  rw [← filled] at inside
  exact Block.not_apart_of_subset inside (apart id member).symm

/-- An aligned block in an aligned block lies in one of its halves. -/
private theorem aligned_end {paddr sizeBits low bits : Nat} (aligned : 2 ^ sizeBits ∣ paddr)
    (alignedLow : 2 ^ bits ∣ low) (small : sizeBits ≤ bits) (below : paddr < low + 2 ^ bits) :
    paddr + 2 ^ sizeBits ≤ low + 2 ^ bits := by
  obtain ⟨first, rfl⟩ := aligned
  obtain ⟨last, isLast⟩ : 2 ^ sizeBits ∣ low + 2 ^ bits :=
    (Nat.pow_dvd_pow 2 small).trans (Nat.dvd_add alignedLow (dvd_refl _))
  rw [isLast] at below ⊢
  have ordered : first < last := Nat.lt_of_mul_lt_mul_left below
  calc 2 ^ sizeBits * first + 2 ^ sizeBits = 2 ^ sizeBits * (first + 1) := by ring
    _ ≤ 2 ^ sizeBits * last := Nat.mul_le_mul_left _ ordered

/-- Above the untyped's level the walk is at an inaccessible node, perhaps a new one. -/
private theorem inner_of_built {bits low : Nat} {node : Node} (untypedId : UntypedId)
    (built : Node.Built (bits + 1) node)
    (inside : untypedId.range ⊆ (Block.mk low (bits + 1)).range)
    (apart : ∀ id ∈ Node.builtInIds low (bits + 1) node, Block.Apart untypedId id) :
    ∃ left right, (if node.isEmpty then Node.new else node) = .node .inaccessible left right ∧
      Node.Built bits left ∧ Node.Built bits right ∧
      Node.builtInIds low (bits + 1) node =
        Node.builtInIds low bits left ++ Node.builtInIds (low + 2 ^ bits) bits right := by
  cases built with
  | empty => exact ⟨.empty, .empty, rfl, .empty bits, .empty bits, rfl⟩
  | leaf _ localCPtr =>
      have overlaps := apart ⟨low, bits + 1⟩ (by
        simp [Node.builtInIds, Node.leaf, BlockTree.blocksWhere, Node.isBuiltIn])
      exact absurd overlaps (Block.not_apart_of_subset inside)
  | inner leftBuilt rightBuilt => exact ⟨_, _, rfl, leftBuilt, rightBuilt, rfl⟩

/-- The walk of `build` adds one built-in leaf. -/
theorem placeBuiltIn_built (untyped : ElaboratedUntyped)
    (aligned : 2 ^ untyped.untypedId.sizeBits ∣ untyped.untypedId.paddr) :
    ∀ (bits low : Nat) (node : Node), Node.Built bits node → 2 ^ bits ∣ low →
      untyped.untypedId.paddr ∈ (Block.mk low bits).range → untyped.untypedId.sizeBits ≤ bits →
      (∀ id ∈ Node.builtInIds low bits node, Block.Apart untyped.untypedId id) →
      Node.Built bits (placeBuiltIn untyped bits low (low + 2 ^ bits - 1) node) ∧
        (Node.builtInIds low bits (placeBuiltIn untyped bits low (low + 2 ^ bits - 1) node)).Perm
          (untyped.untypedId :: Node.builtInIds low bits node) := by
  obtain ⟨cptr, ⟨paddr, sizeBits⟩⟩ := untyped
  simp only at aligned ⊢
  -- At the untyped's own level the whole block is its.
  have fills : ∀ (low : Nat) (node : Node), Node.Built sizeBits node → 2 ^ sizeBits ∣ low →
      paddr ∈ (Block.mk low sizeBits).range →
      (∀ id ∈ Node.builtInIds low sizeBits node, Block.Apart ⟨paddr, sizeBits⟩ id) →
      Node.Built sizeBits (builtInNode cptr) ∧
        (Node.builtInIds low sizeBits (builtInNode cptr)).Perm
          (⟨paddr, sizeBits⟩ :: Node.builtInIds low sizeBits node) := by
    intro low node built alignedLow inside apart
    rw [Block.mem_range] at inside
    have ends := aligned_end aligned alignedLow (le_refl _) inside.2
    obtain rfl : low = paddr := by simp only at inside; omega
    rw [builtInIds_eq_nil ⟨low, sizeBits⟩ built rfl apart]
    exact ⟨.leaf _ cptr, List.Perm.refl _⟩
  intro bits
  induction bits with
  | zero =>
      intro low node built alignedLow inside small apart
      obtain rfl : sizeBits = 0 := by omega
      exact fills low node built alignedLow inside apart
  | succ bits ih =>
      intro low node built alignedLow inside small apart
      by_cases whole : sizeBits = bits + 1
      · subst whole
        rw [placeBuiltIn, if_neg (by simp)]
        exact fills low node built alignedLow inside apart
      · have alignedHalf : 2 ^ bits ∣ low := (Nat.pow_dvd_pow 2 (by omega)).trans alignedLow
        have ends := aligned_end aligned alignedLow small inside.2
        obtain ⟨left, right, isNode, leftBuilt, rightBuilt, ids⟩ := inner_of_built ⟨paddr, sizeBits⟩ built
          (fun address member => by
            simp only [Block.mem_range] at inside member ⊢
            omega) apart
        rw [ids] at apart ⊢
        rw [placeBuiltIn, if_pos (by simp only; omega), isNode]
        simp only [Node.halfAddr_eq]
        rw [Block.mem_range] at inside
        by_cases below : paddr < low + 2 ^ bits
        · rw [if_pos below]
          obtain ⟨placed, perm⟩ := ih low left leftBuilt alignedHalf ⟨inside.1, below⟩ (by omega)
            fun id member => apart id (List.mem_append_left _ member)
          refine ⟨.inner placed rightBuilt, ?_⟩
          rw [Node.builtInIds_node]
          simp only [Node.isBuiltIn, Bool.false_eq_true, if_false, List.nil_append]
          exact perm.append_right _
        · rw [if_neg below]
          have top : low + 2 ^ (bits + 1) - 1 = low + 2 ^ bits + 2 ^ bits - 1 := by
            rw [pow_succ]
            omega
          obtain ⟨placed, perm⟩ := ih (low + 2 ^ bits) right rightBuilt
            (Nat.dvd_add alignedHalf (dvd_refl _))
            ⟨by simp only; omega, by simp only [pow_succ] at inside ⊢; omega⟩ (by omega)
            fun id member => apart id (List.mem_append_right _ member)
          rw [top]
          refine ⟨.inner leftBuilt placed, ?_⟩
          rw [Node.builtInIds_node]
          simp only [Node.isBuiltIn, Bool.false_eq_true, if_false, List.nil_append]
          exact (perm.append_left _).trans List.perm_middle

/-- The ids of the untypeds, in the order they were added. -/
def untypedIds (builder : AllocatorBuilder) : List UntypedId :=
  builder.untyped.map ElaboratedUntyped.untypedId

/-- The untypeds a builder is meant to be given. -/
structure WellFormed (builder : AllocatorBuilder) : Prop where
  apart : builder.untypedIds.Pairwise Block.Apart
  aligned : ∀ id ∈ builder.untypedIds, 2 ^ id.sizeBits ∣ id.paddr
  small : ∀ id ∈ builder.untypedIds, id.sizeBits < 64

/-- What the loop of `build` has done once it has placed some untypeds. -/
structure Placed (ids : List UntypedId) (allocator : Allocator) : Prop where
  tree : Node.Built 64 allocator.capDerivationTree
  builtIn : (Node.builtInIds 0 64 allocator.capDerivationTree).Perm ids
  listed : ∀ id, allocator.leafNodes.count id = ids.count id

theorem buildOne_placed {ids : List UntypedId} {allocator final : Allocator}
    {untyped : ElaboratedUntyped} (placed : Placed ids allocator)
    (aligned : 2 ^ untyped.untypedId.sizeBits ∣ untyped.untypedId.paddr)
    (apart : ∀ id ∈ ids, Block.Apart id untyped.untypedId)
    (run : buildOne allocator untyped = some final) : Placed (ids ++ [untyped.untypedId]) final := by
  unfold buildOne at run
  split at run
  · simp at run
  · split at run
    · simp at run
    · next inRange =>
        split at run
        · simp at run
        · next fits =>
            simp only [Option.some.injEq] at run
            subst run
            rw [Node.maxAddr_eq] at inRange
            obtain ⟨built, perm⟩ := placeBuiltIn_built untyped aligned 64 0 _ placed.tree
              (Nat.dvd_zero _) ⟨Nat.zero_le _, by simp only; omega⟩ (by omega)
              fun id member => (apart id (placed.builtIn.mem_iff.mp member)).symm
            refine ⟨Node.maxAddr_eq ▸ built, ?_, ?_⟩
            · simp only [Node.maxAddr_eq]
              refine (perm.trans (placed.builtIn.cons _)).trans ?_
              exact (List.perm_append_singleton _ _).symm
            · intro id
              rw [LeafNodes.count_addLeaf, placed.listed, List.count_append, List.count_singleton]
              simp

theorem buildAll_placed (untypeds : List ElaboratedUntyped) :
    ∀ {ids : List UntypedId} {allocator final : Allocator}, Placed ids allocator →
      (∀ untyped ∈ untypeds, 2 ^ untyped.untypedId.sizeBits ∣ untyped.untypedId.paddr) →
      (ids ++ untypeds.map ElaboratedUntyped.untypedId).Pairwise Block.Apart →
      buildAll untypeds allocator = some final →
      Placed (ids ++ untypeds.map ElaboratedUntyped.untypedId) final := by
  induction untypeds with
  | nil =>
      intro ids allocator final placed _ _ run
      simp only [buildAll, Option.some.injEq] at run
      subst run
      simpa using placed
  | cons untyped untypeds ih =>
      intro ids allocator final placed aligned apart run
      simp only [buildAll, Option.bind_eq_some_iff] at run
      obtain ⟨middle, first, rest⟩ := run
      have separate : ∀ id ∈ ids, Block.Apart id untyped.untypedId := fun id member =>
        (List.pairwise_append.mp apart).2.2 id member untyped.untypedId (by simp)
      rw [List.map_cons, List.append_cons] at apart ⊢
      exact ih (buildOne_placed placed (aligned untyped (by simp)) separate first)
        (fun other member => aligned other (by simp [member])) apart rest

theorem build_placed {builder : AllocatorBuilder} {allocator : Allocator}
    (wellFormed : builder.WellFormed) (run : builder.build = some allocator) :
    Placed builder.untypedIds allocator := by
  have start : Placed [] ⟨builder.cregion, builder.fragmentationThresholdSizeBits, Node.new,
      LeafNodes.new⟩ :=
    ⟨.inner (.empty 63) (.empty 63), List.Perm.refl _, fun id => LeafNodes.count_new id⟩
  exact buildAll_placed builder.untyped start
    (fun untyped member => wellFormed.aligned _ (List.mem_map_of_mem member)) wellFormed.apart run

theorem buildAll_cregion (untypeds : List ElaboratedUntyped) :
    ∀ {allocator final : Allocator}, buildAll untypeds allocator = some final →
      final.cregion = allocator.cregion := by
  induction untypeds with
  | nil =>
      intro allocator final run
      simp only [buildAll, Option.some.injEq] at run
      rw [run]
  | cons untyped untypeds ih =>
      intro allocator final run
      simp only [buildAll, Option.bind_eq_some_iff] at run
      obtain ⟨middle, first, rest⟩ := run
      rw [ih rest]
      unfold buildOne at first
      split at first
      · simp at first
      · split at first
        · simp at first
        · split at first
          · simp at first
          · rw [← Option.some.inj first]

theorem build_cregion {builder : AllocatorBuilder} {allocator : Allocator}
    (run : builder.build = some allocator) : allocator.cregion = builder.cregion :=
  buildAll_cregion builder.untyped run

/-- A built allocator with nothing allocated. -/
theorem Placed.sound {K : Type} {ids : List UntypedId} {allocator : Allocator}
    (placed : Placed ids allocator) (kernelState : K) :
    Sound allocator.cregion allocator.capDerivationTree [] [] (Machine.mk allocator kernelState) where
  skeleton := placed.tree.skeleton
  listed id := by
    rw [placed.tree.freeIds_eq, placed.listed, placed.builtIn.count_eq]
  consumed id := by rw [placed.tree.consumedIds_eq]
  collapsed := placed.tree.collapse_eq
  slotsNodup := by rw [placed.tree.slots_eq]; exact List.nodup_nil
  slotsTaken := by rw [placed.tree.slots_eq]; simp
  slotsMarked slot := by rw [placed.tree.slots_eq]; simp

end AllocatorBuilder

/-! ## Runs -/

section Runs

variable {K : Type} (sizes : Sizes) (kernel : Kernel K)

/-- One call on the allocator, with the ids that were returned and not freed since. -/
inductive Step : Machine K × List UntypedId → Machine K × List UntypedId → Prop where
  | createCnode {state final : Machine K} {live : List UntypedId} (radix : Nat)
      {realmCRegion : CRegion} {untypedId : UntypedId} {slot : Slot}
      (run : Allocator.createCnode sizes kernel radix state =
        .ok (realmCRegion, untypedId, slot) final) :
      Step (state, live) (final, untypedId :: live)
  | createObjects {state final : Machine K} {live : List UntypedId}
      (blueprints : List ObjectBlueprint) (realmCRegion : CRegion) {realmCRegion' : CRegion}
      {slots : List Slot} {untypedIds : List UntypedId}
      (run : Allocator.createObjects sizes kernel blueprints realmCRegion state =
        .ok (realmCRegion', slots, untypedIds) final) :
      Step (state, live) (final, untypedIds.reverse ++ live)
  | revokeAndFree {state final : Machine K} {live : List UntypedId} {untypedId : UntypedId}
      (isLive : untypedId ∈ live)
      (run : Allocator.revokeAndFree kernel untypedId state = .ok () final) :
      Step (state, live) (final, live.erase untypedId)

variable {sizes kernel}

theorem Step.sound (succeeds : kernel.Succeeds) {base : CRegion} {built : Node}
    {before after : Machine K × List UntypedId}
    (sound : ∃ reserved, Sound base built before.2 reserved before.1)
    (step : Step sizes kernel before after) :
    ∃ reserved, Sound base built after.2 reserved after.1 := by
  obtain ⟨reserved, sound⟩ := sound
  cases step with
  | createCnode radix run => exact ⟨_, Allocator.createCnode_sound sound run⟩
  | createObjects blueprints realmCRegion run =>
      exact ⟨_, Allocator.createObjects_sound _ sound run⟩
  | revokeAndFree isLive run =>
      obtain ⟨final, run', kept⟩ := Allocator.revokeAndFree_sound succeeds sound isLive
      rw [run] at run'
      cases run'
      exact ⟨_, kept⟩

theorem run_sound (succeeds : kernel.Succeeds) {base : CRegion} {built : Node}
    {before after : Machine K × List UntypedId} (sound : Sound base built before.2 [] before.1)
    (run : Relation.ReflTransGen (Step sizes kernel) before after) :
    ∃ reserved, Sound base built after.2 reserved after.1 := by
  induction run with
  | refl => exact ⟨[], sound⟩
  | tail _ step ih => exact step.sound succeeds ih

theorem Sound.listed_perm {base : CRegion} {built : Node} {live : List UntypedId} {reserved : List Slot}
    {state : Machine K} (sound : Sound base built live reserved state) :
    state.allocator.leafNodes.listed.Perm
      (Node.freeIds 0 64 state.allocator.capDerivationTree) := by
  rw [List.perm_iff_count]
  intro id
  rw [LeafNodes.count_listed]
  exact sound.listed id

theorem Sound.occupied_perm {base : CRegion} {built : Node} {live : List UntypedId} {reserved : List Slot}
    {state : Machine K} (sound : Sound base built live reserved state) :
    (state.allocator.leafNodes.listed ++ live).Perm
      (Node.occupiedIds 0 64 state.allocator.capDerivationTree) :=
  sound.listed_perm.append (List.perm_iff_count.mpr sound.consumed)

/-- With nothing live the tree is the one that was built. -/
theorem Sound.tree_eq {base : CRegion} {built : Node} {live : List UntypedId}
    {reserved : List Slot} {state : Machine K} (sound : Sound base built live reserved state)
    (noneLive : live = []) : state.allocator.capDerivationTree = built := by
  subst noneLive
  have unused : Node.consumedIds 0 64 state.allocator.capDerivationTree = [] := by
    apply List.eq_nil_iff_forall_not_mem.mpr
    intro id member
    have consumed := sound.consumed id
    have positive := List.count_pos_iff.mpr member
    simp only [List.count_nil] at consumed
    omega
  exact (sound.skeleton.collapse_eq 0 unused).symm.trans sound.collapsed

/-- In every reachable state the index lists the consumable leaves of the tree, each once, and the
leaves and the live ids partition the memory the allocator was built from. -/
theorem run_partitions (succeeds : kernel.Succeeds) {builder : AllocatorBuilder}
    (wellFormed : builder.WellFormed) {allocator : Allocator}
    (isBuilt : builder.build = some allocator) (kernelState : K) {state : Machine K}
    {live : List UntypedId}
    (run : Relation.ReflTransGen (Step sizes kernel) (⟨allocator, kernelState⟩, []) (state, live)) :
    state.allocator.leafNodes.listed.Perm
        (Node.freeIds 0 64 state.allocator.capDerivationTree) ∧
      state.allocator.leafNodes.listed.Nodup ∧
      (state.allocator.leafNodes.listed ++ live).Pairwise Block.Apart ∧
      Node.rangeOf (state.allocator.leafNodes.listed ++ live) =
        Node.rangeOf builder.untypedIds := by
  have placed := AllocatorBuilder.build_placed wellFormed isBuilt
  obtain ⟨_, sound⟩ := run_sound succeeds (placed.sound kernelState) run
  refine ⟨sound.listed_perm, ?_, ?_, ?_⟩
  · exact sound.listed_perm.nodup_iff.mpr (sound.skeleton.freeIds_nodup 0)
  · exact (sound.occupied_perm.pairwise_iff fun apart => apart.symm).mpr (sound.skeleton.apart 0)
  · calc Node.rangeOf (state.allocator.leafNodes.listed ++ live)
        = Node.rangeOf (Node.occupiedIds 0 64 state.allocator.capDerivationTree) :=
          Node.rangeOf_perm sound.occupied_perm
      _ = Node.rangeOf (Node.builtInIds 0 64 state.allocator.capDerivationTree) :=
          sound.skeleton.covers 0
      _ = Node.rangeOf (Node.builtInIds 0 64 allocator.capDerivationTree) := by
          rw [← sound.skeleton.builtInIds_collapse, sound.collapsed]
      _ = Node.rangeOf builder.untypedIds := Node.rangeOf_perm placed.builtIn

/-- Two untypeds of 4 and 16 KiB and a CNode with 16 slots. -/
def exampleBuilder : AllocatorBuilder where
  cregion := ⟨⟨1, ⟨2, 58⟩⟩, 0, 2, 4,
    ⟨Std.TreeMap.ofList ((List.range 16).map fun slot => (slot, false))⟩⟩
  fragmentationThresholdSizeBits := 0
  untyped := [⟨3, ⟨0x8000, 14⟩⟩, ⟨4, ⟨0x1000, 12⟩⟩]

/-- The sizes of the kernel's objects on AArch64. -/
def exampleSizes : Sizes := ⟨4, 5, 5, 11, 12, 12, 21, 30, 12, 12, 12, 12⟩

theorem exampleBuilder_wellFormed : exampleBuilder.WellFormed where
  apart := by
    simp only [AllocatorBuilder.untypedIds, exampleBuilder, List.map_cons, List.map_nil,
      List.pairwise_cons, List.mem_cons, List.not_mem_nil, or_false, forall_eq, false_implies,
      implies_true, List.Pairwise.nil, and_true]
    apply Set.disjoint_left.mpr
    intro address first second
    simp only [Block.mem_range] at first second
    omega
  aligned := by decide
  small := by decide

/-- A CNode and two objects are created in the allocator of `exampleBuilder`. -/
theorem exampleBuilder_run : ∃ allocator state live,
    exampleBuilder.build = some allocator ∧
      Relation.ReflTransGen (Step exampleSizes permissive) (⟨allocator, ()⟩, []) (state, live) ∧
      live ≠ [] := by
  have evaluates : (exampleBuilder.build.map fun allocator =>
      (Allocator.createCnode exampleSizes permissive 4 >>= fun created =>
        Allocator.createObjects exampleSizes permissive [.tcb, .smallPage] created.1)
          ⟨allocator, ()⟩ |>.isOk) = some true := by decide +kernel
  obtain ⟨allocator, isBuilt, isOk⟩ := Option.map_eq_some_iff.mp evaluates
  obtain ⟨objects, final, run⟩ := Outcome.isOk_iff.mp isOk
  obtain ⟨⟨realmCRegion, untypedId, slot⟩, middle, first, second⟩ := Exec.bind_eq_ok.mp run
  obtain ⟨realmCRegion', slots, untypedIds⟩ := objects
  exact ⟨allocator, final, untypedIds.reverse ++ [untypedId], isBuilt,
    (Relation.ReflTransGen.single (.createCnode 4 first)).tail
      (.createObjects [.tcb, .smallPage] realmCRegion second), by simp⟩

theorem run_partitions_exampleBuilder : ∃ allocator state live,
    exampleBuilder.build = some allocator ∧
      Relation.ReflTransGen (Step exampleSizes permissive) (⟨allocator, ()⟩, []) (state, live) ∧
      live ≠ [] ∧ (state.allocator.leafNodes.listed ++ live).Pairwise Block.Apart := by
  obtain ⟨allocator, state, live, isBuilt, run, isLive⟩ := exampleBuilder_run
  have partitions :=
    run_partitions permissive_succeeds exampleBuilder_wellFormed isBuilt () run
  exact ⟨allocator, state, live, isBuilt, run, isLive, partitions.2.2.1⟩

/-- Freeing every live id, in any order, returns and leaves nothing live. -/
theorem freeAll_sound (succeeds : kernel.Succeeds) {base : CRegion} {built : Node}
    {reserved : List Slot} (order : List UntypedId) :
    ∀ {live : List UntypedId} {state : Machine K}, Sound base built live reserved state →
      order.Perm live →
      ∃ final, Exec.forEach order (Allocator.revokeAndFree kernel) state = .ok () final ∧
        Sound base built [] reserved final := by
  induction order with
  | nil =>
      intro live state sound perm
      obtain rfl := perm.nil_eq
      exact ⟨state, rfl, sound⟩
  | cons id order ih =>
      intro live state sound perm
      have isLive : id ∈ live := perm.mem_iff.mp (by simp)
      obtain ⟨middle, first, kept⟩ := Allocator.revokeAndFree_sound succeeds sound isLive
      have rest : order.Perm (live.erase id) := by
        have erased := perm.erase id
        rwa [List.erase_cons_head] at erased
      obtain ⟨final, run, settled⟩ := ih kept rest
      refine ⟨final, ?_, settled⟩
      rw [Exec.forEach_cons, Exec.bind_eq_ok]
      exact ⟨(), middle, first, run⟩

/-- Whatever was created, freeing all of it in any order coalesces the memory completely. -/
theorem run_coalesces (succeeds : kernel.Succeeds) {builder : AllocatorBuilder}
    (wellFormed : builder.WellFormed) {allocator : Allocator}
    (isBuilt : builder.build = some allocator) (kernelState : K) {state : Machine K}
    {live order : List UntypedId}
    (run : Relation.ReflTransGen (Step sizes kernel) (⟨allocator, kernelState⟩, []) (state, live))
    (all : order.Perm live) :
    ∃ final, Exec.forEach order (Allocator.revokeAndFree kernel) state = .ok () final ∧
      final.allocator.capDerivationTree = allocator.capDerivationTree ∧
      final.allocator.leafNodes.listed.Perm builder.untypedIds := by
  have placed := AllocatorBuilder.build_placed wellFormed isBuilt
  obtain ⟨_, sound⟩ := run_sound succeeds (placed.sound kernelState) run
  obtain ⟨final, freed, sound⟩ := freeAll_sound succeeds order sound all
  have isTree := sound.tree_eq rfl
  refine ⟨final, freed, isTree, ?_⟩
  have listed := sound.listed_perm
  rw [isTree, placed.tree.freeIds_eq] at listed
  exact listed.trans placed.builtIn

theorem run_coalesces_exampleBuilder : ∃ allocator state live final,
    exampleBuilder.build = some allocator ∧
      Relation.ReflTransGen (Step exampleSizes permissive) (⟨allocator, ()⟩, []) (state, live) ∧
      live ≠ [] ∧
      Exec.forEach live.reverse (Allocator.revokeAndFree permissive) state = .ok () final ∧
      final.allocator.capDerivationTree = allocator.capDerivationTree := by
  obtain ⟨allocator, state, live, isBuilt, run, isLive⟩ := exampleBuilder_run
  obtain ⟨final, freed, isTree, _⟩ := run_coalesces permissive_succeeds exampleBuilder_wellFormed
    isBuilt () run (List.reverse_perm live)
  exact ⟨allocator, state, live, final, isBuilt, run, isLive, freed, isTree⟩

end Runs

end IceCap.Dyndl
