import Mathlib.Data.List.Induction
import IceCap.Dyndl.Allocator

/-!
# What the capability derivation tree looks like

`Region` describes the tree below an accessible node: every node has two
managed children or none, a consumed node has none, and no node has two
children that could be merged.  `Skeleton` describes the whole tree: built-in
regions hanging off inaccessible nodes.

Under these two predicates the consumable leaves and the consumed nodes split
the built-in untypeds exactly (`Skeleton.apart`, `Skeleton.covers`), and a tree
in which nothing is consumed is the tree that was built (`Skeleton.collapse_eq`).
-/

set_option autoImplicit false

namespace IceCap.Dyndl

open IceCap.Library IceCap.Sel4

namespace Node

def freeIds (low bits : Nat) (node : Node) : List UntypedId :=
  BlockTree.blocksWhere isDeletable low bits node

def consumedIds (low bits : Nat) (node : Node) : List UntypedId :=
  BlockTree.blocksWhere isConsumed low bits node

def builtInIds (low bits : Nat) (node : Node) : List UntypedId :=
  BlockTree.blocksWhere isBuiltIn low bits node

/-- The slots of the managed nodes. -/
def slots (node : Node) : List Slot := BlockTree.valuesOf slotOf node

theorem isDeletable_shallow : BlockTree.Shallow isDeletable := by
  intro label left right left' right' sameLeft sameRight
  cases label <;> simp [isDeletable, isAccessible, isConsumed, sameLeft, sameRight]

theorem isConsumed_shallow : BlockTree.Shallow isConsumed := by
  intro label left right left' right' _ _
  cases label <;> rfl

theorem halfAddr_eq (low bits : Nat) :
    halfAddr low (low + 2 ^ (bits + 1) - 1) = low + 2 ^ bits := by
  have positive := Nat.two_pow_pos bits
  have span : low + 2 ^ (bits + 1) - 1 - low = 2 * 2 ^ bits - 1 := by
    rw [pow_succ]
    omega
  rw [halfAddr, span, Nat.shiftRight_eq_div_pow]
  omega

theorem maxAddr_eq : maxAddr = 0 + 2 ^ 64 - 1 := by
  norm_num [maxAddr]

/-- A childless accessible node that is not consumed. -/
def leaf (kind : AccessibleNodeType) : Node := .node (.accessible false kind) .empty .empty

/-- A childless accessible node that is consumed. -/
def consumedLeaf (kind : AccessibleNodeType) : Node := .node (.accessible true kind) .empty .empty

def root : UntypedId := ⟨0, 64⟩

theorem eq_leaf_of_isDeletable {node : Node} (deletable : isDeletable node = true) :
    ∃ kind, node = leaf kind := by
  cases node with
  | empty => simp [isDeletable] at deletable
  | node label left right =>
      cases label with
      | inaccessible => simp [isDeletable, isAccessible] at deletable
      | accessible consumed kind =>
          simp only [isDeletable, isAccessible, isConsumed, Bool.true_and, Bool.and_eq_true,
            Bool.not_eq_true', BlockTree.isEmpty_iff] at deletable
          obtain ⟨⟨unconsumed, leftEmpty⟩, rightEmpty⟩ := deletable
          subst unconsumed leftEmpty rightEmpty
          exact ⟨kind, rfl⟩

@[simp]
theorem isDeletable_leaf (kind : AccessibleNodeType) : isDeletable (leaf kind) = true := rfl

@[simp]
theorem freeIds_leaf (kind : AccessibleNodeType) (low bits : Nat) :
    freeIds low bits (leaf kind) = [⟨low, bits⟩] := rfl

@[simp]
theorem consumedIds_leaf (kind : AccessibleNodeType) (low bits : Nat) :
    consumedIds low bits (leaf kind) = [] := rfl

@[simp]
theorem freeIds_consumedLeaf (kind : AccessibleNodeType) (low bits : Nat) :
    freeIds low bits (consumedLeaf kind) = [] := rfl

@[simp]
theorem consumedIds_consumedLeaf (kind : AccessibleNodeType) (low bits : Nat) :
    consumedIds low bits (consumedLeaf kind) = [⟨low, bits⟩] := rfl

@[simp]
theorem slots_consumedLeaf (kind : AccessibleNodeType) :
    slots (consumedLeaf kind) = slots (leaf kind) := by
  cases kind <;> rfl

theorem freeIds_node {label : NodeType} {left right : Node} {low bits : Nat} :
    freeIds low (bits + 1) (.node label left right) =
      (if isDeletable (.node label left right) then [⟨low, bits + 1⟩] else []) ++
        (freeIds low bits left ++ freeIds (low + 2 ^ bits) bits right) := rfl

theorem consumedIds_node {label : NodeType} {left right : Node} {low bits : Nat} :
    consumedIds low (bits + 1) (.node label left right) =
      (if isConsumed (.node label left right) then [⟨low, bits + 1⟩] else []) ++
        (consumedIds low bits left ++ consumedIds (low + 2 ^ bits) bits right) := rfl

theorem builtInIds_node {label : NodeType} {left right : Node} {low bits : Nat} :
    builtInIds low (bits + 1) (.node label left right) =
      (if isBuiltIn (.node label left right) then [⟨low, bits + 1⟩] else []) ++
        (builtInIds low bits left ++ builtInIds (low + 2 ^ bits) bits right) := rfl

theorem slots_node {label : NodeType} {left right : Node} :
    slots (.node label left right) = (slotOf label).toList ++ (slots left ++ slots right) := rfl

theorem ne_empty_of_isManaged {node : Node} (managed : isManaged node = true) :
    node.isEmpty = false := by
  cases node with
  | empty => simp [isManaged] at managed
  | node label left right => rfl

/-- The tree with every region taken back to one unconsumed leaf. -/
def collapse : Node → Node
  | .empty => .empty
  | .node (.accessible _ kind) _ _ => leaf kind
  | .node .inaccessible left right => .node .inaccessible (collapse left) (collapse right)

/-! ## Regions -/

inductive Region : Nat → Node → Prop where
  | leaf (bits : Nat) (consumed : Bool) (kind : AccessibleNodeType) :
      Region bits (.node (.accessible consumed kind) .empty .empty)
  | split {bits : Nat} {kind : AccessibleNodeType} {left right : Node}
      (leftManaged : isManaged left = true) (rightManaged : isManaged right = true)
      (leftRegion : Region bits left) (rightRegion : Region bits right)
      (busy : ¬ (isDeletable left = true ∧ isDeletable right = true)) :
      Region (bits + 1) (.node (.accessible false kind) left right)

inductive Skeleton : Nat → Node → Prop where
  | empty (bits : Nat) : Skeleton bits .empty
  | region {bits : Nat} {node : Node} (builtIn : isBuiltIn node = true)
      (region : Region bits node) : Skeleton bits node
  | inner {bits : Nat} {left right : Node} (leftSkeleton : Skeleton bits left)
      (rightSkeleton : Skeleton bits right) :
      Skeleton (bits + 1) (.node .inaccessible left right)

theorem Region.fits {bits : Nat} {node : Node} (region : Region bits node) :
    BlockTree.Fits bits node := by
  induction region with
  | leaf bits consumed kind => cases bits <;> simp [BlockTree.Fits]
  | split _ _ _ _ _ leftInduction rightInduction => exact ⟨leftInduction, rightInduction⟩

theorem Skeleton.fits {bits : Nat} {node : Node} (skeleton : Skeleton bits node) :
    BlockTree.Fits bits node := by
  induction skeleton with
  | empty bits => cases bits <;> trivial
  | region _ region => exact region.fits
  | inner _ _ leftInduction rightInduction => exact ⟨leftInduction, rightInduction⟩

theorem isDeletable_split (consumed : Bool) (kind : AccessibleNodeType) {left : Node} (right : Node)
    (leftManaged : isManaged left = true) :
    isDeletable (.node (.accessible consumed kind) left right) = false := by
  simp [isDeletable, ne_empty_of_isManaged leftManaged]

/-- A region in which nothing is consumed is a single leaf: whatever could be merged has been. -/
theorem Region.isDeletable_iff {bits : Nat} {node : Node} (region : Region bits node) :
    ∀ low, isDeletable node = true ↔ consumedIds low bits node = [] := by
  induction region with
  | leaf bits consumed kind =>
      intro low
      cases consumed <;> simp [isDeletable, isAccessible, isConsumed, consumedIds,
        BlockTree.blocksWhere, BlockTree.isEmpty]
  | @split bits kind left right leftManaged rightManaged _ _ busy leftInduction rightInduction =>
      intro low
      rw [isDeletable_split false kind right leftManaged, consumedIds_node]
      have isNot : isConsumed (.node (.accessible false kind) left right) = false := rfl
      simp only [isNot, Bool.false_eq_true, if_false, List.nil_append, List.append_eq_nil_iff,
        false_iff]
      rw [← leftInduction low, ← rightInduction (low + 2 ^ bits)]
      exact busy

theorem Region.builtInIds_eq {bits : Nat} {node : Node} (region : Region bits node) :
    ∀ low, builtInIds low bits node = if isBuiltIn node then [⟨low, bits⟩] else [] := by
  induction region with
  | leaf bits consumed kind => intro low; simp [builtInIds, BlockTree.blocksWhere]
  | @split bits kind left right leftManaged rightManaged _ _ _ leftInduction rightInduction =>
      intro low
      have notBuiltIn : ∀ {node : Node}, isManaged node = true → isBuiltIn node = false := by
        intro node managed
        cases node with
        | empty => rfl
        | node label left right =>
            cases label with
            | inaccessible => rfl
            | accessible consumed kind =>
                cases kind with
                | builtIn localCPtr => simp [isManaged] at managed
                | managed slot => rfl
      rw [builtInIds_node, leftInduction, rightInduction, notBuiltIn leftManaged,
        notBuiltIn rightManaged]
      simp

/-- What is consumable and what is consumed in a subtree. -/
def occupiedIds (low bits : Nat) (node : Node) : List UntypedId :=
  freeIds low bits node ++ consumedIds low bits node

theorem occupiedIds_inner {label : NodeType} {left right : Node} (low bits : Nat)
    (notDeletable : isDeletable (.node label left right) = false)
    (notConsumed : isConsumed (.node label left right) = false) :
    (occupiedIds low (bits + 1) (.node label left right)).Perm
      (occupiedIds low bits left ++ occupiedIds (low + 2 ^ bits) bits right) := by
  unfold occupiedIds
  rw [freeIds_node, consumedIds_node, List.perm_iff_count]
  intro id
  simp [notDeletable, notConsumed, List.count_append]
  omega

theorem occupiedIds_bounds {low bits : Nat} {node : Node} (fits : BlockTree.Fits bits node)
    {id : UntypedId} (member : id ∈ occupiedIds low bits node) :
    id.range ⊆ (Block.mk low bits).range ∧ id.sizeBits ≤ bits := by
  rcases List.mem_append.mp member with isFree | isUsed
  · exact BlockTree.blocksWhere_bounds _ node low bits fits id isFree
  · exact BlockTree.blocksWhere_bounds _ node low bits fits id isUsed

def rangeOf (ids : List UntypedId) : Set Nat := {address | ∃ id ∈ ids, address ∈ id.range}

theorem rangeOf_append (first second : List UntypedId) :
    rangeOf (first ++ second) = rangeOf first ∪ rangeOf second := by
  ext address
  simp [rangeOf, or_and_right, exists_or]

theorem rangeOf_perm {first second : List UntypedId} (perm : first.Perm second) :
    rangeOf first = rangeOf second := by
  ext address
  simp [rangeOf, perm.mem_iff]

theorem rangeOf_singleton (id : UntypedId) : rangeOf [id] = id.range := by
  ext address
  simp [rangeOf]

/-- Two halves whose parts are apart stay apart when put together. -/
theorem pairwise_halves {low bits : Nat} {left right : Node}
    (leftFits : BlockTree.Fits bits left) (rightFits : BlockTree.Fits bits right)
    (leftApart : (occupiedIds low bits left).Pairwise Block.Apart)
    (rightApart : (occupiedIds (low + 2 ^ bits) bits right).Pairwise Block.Apart) :
    (occupiedIds low bits left ++ occupiedIds (low + 2 ^ bits) bits right).Pairwise Block.Apart := by
  rw [List.pairwise_append]
  refine ⟨leftApart, rightApart, ?_⟩
  intro first inLeft second inRight
  exact Block.lower_apart_upper (occupiedIds_bounds leftFits inLeft).1
    (occupiedIds_bounds rightFits inRight).1

theorem Region.apart {bits : Nat} {node : Node} (region : Region bits node) :
    ∀ low, (occupiedIds low bits node).Pairwise Block.Apart := by
  induction region with
  | leaf bits consumed kind =>
      intro low
      cases consumed <;> simp [occupiedIds, freeIds, consumedIds, BlockTree.blocksWhere,
        isDeletable, isAccessible, isConsumed, BlockTree.isEmpty]
  | @split bits kind left right leftManaged _ leftRegion rightRegion _ leftInduction rightInduction =>
      intro low
      have halves := occupiedIds_inner low bits
        (isDeletable_split false kind right leftManaged) rfl
      exact (halves.pairwise_iff fun apart => apart.symm).mpr
        (pairwise_halves leftRegion.fits rightRegion.fits (leftInduction low)
          (rightInduction (low + 2 ^ bits)))

theorem Region.covers {bits : Nat} {node : Node} (region : Region bits node) :
    ∀ low, rangeOf (occupiedIds low bits node) = (Block.mk low bits).range := by
  induction region with
  | leaf bits consumed kind =>
      intro low
      cases consumed <;> simp [occupiedIds, freeIds, consumedIds, BlockTree.blocksWhere,
        isDeletable, isAccessible, isConsumed, BlockTree.isEmpty, rangeOf_singleton]
  | @split bits kind left right leftManaged _ _ _ _ leftInduction rightInduction =>
      intro low
      have halves := occupiedIds_inner low bits
        (isDeletable_split false kind right leftManaged) rfl
      rw [rangeOf_perm halves, rangeOf_append, leftInduction, rightInduction,
        Block.range_lower_union_upper]

/-! ## The whole tree -/

theorem Skeleton.apart {bits : Nat} {node : Node} (skeleton : Skeleton bits node) :
    ∀ low, (occupiedIds low bits node).Pairwise Block.Apart := by
  induction skeleton with
  | empty bits => intro low; exact List.Pairwise.nil
  | region _ region => exact region.apart
  | @inner bits left right leftSkeleton rightSkeleton leftInduction rightInduction =>
      intro low
      have halves := occupiedIds_inner low bits
        (rfl : isDeletable (.node .inaccessible left right) = false) rfl
      exact (halves.pairwise_iff fun apart => apart.symm).mpr
        (pairwise_halves leftSkeleton.fits rightSkeleton.fits (leftInduction low)
          (rightInduction (low + 2 ^ bits)))

theorem Skeleton.covers {bits : Nat} {node : Node} (skeleton : Skeleton bits node) :
    ∀ low, rangeOf (occupiedIds low bits node) = rangeOf (builtInIds low bits node) := by
  induction skeleton with
  | empty bits => intro low; rfl
  | region builtIn region =>
      intro low
      rw [region.covers, region.builtInIds_eq, if_pos builtIn, rangeOf_singleton]
  | @inner bits left right _ _ leftInduction rightInduction =>
      intro low
      have halves := occupiedIds_inner low bits
        (rfl : isDeletable (.node .inaccessible left right) = false) rfl
      rw [rangeOf_perm halves, rangeOf_append, leftInduction, rightInduction, builtInIds_node]
      simp [isBuiltIn, rangeOf_append]

theorem Skeleton.freeIds_nodup {bits : Nat} {node : Node} (skeleton : Skeleton bits node)
    (low : Nat) : (freeIds low bits node).Nodup := by
  have apart := (List.pairwise_append.mp (skeleton.apart low)).1
  refine apart.imp ?_
  rintro id other separate rfl
  exact Block.not_apart_of_subset (subset_refl _) separate

/-- With nothing consumed, every region is back to the leaf it was built as. -/
theorem Skeleton.collapse_eq {bits : Nat} {node : Node} (skeleton : Skeleton bits node) :
    ∀ low, consumedIds low bits node = [] → collapse node = node := by
  induction skeleton with
  | empty bits => intro low _; rfl
  | region _ region =>
      intro low unused
      obtain ⟨kind, isLeaf⟩ := eq_leaf_of_isDeletable ((region.isDeletable_iff low).mpr unused)
      rw [isLeaf]
      rfl
  | @inner bits left right _ _ leftInduction rightInduction =>
      intro low unused
      rw [consumedIds_node] at unused
      simp only [List.append_eq_nil_iff] at unused
      rw [collapse, leftInduction low unused.2.1, rightInduction (low + 2 ^ bits) unused.2.2]

/-- A built-in node stays one under `collapse`. -/
theorem Skeleton.builtInIds_collapse {bits : Nat} {node : Node} (skeleton : Skeleton bits node) :
    ∀ low, builtInIds low bits (collapse node) = builtInIds low bits node := by
  induction skeleton with
  | empty bits => intro low; rfl
  | @region bits node builtIn region =>
      intro low
      cases region with
      | leaf bits consumed kind =>
          cases kind <;> rfl
      | @split bits kind left right leftManaged rightManaged leftRegion rightRegion busy =>
          rw [(Region.split leftManaged rightManaged leftRegion rightRegion busy).builtInIds_eq]
          cases kind <;> rfl
  | @inner bits left right _ _ leftInduction rightInduction =>
      intro low
      rw [collapse, builtInIds_node, builtInIds_node, leftInduction, rightInduction]
      rfl

/-! ## Replacing a subtree -/

/-- A subtree that may take the place of another one without disturbing the tree around it. -/
structure Replaces (bits : Nat) (old new : Node) : Prop where
  oldFilled : old ≠ .empty
  newFilled : new ≠ .empty
  region : Region bits old → Region bits new
  skeleton : Skeleton bits old → Skeleton bits new
  managed : isManaged new = isManaged old
  builtIn : isBuiltIn new = isBuiltIn old
  deletable : isDeletable new = true → isDeletable old = true
  collapsed : collapse new = collapse old

private theorem isDeletable_fill {bits : Nat} {old new : Node} (replaces : Replaces bits old new)
    (frame : BlockTree.Frame NodeType) :
    isDeletable (frame.fill new) = isDeletable (frame.fill old) := by
  have same : new.isEmpty = old.isEmpty := by
    cases new with
    | empty => exact absurd rfl replaces.newFilled
    | node label left right =>
        cases old with
        | empty => exact absurd rfl replaces.oldFilled
        | node label left right => rfl
  cases frame with
  | lower label right => exact isDeletable_shallow label new right old right same rfl
  | upper label left => exact isDeletable_shallow label left new left old rfl same

private theorem region_fill {bits : Nat} {old new : Node} (replaces : Replaces bits old new)
    (frame : BlockTree.Frame NodeType) (region : Region (bits + 1) (frame.fill old)) :
    Region (bits + 1) (frame.fill new) := by
  cases frame with
  | lower label right =>
      simp only [BlockTree.Frame.fill] at region ⊢
      cases region with
      | leaf => exact absurd rfl replaces.oldFilled
      | split leftManaged rightManaged leftRegion rightRegion busy =>
          exact .split (replaces.managed.trans leftManaged) rightManaged
            (replaces.region leftRegion) rightRegion
            fun both => busy ⟨replaces.deletable both.1, both.2⟩
  | upper label left =>
      simp only [BlockTree.Frame.fill] at region ⊢
      cases region with
      | leaf => exact absurd rfl replaces.oldFilled
      | split leftManaged rightManaged leftRegion rightRegion busy =>
          exact .split leftManaged (replaces.managed.trans rightManaged) leftRegion
            (replaces.region rightRegion)
            fun both => busy ⟨both.1, replaces.deletable both.2⟩

private theorem isManaged_fill (frame : BlockTree.Frame NodeType) (first second : Node) :
    isManaged (frame.fill first) = isManaged (frame.fill second) := by
  rcases frame with ⟨_ | ⟨_, _ | _⟩, _⟩ | ⟨_ | ⟨_, _ | _⟩, _⟩ <;> rfl

private theorem isBuiltIn_fill (frame : BlockTree.Frame NodeType) (first second : Node) :
    isBuiltIn (frame.fill first) = isBuiltIn (frame.fill second) := by
  rcases frame with ⟨_ | ⟨_, _ | _⟩, _⟩ | ⟨_ | ⟨_, _ | _⟩, _⟩ <;> rfl

theorem Replaces.fill {bits : Nat} {old new : Node} (replaces : Replaces bits old new)
    (frame : BlockTree.Frame NodeType) : Replaces (bits + 1) (frame.fill old) (frame.fill new) where
  oldFilled := BlockTree.fill_ne_empty frame old
  newFilled := BlockTree.fill_ne_empty frame new
  region := region_fill replaces frame
  skeleton := by
    intro skeleton
    generalize filled : frame.fill old = node at skeleton
    cases skeleton with
    | empty => exact absurd filled (BlockTree.fill_ne_empty frame old)
    | region isBuiltIn region =>
        subst filled
        exact .region ((isBuiltIn_fill frame new old).trans isBuiltIn) (region_fill replaces frame region)
    | inner leftSkeleton rightSkeleton =>
        cases frame with
        | lower label right =>
            cases filled
            exact .inner (replaces.skeleton leftSkeleton) rightSkeleton
        | upper label left =>
            cases filled
            exact .inner leftSkeleton (replaces.skeleton rightSkeleton)
  managed := isManaged_fill frame new old
  builtIn := isBuiltIn_fill frame new old
  deletable := by
    rw [isDeletable_fill replaces frame]
    exact id
  collapsed := by
    cases frame with
    | lower label right => cases label <;> simp [BlockTree.Frame.fill, collapse, replaces.collapsed]
    | upper label left => cases label <;> simp [BlockTree.Frame.fill, collapse, replaces.collapsed]

theorem Replaces.plug :
    ∀ (frames : List (BlockTree.Frame NodeType)) (bits : Nat) (old new : Node),
      Replaces bits old new →
      Replaces (bits + frames.length) (BlockTree.plug frames old) (BlockTree.plug frames new) := by
  intro frames
  induction frames with
  | nil => intro bits old new replaces; exact replaces
  | cons frame frames ih =>
      intro bits old new replaces
      have above := ih (bits + 1) _ _ (replaces.fill frame)
      rw [List.length_cons, Nat.add_comm frames.length 1, ← Nat.add_assoc]
      exact above

/-- Whether a leaf is consumed is no business of the tree around it, as long as it becomes so. -/
theorem Replaces.consume (bits : Nat) (kind : AccessibleNodeType) :
    Replaces bits (leaf kind) (consumedLeaf kind) where
  oldFilled := by simp [leaf]
  newFilled := by simp [consumedLeaf]
  region _ := .leaf bits true kind
  skeleton old := by
    cases old with
    | region builtIn _ => exact .region (by cases kind <;> exact builtIn) (.leaf bits true kind)
  managed := by cases kind <;> rfl
  builtIn := by cases kind <;> rfl
  deletable _ := rfl
  collapsed := rfl

/-- The node of a split: the lower half is consumable, the upper half is taken. -/
def splitLeaf (kind : AccessibleNodeType) (lower upper : Slot) : Node :=
  .node (.accessible false kind) (leaf (.managed lower)) (consumedLeaf (.managed upper))

theorem region_splitLeaf (bits : Nat) (kind : AccessibleNodeType) (lower upper : Slot) :
    Region (bits + 1) (splitLeaf kind lower upper) :=
  .split rfl rfl (.leaf bits false _) (.leaf bits true _) (by simp [isDeletable, consumedLeaf,
    isConsumed])

theorem freeIds_splitLeaf (kind : AccessibleNodeType) (lower upper : Slot) (low bits : Nat) :
    freeIds low (bits + 1) (splitLeaf kind lower upper) = [⟨low, bits⟩] := rfl

theorem consumedIds_splitLeaf (kind : AccessibleNodeType) (lower upper : Slot) (low bits : Nat) :
    consumedIds low (bits + 1) (splitLeaf kind lower upper) = [⟨low + 2 ^ bits, bits⟩] := rfl

theorem slots_splitLeaf (kind : AccessibleNodeType) (lower upper : Slot) :
    slots (splitLeaf kind lower upper) = slots (leaf kind) ++ [lower, upper] := by
  cases kind <;> rfl

theorem Replaces.split (bits : Nat) (kind : AccessibleNodeType) (lower upper : Slot) :
    Replaces (bits + 1) (consumedLeaf kind) (splitLeaf kind lower upper) where
  oldFilled := by simp [consumedLeaf]
  newFilled := by simp [splitLeaf]
  region _ := region_splitLeaf bits kind lower upper
  skeleton old := by
    cases old with
    | region builtIn _ =>
        exact .region (by cases kind <;> exact builtIn) (region_splitLeaf bits kind lower upper)
  managed := by cases kind <;> rfl
  builtIn := by cases kind <;> rfl
  deletable deletable := by simp [isDeletable, splitLeaf, leaf, BlockTree.isEmpty] at deletable
  collapsed := rfl

/-- A node whose two children are given up becomes a taken leaf. -/
theorem Replaces.merge (bits : Nat) (kind : AccessibleNodeType) (left right : Node) :
    Replaces bits (.node (.accessible false kind) left right) (consumedLeaf kind) where
  oldFilled := by simp
  newFilled := by simp [consumedLeaf]
  region _ := .leaf bits true kind
  skeleton old := by
    cases old with
    | region builtIn _ => exact .region (by cases kind <;> exact builtIn) (.leaf bits true kind)
  managed := by cases kind <;> rfl
  builtIn := by cases kind <;> rfl
  deletable deletable := by simp [isDeletable, consumedLeaf, isConsumed] at deletable
  collapsed := rfl

theorem Skeleton.release {bits : Nat} {kind : AccessibleNodeType}
    (old : Skeleton bits (consumedLeaf kind)) : Skeleton bits (leaf kind) := by
  cases old with
  | region builtIn _ => exact .region (by cases kind <;> exact builtIn) (.leaf bits false kind)

/-- A taken leaf may be given up in place unless its parent could then be merged. -/
theorem Replaces.release (bits : Nat) (frame : BlockTree.Frame NodeType)
    (kind : AccessibleNodeType)
    (busy : frame.label = .inaccessible ∨ isDeletable frame.sibling = false) :
    Replaces (bits + 1) (frame.fill (consumedLeaf kind)) (frame.fill (leaf kind)) := by
  have managed : isManaged (leaf kind) = isManaged (consumedLeaf kind) := by cases kind <;> rfl
  have region : Region (bits + 1) (frame.fill (consumedLeaf kind)) →
      Region (bits + 1) (frame.fill (leaf kind)) := by
    intro old
    cases frame with
    | lower label right =>
        cases old with
        | split leftManaged rightManaged _ rightRegion _ =>
            have rightBusy : isDeletable right = false := by
              simpa [BlockTree.Frame.label, BlockTree.Frame.sibling] using busy
            exact .split (managed.trans leftManaged) rightManaged (.leaf bits false kind) rightRegion
              fun both => by simp [rightBusy] at both
    | upper label left =>
        cases old with
        | split leftManaged rightManaged leftRegion _ _ =>
            have leftBusy : isDeletable left = false := by
              simpa [BlockTree.Frame.label, BlockTree.Frame.sibling] using busy
            exact .split leftManaged (managed.trans rightManaged) leftRegion (.leaf bits false kind)
              fun both => by simp [leftBusy] at both
  refine ⟨BlockTree.fill_ne_empty _ _, BlockTree.fill_ne_empty _ _, region, ?_,
    isManaged_fill _ _ _, isBuiltIn_fill _ _ _, ?_, ?_⟩
  · intro old
    cases frame with
    | lower label right =>
        cases old with
        | region builtIn old =>
            exact .region ((isBuiltIn_fill (.lower label right) _ _).trans builtIn) (region old)
        | inner leftSkeleton rightSkeleton => exact .inner (leftSkeleton.release) rightSkeleton
    | upper label left =>
        cases old with
        | region builtIn old =>
            exact .region ((isBuiltIn_fill (.upper label left) _ _).trans builtIn) (region old)
        | inner leftSkeleton rightSkeleton => exact .inner leftSkeleton (rightSkeleton.release)
  · cases frame <;> simp [BlockTree.Frame.fill, isDeletable, leaf, BlockTree.isEmpty]
  · rcases frame with ⟨_ | _, _⟩ | ⟨_ | _, _⟩ <;> rfl

/-- The node above a taken leaf is outside of the regions, or it was split in two. -/
theorem parent_cases {bits : Nat} {frame : BlockTree.Frame NodeType} {kind : AccessibleNodeType}
    (inOrder : Skeleton bits (frame.fill (consumedLeaf kind)) ∨
      Region bits (frame.fill (consumedLeaf kind))) :
    frame.label = .inaccessible ∨
      ∃ parentKind slot, frame.label = .accessible false parentKind ∧ kind = .managed slot ∧
        isManaged frame.sibling = true := by
  have isManagedSlot : ∀ {kind : AccessibleNodeType}, isManaged (consumedLeaf kind) = true →
      ∃ slot, kind = .managed slot := by
    intro kind managed
    cases kind with
    | builtIn localCPtr => simp [isManaged, consumedLeaf] at managed
    | managed slot => exact ⟨slot, rfl⟩
  have ofRegion : Region bits (frame.fill (consumedLeaf kind)) →
      ∃ parentKind slot, frame.label = .accessible false parentKind ∧ kind = .managed slot ∧
        isManaged frame.sibling = true := by
    intro region
    cases frame with
    | lower label right =>
        cases region with
        | split leftManaged rightManaged _ _ _ =>
            obtain ⟨slot, isSlot⟩ := isManagedSlot leftManaged
            exact ⟨_, slot, rfl, isSlot, rightManaged⟩
    | upper label left =>
        cases region with
        | split leftManaged rightManaged _ _ _ =>
            obtain ⟨slot, isSlot⟩ := isManagedSlot rightManaged
            exact ⟨_, slot, rfl, isSlot, leftManaged⟩
  rcases inOrder with skeleton | region
  · cases frame with
    | lower label right =>
        cases skeleton with
        | region _ region => exact .inr (ofRegion region)
        | inner => exact .inl rfl
    | upper label left =>
        cases skeleton with
        | region _ region => exact .inr (ofRegion region)
        | inner => exact .inl rfl
  · exact .inr (ofRegion region)

/-! ## Subtrees -/

/-- A subtree of a tree in order is in order, be it inside or above a region. -/
theorem Skeleton.of_plug :
    ∀ (frames : List (BlockTree.Frame NodeType)) (bits : Nat) (hole : Node), hole ≠ .empty →
      (Skeleton bits (BlockTree.plug frames hole) ∨ Region bits (BlockTree.plug frames hole)) →
      frames.length ≤ bits ∧
        (Skeleton (bits - frames.length) hole ∨ Region (bits - frames.length) hole) := by
  intro frames
  induction frames with
  | nil => intro bits hole _ inOrder; exact ⟨Nat.zero_le _, inOrder⟩
  | cons frame frames ih =>
      intro bits hole filled inOrder
      obtain ⟨shallow, parent⟩ := ih bits _ (BlockTree.fill_ne_empty frame hole) inOrder
      have below : ∀ {parentBits : Nat},
          (Skeleton parentBits (frame.fill hole) ∨ Region parentBits (frame.fill hole)) →
          ∃ childBits, parentBits = childBits + 1 ∧
            (Skeleton childBits hole ∨ Region childBits hole) := by
        intro parentBits parent
        have ofRegion : Region parentBits (frame.fill hole) →
            ∃ childBits, parentBits = childBits + 1 ∧
              (Skeleton childBits hole ∨ Region childBits hole) := by
          intro region
          cases frame with
          | lower label right =>
              cases region with
              | leaf => exact absurd rfl filled
              | split _ _ leftRegion _ _ => exact ⟨_, rfl, .inr leftRegion⟩
          | upper label left =>
              cases region with
              | leaf => exact absurd rfl filled
              | split _ _ _ rightRegion _ => exact ⟨_, rfl, .inr rightRegion⟩
        rcases parent with skeleton | region
        · cases frame with
          | lower label right =>
              cases skeleton with
              | region _ region => exact ofRegion region
              | inner leftSkeleton _ => exact ⟨_, rfl, .inl leftSkeleton⟩
          | upper label left =>
              cases skeleton with
              | region _ region => exact ofRegion region
              | inner _ rightSkeleton => exact ⟨_, rfl, .inl rightSkeleton⟩
        · exact ofRegion region
      obtain ⟨childBits, parentBits, child⟩ := below parent
      rw [List.length_cons, show bits - (frames.length + 1) = childBits by omega]
      exact ⟨by omega, child⟩

/-- Consumed nodes have no children. -/
theorem eq_consumedLeaf {bits : Nat} {node : Node} (consumed : isConsumed node = true)
    (inOrder : Skeleton bits node ∨ Region bits node) : ∃ kind, node = consumedLeaf kind := by
  have ofRegion : Region bits node → ∃ kind, node = consumedLeaf kind := by
    intro region
    cases region with
    | leaf bits isConsumed kind =>
        have : isConsumed = true := consumed
        subst this
        exact ⟨kind, rfl⟩
    | split => simp [isConsumed] at consumed
  rcases inOrder with skeleton | region
  · cases skeleton with
    | empty => simp [isConsumed] at consumed
    | region _ region => exact ofRegion region
    | inner => simp [isConsumed] at consumed
  · exact ofRegion region

/-- `get_node_mut` finds the subtree under the frames. -/
theorem walkMut_plug {α : Type} (untypedId : UntypedId) (borrow : Node → Option (α × Node))
    (hole : Node) (filled : hole ≠ .empty) :
    ∀ (frames : List (BlockTree.Frame NodeType)) (low bits : Nat), frames.length ≤ bits →
      BlockTree.holeBlock ⟨low, bits⟩ frames = untypedId →
      walkMut untypedId borrow bits low (low + 2 ^ bits - 1) (BlockTree.plug frames hole) =
        (borrow hole).map fun result => (result.1, BlockTree.plug frames result.2) := by
  intro frames
  induction frames using List.reverseRecOn with
  | nil =>
      intro low bits _ found
      obtain ⟨paddr, sizeBits⟩ := untypedId
      obtain ⟨samePaddr, sameSize⟩ := Block.mk.inj found
      cases hole with
      | empty => exact absurd rfl filled
      | node label left right =>
          simp [walkMut, ← sameSize]
  | append_singleton frames frame ih =>
      intro low bits shallow found
      rw [List.length_append, List.length_singleton] at shallow
      obtain ⟨half, rfl⟩ : ∃ half, bits = half + 1 := ⟨bits - 1, by omega⟩
      rw [BlockTree.holeBlock_append] at found
      cases frame with
      | lower label right =>
          have bounds := BlockTree.holeBlock_bounds ⟨low, half⟩ frames (by simp only; omega)
          have found : BlockTree.holeBlock ⟨low, half⟩ frames = untypedId := found
          rw [found] at bounds
          have inside := bounds.2 untypedId.paddr_mem_range
          simp only [Block.mem_range] at bounds inside
          rw [BlockTree.plug_append]
          simp only [BlockTree.plug_cons, BlockTree.plug_nil, BlockTree.Frame.fill, walkMut]
          rw [if_pos (by omega), halfAddr_eq, if_pos (by omega), Nat.add_sub_cancel,
            ih low half (by omega) found]
          cases borrow hole <;> simp [BlockTree.plug_append, BlockTree.Frame.fill]
      | upper label left =>
          have found : BlockTree.holeBlock ⟨low + 2 ^ half, half⟩ frames = untypedId := found
          have bounds := BlockTree.holeBlock_bounds ⟨low + 2 ^ half, half⟩ frames
            (by simp only; omega)
          rw [found] at bounds
          have inside := bounds.2 untypedId.paddr_mem_range
          simp only [Block.mem_range] at bounds inside
          have top : low + 2 ^ (half + 1) - 1 = low + 2 ^ half + 2 ^ half - 1 := by
            rw [pow_succ]
            omega
          rw [BlockTree.plug_append]
          simp only [BlockTree.plug_cons, BlockTree.plug_nil, BlockTree.Frame.fill, walkMut]
          rw [if_pos (by omega), halfAddr_eq, if_neg (by omega), Nat.add_sub_cancel, top,
            ih (low + 2 ^ half) half (by omega) found]
          cases borrow hole <;> simp [BlockTree.plug_append, BlockTree.Frame.fill]

theorem getNodeMut_plug {α : Type} {frames : List (BlockTree.Frame NodeType)} {hole : Node}
    {untypedId : UntypedId} (filled : hole ≠ .empty) (shallow : frames.length ≤ 64)
    (found : BlockTree.holeBlock root frames = untypedId) (borrow : Node → Option (α × Node)) :
    getNodeMut (BlockTree.plug frames hole) untypedId borrow =
      (borrow hole).map fun result => (result.1, BlockTree.plug frames result.2) := by
  have bounds := BlockTree.holeBlock_bounds root frames shallow
  rw [found] at bounds
  have inside := bounds.2 untypedId.paddr_mem_range
  simp only [Block.mem_range, root] at inside
  have reached := walkMut_plug untypedId borrow hole filled frames 0 64 shallow found
  unfold getNodeMut
  rw [if_pos (by rw [maxAddr_eq]; omega), maxAddr_eq, reached]

end Node

end IceCap.Dyndl
