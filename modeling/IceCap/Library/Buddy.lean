import Mathlib.Data.Set.Lattice
import Mathlib.Order.CompletePartialOrder
import Mathlib.Order.Interval.Set.Basic
import Mathlib.Algebra.BigOperators.Group.List.Basic
import Mathlib.Data.List.Perm.Basic
import Mathlib.Order.Interval.Set.Disjoint
import Mathlib.Algebra.Order.Monoid.NatCast
import Mathlib.Tactic.Linarith
import Mathlib.Tactic.Ring

/-!
# Binary trees over power-of-two blocks

A buddy allocator describes a block of `2 ^ bits` addresses by a binary tree
whose node at depth `d` stands for a block of `2 ^ (bits - d)` addresses.  The
labels are arbitrary.  `blocksWhere` lists the blocks of the nodes that satisfy
a test; a `Frame` is a node with one child taken out, and `plug` puts a subtree
back under a stack of frames, innermost frame first.

`blocksWhere_plug` is the frame rule: outside of the hole nothing depends on
what is plugged in, as long as something is.
-/

set_option autoImplicit false

namespace IceCap.Library

/-- The `2 ^ sizeBits` addresses from `paddr` on. -/
@[ext]
structure Block where
  paddr : Nat
  sizeBits : Nat
  deriving DecidableEq, Repr

namespace Block

def range (block : Block) : Set Nat := Set.Ico block.paddr (block.paddr + 2 ^ block.sizeBits)

def lower (block : Block) : Block := ⟨block.paddr, block.sizeBits - 1⟩

def upper (block : Block) : Block := ⟨block.paddr + 2 ^ (block.sizeBits - 1), block.sizeBits - 1⟩

def Apart (first second : Block) : Prop := Disjoint first.range second.range

theorem Apart.symm {first second : Block} (apart : Apart first second) : Apart second first :=
  Disjoint.symm apart

theorem mem_range {block : Block} {address : Nat} :
    address ∈ block.range ↔
      block.paddr ≤ address ∧ address < block.paddr + 2 ^ block.sizeBits := Iff.rfl

theorem paddr_mem_range (block : Block) : block.paddr ∈ block.range :=
  ⟨le_refl _, Nat.lt_add_of_pos_right (Nat.two_pow_pos _)⟩

theorem range_lower_union_upper {low bits : Nat} :
    (Block.mk low bits).range ∪ (Block.mk (low + 2 ^ bits) bits).range =
      (Block.mk low (bits + 1)).range := by
  ext address
  simp only [Set.mem_union, mem_range, pow_succ]
  omega

theorem halves_subset (block : Block) (divisible : 0 < block.sizeBits) :
    block.lower.range ⊆ block.range ∧ block.upper.range ⊆ block.range := by
  obtain ⟨low, bits⟩ := block
  obtain ⟨half, rfl⟩ := Nat.exists_eq_add_one_of_ne_zero (Nat.ne_of_gt divisible)
  rw [← range_lower_union_upper]
  exact ⟨Set.subset_union_left, Set.subset_union_right⟩

theorem lower_apart_upper {low bits : Nat} {first second : Block}
    (inLower : first.range ⊆ (Block.mk low bits).range)
    (inUpper : second.range ⊆ (Block.mk (low + 2 ^ bits) bits).range) :
    Apart first second := by
  apply Set.disjoint_left.mpr
  intro address member other
  have below := inLower member
  have above := inUpper other
  simp only [mem_range] at below above
  omega

theorem not_apart_of_subset {first second : Block} (inside : first.range ⊆ second.range) :
    ¬ Apart first second := by
  intro apart
  exact Set.disjoint_left.mp apart first.paddr_mem_range (inside first.paddr_mem_range)

/-! ### Sizes -/

/-- How many addresses there are in all the blocks. -/
def space (blocks : List Block) : Nat := (blocks.map fun block => 2 ^ block.sizeBits).sum

@[simp]
theorem space_nil : space [] = 0 := rfl

@[simp]
theorem space_cons {block : Block} {blocks : List Block} :
    space (block :: blocks) = 2 ^ block.sizeBits + space blocks := rfl

@[simp]
theorem space_append {first second : List Block} :
    space (first ++ second) = space first + space second := by
  simp [space]

theorem space_perm {first second : List Block} (perm : first.Perm second) :
    space first = space second := (perm.map _).sum_eq

end Block

inductive BlockTree (α : Type) where
  | empty
  | node (label : α) (left right : BlockTree α)
  deriving DecidableEq, Repr

namespace BlockTree

variable {α : Type}

def isEmpty : BlockTree α → Bool
  | .empty => true
  | .node _ _ _ => false

@[simp]
theorem isEmpty_iff {tree : BlockTree α} : tree.isEmpty = true ↔ tree = .empty := by
  cases tree <;> simp [isEmpty]

@[simp]
theorem isEmpty_eq_false_iff {tree : BlockTree α} : tree.isEmpty = false ↔ tree ≠ .empty := by
  cases tree <;> simp [isEmpty]

/-- A test that looks at the label of a node and at which children it has. -/
def Shallow (test : BlockTree α → Bool) : Prop :=
  ∀ label left right left' right', isEmpty left = isEmpty left' → isEmpty right = isEmpty right' →
    test (.node label left right) = test (.node label left' right')

/-- The blocks of the nodes that pass the test, in a tree for `2 ^ bits` addresses from `low` on. -/
def blocksWhere (test : BlockTree α → Bool) : Nat → Nat → BlockTree α → List Block
  | _, _, .empty => []
  | low, bits, .node label left right =>
      (if test (.node label left right) then [⟨low, bits⟩] else []) ++
        (blocksWhere test low (bits - 1) left ++
          blocksWhere test (low + 2 ^ (bits - 1)) (bits - 1) right)

/-- The values read off the nodes that have one, in the order of `blocksWhere`. -/
def valuesOf {β : Type} (value : α → Option β) : BlockTree α → List β
  | .empty => []
  | .node label left right =>
      (value label).toList ++ (valuesOf value left ++ valuesOf value right)

/-- The tree has at most `bits` levels below its root. -/
def Fits : Nat → BlockTree α → Prop
  | _, .empty => True
  | 0, .node _ left right => left = .empty ∧ right = .empty
  | bits + 1, .node _ left right => Fits bits left ∧ Fits bits right

theorem blocksWhere_bounds (test : BlockTree α → Bool) :
    ∀ (tree : BlockTree α) (low bits : Nat), Fits bits tree → ∀ block ∈ blocksWhere test low bits tree,
      block.range ⊆ (Block.mk low bits).range ∧ block.sizeBits ≤ bits := by
  intro tree
  induction tree with
  | empty => intro low bits _ block member; simp [blocksWhere] at member
  | node label left right leftInduction rightInduction =>
      intro low bits fits block member
      simp only [blocksWhere, List.mem_append] at member
      rcases member with here | below
      · split at here
        · simp only [List.mem_singleton] at here
          subst here
          exact ⟨subset_refl _, le_refl _⟩
        · simp at here
      · cases bits with
        | zero =>
            obtain ⟨leftEmpty, rightEmpty⟩ := fits
            subst leftEmpty rightEmpty
            simp [blocksWhere] at below
        | succ bits =>
            rw [← Block.range_lower_union_upper]
            rcases below with below | below
            · obtain ⟨inside, small⟩ := leftInduction low bits fits.1 block below
              exact ⟨inside.trans Set.subset_union_left, by omega⟩
            · obtain ⟨inside, small⟩ := rightInduction (low + 2 ^ bits) bits fits.2 block below
              exact ⟨inside.trans Set.subset_union_right, by omega⟩

/-! ## Frames -/

/-- A node with one child taken out. -/
inductive Frame (α : Type) where
  | lower (label : α) (right : BlockTree α)
  | upper (label : α) (left : BlockTree α)

def Frame.fill : Frame α → BlockTree α → BlockTree α
  | .lower label right, hole => .node label hole right
  | .upper label left, hole => .node label left hole

def Frame.label : Frame α → α
  | .lower label _ => label
  | .upper label _ => label

def Frame.sibling : Frame α → BlockTree α
  | .lower _ right => right
  | .upper _ left => left

/-- The frames are listed from the hole up to the root. -/
def plug (frames : List (Frame α)) (hole : BlockTree α) : BlockTree α :=
  frames.foldl (fun tree frame => frame.fill tree) hole

@[simp]
theorem plug_nil (hole : BlockTree α) : plug [] hole = hole := rfl

@[simp]
theorem plug_cons (frame : Frame α) (frames : List (Frame α)) (hole : BlockTree α) :
    plug (frame :: frames) hole = plug frames (frame.fill hole) := rfl

theorem plug_append (inner outer : List (Frame α)) (hole : BlockTree α) :
    plug (inner ++ outer) hole = plug outer (plug inner hole) := by
  simp [plug, List.foldl_append]

/-- The block of the hole, when the whole tree stands for `root`. -/
def holeBlock (root : Block) : List (Frame α) → Block
  | [] => root
  | .lower _ _ :: frames => (holeBlock root frames).lower
  | .upper _ _ :: frames => (holeBlock root frames).upper

theorem holeBlock_append (root : Block) (inner outer : List (Frame α)) :
    holeBlock root (inner ++ outer) = holeBlock (holeBlock root outer) inner := by
  induction inner with
  | nil => rfl
  | cons frame inner ih => cases frame <;> simp [holeBlock, ih]

theorem holeBlock_bounds (root : Block) :
    ∀ (frames : List (Frame α)), frames.length ≤ root.sizeBits →
      (holeBlock root frames).sizeBits = root.sizeBits - frames.length ∧
        (holeBlock root frames).range ⊆ root.range := by
  intro frames
  induction frames with
  | nil => intro _; exact ⟨rfl, subset_refl _⟩
  | cons frame frames ih =>
      intro shallow
      rw [List.length_cons] at shallow ⊢
      obtain ⟨sized, inside⟩ := ih (by omega)
      have halves := Block.halves_subset (holeBlock root frames) (by omega)
      cases frame with
      | lower label right =>
          exact ⟨by simp only [holeBlock, Block.lower]; omega, halves.1.trans inside⟩
      | upper label left =>
          exact ⟨by simp only [holeBlock, Block.upper]; omega, halves.2.trans inside⟩

/-- What the frames contribute to `blocksWhere`, for a test that only sees that the hole is filled. -/
def outside (test : BlockTree α → Bool) (root : Block) : List (Frame α) → List Block
  | [] => []
  | .lower label right :: frames =>
      (if test (.node label (.node label .empty .empty) right) then [holeBlock root frames] else []) ++
        (blocksWhere test (holeBlock root frames).upper.paddr
          (holeBlock root frames).upper.sizeBits right ++ outside test root frames)
  | .upper label left :: frames =>
      (if test (.node label left (.node label .empty .empty)) then [holeBlock root frames] else []) ++
        (blocksWhere test (holeBlock root frames).lower.paddr
          (holeBlock root frames).lower.sizeBits left ++ outside test root frames)

theorem fill_ne_empty (frame : Frame α) (hole : BlockTree α) : frame.fill hole ≠ .empty := by
  cases frame <;> simp [Frame.fill]

private theorem isEmpty_of_ne {hole : BlockTree α} (filled : hole ≠ .empty) (label : α) :
    isEmpty hole = isEmpty (.node label .empty .empty) := by
  cases hole with
  | empty => exact absurd rfl filled
  | node other left right => rfl

theorem blocksWhere_plug {test : BlockTree α → Bool} (shallow : Shallow test) (root : Block) :
    ∀ (frames : List (Frame α)) (hole : BlockTree α), hole ≠ .empty →
      (blocksWhere test root.paddr root.sizeBits (plug frames hole)).Perm
        (outside test root frames ++
          blocksWhere test (holeBlock root frames).paddr (holeBlock root frames).sizeBits hole) := by
  intro frames
  induction frames with
  | nil => intro hole _; exact List.Perm.refl _
  | cons frame frames ih =>
      intro hole filled
      refine (ih (frame.fill hole) (fill_ne_empty frame hole)).trans ?_
      cases frame with
      | lower label right =>
          have seen : test (.node label hole right) =
              test (.node label (.node label .empty .empty) right) :=
            shallow label hole right _ right (isEmpty_of_ne filled label) rfl
          simp only [Frame.fill, outside, holeBlock, blocksWhere, seen, Block.lower, Block.upper]
          generalize holeBlock root frames = parent
          cases parent
          rw [List.perm_iff_count]
          intro block
          simp only [List.count_append]
          omega
      | upper label left =>
          have seen : test (.node label left hole) =
              test (.node label left (.node label .empty .empty)) :=
            shallow label left hole left _ rfl (isEmpty_of_ne filled label)
          simp only [Frame.fill, outside, holeBlock, blocksWhere, seen, Block.lower, Block.upper]
          generalize holeBlock root frames = parent
          cases parent
          rw [List.perm_iff_count]
          intro block
          simp only [List.count_append]
          omega

/-- What the frames contribute to `valuesOf`. -/
def valuesOutside {β : Type} (value : α → Option β) : List (Frame α) → List β
  | [] => []
  | .lower label right :: frames =>
      (value label).toList ++ (valuesOf value right ++ valuesOutside value frames)
  | .upper label left :: frames =>
      (value label).toList ++ (valuesOf value left ++ valuesOutside value frames)

theorem valuesOf_plug {β : Type} [DecidableEq β] (value : α → Option β) :
    ∀ (frames : List (Frame α)) (hole : BlockTree α),
      (valuesOf value (plug frames hole)).Perm
        (valuesOutside value frames ++ valuesOf value hole) := by
  intro frames
  induction frames with
  | nil => intro hole; exact List.Perm.refl _
  | cons frame frames ih =>
      intro hole
      refine (ih (frame.fill hole)).trans ?_
      rw [List.perm_iff_count]
      intro found
      cases frame <;>
        simp only [Frame.fill, valuesOutside, valuesOf, List.count_append] <;> omega

/-- A node that passes the test is the root of a subtree under some frames. -/
theorem exists_plug_of_mem {test : BlockTree α → Bool} :
    ∀ (tree : BlockTree α) (low bits : Nat) (block : Block), block ∈ blocksWhere test low bits tree →
      ∃ frames hole, plug frames hole = tree ∧ test hole = true ∧ hole ≠ .empty ∧
        holeBlock ⟨low, bits⟩ frames = block := by
  intro tree
  induction tree with
  | empty => intro low bits block member; simp [blocksWhere] at member
  | node label left right leftInduction rightInduction =>
      intro low bits block member
      simp only [blocksWhere, List.mem_append] at member
      rcases member with here | below | below
      · split at here
        · next passes =>
            simp only [List.mem_singleton] at here
            exact ⟨[], .node label left right, rfl, passes, by simp, here.symm⟩
        · simp at here
      · obtain ⟨frames, hole, plugged, passes, filled, found⟩ := leftInduction _ _ block below
        refine ⟨frames ++ [.lower label right], hole, ?_, passes, filled, ?_⟩
        · rw [plug_append, plugged]
          rfl
        · rw [holeBlock_append]
          exact found
      · obtain ⟨frames, hole, plugged, passes, filled, found⟩ := rightInduction _ _ block below
        refine ⟨frames ++ [.upper label left], hole, ?_, passes, filled, ?_⟩
        · rw [plug_append, plugged]
          rfl
        · rw [holeBlock_append]
          exact found

end BlockTree

end IceCap.Library
