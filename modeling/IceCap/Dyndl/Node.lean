import Mathlib.Data.List.Basic
import Mathlib.Algebra.Order.BigOperators.Group.List
import Mathlib.Tactic.Ring
import IceCap.Library.Buddy
import IceCap.Dyndl.CRegion

/-!
# The capability derivation tree and its leaf index

`Node` and `LeafNodes` of `allocator/node.rs`.  A `Node` is a binary tree; the
empty tree stands for a child that is `None`.  `LeafNodes` files the ids of the
consumable leaves by their size; that every vector of the map is non-empty and
holds ids of the size it is filed under is part of the structure, since the map
is private and only the three methods below touch it.
-/

set_option autoImplicit false

namespace IceCap.Dyndl

open IceCap.Library IceCap.Sel4

abbrev UntypedId := Block

inductive AccessibleNodeType where
  | builtIn (localCPtr : CPtr)
  | managed (slot : Slot)
  deriving DecidableEq, Repr

inductive NodeType where
  | inaccessible
  | accessible (consumed : Bool) (accessibleNodeType : AccessibleNodeType)
  deriving DecidableEq, Repr

abbrev Node := BlockTree NodeType

namespace Node

def new : Node := .node .inaccessible .empty .empty

def isAccessible : Node → Bool
  | .node (.accessible _ _) _ _ => true
  | _ => false

def getAccessibleNodeType : Node → Option AccessibleNodeType
  | .node (.accessible _ accessibleNodeType) _ _ => some accessibleNodeType
  | _ => none

def isManaged : Node → Bool
  | .node (.accessible _ (.managed _)) _ _ => true
  | _ => false

def getSlot (node : Node) : Option Slot :=
  if isManaged node then
    match getAccessibleNodeType node with
    | some (.managed slot) => some slot
    | _ => none
  else none

def isConsumed : Node → Bool
  | .node (.accessible consumed _) _ _ => consumed
  | _ => false

def setConsumed (consumed : Bool) : Node → Option Node
  | .node (.accessible _ accessibleNodeType) left right =>
      some (.node (.accessible consumed accessibleNodeType) left right)
  | _ => none

def isDeletable : Node → Bool
  | .node label left right =>
      isAccessible (.node label left right) && !isConsumed (.node label left right) &&
        left.isEmpty && right.isEmpty
  | .empty => false

def localCPtr (cregion : CRegion) (node : Node) : Option CPtr :=
  (getAccessibleNodeType node).map fun accessibleNodeType =>
    match accessibleNodeType with
    | .builtIn localCPtr => localCPtr
    | .managed slot => (cregion.cptrWithDepth slot).localCPtrHack

def relativeCPtr (cregion : CRegion) (node : Node) : Option RelativeCPtr :=
  (getAccessibleNodeType node).map fun accessibleNodeType =>
    match accessibleNodeType with
    | .builtIn localCPtr => relative cregion.context localCPtr
    | .managed slot => cregion.relativeCPtr slot

/-- The first address of the upper half of `low..=high`. -/
def halfAddr (low high : Nat) : Nat := low + ((high - low) >>> 1) + 1

def maxAddr : Nat := 0xFFFFFFFFFFFFFFFF

/-- The loop of `get_node_mut`.  What the caller does through the mutable reference is `borrow`. -/
def walkMut {α : Type} (untypedId : UntypedId) (borrow : Node → Option (α × Node)) :
    Nat → Nat → Nat → Node → Option (α × Node)
  | _, _, _, .empty => none
  | depth, low, high, .node label left right =>
      if untypedId.sizeBits < depth then
        if untypedId.paddr < halfAddr low high then
          (walkMut untypedId borrow (depth - 1) low (halfAddr low high - 1) left).map
            fun result => (result.1, .node label result.2 right)
        else
          (walkMut untypedId borrow (depth - 1) (halfAddr low high) high right).map
            fun result => (result.1, .node label left result.2)
      else if depth = untypedId.sizeBits then borrow (.node label left right)
      else none

def getNodeMut {α : Type} (rootNode : Node) (untypedId : UntypedId)
    (borrow : Node → Option (α × Node)) : Option (α × Node) :=
  if untypedId.paddr ≤ maxAddr then walkMut untypedId borrow 64 0 maxAddr rootNode else none

def isBuiltIn : Node → Bool
  | .node (.accessible _ (.builtIn _)) _ _ => true
  | _ => false

def slotOf : NodeType → Option Slot
  | .accessible _ (.managed slot) => some slot
  | _ => none

end Node

structure LeafNodes where
  leafNodes : Std.TreeMap Nat (List UntypedId)
  filed : ∀ (sizeBits : Nat) (ids : List UntypedId), leafNodes[sizeBits]? = some ids →
    ids ≠ [] ∧ ∀ id ∈ ids, id.sizeBits = sizeBits

namespace LeafNodes

def new : LeafNodes := ⟨∅, by simp⟩

/-- The vector filed under a size, empty if there is none. -/
def ofSize (leaves : LeafNodes) (sizeBits : Nat) : List UntypedId :=
  (leaves.leafNodes[sizeBits]?).getD []

theorem sizeBits_of_mem {leaves : LeafNodes} {sizeBits : Nat} {id : UntypedId}
    (member : id ∈ leaves.ofSize sizeBits) : id.sizeBits = sizeBits := by
  unfold ofSize at member
  cases found : leaves.leafNodes[sizeBits]? with
  | none => simp [found] at member
  | some ids =>
      rw [found] at member
      exact (leaves.filed sizeBits ids found).2 id member

/-- Replace the vector of a size; an empty vector is taken out of the map. -/
def store (leaves : LeafNodes) (sizeBits : Nat) (ids : List UntypedId)
    (sized : ∀ id ∈ ids, id.sizeBits = sizeBits) : LeafNodes where
  leafNodes := if ids = [] then leaves.leafNodes.erase sizeBits
    else leaves.leafNodes.insert sizeBits ids
  filed := by
    intro other found lookup
    by_cases none : ids = []
    · rw [if_pos none, Std.TreeMap.getElem?_erase] at lookup
      split at lookup
      · simp at lookup
      · exact leaves.filed other found lookup
    · rw [if_neg none, Std.TreeMap.getElem?_insert] at lookup
      split at lookup
      · next same =>
          simp only [Std.LawfulEqCmp.compare_eq_iff_eq, Option.some.injEq] at same lookup
          subst same lookup
          exact ⟨none, sized⟩
      · exact leaves.filed other found lookup

def addLeaf (leaves : LeafNodes) (untypedId : UntypedId) : LeafNodes :=
  leaves.store untypedId.sizeBits (leaves.ofSize untypedId.sizeBits ++ [untypedId]) (by
    intro id member
    rcases List.mem_append.mp member with old | new
    · exact sizeBits_of_mem old
    · rw [List.mem_singleton.mp new])

/-- `untyped_ids.pop().unwrap()` on the vector of a size, removing the vector when it gets empty. -/
def popLeaf (leaves : LeafNodes) (sizeBits : Nat) : Option (UntypedId × LeafNodes) :=
  ((leaves.ofSize sizeBits).getLast?).map fun untypedId =>
    (untypedId, leaves.store sizeBits (leaves.ofSize sizeBits).dropLast
      fun _ member => sizeBits_of_mem (List.dropLast_subset _ member))

/-- The loop over the keys that looks for the next larger size; it starts from 0. -/
def nextSmallestSize (leaves : LeafNodes) (sizeBits : Nat) : Nat :=
  (leaves.leafNodes.keys.find? fun untypedSize => decide (sizeBits < untypedSize)).getD 0

def getLeaf (leaves : LeafNodes) (sizeBits : Nat) : Option (UntypedId × LeafNodes) :=
  if (leaves.leafNodes[sizeBits]?).isSome then leaves.popLeaf sizeBits
  else if leaves.nextSmallestSize sizeBits ≠ 0 then
    leaves.popLeaf (leaves.nextSmallestSize sizeBits)
  else none

def removeLeaf (leaves : LeafNodes) (untypedId : UntypedId) : Option LeafNodes :=
  if (leaves.leafNodes[untypedId.sizeBits]?).isSome then
    some (leaves.store untypedId.sizeBits
      ((leaves.ofSize untypedId.sizeBits).eraseP fun id => id.paddr = untypedId.paddr)
      fun _ member => sizeBits_of_mem (List.mem_of_mem_eraseP member))
  else none

/-- Every id in the map, in the order of the map. -/
def listed (leaves : LeafNodes) : List UntypedId := leaves.leafNodes.toList.flatMap Prod.snd

/-! ## The index as a multiset of ids -/

def count (leaves : LeafNodes) (id : UntypedId) : Nat := (leaves.ofSize id.sizeBits).count id

theorem ofSize_store {leaves : LeafNodes} {sizeBits other : Nat} {ids : List UntypedId}
    {sized : ∀ id ∈ ids, id.sizeBits = sizeBits} :
    (leaves.store sizeBits ids sized).ofSize other =
      if sizeBits = other then ids else leaves.ofSize other := by
  unfold ofSize store
  by_cases none : ids = []
  · simp only [if_pos none, Std.TreeMap.getElem?_erase, Std.LawfulEqCmp.compare_eq_iff_eq]
    split <;> simp [none]
  · simp only [if_neg none, Std.TreeMap.getElem?_insert, Std.LawfulEqCmp.compare_eq_iff_eq]
    split <;> simp

theorem count_store {leaves : LeafNodes} {sizeBits : Nat} {ids : List UntypedId}
    {sized : ∀ id ∈ ids, id.sizeBits = sizeBits} {id : UntypedId} :
    (leaves.store sizeBits ids sized).count id =
      if sizeBits = id.sizeBits then ids.count id else leaves.count id := by
  unfold count
  rw [ofSize_store]
  split <;> rfl

theorem count_new (id : UntypedId) : new.count id = 0 := by
  simp [count, ofSize, new]

theorem count_addLeaf {leaves : LeafNodes} {added id : UntypedId} :
    (leaves.addLeaf added).count id = leaves.count id + if added = id then 1 else 0 := by
  unfold addLeaf
  rw [count_store]
  by_cases same : added = id
  · subst same
    simp [count]
  · rw [if_neg same]
    split
    · next sizes => simp [count, ← sizes, same]
    · rfl

/-- Every vector in the map has a last element. -/
theorem popLeaf_spec {leaves final : LeafNodes} {sizeBits : Nat} {popped : UntypedId}
    (run : leaves.popLeaf sizeBits = some (popped, final)) :
    popped.sizeBits = sizeBits ∧
      ∀ id, final.count id + (if popped = id then 1 else 0) = leaves.count id := by
  unfold popLeaf at run
  obtain ⟨last, found, result⟩ := Option.map_eq_some_iff.mp run
  obtain ⟨isLast, rest⟩ := Prod.mk.inj result
  subst isLast rest
  have split := List.dropLast_append_getLast? last found
  have member : last ∈ leaves.ofSize sizeBits := by rw [← split]; simp
  have sized := sizeBits_of_mem member
  refine ⟨sized, ?_⟩
  intro id
  rw [count_store]
  by_cases sizes : sizeBits = id.sizeBits
  · rw [if_pos sizes]
    unfold count
    rw [← sizes, ← split]
    simp [List.count_append, List.count_singleton, beq_iff_eq]
  · have different : last ≠ id := fun same => sizes (by rw [← same, sized])
    simp [sizes, different]

theorem nextSmallestSize_spec {leaves : LeafNodes} {sizeBits : Nat}
    (found : leaves.nextSmallestSize sizeBits ≠ 0) :
    sizeBits < leaves.nextSmallestSize sizeBits := by
  unfold nextSmallestSize at found ⊢
  cases result : leaves.leafNodes.keys.find? fun untypedSize => decide (sizeBits < untypedSize) with
  | none => simp [result] at found
  | some key =>
      have larger := List.find?_some result
      simpa using larger

/-- `get_leaf` takes one listed id of at least the requested size out of the index. -/
theorem getLeaf_spec {leaves final : LeafNodes} {sizeBits : Nat} {leaf : UntypedId}
    (run : leaves.getLeaf sizeBits = some (leaf, final)) :
    sizeBits ≤ leaf.sizeBits ∧
      ∀ id, final.count id + (if leaf = id then 1 else 0) = leaves.count id := by
  unfold getLeaf at run
  split at run
  · obtain ⟨sized, counts⟩ := popLeaf_spec run
    exact ⟨sized.ge, counts⟩
  · split at run
    · next found =>
        obtain ⟨sized, counts⟩ := popLeaf_spec run
        have larger := nextSmallestSize_spec found
        exact ⟨by omega, counts⟩
    · simp at run

/-- Where the test singles out one element, `eraseP` is `erase`. -/
private theorem eraseP_eq_erase {ids : List UntypedId} {removed : UntypedId}
    {test : UntypedId → Bool} (exact : ∀ id ∈ ids, test id = true ↔ id = removed) :
    ids.eraseP test = ids.erase removed := by
  induction ids with
  | nil => rfl
  | cons id rest ih =>
      have tail := ih fun other member => exact other (by simp [member])
      have head := exact id (by simp)
      by_cases same : id = removed
      · rw [List.eraseP_cons_of_pos (head.mpr same), same, List.erase_cons_head]
      · rw [List.eraseP_cons_of_neg (mt head.mp same), tail,
          List.erase_cons_tail (by simpa using same)]

/-- An id that is listed can be removed, and is removed once. -/
theorem removeLeaf_spec {leaves : LeafNodes} {removed : UntypedId}
    (isListed : 0 < leaves.count removed) :
    ∃ final, leaves.removeLeaf removed = some final ∧
      ∀ id, final.count id + (if removed = id then 1 else 0) = leaves.count id := by
  have member : removed ∈ leaves.ofSize removed.sizeBits := List.count_pos_iff.mp isListed
  have present : (leaves.leafNodes[removed.sizeBits]?).isSome := by
    unfold ofSize at member
    cases found : leaves.leafNodes[removed.sizeBits]? with
    | none => simp [found] at member
    | some ids => rfl
  -- Within one vector the address identifies the id.
  have erased : ((leaves.ofSize removed.sizeBits).eraseP fun id => id.paddr = removed.paddr) =
      (leaves.ofSize removed.sizeBits).erase removed := by
    apply eraseP_eq_erase
    intro id inside
    have sized := sizeBits_of_mem inside
    rw [decide_eq_true_eq, Block.ext_iff]
    exact ⟨fun same => ⟨same, sized⟩, fun same => same.1⟩
  refine ⟨_, if_pos present, ?_⟩
  intro id
  rw [count_store, erased]
  by_cases sizes : removed.sizeBits = id.sizeBits
  · rw [if_pos sizes]
    unfold count
    rw [← sizes]
    by_cases same : removed = id
    · subst same
      have := List.count_pos_iff.mpr member
      simp [List.count_erase_self]
      omega
    · rw [List.count_erase_of_ne (Ne.symm same)]
      simp [same]
  · have different : removed ≠ id := fun same => sizes (by rw [same])
    simp [sizes, different]

private theorem count_entries (leaves : LeafNodes) (id : UntypedId) :
    ∀ entries : List (Nat × List UntypedId),
      entries.Pairwise (fun first second => first.1 ≠ second.1) →
      (∀ entry ∈ entries, leaves.leafNodes[entry.1]? = some entry.2) →
      (entries.flatMap Prod.snd).count id =
        if id.sizeBits ∈ entries.map Prod.fst then leaves.count id else 0 := by
  intro entries
  induction entries with
  | nil => intro _ _; simp
  | cons entry rest ih =>
      intro distinct present
      obtain ⟨key, ids⟩ := entry
      have lookup : leaves.leafNodes[key]? = some ids := present (key, ids) (by simp)
      have sized := (leaves.filed key ids lookup).2
      rw [List.pairwise_cons] at distinct
      have tail := ih distinct.2 fun other member => present other (by simp [member])
      rw [List.flatMap_cons, List.count_append, tail]
      simp only [List.map_cons, List.mem_cons]
      by_cases here : id.sizeBits = key
      · have absent : id.sizeBits ∉ rest.map Prod.fst := by
          intro inRest
          obtain ⟨other, member, sameKey⟩ := List.mem_map.mp inRest
          exact distinct.1 other member (here.symm.trans sameKey.symm)
        rw [if_neg absent, if_pos (Or.inl here)]
        simp [count, ofSize, here, lookup]
      · have none : ids.count id = 0 := by
          rw [List.count_eq_zero]
          exact fun member => here (sized id member)
        simp only [none, here, false_or, zero_add]

/-- The multiset view agrees with the map read as one list. -/
theorem count_listed (leaves : LeafNodes) (id : UntypedId) :
    leaves.listed.count id = leaves.count id := by
  have distinct : leaves.leafNodes.toList.Pairwise (fun first second => first.1 ≠ second.1) :=
    Std.TreeMap.distinct_keys_toList.imp fun apart same => apart (by simp [same])
  have entries : ∀ entry, entry ∈ leaves.leafNodes.toList ↔
      leaves.leafNodes[entry.1]? = some entry.2 := by
    rintro ⟨key, ids⟩
    exact Std.TreeMap.mem_toList_iff_getElem?_eq_some
  unfold listed
  rw [count_entries leaves id _ distinct fun entry member => (entries entry).mp member]
  split
  · rfl
  · next absent =>
      unfold count ofSize
      cases lookup : leaves.leafNodes[id.sizeBits]? with
      | none => simp
      | some ids =>
          exact absurd (List.mem_map.mpr ⟨(id.sizeBits, ids), (entries _).mpr lookup, rfl⟩) absent

end LeafNodes

end IceCap.Dyndl
