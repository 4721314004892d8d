import Mathlib.Data.List.Sort
import IceCap.Events.Bitfield
import IceCap.Gic.Accept

/-!
# Dispatch by the bits of a word

The loops over `biterate`: an interrupt without the caller among its targets goes
to the lowest target, `Bitfield::clear` calls back for each set bit of the groups
in the badge, and an IRQ thread signals an event for each bit of its badge.
-/

set_option autoImplicit false

namespace IceCap

open Library Sel4

theorem biterate_eq_filter {w : Nat} (set : BitVec w) :
    biterate set = (List.range w).filter set.getLsbD := by
  apply List.Pairwise.eq_of_mem_iff (biterate_sorted set)
  · exact List.Pairwise.filter _ List.pairwise_lt_range
  · intro i
    rw [mem_biterate, List.mem_filter, List.mem_range]
    exact ⟨fun isSet => ⟨BitVec.lt_of_getLsbD isSet, isSet⟩, And.right⟩

namespace Events

namespace Bitfield

open Exec

variable {ε σ : Type}

/-- One group of `clear`, with what the callback works on beside the bitfield. -/
def clearGroup (f : Nat → Exec ε σ Unit) (groupIndex : Nat) : Exec ε (Bitfield × σ) Unit := do
  let members ← Exec.runs fun state =>
    let result := state.1.swap groupIndex
    some (result.1, result.2, state.2)
  forEach (biterate members) fun memberIndex =>
    focus Prod.snd (fun inner state => (state.1, inner)) (f (groupIndex * groupBits + memberIndex))

/-- `clear(badge, f)` -/
def clearEach (badge : BitVec 64) (f : Nat → Exec ε σ Unit) : Exec ε (Bitfield × σ) Unit :=
  forEach (biterate badge) (clearGroup f)

/-- The set bits in the groups of the badge, by group. -/
def signalled (bitfield : Bitfield) (badge : BitVec 64) : List Nat :=
  (biterate badge).flatMap fun groupIndex =>
    (biterate (bitfield.group groupIndex)).map (groupIndex * groupBits + ·)

/-- The bitfield without the groups of the badge. -/
def without (bitfield : Bitfield) (badge : BitVec 64) : Bitfield :=
  ⟨fun group => if badge.getLsbD group then 0 else bitfield.group group⟩

variable {bitfield : Bitfield} {badge : BitVec 64}

theorem mem_signalled {bit : Nat} :
    bit ∈ bitfield.signalled badge ↔
      badge.getLsbD (bit / groupBits) = true ∧ bitfield.isSet bit = true := by
  simp only [signalled, List.mem_flatMap, mem_biterate]
  constructor
  · rintro ⟨group, inBadge, member⟩
    obtain ⟨index, isMember, rfl⟩ := List.mem_map.mp member
    have less : index < groupBits := BitVec.lt_of_getLsbD (mem_biterate.mp isMember)
    have isGroup : (group * groupBits + index) / groupBits = group := by
      unfold groupBits at less ⊢
      omega
    exact ⟨isGroup.symm ▸ inBadge, (mem_bits isGroup).mp member⟩
  · intro ⟨inBadge, isSet⟩
    exact ⟨bit / groupBits, inBadge, (mem_bits rfl).mpr isSet⟩

theorem signalled_sorted (bitfield : Bitfield) (badge : BitVec 64) :
    (bitfield.signalled badge).Pairwise (· < ·) := by
  apply List.pairwise_flatMap.mpr
  constructor
  · intro group _
    apply List.pairwise_map.mpr
    exact (biterate_sorted _).imp fun less => Nat.add_lt_add_left less _
  · apply (biterate_sorted badge).imp
    intro group later less bit member other isOther
    obtain ⟨index, isMember, rfl⟩ := List.mem_map.mp member
    obtain ⟨next, _, rfl⟩ := List.mem_map.mp isOther
    have inGroup : index < groupBits := BitVec.lt_of_getLsbD (mem_biterate.mp isMember)
    unfold groupBits at inGroup ⊢
    omega

theorem clearGroup_returns {f : Nat → Exec ε σ Unit} {group : Nat} {state final : σ}
    (called : forEach ((biterate (bitfield.group group)).map (group * groupBits + ·)) f state =
      .ok () final) :
    clearGroup f group (bitfield, state) = .ok () ((bitfield.swap group).2, final) := by
  have calls : ∀ (members : List Nat) (before : σ),
      forEach (members.map (group * groupBits + ·)) f before = .ok () final →
      forEach members (fun memberIndex => focus Prod.snd
        (fun inner (state : Bitfield × σ) => (state.1, inner)) (f (group * groupBits + memberIndex)))
        ((bitfield.swap group).2, before) = .ok () ((bitfield.swap group).2, final) := by
    intro members
    induction members with
    | nil =>
        intro before run
        obtain ⟨_, rfl⟩ := pure_eq_ok.mp run
        rfl
    | cons member members ih =>
        intro before run
        rw [List.map_cons, forEach_cons] at run
        obtain ⟨⟨⟩, middle, first, rest⟩ := bind_eq_ok.mp run
        rw [forEach_cons, bind_of_ok (focus_eq_ok.mpr ⟨middle, first, rfl⟩)]
        exact ih middle rest
  exact calls _ _ called

/-- Distinct groups, one after another: a `swap` does not touch the groups behind it. -/
theorem clearGroups_return {f : Nat → Exec ε σ Unit} {final : σ} (groups : List Nat) :
    ∀ (bitfield : Bitfield) (state : σ), groups.Nodup →
      forEach (groups.flatMap fun group =>
        (biterate (bitfield.group group)).map (group * groupBits + ·)) f state = .ok () final →
      forEach groups (clearGroup f) (bitfield, state) =
        .ok () (⟨fun group => if group ∈ groups then 0 else bitfield.group group⟩, final) := by
  induction groups with
  | nil =>
      intro bitfield state _ called
      obtain ⟨_, rfl⟩ := pure_eq_ok.mp called
      rfl
  | cons group groups ih =>
      intro bitfield state distinct called
      obtain ⟨isNew, distinct⟩ := List.nodup_cons.mp distinct
      rw [List.flatMap_cons, forEach_append] at called
      obtain ⟨⟨⟩, middle, first, rest⟩ := bind_eq_ok.mp called
      have untouched : ∀ other ∈ groups, (bitfield.swap group).2.group other = bitfield.group other := by
        intro other member
        exact Function.update_of_ne (fun same : other = group => isNew (same ▸ member)) _ _
      have sameCalls : (groups.flatMap fun other =>
          (biterate ((bitfield.swap group).2.group other)).map (other * groupBits + ·)) =
          groups.flatMap fun other =>
            (biterate (bitfield.group other)).map (other * groupBits + ·) := by
        apply List.flatMap_congr
        intro other member
        rw [untouched other member]
      rw [forEach_cons, bind_of_ok (clearGroup_returns first),
        ih (bitfield.swap group).2 middle distinct (by rw [sameCalls]; exact rest)]
      congr 3
      funext other
      by_cases same : other = group
      · simp [same, swap]
      · simp [same, swap, Function.update_of_ne]

theorem clearEach_returns {f : Nat → Exec ε σ Unit} {state final : σ}
    (called : forEach (bitfield.signalled badge) f state = .ok () final) :
    clearEach badge f (bitfield, state) = .ok () (bitfield.without badge, final) := by
  have distinct : (biterate badge).Nodup := (biterate_sorted badge).imp Nat.ne_of_lt
  rw [clearEach, clearGroups_return (biterate badge) bitfield state distinct called]
  simp only [mem_biterate, without]

end Bitfield

/-- `IRQThread`, without the notification it waits on and the server it shares. -/
structure IrqThread where
  irqs : List Nat

namespace IrqThread

variable {K : Type} (thread : IrqThread)

def signalBit (i : Nat) : Exec Failure (System K) Unit := do
  let irq ← Exec.unwrap thread.irqs[i]?
  signalIrq irq

/-- One round of `run`, with the badge that the wait returned. -/
def dispatch (badge : BitVec 64) : Exec Failure (System K) Unit :=
  Exec.forEach (biterate badge) thread.signalBit

end IrqThread

end Events

theorem Gic.GIC.handleIrq_lowest {numNodes : Nat} {ε C : Type} {callbacks : GICCallbacks ε C}
    {gic : GIC numNodes C} {callingNode irq target : Nat}
    (notCaller : gic.dist.isTarget irq callingNode = some false)
    (isFirst : gic.dist.FirstTarget irq target) :
    handleIrq callbacks callingNode (.spi irq) gic =
      forwardIrq callbacks callingNode target irq gic := by
  obtain ⟨targets, isTargets, lowest⟩ := isFirst
  rw [handleIrq, Exec.bind_of_ok (onDist_reads.mpr ⟨notCaller, rfl⟩), if_neg (by decide),
    Exec.bind_of_ok (onDist_reads.mpr ⟨isTargets, rfl⟩), biterate_first.mpr lowest]

/-- Every iteration ends and gives the set bits from the lowest one up, and so do the loops that
dispatch by them. -/
theorem biterate_enumerates :
    (∀ (w : Nat) (set : BitVec w),
      Biterator.Gives set (biterate set) ∧
      (∀ items, Biterator.Gives set items → items = biterate set) ∧
      (biterate set).Pairwise (· < ·) ∧ ∀ i, i ∈ biterate set ↔ set.getLsbD i = true) ∧
    (∀ (numNodes : Nat) (ε C : Type) (callbacks : Gic.GICCallbacks ε C) (gic : Gic.GIC numNodes C)
      (callingNode irq target : Nat),
      gic.dist.isTarget irq callingNode = some false → gic.dist.FirstTarget irq target →
      Gic.GIC.handleIrq callbacks callingNode (.spi irq) gic =
        Gic.GIC.forwardIrq callbacks callingNode target irq gic) ∧
    (∀ (bitfield : Events.Bitfield) (badge : BitVec 64),
      (bitfield.signalled badge).Pairwise (· < ·) ∧
      (∀ bit, bit ∈ bitfield.signalled badge ↔
        badge.getLsbD (bit / Events.Bitfield.groupBits) = true ∧ bitfield.isSet bit = true) ∧
      ∀ (ε σ : Type) (f : Nat → Exec ε σ Unit) (state final : σ),
        Exec.forEach (bitfield.signalled badge) f state = .ok () final →
        Events.Bitfield.clearEach badge f (bitfield, state) =
          .ok () (bitfield.without badge, final)) ∧
    ∀ (K : Type) (thread : Events.IrqThread) (badge : BitVec 64),
      (thread.dispatch badge : Exec Failure (Events.System K) Unit) =
        Exec.forEach ((List.range 64).filter badge.getLsbD) thread.signalBit := by
  refine ⟨fun w set => ?_, ?_, fun bitfield badge => ?_, fun K thread badge => ?_⟩
  · have gives := gives_biterate set
    exact ⟨gives, fun items other => other.unique gives, biterate_sorted set, fun i => mem_biterate⟩
  · intro numNodes ε C callbacks gic callingNode irq target notCaller isFirst
    exact Gic.GIC.handleIrq_lowest notCaller isFirst
  · exact ⟨bitfield.signalled_sorted badge, fun bit => Events.Bitfield.mem_signalled,
      fun ε σ f state final called => Events.Bitfield.clearEach_returns called⟩
  · rw [Events.IrqThread.dispatch, biterate_eq_filter]

end IceCap
