import IceCap.Gic.Slots

/-!
# The interrupts of the hardware

A shared interrupt that the hardware raises is forwarded to the calling node if
that is a target, and otherwise to the lowest target in the register, which the
guest wrote.  Nothing compares the latter with the number of nodes, and an
interrupt without a target is forgotten.
-/

set_option autoImplicit false

namespace IceCap.Gic

open IceCap.Library

/-- The virtual interrupts can be put into the list registers. -/
def GICCallbacks.Succeed {ε C : Type} (callbacks : GICCallbacks ε C) : Prop :=
  ∀ callingNode targetNode index irq priority state, ∃ final,
    callbacks.vcpuInjectIrq callingNode targetNode index irq priority state = .ok () final

/-- The lowest target that the register of a shared interrupt names, whether it exists or not. -/
def Distributor.FirstTarget {numNodes : Nat} (dist : Distributor numNodes) (irq target : Nat) : Prop :=
  ∃ targets, dist.getSpiTargets irq = some targets ∧ targets.getLsbD target = true ∧
    ∀ lower < target, targets.getLsbD lower = false

namespace GIC

open Exec

variable {numNodes : Nat} {ε C : Type}

/-- An interrupt is in the mirror or in the queue of a node, or its pending bit is set. -/
def Remembers (gic : GIC numNodes C) (irq : Irq) : Prop :=
  (∃ node index, gic.slot node index = some irq) ∨ (∃ node, irq ∈ gic.overflow node) ∨
    ∃ node, gic.dist.isPending irq node = some true

/-- The calling node is a target, or the first target exists, or the interrupt has no target and
was remembered before. -/
def Accepts (gic : GIC numNodes C) (irq callingNode : Nat) : Prop :=
  gic.dist.isTarget irq callingNode = some true ∨
    (∃ target < numNodes, gic.dist.FirstTarget irq target) ∨
    gic.dist.getSpiTargets irq = some 0 ∧ gic.Remembers irq

section Inject
variable (gic : GIC numNodes C) {callbacks : GICCallbacks ε C}
  {callingNode targetNode index irq : Nat}

theorem getPriority_returns (dist : Distributor numNodes) (isIrq : irq < 1020)
    (isNode : targetNode < numNodes) :
    ∃ priority, Distributor.getPriority irq targetNode dist = .ok priority dist := by
  unfold Distributor.getPriority
  rw [if_neg (Nat.not_le.mpr isNode)]
  have isSome : ∃ priority, dist.priorityOf irq targetNode = some priority := by
    unfold Distributor.priorityOf
    simp only [Option.map_eq_some_iff]
    by_cases isBanked : irq / 4 < 8
    · rw [if_pos isBanked, Vector.getElem?_eq_getElem isNode, Option.bind_some]
      exact ⟨_, _, Vector.getElem?_eq_getElem isBanked, rfl⟩
    · rw [if_neg isBanked]
      exact ⟨_, _, Vector.getElem?_eq_getElem (by omega), rfl⟩
  obtain ⟨priority, isPriority⟩ := isSome
  exact ⟨priority, reads_eq_ok.mpr ⟨isPriority, rfl⟩⟩

theorem updateLr_returns (change : Lr → Lr) (isNode : targetNode < numNodes) :
    ∃ final, (updateLr targetNode change : Exec (Failure ε) _ Unit) gic = .ok () final := by
  simp only [updateLr, bind_eq_ok, reads_eq_ok, modify_eq_ok]
  exact ⟨_, _, _, ⟨Vector.getElem?_eq_getElem isNode, rfl⟩, rfl⟩

theorem injectIrq_returns (callingNode : Nat) (succeed : callbacks.Succeed) (isIrq : irq < 1020)
    (isNode : targetNode < numNodes) (isIndex : index < numLrs) :
    ∃ final, injectIrq callbacks callingNode targetNode index irq gic = .ok () final := by
  have isRegister : irq < 1024 := by omega
  obtain ⟨priority, isPriority⟩ := getPriority_returns gic.dist isIrq isNode
  obtain ⟨pended, isPended⟩ :
      ∃ pended, Distributor.setPending irq targetNode gic.dist = .ok () pended :=
    Distributor.pendings.updateBit_ok gic.dist Distributor.setBits isRegister isNode
  have inject : pended.shouldInject irq targetNode = some (pended.deliverable irq targetNode) :=
    Distributor.shouldInject_eq_some isIrq
  simp only [injectIrq, bind_eq_ok]
  by_cases isDeliverable : pended.deliverable irq targetNode = true
  · obtain ⟨active, isActive⟩ :
        ∃ active, Distributor.setActive irq targetNode pended = .ok () active :=
      Distributor.actives.updateBit_ok pended Distributor.setBits isRegister isNode
    obtain ⟨placed, isPlaced⟩ := updateLr_returns (ε := ε) { gic with dist := active }
      (fun lr => { lr with mirror := lr.mirror.setIfInBounds index (some irq) }) isNode
    obtain ⟨called, isCalled⟩ := succeed callingNode targetNode index irq (priority.toNat >>> 3)
      placed.callbacks
    refine ⟨{ placed with callbacks := called }, priority, gic,
      onDist_eq_ok.mpr ⟨_, isPriority, rfl⟩, (), _, onDist_eq_ok.mpr ⟨_, isPended, rfl⟩, true, _,
      onDist_reads.mpr ⟨isDeliverable ▸ inject, rfl⟩, ?_⟩
    rw [if_pos rfl]
    simp only [setMirror, onCallbacks, bind_eq_ok, assert_eq_ok, focus_eq_ok, mapErr_eq_ok]
    exact ⟨(), _, onDist_eq_ok.mpr ⟨_, isActive, rfl⟩, (), placed, ⟨(), _, ⟨isIndex, rfl⟩, isPlaced⟩,
      called, isCalled, rfl⟩
  · exact ⟨{ gic with dist := pended }, priority, gic, onDist_eq_ok.mpr ⟨_, isPriority, rfl⟩, (), _,
      onDist_eq_ok.mpr ⟨_, isPended, rfl⟩, false, _,
      onDist_reads.mpr ⟨Bool.eq_false_iff.mpr isDeliverable ▸ inject, rfl⟩, rfl⟩

variable {gic}

/-- What is injected is in its slot, or its pending bit stays set. -/
theorem injectIrq_remembers {final : GIC numNodes C} (isNode : targetNode < numNodes)
    (run : Ends (injectIrq callbacks callingNode targetNode index irq) gic final) :
    final.Remembers irq := by
  rcases injectIrq_ends run with ⟨_, outside⟩ | ⟨isIrq, _, dist, isPended, cases⟩
  · omega
  rcases cases with ⟨_, sameDist, _⟩ | ⟨_, _, slots⟩
  · refine .inr (.inr ⟨targetNode, ?_⟩)
    obtain ⟨same, _⟩ := Distributor.Family.set_bit isPended irq targetNode
    rw [sameDist, Distributor.isPending, Distributor.Family.test_eq_some (by omega : irq < 1024),
      same ⟨rfl, fun _ => rfl⟩, decide_eq_true isNode]
  · refine .inl ⟨targetNode, index, ?_⟩
    rw [slots, if_pos ⟨rfl, rfl⟩]

variable (gic) in
theorem forwardIrq_returns (callingNode : Nat) (succeed : callbacks.Succeed) (isIrq : irq < 1020)
    (isNode : targetNode < numNodes) :
    ∃ final, forwardIrq callbacks callingNode targetNode irq gic = .ok () final := by
  have isLr : gic.lrs[targetNode]? = some gic.lrs[targetNode] := Vector.getElem?_eq_getElem isNode
  simp only [forwardIrq, bind_eq_ok, reads_eq_ok, isLr]
  cases isSlot : (gic.lrs[targetNode]).emptySlot with
  | some index =>
      obtain ⟨final, run⟩ := injectIrq_returns gic callingNode succeed isIrq isNode
        (emptySlot_eq_some isLr isSlot).1
      exact ⟨final, _, gic, ⟨rfl, rfl⟩, by rw [isSlot]; exact run⟩
  | none =>
      by_cases queued : irq ∈ (gic.lrs[targetNode]).overflow
      · exact ⟨gic, _, gic, ⟨rfl, rfl⟩, by rw [isSlot]; simp [queued]⟩
      · obtain ⟨final, run⟩ := updateLr_returns (ε := ε) gic
          (fun lr => { lr with overflow := lr.overflow ++ [irq] }) isNode
        exact ⟨final, _, gic, ⟨rfl, rfl⟩, by rw [isSlot]; simpa [queued] using run⟩

theorem forwardIrq_panics (past : numNodes ≤ targetNode) :
    forwardIrq callbacks callingNode targetNode irq gic = .panic := by
  exact bind_eq_panic.mpr (.inl (reads_eq_panic.mpr (Vector.getElem?_eq_none past)))

theorem forwardIrq_remembers {final : GIC numNodes C}
    (run : Ends (forwardIrq callbacks callingNode targetNode irq) gic final) :
    final.Remembers irq := by
  rcases forwardIrq_ends run with ⟨index, injected⟩ | ⟨_, _, member, _⟩
  · exact injectIrq_remembers (forwardIrq_isNode run) injected
  · exact .inr (.inl ⟨targetNode, member⟩)

end Inject

/-! ## The choice of the target -/

section Choice
variable {gic : GIC numNodes C} {callbacks : GICCallbacks ε C} {callingNode irq : Nat}

theorem getSpiTargets_isSome (dist : Distributor numNodes) (isSpi : 32 ≤ irq) (isIrq : irq < 1020) :
    ∃ targets, dist.getSpiTargets irq = some targets := by
  unfold Distributor.getSpiTargets
  rw [if_neg (Nat.not_lt.mpr isSpi)]
  simp only [Option.map_eq_some_iff]
  exact ⟨_, _, Vector.getElem?_eq_getElem (by omega), rfl⟩

theorem firstTarget_iff {dist : Distributor numNodes} {targets : Register32} {target : Nat}
    (isTargets : dist.getSpiTargets irq = some targets) :
    dist.FirstTarget irq target ↔ (biterate targets).head? = some target := by
  rw [biterate_first, Distributor.FirstTarget, isTargets]
  constructor
  · rintro ⟨_, same, lowest⟩
    obtain rfl := Option.some.inj same
    exact lowest
  · intro lowest
    exact ⟨targets, rfl, lowest⟩

/-- Which of the three ways an interrupt that the hardware raises takes. -/
theorem handleIrq_spi (isSpi : 32 ≤ irq) (isIrq : irq < 1020) :
    handleIrq callbacks callingNode (.spi irq) gic =
      if gic.dist.isTarget irq callingNode = some true then
        forwardIrq callbacks callingNode callingNode irq gic
      else
        match (gic.dist.getSpiTargets irq).bind fun targets => (biterate targets).head? with
        | some target => forwardIrq callbacks callingNode target irq gic
        | none => .ok () gic := by
  obtain ⟨targets, isTargets⟩ := getSpiTargets_isSome gic.dist isSpi isIrq
  have tested : gic.dist.isTarget irq callingNode = some (gic.dist.targetBit irq callingNode) :=
    Distributor.isTarget_eq_some isIrq
  rw [handleIrq, bind_of_ok (onDist_reads.mpr ⟨tested, rfl⟩), tested, isTargets, Option.bind_some]
  cases gic.dist.targetBit irq callingNode with
  | true => rfl
  | false =>
      rw [if_neg (by decide), if_neg (by decide), bind_of_ok (onDist_reads.mpr ⟨isTargets, rfl⟩)]
      cases (biterate targets).head? with
      | some target => rfl
      | none => rfl

/-- With callbacks that succeed, an interrupt of the hardware is accepted and remembered exactly if
the calling node is a target of it, or its first target exists, or it has no target and was
remembered before. -/
theorem handleIrq_remembers_iff (succeed : callbacks.Succeed) (isSpi : 32 ≤ irq) (isIrq : irq < 1020)
    (isNode : callingNode < numNodes) :
    (∃ final, handleIrq callbacks callingNode (.spi irq) gic = .ok () final ∧ final.Remembers irq) ↔
      gic.Accepts irq callingNode := by
  obtain ⟨targets, isTargets⟩ := getSpiTargets_isSome gic.dist isSpi isIrq
  have forwards : ∀ target, target < numNodes →
      ∃ final, forwardIrq callbacks callingNode target irq gic = .ok () final ∧
        final.Remembers irq := by
    intro target isTarget
    obtain ⟨final, run⟩ := forwardIrq_returns gic callingNode succeed isIrq isTarget
    exact ⟨final, run, forwardIrq_remembers (.inl ⟨_, run⟩)⟩
  rw [handleIrq_spi isSpi isIrq, Accepts, isTargets, Option.bind_some]
  simp only [firstTarget_iff isTargets]
  by_cases isTarget : gic.dist.isTarget irq callingNode = some true
  · rw [if_pos isTarget]
    exact iff_of_true (forwards callingNode isNode) (.inl isTarget)
  rw [if_neg isTarget]
  cases isHead : (biterate targets).head? with
  | some target =>
      have nonzero : targets ≠ 0 := by
        intro isZero
        rw [biterate_eq_nil.mpr isZero] at isHead
        simp at isHead
      constructor
      · rintro ⟨final, run, _⟩
        exact .inr (.inl ⟨target, forwardIrq_isNode (.inl ⟨_, run⟩), rfl⟩)
      · rintro (isTrue | ⟨_, exists_, same⟩ | ⟨same, _⟩)
        · exact absurd isTrue isTarget
        · exact forwards target (Option.some.inj same ▸ exists_)
        · exact absurd (Option.some.inj same) nonzero
  | none =>
      have isZero : targets = 0 := biterate_eq_nil.mp (List.head?_eq_none_iff.mp isHead)
      constructor
      · rintro ⟨final, same, remembers⟩
        obtain ⟨_, rfl⟩ := Outcome.ok.inj same
        exact .inr (.inr ⟨by rw [isZero], remembers⟩)
      · rintro (isTrue | ⟨_, _, isSome⟩ | ⟨_, remembers⟩)
        · exact absurd isTrue isTarget
        · simp at isSome
        · exact ⟨gic, rfl, remembers⟩

/-- The interrupt that a guest has kept for the first cpu, which raises it. -/
theorem handleIrq_remembers_iff_reset :
    (∃ final, handleIrq silent 0 (.spi 32) (new 2 ()) = .ok () final ∧ final.Remembers 32) ↔
      (new 2 ()).Accepts 32 0 :=
  handleIrq_remembers_iff (fun _ _ _ _ _ _ => ⟨(), rfl⟩) (by decide) (by decide) (by decide)

/-- The guest routes interrupt 32 to cpu 2, of which there is none, and interrupt 33 to no cpu. -/
theorem guest_routes_away : ∃ gic : GIC 2 Unit,
    handle silent (.handleWrite 0 0x820 (.word 0x04)) (new 2 ()) = .ok () gic ∧
    handleIrq silent 0 (.spi 32) gic = .panic ∧
    handleIrq silent 0 (.spi 33) gic = .ok () gic ∧ ¬ gic.Remembers 33 := by
  let call : Call := .handleWrite 0 0x820 (.word 0x04)
  have wrote : handle silent call (new 2 ()) = .ok () ((new 2 ()).next call) :=
    handle_next (by decide +kernel)
  refine ⟨_, wrote, ?_, ?_, ?_⟩
  · rw [handleIrq_spi (by decide) (by decide),
      if_neg (by decide +kernel : ¬ ((new 2 ()).next call).dist.isTarget 32 0 = some true),
      (by decide +kernel : ((new 2 ()).next call).dist.getSpiTargets 32 = some 4),
      Option.bind_some, biterate_first.mpr ⟨(by decide : (4 : Register32).getLsbD 2 = true), by decide⟩]
    exact forwardIrq_panics (Nat.le_refl 2)
  · rw [handleIrq_spi (by decide) (by decide),
      if_neg (by decide +kernel : ¬ ((new 2 ()).next call).dist.isTarget 33 0 = some true),
      (by decide +kernel : ((new 2 ()).next call).dist.getSpiTargets 33 = some 0)]
    rfl
  · have sameLrs : ((new 2 ()).next call).lrs = (new 2 ()).lrs := by
      decide +kernel
    have notPending : ∀ node < 2, ((new 2 ()).next call).dist.isPending 33 node = some false := by
      decide +kernel
    rintro (⟨node, index, held⟩ | ⟨node, queued⟩ | ⟨node, isPending⟩)
    · simp [slot_of_new sameLrs] at held
    · simp [overflow_of_new sameLrs] at queued
    · by_cases isNode : node < 2
      · simp [notPending node isNode] at isPending
      · rw [Distributor.isPending, Distributor.Family.test, if_pos (Nat.le_of_not_lt isNode)] at isPending
        simp at isPending

end Choice

end GIC

end IceCap.Gic
