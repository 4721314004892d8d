import IceCap.Gic.Controller
import IceCap.Gic.Writes

/-!
# Slots and queues

What the operations on list registers do to the slots of the mirrors and to the
queues behind them, and the two ways in which an attempt to inject an interrupt
ends.
-/

set_option autoImplicit false

namespace IceCap.Gic.GIC

open IceCap.Library Exec

variable {numNodes : Nat} {ε C α : Type}

def slot (gic : GIC numNodes C) (node index : Nat) : Option Irq :=
  ((gic.lrs[node]?).bind fun lr => lr.mirror[index]?).join

def overflow (gic : GIC numNodes C) (node : Nat) : List Irq :=
  ((gic.lrs[node]?).map Lr.overflow).getD []

section Lists
variable {gic final : GIC numNodes C} {node index : Nat}

theorem slot_isIndex {irq : Irq} (held : gic.slot node index = some irq) : index < numLrs := by
  by_contra outside
  have pastEnd : ∀ lr : Lr, lr.mirror[index]? = none := fun lr =>
    Vector.getElem?_eq_none (Nat.le_of_not_lt outside)
  cases isLr : gic.lrs[node]? with
  | none => simp [slot, isLr] at held
  | some lr => simp [slot, isLr, pastEnd] at held

theorem updateLr_eq_ok {change : Lr → Lr}
    (run : (updateLr node change : Exec (Failure ε) _ Unit) gic = .ok () final) :
    ∃ lr, gic.lrs[node]? = some lr ∧
      final = { gic with lrs := gic.lrs.setIfInBounds node (change lr) } := by
  simp only [updateLr, bind_eq_ok, reads_eq_ok, modify_eq_ok] at run
  obtain ⟨lr, _, ⟨isLr, rfl⟩, isFinal⟩ := run
  exact ⟨lr, isLr, isFinal.symm⟩

theorem updateLr_infallible {change : Lr → Lr} :
    Infallible (updateLr node change : Exec (Failure ε) (GIC numNodes C) Unit) :=
  (Infallible.reads _).bind fun _ => .modify _

theorem setMirror_eq_ok {held : Option Irq}
    (run : (setMirror node index held : Exec (Failure ε) _ Unit) gic = .ok () final) :
    final.dist = gic.dist ∧ final.overflow = gic.overflow ∧
    ∀ otherNode otherIndex, final.slot otherNode otherIndex =
      if otherNode = node ∧ otherIndex = index then held else gic.slot otherNode otherIndex := by
  simp only [setMirror, bind_eq_ok, assert_eq_ok] at run
  obtain ⟨_, _, ⟨inBounds, rfl⟩, updated⟩ := run
  obtain ⟨lr, isLr, rfl⟩ := updateLr_eq_ok updated
  have isNode : node < numNodes := (Vector.getElem?_eq_some_iff.mp isLr).1
  refine ⟨rfl, ?_, fun otherNode otherIndex => ?_⟩
  · funext other
    unfold overflow
    simp only [Vector.getElem?_setIfInBounds]
    split
    · next same =>
        subst same
        rw [isLr]
        simp
    · rfl
  · unfold slot
    simp only [Vector.getElem?_setIfInBounds]
    by_cases same : otherNode = node
    · subst same
      by_cases sameIndex : otherIndex = index
      · subst sameIndex
        simp [isNode, inBounds]
      · rw [isLr]
        simp [isNode, sameIndex, Ne.symm sameIndex]
    · simp [same, Ne.symm same]

/-- A change of the queue of a node. -/
theorem updateOverflow_eq_ok (change : List Irq → List Irq)
    (run : (updateLr node fun lr => { lr with overflow := change lr.overflow } :
      Exec (Failure ε) _ Unit) gic = .ok () final) :
    final.dist = gic.dist ∧ final.slot = gic.slot ∧
    ∀ other, final.overflow other =
      if other = node then change (gic.overflow other) else gic.overflow other := by
  obtain ⟨lr, isLr, rfl⟩ := updateLr_eq_ok run
  have isNode : node < numNodes := (Vector.getElem?_eq_some_iff.mp isLr).1
  refine ⟨rfl, ?_, fun other => ?_⟩
  · funext otherNode otherIndex
    unfold slot
    simp only [Vector.getElem?_setIfInBounds]
    split
    · next same =>
        subst same
        rw [isLr]
        simp
    · rfl
  · unfold overflow
    simp only [Vector.getElem?_setIfInBounds]
    by_cases same : other = node
    · subst same
      rw [isLr]
      simp [isNode]
    · simp [same, Ne.symm same]

theorem popOverflow_eq_ok {popped : Option Irq}
    (run : (popOverflow node : Exec (Failure ε) _ _) gic = .ok popped final) :
    popped = (gic.overflow node).head? ∧ final.dist = gic.dist ∧ final.slot = gic.slot ∧
    ∀ other, final.overflow other =
      if other = node then (gic.overflow other).tail else gic.overflow other := by
  simp only [popOverflow, bind_eq_ok, reads_eq_ok, pure_eq_ok] at run
  obtain ⟨lr, _, ⟨isLr, rfl⟩, _, _, updated, rfl, rfl⟩ := run
  refine ⟨by simp [overflow, isLr], updateOverflow_eq_ok List.tail updated⟩

theorem slot_of_new {state : C} (isNew : gic.lrs = (new numNodes state).lrs) (node index : Nat) :
    gic.slot node index = none := by
  unfold slot
  rw [isNew, new]
  by_cases isNode : node < numNodes
  · by_cases isIndex : index < numLrs
    · simp [Lr.new, isNode, isIndex]
    · simp [Lr.new, isNode, isIndex]
  · simp [isNode]

theorem overflow_of_new {state : C} (isNew : gic.lrs = (new numNodes state).lrs) (node : Nat) :
    gic.overflow node = [] := by
  unfold overflow
  rw [isNew, new]
  by_cases isNode : node < numNodes
  · simp [Lr.new, isNode]
  · simp [isNode]

end Lists

/-! ## The distributor and the callbacks -/

section Parts
variable {gic final : GIC numNodes C}

theorem onDist_eq_ok {call : Exec IrqError (Distributor numNodes) α} {value : α} :
    (onDist call : Exec (Failure ε) _ α) gic = .ok value final ↔
      ∃ dist, call gic.dist = .ok value dist ∧ { gic with dist } = final := by
  simp [onDist]

theorem onDist_reads {method : Distributor numNodes → Option α} {value : α} :
    (onDist (reads method) : Exec (Failure ε) _ α) gic = .ok value final ↔
      method gic.dist = some value ∧ gic = final := by
  rw [onDist_eq_ok]
  constructor
  · rintro ⟨_, run, rfl⟩
    obtain ⟨found, rfl⟩ := reads_eq_ok.mp run
    exact ⟨found, rfl⟩
  · rintro ⟨found, rfl⟩
    exact ⟨_, reads_eq_ok.mpr ⟨found, rfl⟩, rfl⟩

theorem onDist_ends {call : Exec IrqError (Distributor numNodes) α} :
    Ends (onDist call : Exec (Failure ε) _ α) gic final ↔
      ∃ dist, Ends call gic.dist dist ∧ { gic with dist } = final := by
  rw [onDist, ends_focus]
  simp only [ends_mapErr]

theorem onDist_eq_err {call : Exec IrqError (Distributor numNodes) α} {error : Failure ε}
    (failed : (onDist call : Exec (Failure ε) _ α) gic = .err error final) :
    ∃ error dist, call gic.dist = .err error dist ∧ { gic with dist } = final := by
  simp only [onDist, focus_eq_err, mapErr_eq_err] at failed
  obtain ⟨dist, ⟨error, failed, _⟩, isFinal⟩ := failed
  exact ⟨error, dist, failed, isFinal⟩

theorem onDist_infallible {call : Exec IrqError (Distributor numNodes) α} (infallible : Infallible call) :
    Infallible (onDist call : Exec (Failure ε) (GIC numNodes C) α) := by
  refine Infallible.focus fun state error final failed => ?_
  obtain ⟨error, failed, _⟩ := mapErr_eq_err.mp failed
  exact infallible state error final failed

theorem onCallbacks_ends {call : Exec ε C α}
    (run : Ends (onCallbacks call : Exec (Failure ε) (GIC numNodes C) α) gic final) :
    final.dist = gic.dist ∧ final.slot = gic.slot ∧ final.overflow = gic.overflow := by
  rw [onCallbacks, ends_focus] at run
  obtain ⟨_, _, rfl⟩ := run
  exact ⟨rfl, rfl, rfl⟩

end Parts

/-! ## Injection -/

section Inject
variable {gic final : GIC numNodes C} {callbacks : GICCallbacks ε C}
  {callingNode targetNode index irq : Nat}

theorem getPriority_isIrq {dist after : Distributor numNodes} {priority : Register32}
    (run : Distributor.getPriority irq targetNode dist = .ok priority after) :
    after = dist ∧ irq < 1020 ∧ targetNode < numNodes := by
  unfold Distributor.getPriority at run
  split at run
  · simp at run
  · next isNode =>
    obtain ⟨isPriority, rfl⟩ := reads_eq_ok.mp run
    refine ⟨rfl, ?_, Nat.lt_of_not_ge isNode⟩
    by_contra outside
    have isShared : ¬ irq / 4 < 8 := by omega
    have pastEnd : 247 ≤ irq / 4 - 8 := by omega
    simp [Distributor.priorityOf, isShared, Vector.getElem?_eq_none pastEnd] at isPriority

theorem getPriority_eq_err {dist after : Distributor numNodes} {error : IrqError}
    (failed : Distributor.getPriority irq targetNode dist = .err error after) :
    after = dist ∧ numNodes ≤ targetNode := by
  unfold Distributor.getPriority at failed
  split at failed
  · next outside => exact ⟨(fail_eq_err.mp failed).2.symm, outside⟩
  · simp at failed

/-- An attempt to inject fails before it has any effect, or it leaves the interrupt pending because
it is not deliverable, or it makes it active and puts it into the slot. -/
theorem injectIrq_ends
    (run : Ends (injectIrq callbacks callingNode targetNode index irq) gic final) :
    final = gic ∧ numNodes ≤ targetNode ∨
    irq < 1020 ∧ final.overflow = gic.overflow ∧
      ∃ dist, Distributor.setPending irq targetNode gic.dist = .ok () dist ∧
        (dist.deliverable irq targetNode = false ∧ final.dist = dist ∧ final.slot = gic.slot ∨
          dist.deliverable irq targetNode = true ∧
          Distributor.setActive irq targetNode dist = .ok () final.dist ∧
          ∀ otherNode otherIndex, final.slot otherNode otherIndex =
            if otherNode = targetNode ∧ otherIndex = index then some irq
            else gic.slot otherNode otherIndex) := by
  rcases ends_bind.mp run with ⟨error, failed⟩ | ⟨priority, _, found, rest⟩
  · obtain ⟨_, _, noPriority, rfl⟩ := onDist_eq_err failed
    obtain ⟨rfl, outside⟩ := getPriority_eq_err noPriority
    exact .inl ⟨rfl, outside⟩
  obtain ⟨_, isPriority, rfl⟩ := onDist_eq_ok.mp found
  obtain ⟨rfl, isIrq, isNode⟩ := getPriority_isIrq isPriority
  refine .inr ⟨isIrq, ?_⟩
  -- from here on only the callback can fail
  rcases ends_bind.mp rest with ⟨error, failed⟩ | ⟨_, _, pended, rest⟩
  · obtain ⟨_, _, failed, _⟩ := onDist_eq_err failed
    exact absurd failed (Distributor.Family.updateBit_ne_err isNode)
  obtain ⟨dist, isPending, rfl⟩ := onDist_eq_ok.mp pended
  rcases ends_bind.mp rest with ⟨error, failed⟩ | ⟨inject, _, tested, rest⟩
  · simp [onDist, mapErr_eq_err] at failed
  obtain ⟨isInject, rfl⟩ := onDist_reads.mp tested
  rw [Distributor.shouldInject_eq_some isIrq] at isInject
  obtain rfl := Option.some.inj isInject
  split at rest
  · next isDeliverable =>
      rcases ends_bind.mp rest with ⟨error, failed⟩ | ⟨_, _, activated, rest⟩
      · obtain ⟨_, _, failed, _⟩ := onDist_eq_err failed
        exact absurd failed (Distributor.Family.updateBit_ne_err isNode)
      obtain ⟨_, isActive, rfl⟩ := onDist_eq_ok.mp activated
      rcases ends_bind.mp rest with ⟨error, failed⟩ | ⟨_, _, placed, called⟩
      · simp [setMirror, updateLr] at failed
      obtain ⟨sameDist, sameOverflow, slots⟩ := setMirror_eq_ok placed
      obtain ⟨lastDist, lastSlot, lastOverflow⟩ := onCallbacks_ends called
      refine ⟨lastOverflow.trans sameOverflow, dist, isPending, .inr ⟨isDeliverable, ?_, ?_⟩⟩
      · rw [lastDist, sameDist]
        exact isActive
      · rw [lastSlot]
        exact slots
  · next notDeliverable =>
      obtain rfl := ends_pure.mp rest
      exact ⟨rfl, dist, isPending, .inl ⟨by simpa using notDeliverable, rfl, rfl⟩⟩

theorem emptySlot_eq_some {lr : Lr} (isLr : gic.lrs[targetNode]? = some lr)
    (isEmpty : lr.emptySlot = some index) : index < numLrs ∧ gic.slot targetNode index = none := by
  have isIndex := List.mem_range.mp (List.mem_of_find?_eq_some isEmpty)
  have found := List.find?_some isEmpty
  rw [beq_iff_eq] at found
  exact ⟨isIndex, by rw [slot, isLr, Option.bind_some, found, Option.join_some]⟩

theorem emptySlot_eq_none {lr : Lr} (isLr : gic.lrs[targetNode]? = some lr)
    (isFull : lr.emptySlot = none) : ∀ index < numLrs, gic.slot targetNode index ≠ none := by
  intro index isIndex isEmpty
  have notFound := List.find?_eq_none.mp isFull index (List.mem_range.mpr isIndex)
  rw [slot, isLr, Option.bind_some, Vector.getElem?_eq_getElem isIndex, Option.join_some] at isEmpty
  rw [Vector.getElem?_eq_getElem isIndex, isEmpty] at notFound
  exact notFound (beq_self_eq_true _)

/-- Whether a forwarded interrupt is injected or queued depends on there being an empty slot. -/
theorem forwardIrq_chooses (run : Ends (forwardIrq callbacks callingNode targetNode irq) gic final) :
    (∃ index < numLrs, gic.slot targetNode index = none ∧
      Ends (injectIrq callbacks callingNode targetNode index irq) gic final) ∨
    (∀ index < numLrs, gic.slot targetNode index ≠ none) ∧ final.dist = gic.dist ∧
      final.slot = gic.slot ∧ ∀ node, final.overflow node =
        if node = targetNode ∧ irq ∉ gic.overflow node then gic.overflow node ++ [irq]
        else gic.overflow node := by
  obtain ⟨lr, _, found, rest⟩ := (Infallible.reads _).ends_bind run
  obtain ⟨isLr, rfl⟩ := reads_eq_ok.mp found
  have isOverflow : gic.overflow targetNode = lr.overflow := by
    simp [overflow, isLr]
  split at rest
  · next index isEmpty =>
      obtain ⟨isIndex, isNone⟩ := emptySlot_eq_some isLr isEmpty
      exact .inl ⟨index, isIndex, isNone, rest⟩
  · next isFull =>
      refine .inr ⟨emptySlot_eq_none isLr isFull, ?_⟩
      split at rest
      · next member =>
          obtain rfl := ends_pure.mp rest
          refine ⟨rfl, rfl, fun node => (if_neg ?_).symm⟩
          rintro ⟨rfl, absent⟩
          exact absent (isOverflow ▸ member)
      · next absent =>
          obtain ⟨_, pushed⟩ := updateLr_infallible.ends rest
          obtain ⟨sameDist, sameSlot, queues⟩ :=
            updateOverflow_eq_ok (fun queue => queue ++ [irq]) pushed
          refine ⟨sameDist, sameSlot, fun node => ?_⟩
          rw [queues]
          by_cases same : node = targetNode
          · subst same
            rw [if_pos rfl, if_pos ⟨rfl, isOverflow ▸ absent⟩]
          · rw [if_neg same, if_neg fun both => same both.1]

/-- A forwarded interrupt is injected or queued, or is in the queue already. -/
theorem forwardIrq_ends (run : Ends (forwardIrq callbacks callingNode targetNode irq) gic final) :
    (∃ index, Ends (injectIrq callbacks callingNode targetNode index irq) gic final) ∨
    final.dist = gic.dist ∧ final.slot = gic.slot ∧ irq ∈ final.overflow targetNode ∧
      ∀ node, final.overflow node = gic.overflow node ∨
        node = targetNode ∧ final.overflow node = gic.overflow node ++ [irq] := by
  rcases forwardIrq_chooses run with
    ⟨index, _, _, injected⟩ | ⟨_, sameDist, sameSlot, queues⟩
  · exact .inl ⟨index, injected⟩
  refine .inr ⟨sameDist, sameSlot, ?_, fun node => ?_⟩
  · rw [queues]
    split
    · exact List.mem_append_right _ List.mem_cons_self
    · next present => exact Classical.not_not.mp fun absent => present ⟨rfl, absent⟩
  · rw [queues]
    split
    · next isNew => exact .inr ⟨isNew.1, rfl⟩
    · exact .inl rfl

theorem forwardIrq_isNode (run : Ends (forwardIrq callbacks callingNode targetNode irq) gic final) :
    targetNode < numNodes := by
  obtain ⟨lr, _, found, _⟩ := (Infallible.reads _).ends_bind run
  exact (Vector.getElem?_eq_some_iff.mp (reads_eq_ok.mp found).1).1

theorem getSpiTargets_targetBit {dist : Distributor numNodes} {targets : Register32}
    (isTargets : dist.getSpiTargets irq = some targets) (isSet : targets.getLsbD targetNode = true)
    (isNode : targetNode < numNodes) : dist.targetBit irq targetNode = true := by
  unfold Distributor.getSpiTargets at isTargets
  split at isTargets
  · simp at isTargets
  · next isShared =>
      obtain ⟨val, isVal, rfl⟩ := Option.map_eq_some_iff.mp isTargets
      simp only [Distributor.targetBit, Distributor.isTarget]
      rw [if_neg (Nat.not_le.mpr isNode), if_neg isShared, isVal]
      simpa only [Option.map_some, Option.getD_some, Distributor.shift_test] using isSet

/-- A shared interrupt is forwarded to one of its targets, if it has any. -/
theorem handleIrq_ends {qualified : QualifiedIrq}
    (run : Ends (handleIrq callbacks callingNode qualified) gic final) :
    final = gic ∨ ∃ targetNode irq, Ends (forwardIrq callbacks callingNode targetNode irq) gic final ∧
      (qualified = .qualifiedPpi targetNode irq ∨ gic.dist.targetBit irq targetNode = true) := by
  cases qualified with
  | qualifiedPpi node irq => exact .inr ⟨node, irq, run, .inl rfl⟩
  | spi irq =>
      obtain ⟨isTarget, _, tested, rest⟩ := (onDist_infallible (.reads _)).ends_bind run
      obtain ⟨isTarget, rfl⟩ := onDist_reads.mp tested
      split at rest
      · next isTrue =>
          subst isTrue
          exact .inr ⟨callingNode, irq, rest, .inr (by simp [Distributor.targetBit, isTarget])⟩
      · obtain ⟨targets, _, found, rest⟩ := (onDist_infallible (.reads _)).ends_bind rest
        obtain ⟨isTargets, rfl⟩ := onDist_reads.mp found
        split at rest
        · next targetNode isHead =>
            have isSet := mem_biterate.mp (List.mem_of_head? isHead)
            have isNode := forwardIrq_isNode rest
            exact .inr ⟨targetNode, irq, rest, .inr (getSpiTargets_targetBit isTargets isSet isNode)⟩
        · exact .inl (ends_pure.mp rest).symm

end Inject

/-! ## The end of an interrupt -/

section Maintenance
variable {gic final : GIC numNodes C} {callbacks : GICCallbacks ε C} {node index irq : Nat}

/-- `ack` fails only for a cpu there is none of. -/
theorem ack_ends {dist after : Distributor numNodes}
    (run : Ends (Distributor.ack irq node) dist after) :
    after = dist ∨ Distributor.ack irq node dist = .ok () after := by
  rcases run with ⟨_, run⟩ | ⟨error, failed⟩
  · exact .inr run
  unfold Distributor.ack at failed
  split at failed
  · exact .inl (fail_eq_err.mp failed).2.symm
  · next isNode =>
      have isNode : node < numNodes := Nat.lt_of_not_ge isNode
      rcases bind_eq_err.mp failed with failed | ⟨_, _, _, failed⟩
      · split at failed
        · next isSgi =>
            refine absurd failed ?_
            unfold Distributor.clearSgiPending
            have isFirst : 0 < numNodes := Nat.zero_lt_of_lt isNode
            have notPast : irq ≤ 16 := Nat.le_of_lt isSgi
            rw [if_neg (Nat.not_le.mpr isFirst), if_neg (Nat.not_le.mpr isNode),
              if_neg (Nat.not_lt.mpr notPast)]
            exact (Distributor.updateSgiPending_infallible.bind fun _ => .ite (.orPanic _) (.pure _)) _ _ _
        · exact absurd failed (Distributor.Family.updateBit_ne_err isNode)
      · exact absurd failed (Distributor.Family.updateBit_ne_err isNode)

/-- The slot is emptied and the interrupt acknowledged; then the first in the queue gets the slot. -/
theorem handleMaintenance_ends (run : Ends (handleMaintenance callbacks node index) gic final) :
    ∃ (irq : Irq) (cleared acked : GIC numNodes C), gic.slot node index = some irq ∧
      (cleared.dist = gic.dist ∧ cleared.overflow = gic.overflow ∧
        ∀ otherNode otherIndex, cleared.slot otherNode otherIndex =
          if otherNode = node ∧ otherIndex = index then none else gic.slot otherNode otherIndex) ∧
      (acked.slot = cleared.slot ∧ acked.overflow = cleared.overflow ∧
        (acked.dist = cleared.dist ∨ Distributor.ack irq node cleared.dist = .ok () acked.dist)) ∧
      (final.dist = acked.dist ∧ final.slot = acked.slot ∧ final.overflow = acked.overflow ∨
        ∃ popped : GIC numNodes C, popped.dist = acked.dist ∧ popped.slot = acked.slot ∧
          (∀ other, popped.overflow other =
            if other = node then (acked.overflow other).tail else acked.overflow other) ∧
          match (acked.overflow node).head? with
          | some next => Ends (injectIrq callbacks node node index next) popped final
          | none => final = popped) := by
  obtain ⟨found, _, loaded, rest⟩ := (Infallible.reads _).ends_bind run
  obtain ⟨isFound, rfl⟩ := reads_eq_ok.mp loaded
  obtain ⟨irq, _, isIrq, rest⟩ := (Infallible.unwrap _).ends_bind rest
  obtain ⟨rfl, rfl⟩ := unwrap_eq_ok.mp isIrq
  have setMirror_infallible : Infallible (setMirror node index none : Exec (Failure ε) (GIC numNodes C) _) :=
    (Infallible.assert _).bind fun _ => updateLr_infallible
  obtain ⟨_, cleared, isCleared, rest⟩ := setMirror_infallible.ends_bind rest
  obtain ⟨sameDist, sameOverflow, slots⟩ := setMirror_eq_ok isCleared
  have isSlot : gic.slot node index = some irq := by
    simp [slot, isFound]
  have emptied := And.intro sameDist (And.intro sameOverflow slots)
  rcases ends_bind.mp rest with ⟨error, failed⟩ | ⟨_, _, acked, rest⟩
  · obtain ⟨dist, ends, rfl⟩ := onDist_ends.mp (.inr ⟨error, failed⟩)
    exact ⟨irq, cleared, { cleared with dist }, isSlot, emptied, ⟨rfl, rfl, ack_ends ends⟩,
      .inl ⟨rfl, rfl, rfl⟩⟩
  obtain ⟨dist, isAcked, rfl⟩ := onDist_eq_ok.mp acked
  refine ⟨irq, cleared, { cleared with dist }, isSlot, emptied, ⟨rfl, rfl, .inr isAcked⟩, ?_⟩
  rcases ends_bind.mp rest with ⟨error, failed⟩ | ⟨_, called, returned, rest⟩
  · exact .inl (onCallbacks_ends (.inr ⟨error, failed⟩))
  obtain ⟨calledDist, calledSlot, calledOverflow⟩ := onCallbacks_ends (.inl ⟨_, returned⟩)
  have popOverflow_infallible : Infallible (popOverflow node : Exec (Failure ε) (GIC numNodes C) _) :=
    (Infallible.reads _).bind fun _ => updateLr_infallible.bind fun _ => .pure _
  obtain ⟨next, popped, isPopped, rest⟩ := popOverflow_infallible.ends_bind rest
  obtain ⟨isNext, poppedDist, poppedSlot, queues⟩ := popOverflow_eq_ok isPopped
  refine .inr ⟨popped, poppedDist.trans calledDist, poppedSlot.trans calledSlot, fun other => ?_, ?_⟩
  · rw [queues, calledOverflow]
  · rw [← calledOverflow, ← isNext]
    cases next with
    | some next => exact rest
    | none => exact (ends_pure.mp rest).symm

/-- A call that returns goes through all of it. -/
theorem handleMaintenance_eq_ok (run : handleMaintenance callbacks node index gic = .ok () final) :
    ∃ (irq : Irq) (popped : GIC numNodes C), gic.slot node index = some irq ∧
      Distributor.ack irq node gic.dist = .ok () popped.dist ∧
      (∀ otherNode otherIndex, popped.slot otherNode otherIndex =
        if otherNode = node ∧ otherIndex = index then none else gic.slot otherNode otherIndex) ∧
      (∀ other, popped.overflow other =
        if other = node then (gic.overflow other).tail else gic.overflow other) ∧
      match (gic.overflow node).head? with
      | some next => injectIrq callbacks node node index next popped = .ok () final
      | none => final = popped := by
  simp only [handleMaintenance, bind_eq_ok, reads_eq_ok, unwrap_eq_ok, onDist_eq_ok] at run
  obtain ⟨found, _, ⟨isFound, rfl⟩, irq, _, ⟨rfl, rfl⟩, ⟨⟩, cleared, isCleared, ⟨⟩, _,
    ⟨dist, acked, rfl⟩, ⟨⟩, called, returned, next, popped, isPopped, rest⟩ := run
  obtain ⟨sameDist, sameOverflow, slots⟩ := setMirror_eq_ok isCleared
  obtain ⟨calledDist, calledSlot, calledOverflow⟩ := onCallbacks_ends (.inl ⟨_, returned⟩)
  obtain ⟨isNext, poppedDist, poppedSlot, queues⟩ := popOverflow_eq_ok isPopped
  have overflowed : called.overflow = gic.overflow := calledOverflow.trans sameOverflow
  refine ⟨irq, popped, by simp [slot, isFound], ?_, fun otherNode otherIndex => ?_,
    fun other => ?_, ?_⟩
  · rw [poppedDist, calledDist, ← sameDist]
    exact acked
  · rw [poppedSlot, calledSlot]
    exact slots otherNode otherIndex
  · rw [queues, overflowed]
  · rw [← overflowed, ← isNext]
    cases next with
    | some next => exact rest
    | none => exact (pure_eq_ok.mp rest).2.symm

end Maintenance

/-! ## Writes -/

section Write
variable {callbacks : GICCallbacks ε C} {callingNode offset : Nat} {data : FaultData}

theorem handleWrite_eq : (handleWrite callbacks callingNode offset data :
    Exec (Failure ε) (GIC numNodes C) Unit) = (do
      let action ← onDist (Distributor.handleWrite offset callingNode data)
      forEach action.toAck (ackIrq callbacks callingNode)
      forEach action.toInject fun pair => forwardIrq callbacks callingNode pair.2 pair.1) := by
  unfold handleWrite
  congr 1
  funext action
  cases action with
  | noAction => rfl
  | injectAndAckIrqs toInject toAck => rfl

/-- Acknowledging leaves the slots and the queues as they are. -/
theorem ackIrq_ends {gic final : GIC numNodes C} {pair : Irq × Cpu}
    (run : Ends (ackIrq callbacks callingNode pair) gic final) :
    final.slot = gic.slot ∧ final.overflow = gic.overflow ∧
      (final.dist = gic.dist ∨ Distributor.ack pair.1 pair.2 gic.dist = .ok () final.dist) := by
  rcases ends_bind.mp run with ⟨error, failed⟩ | ⟨_, _, acked, rest⟩
  · obtain ⟨dist, ends, rfl⟩ := onDist_ends.mp (.inr ⟨error, failed⟩)
    exact ⟨rfl, rfl, ack_ends ends⟩
  · obtain ⟨dist, isAcked, rfl⟩ := onDist_eq_ok.mp acked
    split at rest
    · obtain ⟨sameDist, sameSlot, sameOverflow⟩ := onCallbacks_ends rest
      exact ⟨sameSlot, sameOverflow, .inr (by rw [sameDist]; exact isAcked)⟩
    · obtain rfl := ends_pure.mp rest
      exact ⟨rfl, rfl, .inr isAcked⟩

/-- What acknowledging and forwarding preserve, and what does not depend on the registers, a write
preserves. -/
theorem handleWrite_preserves {gic final : GIC numNodes C} (invariant : GIC numNodes C → Prop)
    (acks : ∀ pair before after, invariant before →
      Ends (ackIrq callbacks callingNode pair) before after → invariant after)
    (forwards : ∀ irq node before after, invariant before →
      Ends (forwardIrq callbacks callingNode node irq) before after → invariant after)
    (written : ∀ dist, invariant { gic with dist })
    (run : Ends (handleWrite callbacks callingNode offset data) gic final) : invariant final := by
  rw [handleWrite_eq] at run
  rcases ends_bind.mp run with ⟨error, failed⟩ | ⟨action, _, wrote, rest⟩
  · obtain ⟨_, dist, _, rfl⟩ := onDist_eq_err failed
    exact written dist
  obtain ⟨dist, _, rfl⟩ := onDist_eq_ok.mp wrote
  have acked : ∀ state, Ends (forEach action.toAck (ackIrq callbacks callingNode)) _ state →
      invariant state :=
    fun _ => ends_forEach invariant (fun pair _ => acks pair) (written dist)
  rcases ends_bind.mp rest with failed | ⟨_, state, isAcked, rest⟩
  · exact acked final (.inr failed)
  · exact ends_forEach invariant (fun pair _ => forwards pair.1 pair.2)
      (acked state (.inl ⟨_, isAcked⟩)) rest

end Write

/-! ## Callbacks that do nothing -/

section Silent

def silent : GICCallbacks Unit Unit where
  ack _ _ := pure ()
  vcpuInjectIrq _ _ _ _ _ := pure ()

/-- The state after a call that returns. -/
def next (gic : GIC numNodes Unit) (call : Call) : GIC numNodes Unit :=
  match handle silent call gic with
  | .ok _ after => after
  | _ => gic

def after (numNodes : Nat) (calls : List Call) : GIC numNodes Unit :=
  calls.foldl next (new numNodes ())

theorem handle_next {gic : GIC numNodes Unit} {call : Call}
    (returns : (handle silent call gic).isOk = true) :
    handle silent call gic = .ok () (gic.next call) := by
  obtain ⟨_, state, run⟩ := Outcome.isOk_iff.mp returns
  simp [next, run]

theorem after_concat {calls : List Call} {call : Call} :
    after numNodes (calls ++ [call]) = (after numNodes calls).next call := by
  simp [after]

theorem forEach_after {calls : List Call}
    (returns : (forEach calls (handle silent) (new numNodes ())).isOk = true) :
    forEach calls (handle silent) (new numNodes ()) = .ok () (after numNodes calls) := by
  unfold after
  generalize new numNodes () = gic at returns ⊢
  induction calls generalizing gic with
  | nil => rfl
  | cons call rest ih =>
      obtain ⟨_, final, run⟩ := Outcome.isOk_iff.mp returns
      obtain ⟨_, middle, first, run⟩ := bind_eq_ok.mp run
      have isNext : gic.next call = middle := by
        simp [next, first]
      rw [List.foldl_cons, isNext, ← ih middle (Outcome.isOk_iff.mpr ⟨_, final, run⟩)]
      exact (bind_eq_ok.mpr ⟨_, middle, first, run⟩).trans run.symm

end Silent

end IceCap.Gic.GIC
