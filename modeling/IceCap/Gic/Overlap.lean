import IceCap.Gic.Plain
import IceCap.Gic.Sgi

/-!
# What one write both injects and acknowledges

After a write that enables or routes interrupts, one sweep finds what is to be
injected and another what is to be acknowledged.  An SPI can be in both: the
first sweep stops at a node that it can be injected into, the second one at a
node where it cannot.
-/

set_option autoImplicit false

namespace IceCap.Gic.Distributor

open IceCap.Library

variable {numNodes : Nat}

/-- No SPI is both to be injected and to be acknowledged, and none twice. -/
structure Apart (action : WriteAction) : Prop where
  apart : ∀ irq : Nat, 32 ≤ irq → irq ∈ action.toInject.map Prod.fst →
    irq ∉ action.toAck.map Prod.fst
  injectOnce : ∀ irq : Nat, 32 ≤ irq → (action.toInject.map Prod.fst).count irq ≤ 1
  ackOnce : ∀ irq : Nat, 32 ≤ irq → (action.toAck.map Prod.fst).count irq ≤ 1

/-- An SPI that waits for delivery, with some of the nodes as its targets and others not. -/
def TornBy (numNodes : Nat) (isOn enabled pending active : Bool) (targets : Nat → Bool) : Prop :=
  isOn = true ∧ enabled = true ∧ pending = true ∧ active = false ∧
    (∃ cpu < numNodes, targets cpu = true) ∧ ∃ cpu < numNodes, targets cpu = false

def Torn (dist : Distributor numNodes) (irq : Nat) : Prop :=
  TornBy numNodes dist.isGicEnabled (enables.bit dist irq 0) (pendings.bit dist irq 0)
    (actives.bit dist irq 0) (dist.targetBit irq)

/-! ## One sweep -/

section Sweeps
variable {test : Irq → Cpu → Option Bool} {irq : Nat} {pairs : List (Irq × Cpu)} {irqs : List Irq}

theorem sweepNodes_once {nodes : List Cpu} (isShared : 32 ≤ irq)
    (found : sweepNodes test irq nodes = some pairs) : pairs.length ≤ 1 := by
  induction nodes generalizing pairs with
  | nil =>
      obtain rfl := Option.some.inj found
      exact Nat.zero_le 1
  | cons node rest ih =>
      simp only [sweepNodes, Option.bind_eq_some_iff] at found
      obtain ⟨bit, _, found⟩ := found
      cases bit with
      | false => exact ih found
      | true =>
          rw [if_pos rfl, if_pos isShared] at found
          obtain rfl := Option.some.inj found
          exact Nat.le_refl 1

theorem sweepIrqs_once (isShared : 32 ≤ irq) (distinct : irqs.Nodup)
    (found : sweepIrqs numNodes test irqs = some pairs) :
    (pairs.map Prod.fst).count irq ≤ 1 := by
  induction irqs generalizing pairs with
  | nil =>
      obtain rfl := Option.some.inj found
      exact Nat.zero_le 1
  | cons first rest ih =>
      simp only [sweepIrqs, Option.bind_eq_some_iff, Option.map_eq_some_iff] at found
      obtain ⟨here, isHere, more, isMore, rfl⟩ := found
      obtain ⟨notLater, distinct⟩ := List.nodup_cons.mp distinct
      rw [List.map_append, List.count_append]
      by_cases same : irq = first
      · subst same
        have noMore : (more.map Prod.fst).count irq = 0 := by
          apply List.count_eq_zero_of_not_mem
          intro member
          obtain ⟨pair, isPair, rfl⟩ := List.mem_map.mp member
          exact notLater (sweepIrqs_sound isMore pair isPair).1
        have atMost := List.count_le_length (a := irq) (l := here.map Prod.fst)
        rw [List.length_map] at atMost
        have isOne := sweepNodes_once isShared isHere
        omega
      · have notHere : (here.map Prod.fst).count irq = 0 := by
          apply List.count_eq_zero_of_not_mem
          intro member
          obtain ⟨pair, isPair, rfl⟩ := List.mem_map.mp member
          exact same (sweepNodes_sound isHere pair isPair).1
        have once := ih distinct isMore
        omega

/-- A sweep finds an interrupt if it passes the test for some node. -/
theorem mem_sweepIrqs (found : sweepIrqs numNodes test irqs = some pairs) :
    irq ∈ pairs.map Prod.fst ↔ irq ∈ irqs ∧ ∃ node < numNodes, test irq node = some true := by
  constructor
  · intro member
    obtain ⟨pair, isPair, rfl⟩ := List.mem_map.mp member
    obtain ⟨isIrq, isNode, passes⟩ := sweepIrqs_sound found pair isPair
    exact ⟨isIrq, pair.2, isNode, passes⟩
  · rintro ⟨isIrq, node, isNode, passes⟩
    obtain ⟨cpu, member, _⟩ := sweepIrqs_complete found isIrq isNode passes
    exact List.mem_map.mpr ⟨(irq, cpu), member, rfl⟩

end Sweeps

/-! ## Both sweeps -/

section Both
variable {before after dist : Distributor numNodes} {baseIrq numIrqs : Nat} {action : WriteAction}

theorem sweepInject_once (swept : sweepIrqsToInject baseIrq numIrqs dist = some action.toInject) :
    ∀ irq : Nat, 32 ≤ irq → (action.toInject.map Prod.fst).count irq ≤ 1 :=
  fun _ isShared => sweepIrqs_once isShared (List.nodup_range' 1) swept

/-- Without acknowledgements, the lists are apart. -/
theorem apart_of_inject (once : ∀ irq : Nat, 32 ≤ irq → (action.toInject.map Prod.fst).count irq ≤ 1)
    (noAck : action.toAck = []) : Apart action := by
  refine ⟨fun irq _ _ => ?_, once, fun irq _ => ?_⟩ <;> simp [noAck]

theorem apart_noAction : Apart .noAction :=
  apart_of_inject (fun _ _ => Nat.zero_le 1) rfl

/-- A shared interrupt goes by its targets alone. -/
theorem deliverable_shared {irq cpu : Nat} (isShared : 32 ≤ irq) (isNode : cpu < numNodes) :
    dist.deliverable irq cpu = (dist.isGicEnabled && (enables.bit dist irq 0 &&
      (dist.targetBit irq cpu && (pendings.bit dist irq 0 && !actives.bit dist irq 0)))) := by
  have isFirst : 0 < numNodes := by omega
  have sees : Family.Sees (irq / 32) 0 cpu := fun isBanked => by omega
  unfold deliverable
  rw [Family.bit_sees sees isFirst isNode, Family.bit_sees sees isFirst isNode,
    Family.bit_sees sees isFirst isNode]

/-- Past the last interrupt nothing is injected. -/
theorem shouldInject_range {irq cpu : Nat} (isIrq : irq < 1024) (isNode : cpu < numNodes)
    (passes : dist.shouldInject irq cpu = some true) : irq < 1020 := by
  by_contra past
  rw [shouldInject_past_end (by omega) isIrq isNode] at passes
  split at passes <;> simp at passes

theorem torn_iff {irq : Nat} (isShared : 32 ≤ irq) (isIrq : irq < 1020) : dist.Torn irq ↔
    (∃ cpu < numNodes, dist.shouldInject irq cpu = some true) ∧
      ∃ cpu < numNodes, dist.shouldAck irq cpu = some true := by
  simp only [shouldInject_eq_some isIrq, shouldAck_eq_some isIrq, Option.some_inj]
  constructor
  · rintro ⟨isOn, enabled, isPending, notActive, ⟨cpu, isNode, isTarget⟩, other, isOther, notTarget⟩
    refine ⟨⟨cpu, isNode, ?_⟩, other, isOther, ?_⟩
    · rw [deliverable_shared isShared isNode]
      simp [isOn, enabled, isPending, notActive, isTarget]
    · have sees : Family.Sees (irq / 32) 0 other := fun isBanked => by omega
      rw [deliverable_shared isShared isOther, Family.bit_sees sees (by omega) isOther]
      simp [enabled, notTarget]
  · rintro ⟨⟨cpu, isNode, injects⟩, other, isOther, acks⟩
    rw [deliverable_shared isShared isNode] at injects
    rw [deliverable_shared isShared isOther] at acks
    simp only [Bool.and_eq_true, Bool.not_eq_true', Bool.not_and] at injects acks
    obtain ⟨isOn, enabled, isTarget, isPending, notActive⟩ := injects
    refine ⟨isOn, enabled, isPending, notActive, ⟨cpu, isNode, isTarget⟩, other, isOther, ?_⟩
    simpa [isOn, enabled, isPending, notActive] using acks.2

theorem apart_sweepBoth_iff (inRange : baseIrq + numIrqs ≤ 1024)
    (run : sweepBoth baseIrq numIrqs before = .ok action after) :
    Apart action ↔ ¬ ∃ irq : Nat, 32 ≤ irq ∧ irq < 1020 ∧ baseIrq ≤ irq ∧ irq < baseIrq + numIrqs ∧
      before.Torn irq := by
  obtain ⟨rfl, isInject, isAck⟩ := sweepBoth_eq_ok run
  constructor
  · rintro lists ⟨irq, isShared, isIrq, low, high, torn⟩
    obtain ⟨injects, acks⟩ := (torn_iff isShared isIrq).mp torn
    have isSwept := List.mem_range'_1.mpr ⟨low, high⟩
    exact lists.apart irq isShared ((mem_sweepIrqs isInject).mpr ⟨isSwept, injects⟩)
      ((mem_sweepIrqs isAck).mpr ⟨isSwept, acks⟩)
  · intro noneTorn
    refine ⟨fun irq isShared injected acked => ?_, sweepInject_once isInject, fun irq isShared => ?_⟩
    · obtain ⟨isSwept, cpu, isNode, injects⟩ := (mem_sweepIrqs isInject).mp injected
      obtain ⟨_, acks⟩ := (mem_sweepIrqs isAck).mp acked
      obtain ⟨low, high⟩ := List.mem_range'_1.mp isSwept
      have isIrq : irq < 1020 := shouldInject_range (by omega) isNode injects
      exact noneTorn ⟨irq, isShared, isIrq, low, high,
        (torn_iff isShared isIrq).mpr ⟨⟨cpu, isNode, injects⟩, acks⟩⟩
    · exact sweepIrqs_once isShared (List.nodup_range' 1) isAck

end Both

/-! ## Register by register -/

def targetsOf (dist : Distributor numNodes) (regNum : Nat) : Register32 :=
  (dist.content (.targets (regNum - 8))).getD 0

/-- The writes after which a swept SPI is torn, and those that send an SPI as if it were an SGI. -/
def Tears (nodeIndex : Nat) (val : Register32) (dist : Distributor numNodes) : DistRegWord → Prop
  | .ctlr => val = 1 ∧ dist.control = 0 ∧ ∃ irq : Nat, 32 ≤ irq ∧ irq < 1020 ∧
      TornBy numNodes true (enables.bit dist irq 0) (pendings.bit dist irq 0)
        (actives.bit dist irq 0) (dist.targetBit irq)
  | .isenabler regNum => val ≠ 0 ∧ ∃ irq : Nat, 32 ≤ irq ∧ irq < 1020 ∧ irq / 32 = regNum ∧
      TornBy numNodes dist.isGicEnabled (val.getLsbD (irq % 32) || enables.bit dist irq 0)
        (pendings.bit dist irq 0) (actives.bit dist irq 0) (dist.targetBit irq)
  | .itargetsr regNum => clearBits val (dist.targetsOf regNum) ≠ 0 ∧
      ∃ irq : Nat, irq / 4 = regNum ∧
        TornBy numNodes dist.isGicEnabled (enables.bit dist irq 0) (pendings.bit dist irq 0)
          (actives.bit dist irq 0) fun cpu => val.getLsbD (8 * (irq % 4) + cpu)
  | .sgir => 32 ≤ namedIrq val ∧ dist.isGicEnabled = true ∧
      enables.bit dist (namedIrq val) 0 = true ∧ actives.bit dist (namedIrq val) 0 = false ∧
      ∃ cpu ∈ selected numNodes nodeIndex val, ∃ other ∈ selected numNodes nodeIndex val,
        cpu ≠ other ∧ dist.targetBit (namedIrq val) cpu = true ∧
          dist.targetBit (namedIrq val) other = true
  | _ => False

section Registers
variable {before after : Distributor numNodes} {nodeIndex regNum : Nat} {val : Register32}
  {action : WriteAction} {reg : DistRegWord}

theorem writeCtlr_apart_iff (run : writeCtlr val before = .ok action after) :
    Apart action ↔ ¬ Tears nodeIndex val before .ctlr := by
  unfold writeCtlr at run
  split at run
  · next isOne =>
      obtain ⟨_, _, ⟨rfl, rfl⟩, run⟩ := Exec.bind_eq_ok.mp run
      obtain ⟨_, middle, modified, run⟩ := Exec.bind_eq_ok.mp run
      have isMiddle := Exec.modify_eq_ok.mp modified
      split at run
      · next wasOff =>
          have isOn : middle.isGicEnabled = true := by
            rw [isGicEnabled, ← isMiddle, wasOff, isOne]
            rfl
          have torn : ∀ irq : Nat, middle.Torn irq ↔ TornBy numNodes true (enables.bit before irq 0)
              (pendings.bit before irq 0) (actives.bit before irq 0) (before.targetBit irq) := by
            intro irq
            rw [Torn, isOn, ← isMiddle]
            rfl
          rw [apart_sweepBoth_iff (by decide) run]
          simp only [Tears, isOne, wasOff, true_and, torn]
          refine not_congr (exists_congr fun irq => and_congr_right fun _ =>
            and_congr_right fun isIrq => ?_)
          constructor
          · rintro ⟨_, _, torn⟩
            exact torn
          · intro torn
            exact ⟨Nat.zero_le irq, by omega, torn⟩
      · next wasOn =>
          obtain ⟨rfl, rfl⟩ := Exec.pure_eq_ok.mp run
          exact iff_of_true apart_noAction fun tears => wasOn tears.2.1
  · next notOne =>
      refine iff_of_true ?_ fun tears => notOne tears.1
      split at run
      · simp only [Exec.bind_eq_ok, Exec.pure_eq_ok] at run
        obtain ⟨_, _, _, rfl, _⟩ := run
        exact apart_noAction
      · simp at run

theorem writeIsenabler_apart_iff (isNode : nodeIndex < numNodes)
    (run : writeIsenabler regNum nodeIndex val before = .ok action after) :
    Apart action ↔ ¬ Tears nodeIndex val before (.isenabler regNum) := by
  have isFirst : 0 < numNodes := Nat.lt_of_le_of_lt (Nat.zero_le nodeIndex) isNode
  unfold writeIsenabler at run
  split at run
  · next isZero =>
      obtain ⟨rfl, rfl⟩ := Exec.pure_eq_ok.mp run
      exact iff_of_true apart_noAction fun tears => tears.1 isZero
  · next nonzero =>
      obtain ⟨_, middle, updated, run⟩ := Exec.bind_eq_ok.mp run
      obtain ⟨isReg, _, _⟩ := Family.update_words updated
      have enabled : ∀ irq : Nat, 32 ≤ irq → irq / 32 = regNum → enables.bit middle irq 0 =
          (val.getLsbD (irq % 32) || enables.bit before irq 0) := by
        intro irq isShared sameReg
        rw [update_sets updated isFirst]
        have sees : Family.Sees regNum nodeIndex 0 := fun isBanked => by omega
        by_cases isNamed : val.getLsbD (irq % 32) = true
        · rw [if_pos ⟨sameReg, sees, isNamed⟩, isNamed, Bool.true_or]
        · rw [if_neg fun named => isNamed named.2.2, Bool.eq_false_iff.mpr isNamed, Bool.false_or]
      have sameRest : ∀ irq : Nat, middle.isGicEnabled = before.isGicEnabled ∧
          pendings.bit middle irq 0 = pendings.bit before irq 0 ∧
          actives.bit middle irq 0 = actives.bit before irq 0 ∧
          middle.targetBit irq = before.targetBit irq := by
        obtain ⟨_, _, ⟨_, _, rfl⟩, _⟩ := Family.update_eq_ok updated
        exact fun irq => ⟨rfl, rfl, rfl, rfl⟩
      rw [apart_sweepBoth_iff (by omega) run]
      simp only [Tears, ne_eq, nonzero, not_false_eq_true, true_and]
      refine not_congr (exists_congr fun irq => and_congr_right fun isShared =>
        and_congr_right fun _ => ?_)
      rw [← and_assoc]
      have inRange : (regNum * 32 ≤ irq ∧ irq < regNum * 32 + 32) ↔ irq / 32 = regNum := by omega
      rw [inRange]
      refine and_congr_right fun sameReg => ?_
      obtain ⟨sameControl, samePending, sameActive, sameTarget⟩ := sameRest irq
      rw [Torn, enabled irq isShared sameReg, sameControl, samePending, sameActive, sameTarget]

theorem writeItargetsr_apart_iff (nodeIndex : Nat) (atMost : numNodes ≤ 8)
    (run : writeItargetsr regNum (fun _ => val) val before = .ok action after) :
    Apart action ↔ ¬ Tears nodeIndex val before (.itargetsr regNum) := by
  unfold writeItargetsr at run
  split at run
  · simp at run
  next isShared =>
    simp only [Exec.bind_eq_ok, Exec.reads_eq_ok, Exec.modify_eq_ok] at run
    obtain ⟨prev, _, ⟨isPrev, rfl⟩, _, middle, isMiddle, run⟩ := run
    have inBounds : regNum - 8 < 247 := (Vector.getElem?_eq_some_iff.mp isPrev).1
    have samePrev : before.targetsOf regNum = prev := by
      simp only [targetsOf, content, isPrev, Option.getD_some]
    simp only [Tears, samePrev]
    split at run
    · next noNew =>
        obtain ⟨rfl, rfl⟩ := Exec.pure_eq_ok.mp run
        exact iff_of_true apart_noAction fun tears => tears.1 noNew
    · next isNew =>
        have stored : middle.content (.targets (regNum - 8)) = some val := by
          subst isMiddle
          exact Vector.getElem?_setIfInBounds_self_of_lt inBounds
        have targets : ∀ irq cpu : Nat, irq / 4 = regNum → cpu < numNodes →
            middle.targetBit irq cpu = val.getLsbD (8 * (irq % 4) + cpu) := by
          intro irq cpu sameReg isCpu
          rw [← sameReg] at stored
          exact targetBit_eq (by omega) atMost isCpu stored
        rw [apart_sweepBoth_iff (by omega) run]
        simp only [ne_eq, isNew, not_false_eq_true, true_and]
        have torn : ∀ irq : Nat, irq / 4 = regNum → (middle.Torn irq ↔
            TornBy numNodes before.isGicEnabled (enables.bit before irq 0)
              (pendings.bit before irq 0) (actives.bit before irq 0)
              fun cpu => val.getLsbD (8 * (irq % 4) + cpu)) := by
          intro irq sameReg
          have sameTargets : ∀ bit, (∃ cpu < numNodes, middle.targetBit irq cpu = bit) ↔
              ∃ cpu < numNodes, val.getLsbD (8 * (irq % 4) + cpu) = bit := by
            intro bit
            refine exists_congr fun cpu => and_congr_right fun isCpu => ?_
            rw [targets irq cpu sameReg isCpu]
          subst isMiddle
          unfold Torn TornBy
          rw [sameTargets, sameTargets]
          rfl
        refine not_congr (exists_congr fun irq => ?_)
        constructor
        · rintro ⟨_, _, low, high, isTorn⟩
          have sameReg : irq / 4 = regNum := by omega
          exact ⟨sameReg, (torn irq sameReg).mp isTorn⟩
        · rintro ⟨sameReg, isTorn⟩
          exact ⟨by omega, by omega, by omega, by omega, (torn irq sameReg).mpr isTorn⟩

/-- Two different items make a list without duplicates longer than one. -/
theorem one_lt_length_iff {cpus : List Nat} (distinct : cpus.Nodup) :
    1 < cpus.length ↔ ∃ cpu ∈ cpus, ∃ other ∈ cpus, cpu ≠ other := by
  constructor
  · intro long
    cases cpus with
    | nil => simp at long
    | cons cpu rest =>
        cases rest with
        | nil => simp at long
        | cons other rest =>
            refine ⟨cpu, List.mem_cons_self, other, List.mem_cons_of_mem _ List.mem_cons_self, ?_⟩
            rintro rfl
            exact (List.nodup_cons.mp distinct).1 List.mem_cons_self
  · rintro ⟨cpu, isCpu, other, isOther, differ⟩
    by_contra short
    have atMost : cpus.length ≤ 1 := Nat.le_of_not_lt short
    cases cpus with
    | nil => simp at isCpu
    | cons first rest =>
        obtain rfl : rest = [] := List.eq_nil_of_length_eq_zero (by simpa using atMost)
        exact differ ((List.mem_singleton.mp isCpu).trans (List.mem_singleton.mp isOther).symm)

theorem apart_injectOnly_iff {irq : Nat} {cpus : List Nat} :
    Apart (injectOnly (cpus.map fun cpu => (irq, cpu))) ↔ ¬ (32 ≤ irq ∧ 1 < cpus.length) := by
  have counted : ∀ other : Nat, ((injectOnly (cpus.map fun cpu => (irq, cpu))).toInject.map
      Prod.fst).count other = if irq = other then cpus.length else 0 := by
    intro other
    have allSame : (cpus.map fun cpu => (irq, cpu)).map Prod.fst = List.replicate cpus.length irq := by
      rw [List.map_map]
      exact List.map_const
    rw [injectOnly_toInject, allSame, List.count_replicate]
    simp
  constructor
  · rintro lists ⟨isShared, long⟩
    have once := lists.injectOnce irq isShared
    rw [counted, if_pos rfl] at once
    omega
  · intro short
    refine apart_of_inject (fun other isShared => ?_) injectOnly_toAck
    rw [counted]
    split
    · next same =>
        by_contra long
        exact short ⟨by omega, Nat.lt_of_not_le long⟩
    · exact Nat.zero_le 1

theorem writeSgir_apart_iff (atMost : numNodes ≤ 8) (isNode : nodeIndex < numNodes)
    (run : writeSgir nodeIndex val before = .ok action after) :
    Apart action ↔ ¬ Tears nodeIndex val before .sgir := by
  have returns : ¬ before.WritePanics val .sgir := by
    rw [← writeSgir_eq_panic isNode atMost, run]
    simp
  have isNamed : namedIrq val < 1020 := Nat.lt_trans namedIrq_lt (by decide)
  obtain ⟨final, forwarded, pended⟩ :=
    @forwardSgi_returns _ before (namedIrq val) (selected numNodes nodeIndex val) isNamed
      fun cpu isSelected => (mem_selected.mp isSelected).1
  rw [writeSgir_eq atMost isNode returns forwarded] at run
  obtain ⟨rfl, rfl⟩ := run
  have distinct : ((selected numNodes nodeIndex val).filter
      (after.deliverable (namedIrq val))).Nodup := (List.nodup_range.filter _).filter _
  rw [apart_injectOnly_iff, one_lt_length_iff distinct]
  refine not_congr (and_congr_right fun isShared => ?_)
  have delivered : ∀ cpu ∈ selected numNodes nodeIndex val,
      (after.deliverable (namedIrq val) cpu = true ↔ before.isGicEnabled = true ∧
        enables.bit before (namedIrq val) 0 = true ∧ actives.bit before (namedIrq val) 0 = false ∧
        before.targetBit (namedIrq val) cpu = true) := by
    intro cpu isSelected
    have isCpu : cpu < numNodes := (mem_selected.mp isSelected).1
    have sees : Family.Sees (namedIrq val / 32) cpu 0 := fun isBanked => by omega
    have isPending : pendings.bit after (namedIrq val) 0 = true :=
      (pended.bits _ 0).mpr (.inr ⟨by omega, cpu, isSelected, rfl, sees⟩)
    obtain ⟨_, _, rfl⟩ := pended.isPut
    rw [deliverable_shared isShared isCpu, isPending]
    simp only [Bool.true_and, Bool.and_eq_true, Bool.not_eq_true']
    constructor
    · rintro ⟨isOn, enabled, isTarget, notActive⟩
      exact ⟨isOn, enabled, notActive, isTarget⟩
    · rintro ⟨isOn, enabled, notActive, isTarget⟩
      exact ⟨isOn, enabled, isTarget, notActive⟩
  simp only [List.mem_filter]
  constructor
  · rintro ⟨cpu, ⟨isSelected, delivers⟩, other, ⟨isOther, deliversOther⟩, differ⟩
    obtain ⟨isOn, enabled, notActive, isTarget⟩ := (delivered cpu isSelected).mp delivers
    exact ⟨isOn, enabled, notActive, cpu, isSelected, other, isOther, differ, isTarget,
      ((delivered other isOther).mp deliversOther).2.2.2⟩
  · rintro ⟨isOn, enabled, notActive, cpu, isSelected, other, isOther, differ, isTarget, alsoTarget⟩
    exact ⟨cpu, ⟨isSelected, (delivered cpu isSelected).mpr ⟨isOn, enabled, notActive, isTarget⟩⟩,
      other, ⟨isOther, (delivered other isOther).mpr ⟨isOn, enabled, notActive, alsoTarget⟩⟩, differ⟩

/-- The registers whose writes only inject, after a sweep. -/
theorem apart_of_sweepInject {baseIrq numIrqs : Nat} {toInject : List (Irq × Cpu)}
    (swept : sweepIrqsToInject baseIrq numIrqs before = some toInject) :
    Apart (injectOnly toInject) := by
  have isSwept : sweepIrqsToInject baseIrq numIrqs before = some (injectOnly toInject).toInject := by
    rw [swept, injectOnly_toInject]
  exact apart_of_inject (sweepInject_once isSwept) injectOnly_toAck

theorem writeIspendr_apart (run : writeIspendr regNum nodeIndex val before = .ok action after) :
    Apart action := by
  unfold writeIspendr at run
  split at run
  · obtain ⟨rfl, rfl⟩ := Exec.pure_eq_ok.mp run
    exact apart_noAction
  split at run
  · obtain ⟨rfl, rfl⟩ := Exec.pure_eq_ok.mp run
    exact apart_noAction
  · simp only [Exec.bind_eq_ok, Exec.reads_eq_ok, Exec.pure_eq_ok] at run
    obtain ⟨_, _, _, _, _, ⟨swept, _⟩, rfl, _⟩ := run
    exact apart_of_sweepInject swept

theorem writeSpendsgir_apart (run : writeSpendsgir regNum nodeIndex val before = .ok action after) :
    Apart action := by
  unfold writeSpendsgir at run
  split at run
  · obtain ⟨rfl, rfl⟩ := Exec.pure_eq_ok.mp run
    exact apart_noAction
  · simp only [Exec.bind_eq_ok, Exec.reads_eq_ok, Exec.pure_eq_ok] at run
    obtain ⟨_, _, _, _, _, _, _, _, ⟨swept, _⟩, rfl, _⟩ := run
    exact apart_of_sweepInject swept

theorem writeWord_apart_iff (atMost : numNodes ≤ 8) (isNode : nodeIndex < numNodes)
    (run : writeWord nodeIndex val reg before = .ok action after) :
    Apart action ↔ ¬ Tears nodeIndex val before reg := by
  cases reg with
  | ctlr => exact writeCtlr_apart_iff run
  | isenabler => exact writeIsenabler_apart_iff isNode run
  | itargetsr => exact writeItargetsr_apart_iff nodeIndex atMost run
  | sgir => exact writeSgir_apart_iff atMost isNode run
  | ispendr => exact iff_of_true (writeIspendr_apart run) id
  | spendsgir => exact iff_of_true (writeSpendsgir_apart run) id
  | icenabler | icpendr | isactiver | icactiver | igroupr | ipriorityr | icfgr | cpendsgir | iidr
  | typer | nsacr | icpidr | iccidr =>
      have noAction := writeWord_noAction (by trivial) before action after run
      subst noAction
      exact iff_of_true apart_noAction id

/-- A byte write tears what the write of the whole word would. -/
def TearsAt (nodeIndex offset : Nat) (dist : Distributor numNodes) : FaultData → Prop
  | .word val => ∃ reg, DistRegWord.fromOffset offset = some reg ∧ Tears nodeIndex val dist reg
  | .byte val => ∃ regNum byteIndex,
      DistRegByte.fromOffset offset = some (.itargetsr regNum byteIndex) ∧
        Tears nodeIndex (setByte (dist.targetsOf regNum) byteIndex val) dist (.itargetsr regNum)
  | _ => False

/-- The lists are apart exactly if nothing is torn. -/
theorem handleWrite_apart_iff {offset : Nat} {data : FaultData} (atMost : numNodes ≤ 8)
    (isNode : nodeIndex < numNodes) (run : handleWrite offset nodeIndex data before = .ok action after) :
    Apart action ↔ ¬ TearsAt nodeIndex offset before data := by
  cases data with
  | word val =>
      obtain ⟨reg, _, decoded, run⟩ := Exec.bind_eq_ok.mp run
      obtain ⟨isReg, rfl⟩ := Exec.unwrap_eq_ok.mp decoded
      rw [writeWord_apart_iff atMost isNode run]
      simp [TearsAt, isReg]
  | byte val =>
      obtain ⟨reg, _, decoded, run⟩ := Exec.bind_eq_ok.mp run
      obtain ⟨isReg, rfl⟩ := Exec.unwrap_eq_ok.mp decoded
      cases reg with
      | itargetsr regNum byteIndex =>
          have low : 8 ≤ regNum := by
            by_contra isBanked
            simp [writeByte, writeItargetsr, Nat.lt_of_not_le isBanked] at run
          have high : regNum ≤ 254 := by
            by_contra outside
            have past : 247 ≤ regNum - 8 := by omega
            simp [writeByte, writeItargetsr, Nat.not_lt.mpr low, Vector.getElem?_eq_none past] at run
          have inBounds : regNum - 8 < 247 := by omega
          have isPrev : before.targetsOf regNum = before.targets[regNum - 8] := by
            simp [targetsOf, content, inBounds]
          rw [writeByte, writeItargetsr_byte low high] at run
          rw [writeItargetsr_apart_iff nodeIndex atMost run]
          simp [TearsAt, isReg, isPrev]
      | _ => simp [writeByte] at run
  | _ => simp [handleWrite] at run

theorem handleWrite_apart_iff_enabled :
    Apart (.injectAndAckIrqs (some []) (some [(32, 0)])) ↔ ¬ TearsAt 0 0x104 (new 1) (.word 1) :=
  handleWrite_apart_iff (by decide) (by decide) enable_first

/-- SPI 32 waits, and node 1 is its only target. -/
def waitingForOther : Distributor 2 :=
  { new 2 with
    control := 1
    pending := (new 2).pending.setIfInBounds 0 1
    targets := (new 2).targets.setIfInBounds 0 0x01010102 }

theorem handleWrite_on (wasOff : before.control = 0) :
    handleWrite 0x000 nodeIndex (.word 1) before = sweepBoth 0 1020 { before with control := 1 } := by
  have isCall : handleWrite 0x000 nodeIndex (.word 1) before = writeCtlr 1 before := rfl
  rw [isCall, writeCtlr, if_pos rfl]
  simp only [Bind.bind, Exec.get, Exec.modify, wasOff, if_true]
  rfl

theorem waitingForOther_reached : ∃ action,
    handleWrite 0x000 0 (.word 1) (new 2) = .ok action { new 2 with control := 1 } ∧
    handleWrite 0x204 0 (.word 1) { new 2 with control := 1 } = .ok .noAction
      { new 2 with control := 1, pending := (new 2).pending.setIfInBounds 0 1 } ∧
    handleWrite 0x820 0 (.word 0x01010102)
      { new 2 with control := 1, pending := (new 2).pending.setIfInBounds 0 1 } =
        .ok .noAction waitingForOther := by
  obtain ⟨action, swept⟩ :=
    @sweepBoth_returns _ { new 2 with control := 1 } 0 1020 (by decide) (by decide)
  refine ⟨action, (handleWrite_on rfl).trans swept, ?_, ?_⟩
  · rfl
  · rfl

theorem waitingForOther_enabled : handleWrite 0x104 0 (.word 1) waitingForOther =
    .ok (.injectAndAckIrqs (some [(32, 1)]) (some [(32, 0)]))
      { waitingForOther with enable := waitingForOther.enable.setIfInBounds 0 1 } := by
  rw [show 0x104 = (DistRegWord.isenabler 1).offset from rfl,
    handleWrite_word (fromOffset_enables (by decide)).1, writeWord, writeIsenabler,
    if_neg (by decide), Exec.bind_eq_ok]
  refine ⟨(), _, rfl, ?_⟩
  simp only [sweepBoth, Exec.bind_eq_ok, Exec.reads_eq_ok]
  exact ⟨[(32, 1)], _, ⟨by decide +kernel, rfl⟩, [(32, 0)], _, ⟨by decide +kernel, rfl⟩, rfl⟩

/-- When node 0 enables it, it is to be injected into node 1 and acknowledged on node 0. -/
theorem enabled_for_other : ∃ on action first second last after,
    handleWrite 0x000 0 (.word 1) (new 2) = .ok on first ∧
    handleWrite 0x204 0 (.word 1) first = .ok .noAction second ∧
    handleWrite 0x820 0 (.word 0x01010102) second = .ok .noAction last ∧
    handleWrite 0x104 0 (.word 1) last = .ok action after ∧ ¬ Apart action := by
  obtain ⟨on, turnedOn, pended, routed⟩ := waitingForOther_reached
  refine ⟨on, _, _, _, _, _, turnedOn, pended, routed, waitingForOther_enabled, fun lists => ?_⟩
  exact lists.apart 32 (by decide) (by decide) (by decide)

end Registers

end IceCap.Gic.Distributor
