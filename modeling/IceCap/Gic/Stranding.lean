import IceCap.Gic.Again
import IceCap.Gic.Deactivation
import IceCap.Gic.Plain
import IceCap.Gic.Sgi

/-!
# Writes that strand an interrupt

A write is followed by the acknowledgements that it asks for and by the forwarding of
what it has found.  An interrupt is stranded that is still deliverable after the
acknowledgements, waits at none of its targets and is not forwarded.
`writeWord_handles_iff` says which writes strand an interrupt.
-/

set_option autoImplicit false

namespace IceCap.Gic

open IceCap.Library Distributor

/-- The interrupt is forwarded, on the cpu if it is banked. -/
def WriteAction.Injects (action : WriteAction) (irq cpu : Nat) : Prop :=
  ∃ node, (irq, node) ∈ action.toInject ∧ Family.Sees (irq / 32) node cpu

namespace Distributor

variable {numNodes : Nat}

/-! ## What can be sent -/

/-- An interrupt that is to be injected as soon as it is pending. -/
def Sendable (dist : Distributor numNodes) (irq cpu : Nat) : Prop :=
  dist.isGicEnabled = true ∧ enables.bit dist irq cpu = true ∧ dist.targetBit irq cpu = true ∧
    actives.bit dist irq cpu = false

/-- An interrupt that is to be injected as soon as it is not active. -/
def Ready (dist : Distributor numNodes) (irq cpu : Nat) : Prop :=
  dist.isGicEnabled = true ∧ enables.bit dist irq cpu = true ∧ dist.targetBit irq cpu = true ∧
    pendings.bit dist irq cpu = true

/-- An active interrupt that an acknowledgement leaves pending. -/
def Remains (dist : Distributor numNodes) (irq cpu : Nat) : Prop :=
  dist.targetBit irq cpu = true ∧ pendings.bit dist irq cpu = true ∧
    actives.bit dist irq cpu = true ∧ dist.OtherSource irq cpu

/-- The interrupt waits at one of its targets, which is the cpu itself if it is banked. -/
def Attends (dist : Distributor numNodes) (waits : Nat → Prop) (irq cpu : Nat) : Prop :=
  ∃ node, Family.Sees (irq / 32) node cpu ∧ dist.targetBit irq node = true ∧ waits node

/-- Deliverable once the acknowledgements of the action have been made. -/
def DeliverableAfter (dist : Distributor numNodes) (action : WriteAction) (irq cpu : Nat) : Prop :=
  action.Acks irq cpu ∧ dist.Ready irq cpu ∧ dist.OtherSource irq cpu ∨
    ¬ action.Acks irq cpu ∧ dist.deliverable irq cpu = true

/-- What is deliverable then waits at a target or is forwarded. -/
def Handles (dist : Distributor numNodes) (waits : Nat → Prop) (action : WriteAction)
    (irq : Nat) : Prop :=
  ∀ cpu, dist.DeliverableAfter action irq cpu → dist.Attends waits irq cpu ∨ action.Injects irq cpu

section Sent
variable {dist before after : Distributor numNodes} {irq cpu : Nat} {waits : Nat → Prop}

theorem deliverable_iff_ready :
    dist.deliverable irq cpu = true ↔ dist.Ready irq cpu ∧ actives.bit dist irq cpu = false := by
  rw [deliverable_iff]
  constructor
  · rintro ⟨isOn, enabled, isTarget, isPending, notActive⟩
    exact ⟨⟨isOn, enabled, isTarget, isPending⟩, notActive⟩
  · rintro ⟨⟨isOn, enabled, isTarget, isPending⟩, notActive⟩
    exact ⟨isOn, enabled, isTarget, isPending, notActive⟩

theorem deliverable_iff_sendable :
    dist.deliverable irq cpu = true ↔ dist.Sendable irq cpu ∧ pendings.bit dist irq cpu = true := by
  rw [deliverable_iff]
  constructor
  · rintro ⟨isOn, enabled, isTarget, isPending, notActive⟩
    exact ⟨⟨isOn, enabled, isTarget, notActive⟩, isPending⟩
  · rintro ⟨⟨isOn, enabled, isTarget, notActive⟩, isPending⟩
    exact ⟨isOn, enabled, isTarget, isPending, notActive⟩

theorem targetBit_isNode (isSet : dist.targetBit irq cpu = true) : cpu < numNodes := by
  by_contra outside
  simp [targetBit, isTarget, Nat.le_of_not_lt outside] at isSet

/-- For a shared interrupt one target is as good as another. -/
theorem Sendable.sees {node : Nat} (sendable : dist.Sendable irq cpu)
    (sees : Family.Sees (irq / 32) node cpu)
    (isTarget : 32 ≤ irq → dist.targetBit irq node = true) : dist.Sendable irq node := by
  obtain ⟨isOn, enabled, isTargetCpu, notActive⟩ := sendable
  by_cases isBanked : irq < 32
  · obtain rfl := sees (Nat.div_eq_of_lt isBanked)
    exact ⟨isOn, enabled, isTargetCpu, notActive⟩
  · have isTarget := isTarget (Nat.le_of_not_lt isBanked)
    have isNode := targetBit_isNode isTarget
    have isCpu := targetBit_isNode isTargetCpu
    rw [Family.bit_sees sees isNode isCpu] at enabled notActive
    exact ⟨isOn, enabled, isTarget, notActive⟩

/-- A change after which nothing is deliverable that was not before. -/
structure Quieter (irq : Nat) (before after : Distributor numNodes) : Prop where
  deliverable : ∀ cpu, after.deliverable irq cpu = true → before.deliverable irq cpu = true
  target : after.targetBit irq = before.targetBit irq

theorem Quieter.refl (dist : Distributor numNodes) : Quieter irq dist dist :=
  ⟨fun _ => id, rfl⟩

theorem Quieter.trans {middle : Distributor numNodes} (first : Quieter irq before middle)
    (second : Quieter irq middle after) : Quieter irq before after :=
  ⟨fun cpu isDeliverable => first.deliverable cpu (second.deliverable cpu isDeliverable),
    second.target.trans first.target⟩

theorem deliverable_of_imp (isOn : after.isGicEnabled = true → before.isGicEnabled = true)
    (enabled : enables.bit after irq cpu = true → enables.bit before irq cpu = true)
    (target : after.targetBit irq cpu = true → before.targetBit irq cpu = true)
    (pending : pendings.bit after irq cpu = true → pendings.bit before irq cpu = true)
    (active : actives.bit before irq cpu = true → actives.bit after irq cpu = true)
    (isDeliverable : after.deliverable irq cpu = true) : before.deliverable irq cpu = true := by
  rw [deliverable_iff] at isDeliverable ⊢
  obtain ⟨on, en, tg, pe, ac⟩ := isDeliverable
  refine ⟨isOn on, enabled en, target tg, pending pe, ?_⟩
  cases isActive : actives.bit before irq cpu with
  | false => rfl
  | true => simp [active isActive] at ac

theorem quieter_of_enables (isPut : ∃ regs0 regs, after = enables.put regs0 regs before)
    (shrinks : ∀ cpu, enables.bit after irq cpu = true → enables.bit before irq cpu = true) :
    Quieter irq before after := by
  obtain ⟨_, _, rfl⟩ := isPut
  exact ⟨fun cpu => deliverable_of_imp id (shrinks cpu) id id id, rfl⟩

theorem quieter_of_pendings (isPut : ∃ regs0 regs, after = pendings.put regs0 regs before)
    (shrinks : ∀ cpu, pendings.bit after irq cpu = true → pendings.bit before irq cpu = true) :
    Quieter irq before after := by
  obtain ⟨_, _, rfl⟩ := isPut
  exact ⟨fun cpu => deliverable_of_imp id id id (shrinks cpu) id, rfl⟩

theorem quieter_of_actives (isPut : ∃ regs0 regs, after = actives.put regs0 regs before)
    (grows : ∀ cpu, actives.bit before irq cpu = true → actives.bit after irq cpu = true) :
    Quieter irq before after := by
  obtain ⟨_, _, rfl⟩ := isPut
  refine ⟨fun cpu isDeliverable => deliverable_of_imp ?_ ?_ ?_ ?_ (grows cpu) isDeliverable, rfl⟩
  all_goals exact id

theorem clearPending_quieter {other node : Nat} (run : clearPending other node before = .ok () after) :
    Quieter irq before after := by
  obtain ⟨_, _, isPut, _⟩ := Family.updateBit_eq_ok run
  refine quieter_of_pendings isPut fun cpu isSet => ?_
  obtain ⟨same, differ⟩ := Family.clear_bit run irq cpu
  by_cases isSame : Family.SameBit other node irq cpu
  · simp [same isSame] at isSet
  · rwa [differ isSame] at isSet

theorem setPending_quieter {other node : Nat} (run : setPending other node before = .ok () after)
    (differ : other ≠ irq) : Quieter irq before after := by
  obtain ⟨_, _, isPut, _⟩ := Family.updateBit_eq_ok run
  refine quieter_of_pendings isPut fun cpu => ?_
  rw [(Family.set_bit run irq cpu).2 fun same => differ same.1.symm]
  exact id

end Sent

/-! ## Actions -/

section Actions
variable {dist before after : Distributor numNodes} {irq cpu baseIrq numIrqs : Nat}
  {waits : Nat → Prop} {action : WriteAction} {toInject : List (Irq × Cpu)}

theorem handles_noAction_iff : dist.Handles waits .noAction irq ↔
    ∀ cpu, dist.deliverable irq cpu = true → dist.Attends waits irq cpu := by
  have noInject : ∀ cpu, ¬ WriteAction.Injects .noAction irq cpu := by
    rintro cpu ⟨_, member, _⟩
    simp [WriteAction.toInject] at member
  unfold Handles DeliverableAfter
  simp only [not_acks_noAction, noInject, false_and, not_false_eq_true, true_and, false_or, or_false]

/-- A write without an action that makes nothing deliverable. -/
theorem Quieter.handles (quieter : Quieter irq before after)
    (served : ∀ cpu, before.deliverable irq cpu = true → before.Attends waits irq cpu) :
    after.Handles waits .noAction irq := by
  refine handles_noAction_iff.mpr fun cpu isDeliverable => ?_
  obtain ⟨node, sees, isTarget, waiting⟩ := served cpu (quieter.deliverable cpu isDeliverable)
  exact ⟨node, sees, by rwa [quieter.target], waiting⟩

/-- A sweep misses nothing it goes over. -/
theorem injects_of_sweep (isIrq : irq < 1020)
    (swept : sweepIrqsToInject baseIrq numIrqs dist = some action.toInject)
    (inside : baseIrq ≤ irq ∧ irq < baseIrq + numIrqs)
    (isDeliverable : dist.deliverable irq cpu = true) : action.Injects irq cpu := by
  have isCpu : cpu < numNodes := Family.bit_isNode (deliverable_iff.mp isDeliverable).2.1
  have passes : dist.shouldInject irq cpu = some true := by
    rw [shouldInject_eq_some isIrq, isDeliverable]
  obtain ⟨node, member, same⟩ :=
    sweepIrqs_complete swept (List.mem_range'_1.mpr inside) isCpu passes
  refine ⟨node, member, fun isFirst => ?_⟩
  exact (same ((Nat.div_eq_zero_iff_lt (by decide)).mp isFirst)).symm

theorem handles_of_sweepInject (isIrq : irq < 1020)
    (swept : sweepIrqsToInject baseIrq numIrqs dist = some toInject)
    (outside : ¬ (baseIrq ≤ irq ∧ irq < baseIrq + numIrqs) →
      ∀ cpu, dist.deliverable irq cpu = true → dist.Attends waits irq cpu) :
    dist.Handles waits (injectOnly toInject) irq := by
  rintro cpu (⟨acks, _⟩ | ⟨_, isDeliverable⟩)
  · exact absurd acks not_acks_injectOnly
  by_cases inside : baseIrq ≤ irq ∧ irq < baseIrq + numIrqs
  · rw [← @injectOnly_toInject toInject] at swept
    exact .inr (injects_of_sweep isIrq swept inside isDeliverable)
  · exact .inl (outside inside cpu isDeliverable)

/-- The sweep that also acknowledges strands what was active and remains pending. -/
theorem sweepBoth_handles_iff (run : sweepBoth baseIrq numIrqs dist = .ok action after)
    (isIrq : irq < 1020)
    (outside : ¬ (baseIrq ≤ irq ∧ irq < baseIrq + numIrqs) →
      ∀ cpu, dist.deliverable irq cpu = true → dist.Attends waits irq cpu) :
    dist.Handles waits action irq ↔ ¬ (baseIrq ≤ irq ∧ irq < baseIrq + numIrqs ∧
      dist.isGicEnabled = true ∧ ∃ cpu, enables.bit dist irq cpu = true ∧ dist.Remains irq cpu ∧
        ¬ dist.Attends waits irq cpu) := by
  obtain ⟨_, injected, acked⟩ := sweepBoth_eq_ok run
  constructor
  · rintro handles ⟨low, high, isOn, cpu, enabled, ⟨isTarget, isPending, isActive, isSource⟩, missed⟩
    have acks := (sweepBoth_acks_iff run isIrq isActive).mpr ⟨low, high, enabled⟩
    rcases handles cpu (.inl ⟨acks, ⟨isOn, enabled, isTarget, isPending⟩, isSource⟩) with
      attended | ⟨node, member, sees⟩
    · exact missed attended
    · obtain rfl := sees (Nat.div_eq_of_lt (by have := isSource.1; omega))
      have passes := (sweepIrqs_sound injected _ member).2.2
      rw [shouldInject_eq_some isIrq] at passes
      have notActive := (deliverable_iff.mp (Option.some.inj passes)).2.2.2.2
      rw [isActive] at notActive
      simp at notActive
  · rintro notStranded cpu (⟨⟨node, member, sees⟩, ready, isSource⟩ | ⟨notAcked, isDeliverable⟩)
    · obtain rfl := sees (Nat.div_eq_of_lt (by have := isSource.1; omega))
      obtain ⟨isSwept, _, passes⟩ := sweepIrqs_sound acked _ member
      obtain ⟨low, high⟩ := List.mem_range'_1.mp isSwept
      rw [shouldAck_eq_some isIrq] at passes
      have notDeliverable := (Bool.and_eq_true_iff.mp (Option.some.inj passes)).2
      have isActive : actives.bit dist irq cpu = true := by
        by_contra notActive
        rw [deliverable_iff_ready.mpr ⟨ready, Bool.eq_false_iff.mpr notActive⟩] at notDeliverable
        simp at notDeliverable
      by_contra missed
      obtain ⟨isOn, enabled, isTarget, isPending⟩ := ready
      exact notStranded ⟨low, high, isOn, cpu, enabled, ⟨isTarget, isPending, isActive, isSource⟩,
        fun attended => missed (.inl attended)⟩
    · by_cases inside : baseIrq ≤ irq ∧ irq < baseIrq + numIrqs
      · exact .inr (injects_of_sweep isIrq injected inside isDeliverable)
      · exact .inl (outside inside cpu isDeliverable)

end Actions

/-! ## Register by register -/

/-- The writes that strand an interrupt which waits at these nodes. -/
def Strands (dist : Distributor numNodes) (waits : Nat → Prop) (irq nodeIndex : Nat)
    (val : Register32) : DistRegWord → Prop
  | .ctlr => val = 1 ∧ dist.control = 0 ∧ ∃ cpu < numNodes, enables.bit dist irq cpu = true ∧
      dist.Remains irq cpu ∧ ¬ dist.Attends waits irq cpu
  | .isenabler regNum => val ≠ 0 ∧ irq / 32 = regNum ∧ dist.isGicEnabled = true ∧ ∃ cpu < numNodes,
      (enables.bit dist irq cpu = true ∨ Named regNum nodeIndex val irq cpu) ∧
        dist.Remains irq cpu ∧ ¬ dist.Attends waits irq cpu
  | .icactiver regNum => ∃ cpu < numNodes, Named regNum nodeIndex val irq cpu ∧
      dist.Ready irq cpu ∧ ¬ dist.Attends waits irq cpu
  | .itargetsr regNum => irq / 4 = regNum ∧ ¬ dist.AddsTarget regNum val ∧
      (∃ cpu < numNodes, val.getLsbD (8 * (irq % 4) + cpu) = true ∧ dist.deliverable irq cpu = true) ∧
      ¬ ∃ node < numNodes, val.getLsbD (8 * (irq % 4) + node) = true ∧ waits node
  | .sgir => (val &&& 0xFF).toNat = irq ∧ 32 ≤ irq ∧ sgirCpus nodeIndex val ≠ [] ∧
      (∀ cpu ∈ sgirCpus nodeIndex val, dist.targetBit irq cpu = false) ∧
      ∃ cpu < numNodes, dist.Sendable irq cpu ∧ ¬ dist.Attends waits irq cpu
  | _ => False

section Registers
variable {before after : Distributor numNodes} {irq regNum nodeIndex : Nat} {val : Register32}
  {action : WriteAction} {waits : Nat → Prop}

theorem Attends.congr {cpu : Nat} (same : after.targetBit irq = before.targetBit irq) :
    after.Attends waits irq cpu ↔ before.Attends waits irq cpu := by
  unfold Attends
  rw [same]

theorem eq_one_of_or {reg : Register32} (nonzero : ¬ reg = 0) (isOne : reg ||| 1 = 1) : reg = 1 := by
  have above : ∀ i, reg.getLsbD (i + 1) = false := by
    intro i
    have bit := congrArg (fun word => word.getLsbD (i + 1)) isOne
    simpa [BitVec.getLsbD_one] using bit
  have lowest : reg.getLsbD 0 = true := by
    by_contra isClear
    apply nonzero
    apply BitVec.eq_of_getLsbD_eq
    intro i _
    cases i with
    | zero => simpa using isClear
    | succ i => simp [above]
  apply BitVec.eq_of_getLsbD_eq
  intro i _
  cases i with
  | zero => simp [lowest]
  | succ i => simp [above, BitVec.getLsbD_one]

theorem writeCtlr_handles_iff (isIrq : irq < 1020)
    (served : ∀ cpu, before.deliverable irq cpu = true → before.Attends waits irq cpu)
    (run : writeCtlr val before = .ok action after) :
    after.Handles waits action irq ↔ ¬ before.Strands waits irq nodeIndex val .ctlr := by
  unfold writeCtlr at run
  split at run
  · next isOne =>
      simp only [Exec.bind_eq_ok, Exec.get_eq_ok, Exec.modify_eq_ok] at run
      obtain ⟨_, _, ⟨rfl, rfl⟩, _, middle, isSet, run⟩ := run
      split at run
      · next wasOff =>
          have isOn : middle.isGicEnabled = true := by
            rw [isGicEnabled, ← isSet, wasOff, isOne]
            rfl
          obtain ⟨rfl, _⟩ := sweepBoth_eq_ok run
          rw [sweepBoth_handles_iff run isIrq fun outside => by omega]
          subst isSet
          refine not_congr ⟨?_, ?_⟩
          · rintro ⟨_, _, _, cpu, enabled, remains, missed⟩
            exact ⟨isOne, wasOff, cpu, Family.bit_isNode enabled, enabled, remains, missed⟩
          · rintro ⟨_, _, cpu, _, enabled, remains, missed⟩
            exact ⟨Nat.zero_le irq, by omega, isOn, cpu, enabled, remains, missed⟩
      · next wasOn =>
          obtain ⟨rfl, rfl⟩ := Exec.pure_eq_ok.mp run
          subst isSet
          have quieter : Quieter irq before { before with control := setBits before.control val } := by
            refine ⟨fun cpu => deliverable_of_imp ?_ id id id id, rfl⟩
            simp only [isGicEnabled, beq_iff_eq, setBits, isOne]
            exact eq_one_of_or wasOn
          exact iff_of_true (quieter.handles served) fun stranded => wasOn stranded.2.1
  · next notOne =>
      refine iff_of_true ?_ fun stranded => notOne stranded.1
      split at run
      · next isZero =>
          simp only [Exec.bind_eq_ok, Exec.modify_eq_ok, Exec.pure_eq_ok] at run
          obtain ⟨_, _, rfl, rfl, rfl⟩ := run
          have quieter : Quieter irq before { before with control := before.control &&& val } := by
            refine ⟨fun cpu => deliverable_of_imp ?_ id id id id, rfl⟩
            simp [isGicEnabled, isZero]
          exact quieter.handles served
      · simp at run

theorem writeIsenabler_handles_iff (isIrq : irq < 1020)
    (served : ∀ cpu, before.deliverable irq cpu = true → before.Attends waits irq cpu)
    (run : writeIsenabler regNum nodeIndex val before = .ok action after) :
    after.Handles waits action irq ↔ ¬ before.Strands waits irq nodeIndex val (.isenabler regNum) := by
  unfold writeIsenabler at run
  split at run
  · next isZero =>
      obtain ⟨rfl, rfl⟩ := Exec.pure_eq_ok.mp run
      exact iff_of_true (Quieter.handles (.refl _) served) fun stranded => stranded.1 isZero
  · next nonzero =>
      obtain ⟨_, middle, updated, run⟩ := Exec.bind_eq_ok.mp run
      obtain ⟨rfl, _⟩ := sweepBoth_eq_ok run
      have enabled : ∀ cpu, after.targetBit irq cpu = true → (enables.bit after irq cpu = true ↔
          enables.bit before irq cpu = true ∨ Named regNum nodeIndex val irq cpu) := by
        intro cpu isTarget
        rw [update_sets updated (targetBit_isNode isTarget)]
        split
        · next isNamed => exact iff_of_true rfl (.inr isNamed)
        · next notNamed => exact ⟨.inl, fun either => either.resolve_right notNamed⟩
      have other : irq / 32 ≠ regNum → ∀ cpu, enables.bit after irq cpu = enables.bit before irq cpu :=
        fun differ cpu => Family.update_other updated differ
      obtain ⟨_, _, isPut, _⟩ := Family.update_eq_ok updated
      rw [sweepBoth_handles_iff run isIrq fun outside => ?_]
      · obtain ⟨_, _, rfl⟩ := isPut
        refine not_congr ⟨?_, ?_⟩
        · rintro ⟨low, high, isOn, cpu, isEnabled, remains, missed⟩
          exact ⟨nonzero, by omega, isOn, cpu, targetBit_isNode remains.1,
            (enabled cpu remains.1).mp isEnabled, remains, missed⟩
        · rintro ⟨_, sameReg, isOn, cpu, _, isEnabled, remains, missed⟩
          exact ⟨by omega, by omega, isOn, cpu, (enabled cpu remains.1).mpr isEnabled, remains, missed⟩
      · have quieter : Quieter irq before after := quieter_of_enables isPut fun cpu => by
          rw [other (by omega)]
          exact id
        exact handles_noAction_iff.mp (quieter.handles served)

/-- The registers whose writes make nothing deliverable. -/
theorem writeIcenabler_quieter (run : writeIcenabler regNum nodeIndex val before = .ok action after) :
    Quieter irq before after := by
  unfold writeIcenabler at run
  split at run
  · obtain ⟨rfl, rfl⟩ := Exec.pure_eq_ok.mp run
    exact .refl before
  · simp only [Exec.bind_eq_ok, Exec.pure_eq_ok] at run
    obtain ⟨_, middle, updated, rfl, rfl⟩ := run
    obtain ⟨_, _, isPut, _⟩ := Family.update_eq_ok updated
    exact quieter_of_enables isPut fun cpu => Family.update_shrinks updated

theorem writeIcpendr_quieter (run : writeIcpendr regNum nodeIndex val before = .ok action after) :
    Quieter irq before after := by
  unfold writeIcpendr at run
  split at run
  · obtain ⟨rfl, rfl⟩ := Exec.pure_eq_ok.mp run
    exact .refl before
  split at run
  · simp at run
  · simp only [Exec.bind_eq_ok, Exec.pure_eq_ok] at run
    obtain ⟨_, middle, updated, rfl, rfl⟩ := run
    obtain ⟨_, _, isPut, _⟩ := Family.update_eq_ok updated
    exact quieter_of_pendings isPut fun cpu => Family.update_shrinks updated

theorem writeIsactiver_quieter
    (run : writeActiver regNum nodeIndex setBits val before = .ok action after) :
    Quieter irq before after := by
  unfold writeActiver at run
  split at run
  · obtain ⟨rfl, rfl⟩ := Exec.pure_eq_ok.mp run
    exact .refl before
  · simp only [Exec.bind_eq_ok, Exec.pure_eq_ok] at run
    obtain ⟨_, middle, updated, rfl, rfl⟩ := run
    obtain ⟨_, _, isPut, _⟩ := Family.update_eq_ok updated
    exact quieter_of_actives isPut fun cpu => Family.update_grows updated

theorem forSgiBytes_quieter {baseIrq : Nat}
    {body : Irq → Register32 → Exec IrqError (Distributor numNodes) Unit}
    (each : ∀ other : Nat, baseIrq ≤ other → other < baseIrq + 4 → ∀ mask before after,
      body other mask before = .ok () after → Quieter irq before after)
    (run : forSgiBytes baseIrq body before = .ok () after) : Quieter irq before after := by
  simp only [forSgiBytes, Exec.bind_eq_ok, Exec.pure_eq_ok] at run
  obtain ⟨_, _, run, _, rfl⟩ := run
  have kept := Exec.foldEach_consumes
    (fun rest _ state => rest ⊆ List.range' baseIrq 4 ∧ Quieter irq before state)
    (fun other rest mask next middle after holds run => by
      simp only [Exec.bind_eq_ok, Exec.pure_eq_ok] at run
      obtain ⟨_, _, run, _, rfl⟩ := run
      obtain ⟨isOther, inside⟩ := List.cons_subset.mp holds.1
      obtain ⟨low, high⟩ := List.mem_range'_1.mp isOther
      exact ⟨inside, holds.2.trans (each other low high _ _ _ run)⟩)
    ⟨List.Subset.refl _, Quieter.refl before⟩ run
  exact kept.2

/-- The sources of an SGI have no part in what is deliverable. -/
theorem updateSgiPending_quieter {change : Register32 → Register32} {prev : Register32}
    (run : updateSgiPending regNum nodeIndex change before = .ok prev after) :
    Quieter irq before after := by
  obtain ⟨_, ⟨_, rfl⟩, _⟩ := updateSgiPending_eq_ok run
  exact ⟨fun _ => id, rfl⟩

theorem writeCpendsgir_quieter
    (run : writeCpendsgir regNum nodeIndex val before = .ok action after) :
    Quieter irq before after := by
  unfold writeCpendsgir at run
  split at run
  · obtain ⟨rfl, rfl⟩ := Exec.pure_eq_ok.mp run
    exact .refl before
  · simp only [Exec.bind_eq_ok, Exec.pure_eq_ok] at run
    obtain ⟨prev, middle, updated, _, _, bytes, rfl, rfl⟩ := run
    have first : Quieter irq before middle := updateSgiPending_quieter updated
    refine first.trans (forSgiBytes_quieter (fun other _ _ mask before after run => ?_) bytes)
    split at run
    · exact clearPending_quieter (Exec.orPanic_eq_ok.mp run)
    · obtain ⟨_, rfl⟩ := Exec.pure_eq_ok.mp run
      exact .refl before

theorem writeIspendr_handles (isIrq : irq < 1020)
    (served : ∀ cpu, before.deliverable irq cpu = true → before.Attends waits irq cpu)
    (run : writeIspendr regNum nodeIndex val before = .ok action after) :
    after.Handles waits action irq := by
  unfold writeIspendr at run
  split at run
  · obtain ⟨rfl, rfl⟩ := Exec.pure_eq_ok.mp run
    exact Quieter.handles (.refl _) served
  split at run
  · obtain ⟨rfl, rfl⟩ := Exec.pure_eq_ok.mp run
    exact Quieter.handles (.refl _) served
  · simp only [Exec.bind_eq_ok, Exec.reads_eq_ok, Exec.pure_eq_ok] at run
    obtain ⟨_, middle, updated, toInject, _, ⟨swept, rfl⟩, rfl, rfl⟩ := run
    refine handles_of_sweepInject isIrq swept fun outside => ?_
    obtain ⟨_, _, isPut, _⟩ := Family.update_eq_ok updated
    have quieter : Quieter irq before middle := quieter_of_pendings isPut fun cpu => by
      rw [Family.update_other updated (by omega)]
      exact id
    exact handles_noAction_iff.mp (quieter.handles served)

theorem writeSpendsgir_handles (isIrq : irq < 1020)
    (served : ∀ cpu, before.deliverable irq cpu = true → before.Attends waits irq cpu)
    (run : writeSpendsgir regNum nodeIndex val before = .ok action after) :
    after.Handles waits action irq := by
  unfold writeSpendsgir at run
  split at run
  · obtain ⟨rfl, rfl⟩ := Exec.pure_eq_ok.mp run
    exact Quieter.handles (.refl _) served
  · simp only [Exec.bind_eq_ok, Exec.reads_eq_ok, Exec.pure_eq_ok] at run
    obtain ⟨prev, middle, updated, _, last, bytes, toInject, _, ⟨swept, rfl⟩, rfl, rfl⟩ := run
    refine handles_of_sweepInject isIrq swept fun outside => ?_
    have quieter : Quieter irq middle last :=
      forSgiBytes_quieter (fun other low high mask before after run => by
        split at run
        · exact setPending_quieter (Exec.orPanic_eq_ok.mp run) (by omega)
        · obtain ⟨_, rfl⟩ := Exec.pure_eq_ok.mp run
          exact .refl before) bytes
    have both : Quieter irq before last := (updateSgiPending_quieter updated).trans quieter
    exact handles_noAction_iff.mp (both.handles served)

theorem writeIcactiver_handles_iff
    (served : ∀ cpu, before.deliverable irq cpu = true → before.Attends waits irq cpu)
    (run : writeActiver regNum nodeIndex clearBits val before = .ok action after) :
    after.Handles waits action irq ↔
      ¬ before.Strands waits irq nodeIndex val (.icactiver regNum) := by
  unfold writeActiver at run
  split at run
  · next isZero =>
      obtain ⟨rfl, rfl⟩ := Exec.pure_eq_ok.mp run
      refine iff_of_true (Quieter.handles (.refl _) served) ?_
      rintro ⟨cpu, _, named, _⟩
      exact not_named_zero (isZero ▸ named)
  · simp only [Exec.bind_eq_ok, Exec.pure_eq_ok] at run
    obtain ⟨_, middle, updated, rfl, rfl⟩ := run
    obtain ⟨_, _, isPut, bits⟩ := Family.update_eq_ok updated
    have sameReady : ∀ cpu, middle.Ready irq cpu ↔ before.Ready irq cpu := by
      obtain ⟨_, _, rfl⟩ := isPut
      exact fun cpu => Iff.rfl
    have sameTarget : middle.targetBit irq = before.targetBit irq := by
      obtain ⟨_, _, rfl⟩ := isPut
      rfl
    rw [handles_noAction_iff]
    simp only [deliverable_iff_ready, sameReady, Attends.congr sameTarget]
    constructor
    · rintro handles ⟨cpu, _, ⟨sameReg, sees, named⟩, ready, missed⟩
      refine missed (handles cpu ⟨ready, ?_⟩)
      rw [bits, if_pos ⟨sameReg, sees⟩]
      simp [clearBits, named]
    · rintro notStranded cpu ⟨ready, isClear⟩
      by_contra missed
      cases wasActive : actives.bit before irq cpu with
      | false => exact missed (served cpu (deliverable_iff_ready.mpr ⟨ready, wasActive⟩))
      | true =>
          exact notStranded ⟨cpu, Family.bit_isNode wasActive,
            Family.update_clears updated wasActive isClear, ready, missed⟩

/-- A write to a target register does not reach the interrupts of the others. -/
theorem setTargets_targetBit {dist : Distributor numNodes} (isShared : 8 ≤ regNum)
    (other : irq / 4 ≠ regNum) :
    ({ dist with targets := dist.targets.setIfInBounds (regNum - 8) val }).targetBit irq =
      dist.targetBit irq := by
  funext cpu
  unfold targetBit isTarget
  by_cases isBanked : irq < 32
  · simp [isBanked]
  · have differ : regNum - 8 ≠ irq / 4 - 8 := by omega
    simp [isBanked, Vector.getElem?_setIfInBounds_ne differ]

theorem writeItargetsr_handles_iff (isIrq : irq < 1020) (atMost : numNodes ≤ 8)
    (served : ∀ cpu, before.deliverable irq cpu = true → before.Attends waits irq cpu)
    (run : writeItargetsr regNum (fun _ => val) val before = .ok action after) :
    after.Handles waits action irq ↔
      ¬ before.Strands waits irq nodeIndex val (.itargetsr regNum) := by
  unfold writeItargetsr at run
  split at run
  · simp at run
  next isShared =>
    have isShared : 8 ≤ regNum := Nat.le_of_not_lt isShared
    simp only [Exec.bind_eq_ok, Exec.reads_eq_ok, Exec.modify_eq_ok] at run
    obtain ⟨prev, _, ⟨isPrev, rfl⟩, _, middle, isMiddle, run⟩ := run
    have inBounds : regNum - 8 < 247 := (Vector.getElem?_eq_some_iff.mp isPrev).1
    have quieter : irq / 4 ≠ regNum → Quieter irq before middle := by
      intro other
      have sameTarget : middle.targetBit irq = before.targetBit irq := by
        rw [← isMiddle]
        exact setTargets_targetBit isShared other
      refine ⟨fun cpu => ?_, sameTarget⟩
      refine deliverable_of_imp ?_ ?_ (by rw [sameTarget]; exact id) ?_ ?_
      all_goals
        subst isMiddle
        exact id
    split at run
    · next noNew =>
        obtain ⟨rfl, rfl⟩ := Exec.pure_eq_ok.mp run
        have addsNone : ¬ before.AddsTarget regNum val := by
          rintro ⟨_, _, isPrevious, isNew⟩
          obtain rfl := Option.some.inj (isPrev.symm.trans isPrevious)
          exact isNew noNew
        by_cases sameReg : irq / 4 = regNum
        · have isIrq : 32 ≤ irq := by omega
          have sees : ∀ node cpu, Family.Sees (irq / 32) node cpu := fun _ _ isFirst => by omega
          have targets : ∀ cpu < numNodes, middle.targetBit irq cpu =
              val.getLsbD (8 * (irq % 4) + cpu) := by
            intro cpu isCpu
            refine targetBit_eq isIrq atMost isCpu ?_
            rw [← isMiddle, sameReg]
            exact Vector.getElem?_setIfInBounds_self_of_lt inBounds
          have wasTarget : ∀ cpu < numNodes, val.getLsbD (8 * (irq % 4) + cpu) = true →
              before.targetBit irq cpu = true := by
            intro cpu isCpu isSet
            rw [targetBit_eq isIrq atMost isCpu (by rw [sameReg]; exact isPrev)]
            have isZero := congrArg (fun word => word.getLsbD (8 * (irq % 4) + cpu)) noNew
            have inWidth : 8 * (irq % 4) + cpu < 32 := by omega
            simpa [clearBits, isSet, inWidth] using isZero
          have delivers : ∀ cpu, middle.deliverable irq cpu = true ↔
              val.getLsbD (8 * (irq % 4) + cpu) = true ∧ before.deliverable irq cpu = true := by
            intro cpu
            have sameRest : middle.isGicEnabled = before.isGicEnabled ∧
                enables.bit middle = enables.bit before ∧ pendings.bit middle = pendings.bit before ∧
                actives.bit middle = actives.bit before := by
              subst isMiddle
              exact ⟨rfl, rfl, rfl, rfl⟩
            obtain ⟨sameControl, sameEnabled, samePending, sameActive⟩ := sameRest
            rw [deliverable_iff, deliverable_iff, sameControl, sameEnabled, samePending, sameActive]
            constructor
            · rintro ⟨isOn, enabled, isTarget, rest⟩
              have isCpu := targetBit_isNode isTarget
              rw [targets cpu isCpu] at isTarget
              exact ⟨isTarget, isOn, enabled, wasTarget cpu isCpu isTarget, rest⟩
            · rintro ⟨isSet, isOn, enabled, isTarget, rest⟩
              exact ⟨isOn, enabled, by rwa [targets cpu (targetBit_isNode isTarget)], rest⟩
          rw [handles_noAction_iff]
          constructor
          · rintro handles ⟨_, _, ⟨cpu, _, isSet, isDeliverable⟩, nowhere⟩
            obtain ⟨node, _, isTarget, waiting⟩ := handles cpu ((delivers cpu).mpr ⟨isSet, isDeliverable⟩)
            have isNode := targetBit_isNode isTarget
            rw [targets node isNode] at isTarget
            exact nowhere ⟨node, isNode, isTarget, waiting⟩
          · intro notStranded cpu isDeliverable
            by_contra missed
            have isCpu := targetBit_isNode (deliverable_iff.mp isDeliverable).2.2.1
            refine notStranded ⟨sameReg, addsNone, ⟨cpu, isCpu, (delivers cpu).mp isDeliverable⟩, ?_⟩
            rintro ⟨node, isNode, isSet, waiting⟩
            exact missed ⟨node, sees node cpu, by rwa [targets node isNode], waiting⟩
        · exact iff_of_true ((quieter sameReg).handles served) fun stranded => sameReg stranded.1
    · next isNew =>
        obtain ⟨rfl, _⟩ := sweepBoth_eq_ok run
        refine iff_of_true ?_ fun stranded => stranded.2.1 ⟨isShared, prev, isPrev, isNew⟩
        rw [sweepBoth_handles_iff run isIrq fun outside => ?_]
        · rintro ⟨low, _, _, _, _, ⟨_, _, _, isSgi, _⟩, _⟩
          omega
        · exact handles_noAction_iff.mp ((quieter (by omega)).handles served)

end Registers

/-! ## Software generated interrupts -/

section Sgir
variable {before after : Distributor numNodes} {irq nodeIndex : Nat} {val : Register32}
  {action : WriteAction} {waits : Nat → Prop}

theorem writeSgir_forwards (run : writeSgir nodeIndex val before = .ok action after) :
    ∃ toInject, action = injectOnly toInject ∧
      forwardSgi (val &&& 0xFF).toNat (sgirCpus nodeIndex val) before = .ok toInject after := by
  simp only [writeSgir] at run
  unfold sgirCpus
  split at run
  · next listed =>
      obtain ⟨toInject, _, forwarded, run⟩ := Exec.bind_eq_ok.mp run
      obtain ⟨rfl, rfl⟩ := Exec.pure_eq_ok.mp run
      exact ⟨toInject, rfl, by rwa [if_pos listed]⟩
  next notListed =>
  split at run
  · next others =>
      obtain ⟨_, _, asserted, run⟩ := Exec.bind_eq_ok.mp run
      obtain ⟨_, rfl⟩ := Exec.assert_eq_ok.mp asserted
      obtain ⟨toInject, _, forwarded, run⟩ := Exec.bind_eq_ok.mp run
      obtain ⟨rfl, rfl⟩ := Exec.pure_eq_ok.mp run
      exact ⟨toInject, rfl, by rwa [if_neg notListed, if_pos others]⟩
  next notOthers =>
  split at run
  · next own =>
      obtain ⟨toInject, _, forwarded, run⟩ := Exec.bind_eq_ok.mp run
      obtain ⟨rfl, rfl⟩ := Exec.pure_eq_ok.mp run
      exact ⟨toInject, rfl, by rwa [if_neg notListed, if_neg notOthers, if_pos own]⟩
  · next notOwn =>
      obtain ⟨rfl, rfl⟩ := Exec.pure_eq_ok.mp run
      exact ⟨[], rfl, by rw [if_neg notListed, if_neg notOthers, if_neg notOwn]; rfl⟩

theorem forwardSgi_areNodes {cpus : List Nat} {start toInject : List (Irq × Cpu)}
    (run : Exec.foldEach cpus start (pendSgi irq) before = .ok toInject after) :
    ∀ cpu ∈ cpus, cpu < numNodes := by
  induction cpus generalizing start before with
  | nil => simp
  | cons first rest ih =>
      rw [Exec.foldEach_cons] at run
      obtain ⟨_, middle, pended, run⟩ := Exec.bind_eq_ok.mp run
      simp only [pendSgi, Exec.bind_eq_ok, Exec.orPanic_eq_ok] at pended
      obtain ⟨_, _, isSet, _⟩ := pended
      intro cpu member
      rcases List.mem_cons.mp member with rfl | later
      · exact (Family.updateBit_eq_ok isSet).1
      · exact ih run cpu later

/-- The write forwards to those of the named cpus for which the interrupt is deliverable. -/
theorem writeSgir_eq_ok (run : writeSgir nodeIndex val before = .ok action after) :
    (∀ cpu ∈ sgirCpus nodeIndex val, cpu < numNodes) ∧
    Pended (val &&& 0xFF).toNat (sgirCpus nodeIndex val) before after ∧
    action.toInject = ((sgirCpus nodeIndex val).filter
      (after.deliverable (val &&& 0xFF).toNat)).map fun cpu => ((val &&& 0xFF).toNat, cpu) := by
  obtain ⟨toInject, rfl, forwarded⟩ := writeSgir_forwards run
  have areNodes := forwardSgi_areNodes forwarded
  have isIrq : (val &&& 0xFF).toNat < 1020 := by
    have less := @namedIrq_lt val
    rw [namedIrq_eq]
    omega
  obtain ⟨last, returned, pended⟩ := @forwardSgi_returns _ before _ _ isIrq areNodes
  rw [returned] at forwarded
  obtain ⟨rfl, rfl⟩ := Outcome.ok.inj forwarded
  exact ⟨areNodes, pended, injectOnly_toInject⟩

theorem writeSgir_handles_iff
    (served : ∀ cpu, before.deliverable irq cpu = true → before.Attends waits irq cpu)
    (run : writeSgir nodeIndex val before = .ok action after) :
    after.Handles waits action irq ↔ ¬ before.Strands waits irq nodeIndex val .sgir := by
  obtain ⟨areNodes, pended, isInject⟩ := writeSgir_eq_ok run
  have sameRest : after.targetBit irq = before.targetBit irq ∧
      ∀ cpu, after.Sendable irq cpu ↔ before.Sendable irq cpu := by
    obtain ⟨_, _, rfl⟩ := pended.isPut
    exact ⟨rfl, fun _ => Iff.rfl⟩
  obtain ⟨sameTarget, sameSendable⟩ := sameRest
  have handles : after.Handles waits action irq ↔ ∀ cpu, after.deliverable irq cpu = true →
      before.Attends waits irq cpu ∨ action.Injects irq cpu := by
    simp only [Handles, DeliverableAfter, writeSgir_not_acks run, false_and, not_false_eq_true,
      true_and, false_or, Attends.congr sameTarget]
  rw [handles]
  by_cases isNamed : (val &&& 0xFF).toNat = irq
  · subst isNamed
    have injects : ∀ node ∈ sgirCpus nodeIndex val, ∀ cpu,
        Family.Sees ((val &&& 0xFF).toNat / 32) node cpu →
        after.deliverable (val &&& 0xFF).toNat node = true →
        action.Injects (val &&& 0xFF).toNat cpu := by
      intro node member cpu sees isDeliverable
      refine ⟨node, ?_, sees⟩
      rw [isInject]
      exact List.mem_map.mpr ⟨node, List.mem_filter.mpr ⟨member, isDeliverable⟩, rfl⟩
    have unchanged : ∀ cpu, (∀ node ∈ sgirCpus nodeIndex val,
        ¬ Family.Sees ((val &&& 0xFF).toNat / 32) node cpu) →
        after.deliverable (val &&& 0xFF).toNat cpu = true →
        before.Attends waits (val &&& 0xFF).toNat cpu := by
      intro cpu noneSees isDeliverable
      refine served cpu ?_
      rw [← pended.deliverable _ ?_]
      · exact isDeliverable
      · rw [Bool.eq_iff_iff, pended.bits]
        refine or_iff_left ?_
        rintro ⟨_, node, member, _, sees⟩
        exact noneSees node member sees
    by_cases isBanked : (val &&& 0xFF).toNat < 32
    · refine iff_of_true (fun cpu isDeliverable => ?_) fun stranded => by
        have isShared := stranded.2.1
        omega
      have isFirst : (val &&& 0xFF).toNat / 32 = 0 := Nat.div_eq_of_lt isBanked
      by_cases member : cpu ∈ sgirCpus nodeIndex val
      · exact .inr (injects cpu member cpu (fun _ => rfl) isDeliverable)
      · refine .inl (unchanged cpu (fun node isNode sees => ?_) isDeliverable)
        obtain rfl := sees isFirst
        exact member isNode
    · have isShared : 32 ≤ (val &&& 0xFF).toNat := Nat.le_of_not_lt isBanked
      have sees : ∀ node cpu, Family.Sees ((val &&& 0xFF).toNat / 32) node cpu :=
        fun _ _ isFirst => by omega
      by_cases isEmpty : sgirCpus nodeIndex val = []
      · refine iff_of_true (fun cpu isDeliverable => .inl ?_) fun stranded => stranded.2.2.1 isEmpty
        exact unchanged cpu (by simp [isEmpty]) isDeliverable
      · obtain ⟨first, isFirst⟩ := List.exists_mem_of_ne_nil _ isEmpty
        have delivers : ∀ cpu, after.deliverable (val &&& 0xFF).toNat cpu = true ↔
            before.Sendable (val &&& 0xFF).toNat cpu := by
          intro cpu
          rw [deliverable_iff_sendable, sameSendable]
          refine and_iff_left_of_imp fun sendable => ?_
          have isNode := targetBit_isNode sendable.2.2.1
          exact (pended.bits _ _).mpr (.inr ⟨isNode, first, isFirst, rfl, sees first cpu⟩)
        simp only [delivers] at injects ⊢
        constructor
        · rintro served ⟨_, _, _, noTarget, cpu, _, sendable, missed⟩
          rcases served cpu sendable with attended | ⟨node, member, _⟩
          · exact missed attended
          · rw [isInject] at member
            obtain ⟨other, isOther, isPair⟩ := List.mem_map.mp member
            obtain ⟨isCpu, isDeliverable⟩ := List.mem_filter.mp isOther
            have isTarget := ((delivers other).mp isDeliverable).2.2.1
            rw [noTarget other isCpu] at isTarget
            simp at isTarget
        · intro notStranded cpu sendable
          by_contra missed
          refine notStranded ⟨rfl, isShared, isEmpty, fun node member => ?_, cpu,
            targetBit_isNode sendable.2.2.1, sendable, fun attended => missed (.inl attended)⟩
          by_contra isTarget
          exact missed (.inr (injects node member cpu (sees node cpu)
            (sendable.sees (sees node cpu) fun _ => by simpa using isTarget)))
  · refine iff_of_true (fun cpu isDeliverable => .inl (served cpu ?_)) fun stranded => isNamed stranded.1
    rw [← pended.deliverable irq ?_]
    · exact isDeliverable
    · rw [Bool.eq_iff_iff, pended.bits]
      refine or_iff_left ?_
      rintro ⟨_, node, _, same, _⟩
      exact isNamed same.symm

end Sgir

/-! ## Any register -/

/-- What is handed over for injection is handed over for targets. -/
def Aims (dist : Distributor numNodes) (action : WriteAction) (irq : Nat) : Prop :=
  ∀ node, (irq, node) ∈ action.toInject → dist.targetBit irq node = true

section Aims
variable {before after : Distributor numNodes} {irq regNum nodeIndex : Nat} {val : Register32}
  {action : WriteAction} {reg : DistRegWord}

theorem aims_noAction : after.Aims .noAction irq := by
  intro node member
  simp [WriteAction.toInject] at member

theorem aims_of_sweep {baseIrq numIrqs : Nat} (isIrq : irq < 1020)
    (swept : sweepIrqsToInject baseIrq numIrqs after = some action.toInject) :
    after.Aims action irq := by
  intro node member
  have passes := (sweepIrqs_sound swept _ member).2.2
  rw [shouldInject_eq_some isIrq] at passes
  exact (deliverable_iff.mp (Option.some.inj passes)).2.2.1

theorem sweepBoth_aims {baseIrq numIrqs : Nat} {middle : Distributor numNodes} (isIrq : irq < 1020)
    (run : sweepBoth baseIrq numIrqs middle = .ok action after) : after.Aims action irq := by
  obtain ⟨rfl, swept, _⟩ := sweepBoth_eq_ok run
  exact aims_of_sweep isIrq swept

theorem injectOnly_aims {baseIrq numIrqs : Nat} {toInject : List (Irq × Cpu)} (isIrq : irq < 1020)
    (swept : sweepIrqsToInject baseIrq numIrqs after = some toInject) :
    after.Aims (injectOnly toInject) irq := by
  rw [← @injectOnly_toInject toInject] at swept
  exact aims_of_sweep isIrq swept

theorem writeCtlr_aims (isIrq : irq < 1020) (run : writeCtlr val before = .ok action after) :
    after.Aims action irq := by
  unfold writeCtlr at run
  split at run
  · simp only [Exec.bind_eq_ok] at run
    obtain ⟨_, _, _, _, _, _, run⟩ := run
    split at run
    · exact sweepBoth_aims isIrq run
    · obtain ⟨rfl, _⟩ := Exec.pure_eq_ok.mp run
      exact aims_noAction
  · split at run
    · simp only [Exec.bind_eq_ok, Exec.pure_eq_ok] at run
      obtain ⟨_, _, _, rfl, _⟩ := run
      exact aims_noAction
    · simp at run

theorem writeIsenabler_aims (isIrq : irq < 1020)
    (run : writeIsenabler regNum nodeIndex val before = .ok action after) : after.Aims action irq := by
  unfold writeIsenabler at run
  split at run
  · obtain ⟨rfl, _⟩ := Exec.pure_eq_ok.mp run
    exact aims_noAction
  · obtain ⟨_, _, _, run⟩ := Exec.bind_eq_ok.mp run
    exact sweepBoth_aims isIrq run

theorem writeIspendr_aims (isIrq : irq < 1020)
    (run : writeIspendr regNum nodeIndex val before = .ok action after) : after.Aims action irq := by
  unfold writeIspendr at run
  split at run
  · obtain ⟨rfl, _⟩ := Exec.pure_eq_ok.mp run
    exact aims_noAction
  split at run
  · obtain ⟨rfl, _⟩ := Exec.pure_eq_ok.mp run
    exact aims_noAction
  · simp only [Exec.bind_eq_ok, Exec.reads_eq_ok, Exec.pure_eq_ok] at run
    obtain ⟨_, _, _, _, _, ⟨swept, rfl⟩, rfl, rfl⟩ := run
    exact injectOnly_aims isIrq swept

theorem writeItargetsr_aims (isIrq : irq < 1020)
    (run : writeItargetsr regNum (fun _ => val) val before = .ok action after) :
    after.Aims action irq := by
  unfold writeItargetsr at run
  split at run
  · simp at run
  · simp only [Exec.bind_eq_ok] at run
    obtain ⟨_, _, _, _, _, _, run⟩ := run
    split at run
    · obtain ⟨rfl, _⟩ := Exec.pure_eq_ok.mp run
      exact aims_noAction
    · exact sweepBoth_aims isIrq run

theorem writeSgir_aims (run : writeSgir nodeIndex val before = .ok action after) :
    after.Aims action irq := by
  obtain ⟨_, _, isInject⟩ := writeSgir_eq_ok run
  intro node member
  rw [isInject] at member
  obtain ⟨cpu, isCpu, isPair⟩ := List.mem_map.mp member
  obtain ⟨rfl, rfl⟩ := Prod.mk.inj isPair
  exact (deliverable_iff.mp (List.mem_filter.mp isCpu).2).2.2.1

theorem writeSpendsgir_aims (isIrq : irq < 1020)
    (run : writeSpendsgir regNum nodeIndex val before = .ok action after) : after.Aims action irq := by
  unfold writeSpendsgir at run
  split at run
  · obtain ⟨rfl, _⟩ := Exec.pure_eq_ok.mp run
    exact aims_noAction
  · simp only [Exec.bind_eq_ok, Exec.reads_eq_ok, Exec.pure_eq_ok] at run
    obtain ⟨_, _, _, _, _, _, _, _, ⟨swept, rfl⟩, rfl, rfl⟩ := run
    exact injectOnly_aims isIrq swept

theorem writeWord_aims (isIrq : irq < 1020)
    (run : writeWord nodeIndex val reg before = .ok action after) : after.Aims action irq := by
  cases reg with
  | ctlr => exact writeCtlr_aims isIrq run
  | isenabler => exact writeIsenabler_aims isIrq run
  | ispendr => exact writeIspendr_aims isIrq run
  | itargetsr => exact writeItargetsr_aims isIrq run
  | sgir => exact writeSgir_aims run
  | spendsgir => exact writeSpendsgir_aims isIrq run
  | icenabler | icpendr | isactiver | icactiver | igroupr | ipriorityr | icfgr | cpendsgir | iidr
  | typer | nsacr | icpidr | iccidr =>
      have noAction := writeWord_noAction (by trivial) before action after run
      subst noAction
      exact aims_noAction

end Aims

/-- What is served before a write is served after it exactly if the write does not strand it. -/
theorem writeWord_handles_iff {before after : Distributor numNodes} {irq nodeIndex : Nat}
    {val : Register32} {action : WriteAction} {reg : DistRegWord} {waits : Nat → Prop}
    (isIrq : irq < 1020) (atMost : numNodes ≤ 8)
    (served : ∀ cpu, before.deliverable irq cpu = true → before.Attends waits irq cpu)
    (run : writeWord nodeIndex val reg before = .ok action after) :
    after.Handles waits action irq ↔ ¬ before.Strands waits irq nodeIndex val reg := by
  have ofQuieter (quiet : Quiet reg) (quieter : Quieter irq before after) :
      after.Handles waits action irq := by
    have noAction := writeWord_noAction quiet before action after run
    subst noAction
    exact quieter.handles served
  have ofLeaves (quiet : Quiet reg) (leaves : Leaves (fun dist : Distributor numNodes =>
      (dist.deliverable irq, dist.targetBit irq)) reg) : after.Handles waits action irq := by
    have same := writeWord_keeps leaves before action after run
    simp only [Prod.mk.injEq] at same
    exact ofQuieter quiet ⟨fun cpu => by rw [same.1]; exact id, same.2⟩
  cases reg with
  | ctlr => exact writeCtlr_handles_iff isIrq served run
  | isenabler => exact writeIsenabler_handles_iff isIrq served run
  | icactiver => exact writeIcactiver_handles_iff served run
  | itargetsr => exact writeItargetsr_handles_iff isIrq atMost served run
  | sgir => exact writeSgir_handles_iff served run
  | icenabler => exact iff_of_true (ofQuieter trivial (writeIcenabler_quieter run)) id
  | ispendr => exact iff_of_true (writeIspendr_handles isIrq served run) id
  | icpendr => exact iff_of_true (ofQuieter trivial (writeIcpendr_quieter run)) id
  | isactiver => exact iff_of_true (ofQuieter trivial (writeIsactiver_quieter run)) id
  | cpendsgir => exact iff_of_true (ofQuieter trivial (writeCpendsgir_quieter run)) id
  | spendsgir => exact iff_of_true (writeSpendsgir_handles isIrq served run) id
  | igroupr | ipriorityr | icfgr => exact iff_of_true (ofLeaves trivial fun _ _ _ => rfl) id
  | iidr | typer | nsacr | icpidr | iccidr => simp [writeWord] at run

end Distributor

end IceCap.Gic
