import IceCap.Gic.Enables
import IceCap.Gic.Writes

/-!
# Writes that deactivate

A guest can clear an active bit itself; and the sweeps that follow a write
acknowledge every enabled interrupt that is not to be injected, and with it one
that is not injected because it is active.  `handleWrite_deactivates_iff` says
which writes do either.
-/

set_option autoImplicit false

namespace IceCap.Gic

open IceCap.Library Distributor

/-- The interrupt is acknowledged, on the cpu if it is banked. -/
def WriteAction.Acks (action : WriteAction) (irq cpu : Nat) : Prop :=
  ∃ node, (irq, node) ∈ action.toAck ∧ Family.Sees (irq / 32) node cpu

namespace Distributor

variable {numNodes : Nat}

/-- The bits that a write names add a target to an interrupt of the register. -/
def AddsTarget (dist : Distributor numNodes) (regNum : Nat) (named : Register32) : Prop :=
  8 ≤ regNum ∧ ∃ prev, dist.targets[regNum - 8]? = some prev ∧ clearBits named prev ≠ 0

/-- The writes that clear the bit, and those that sweep the interrupt when it is enabled. -/
def Deactivates (dist : Distributor numNodes) (irq cpu nodeIndex : Nat) (val : Register32) :
    DistRegWord → Prop
  | .icactiver regNum => Named regNum nodeIndex val irq cpu
  | .ctlr => val = 1 ∧ dist.control = 0 ∧ enables.bit dist irq cpu = true
  | .isenabler regNum => val ≠ 0 ∧ irq / 32 = regNum ∧
      (enables.bit dist irq cpu = true ∨ Named regNum nodeIndex val irq cpu)
  | .itargetsr regNum => irq / 4 = regNum ∧ dist.AddsTarget regNum val ∧
      enables.bit dist irq cpu = true
  | _ => False

def DeactivatesAt (dist : Distributor numNodes) (irq cpu nodeIndex offset : Nat) : FaultData → Prop
  | .word val => ∃ reg, DistRegWord.fromOffset offset = some reg ∧
      dist.Deactivates irq cpu nodeIndex val reg
  | .byte val => ∃ regNum byteIndex, irq / 4 = regNum ∧
      DistRegByte.fromOffset offset = some (.itargetsr regNum byteIndex) ∧
      dist.AddsTarget regNum (val.setWidth 32 <<< (byteIndex * 8)) ∧ enables.bit dist irq cpu = true
  | _ => False

section Sweeps
variable {before after : Distributor numNodes} {irq cpu baseIrq numIrqs : Nat} {action : WriteAction}

/-- An active interrupt is acknowledged by a sweep exactly if it is enabled. -/
theorem sweepBoth_acks_iff (run : sweepBoth baseIrq numIrqs before = .ok action after)
    (isIrq : irq < 1020) (isActive : actives.bit before irq cpu = true) :
    action.Acks irq cpu ↔ baseIrq ≤ irq ∧ irq < baseIrq + numIrqs ∧
      enables.bit before irq cpu = true := by
  have isNode : cpu < numNodes := Family.bit_isNode isActive
  obtain ⟨_, _, swept⟩ := sweepBoth_eq_ok run
  constructor
  · rintro ⟨node, member, sees⟩
    obtain ⟨isSwept, isCpu, passes⟩ := sweepIrqs_sound swept _ member
    obtain ⟨low, high⟩ := List.mem_range'_1.mp isSwept
    rw [shouldAck_eq_some isIrq] at passes
    have enabled := (Bool.and_eq_true_iff.mp (Option.some.inj passes)).1
    exact ⟨low, high, (Family.bit_sees sees isCpu isNode).trans enabled⟩
  · rintro ⟨low, high, enabled⟩
    have notInjected : before.deliverable irq cpu = false := by
      simp [deliverable, isActive]
    have passes : before.shouldAck irq cpu = some true := by
      rw [shouldAck_eq_some isIrq, enabled, notInjected]
      rfl
    obtain ⟨node, member, same⟩ :=
      sweepIrqs_complete swept (List.mem_range'_1.mpr ⟨low, high⟩) isNode passes
    exact ⟨node, member, fun isFirst => (same ((Nat.div_eq_zero_iff_lt (by decide)).mp isFirst)).symm⟩

theorem not_acks_noAction : ¬ WriteAction.Acks .noAction irq cpu := by
  rintro ⟨_, member, _⟩
  simp [WriteAction.toAck] at member

end Sweeps

/-! ## Register by register -/

section Registers
variable {before after : Distributor numNodes} {irq cpu regNum nodeIndex : Nat} {val : Register32}
  {action : WriteAction} {reg : DistRegWord}

theorem writeCtlr_acks_iff (run : writeCtlr val before = .ok action after) (isIrq : irq < 1020)
    (isActive : actives.bit before irq cpu = true) :
    action.Acks irq cpu ↔ before.Deactivates irq cpu nodeIndex val .ctlr := by
  unfold writeCtlr at run
  split at run
  · next isOne =>
      simp only [Exec.bind_eq_ok, Exec.get_eq_ok, Exec.modify_eq_ok] at run
      obtain ⟨_, _, ⟨rfl, rfl⟩, _, middle, isSet, run⟩ := run
      split at run
      · next wasOff =>
          subst isSet
          rw [sweepBoth_acks_iff run isIrq isActive]
          constructor
          · rintro ⟨_, _, enabled⟩
            exact ⟨isOne, wasOff, enabled⟩
          · rintro ⟨_, _, enabled⟩
            exact ⟨Nat.zero_le irq, by omega, enabled⟩
      · next wasOn =>
          obtain ⟨rfl, rfl⟩ := Exec.pure_eq_ok.mp run
          exact iff_of_false not_acks_noAction fun deactivates => wasOn deactivates.2.1
  · next notOne =>
      refine iff_of_false ?_ fun deactivates => notOne deactivates.1
      split at run
      · simp only [Exec.bind_eq_ok, Exec.pure_eq_ok] at run
        obtain ⟨_, _, _, rfl, _⟩ := run
        exact not_acks_noAction
      · simp at run

theorem writeIsenabler_acks_iff (run : writeIsenabler regNum nodeIndex val before = .ok action after)
    (isIrq : irq < 1020) (isActive : actives.bit before irq cpu = true) :
    action.Acks irq cpu ↔ before.Deactivates irq cpu nodeIndex val (.isenabler regNum) := by
  unfold writeIsenabler at run
  split at run
  · next isZero =>
      obtain ⟨rfl, rfl⟩ := Exec.pure_eq_ok.mp run
      exact iff_of_false not_acks_noAction fun deactivates => deactivates.1 isZero
  · next nonzero =>
      obtain ⟨_, middle, updated, run⟩ := Exec.bind_eq_ok.mp run
      have stillActive : actives.bit middle irq cpu = true := by
        obtain ⟨_, _, ⟨_, _, rfl⟩, _⟩ := Family.update_eq_ok updated
        exact isActive
      have enabled : enables.bit middle irq cpu = true ↔
          enables.bit before irq cpu = true ∨ Named regNum nodeIndex val irq cpu := by
        rw [update_sets updated (Family.bit_isNode isActive)]
        split
        · next isNamed => exact iff_of_true rfl (.inr isNamed)
        · next notNamed => exact ⟨.inl, fun either => either.resolve_right notNamed⟩
      rw [sweepBoth_acks_iff run isIrq stillActive, enabled]
      constructor
      · rintro ⟨low, high, enabled⟩
        exact ⟨nonzero, by omega, enabled⟩
      · rintro ⟨_, sameReg, enabled⟩
        exact ⟨by omega, by omega, enabled⟩

theorem writeItargetsr_acks_iff {change : Register32 → Register32} {named : Register32}
    (run : writeItargetsr regNum change named before = .ok action after) (isIrq : irq < 1020)
    (isActive : actives.bit before irq cpu = true) :
    action.Acks irq cpu ↔
      irq / 4 = regNum ∧ before.AddsTarget regNum named ∧ enables.bit before irq cpu = true := by
  unfold writeItargetsr at run
  split at run
  · simp at run
  next isShared =>
    simp only [Exec.bind_eq_ok, Exec.reads_eq_ok, Exec.modify_eq_ok] at run
    obtain ⟨prev, _, ⟨isPrev, rfl⟩, _, middle, isMiddle, run⟩ := run
    split at run
    · next noNew =>
        obtain ⟨rfl, rfl⟩ := Exec.pure_eq_ok.mp run
        refine iff_of_false not_acks_noAction ?_
        rintro ⟨_, ⟨_, _, isPrevious, isNew⟩, _⟩
        obtain rfl := Option.some.inj (isPrev.symm.trans isPrevious)
        exact isNew noNew
    · next isNew =>
        subst isMiddle
        rw [sweepBoth_acks_iff run isIrq isActive]
        constructor
        · rintro ⟨low, high, enabled⟩
          exact ⟨by omega, ⟨by omega, prev, isPrev, isNew⟩, enabled⟩
        · rintro ⟨sameReg, _, enabled⟩
          exact ⟨by omega, by omega, enabled⟩

theorem not_acks_injectOnly {toInject : List (Irq × Cpu)} : ¬ (injectOnly toInject).Acks irq cpu := by
  rintro ⟨_, member, _⟩
  simp [injectOnly_toAck] at member

/-- The registers whose writes only inject. -/
theorem writeIspendr_not_acks (run : writeIspendr regNum nodeIndex val before = .ok action after) :
    ¬ action.Acks irq cpu := by
  unfold writeIspendr at run
  split at run
  · obtain ⟨rfl, rfl⟩ := Exec.pure_eq_ok.mp run
    exact not_acks_noAction
  split at run
  · obtain ⟨rfl, rfl⟩ := Exec.pure_eq_ok.mp run
    exact not_acks_noAction
  · simp only [Exec.bind_eq_ok, Exec.reads_eq_ok, Exec.pure_eq_ok] at run
    obtain ⟨_, _, _, _, _, _, rfl, _⟩ := run
    exact not_acks_injectOnly

theorem writeSgir_not_acks (run : writeSgir nodeIndex val before = .ok action after) :
    ¬ action.Acks irq cpu := by
  simp only [writeSgir] at run
  repeat' split at run
  · obtain ⟨_, _, _, run⟩ := Exec.bind_eq_ok.mp run
    obtain ⟨rfl, _⟩ := Exec.pure_eq_ok.mp run
    exact not_acks_injectOnly
  · obtain ⟨_, _, _, run⟩ := Exec.bind_eq_ok.mp run
    obtain ⟨_, _, _, run⟩ := Exec.bind_eq_ok.mp run
    obtain ⟨rfl, _⟩ := Exec.pure_eq_ok.mp run
    exact not_acks_injectOnly
  · obtain ⟨_, _, _, run⟩ := Exec.bind_eq_ok.mp run
    obtain ⟨rfl, _⟩ := Exec.pure_eq_ok.mp run
    exact not_acks_injectOnly
  · obtain ⟨rfl, _⟩ := Exec.pure_eq_ok.mp run
    exact not_acks_noAction

theorem writeSpendsgir_not_acks (run : writeSpendsgir regNum nodeIndex val before = .ok action after) :
    ¬ action.Acks irq cpu := by
  unfold writeSpendsgir at run
  split at run
  · obtain ⟨rfl, rfl⟩ := Exec.pure_eq_ok.mp run
    exact not_acks_noAction
  · simp only [Exec.bind_eq_ok, Exec.reads_eq_ok, Exec.pure_eq_ok] at run
    obtain ⟨_, _, _, _, _, _, _, _, _, rfl, _⟩ := run
    exact not_acks_injectOnly

/-- An active interrupt loses its active bit by the write or by the acknowledgements after it. -/
theorem writeWord_deactivates_iff (run : writeWord nodeIndex val reg before = .ok action after)
    (isIrq : irq < 1020) (isActive : actives.bit before irq cpu = true) :
    (actives.bit after irq cpu = false ∨ action.Acks irq cpu) ↔
      before.Deactivates irq cpu nodeIndex val reg := by
  have staysActive (notClear : ∀ regNum, reg ≠ .icactiver regNum) : ¬ actives.bit after irq cpu = false := by
    rcases writeWord_active run isActive with isActive | ⟨isClear, _⟩
    · simp [isActive]
    · exact absurd isClear (notClear _)
  cases reg with
  | icactiver regNum =>
      have noAction := writeWord_noAction (by trivial) before action after run
      subst noAction
      rw [or_iff_left not_acks_noAction]
      constructor
      · intro isCleared
        rcases writeWord_active run isActive with isActive | ⟨sameReg, sees, named⟩
        · simp [isActive] at isCleared
        · obtain rfl := DistRegWord.icactiver.inj sameReg
          exact ⟨rfl, sees, named⟩
      · rintro ⟨sameReg, sees, named⟩
        simp only [writeWord, writeActiver] at run
        split at run
        · next isZero => simp [isZero] at named
        · simp only [Exec.bind_eq_ok, Exec.pure_eq_ok] at run
          obtain ⟨_, middle, updated, _, rfl⟩ := run
          obtain ⟨_, _, _, bits⟩ := Family.update_eq_ok updated
          rw [bits, if_pos ⟨sameReg, sees⟩]
          simp [clearBits, named]
  | ctlr =>
      rw [or_iff_right (staysActive (by simp))]
      exact writeCtlr_acks_iff run isIrq isActive
  | isenabler =>
      rw [or_iff_right (staysActive (by simp))]
      exact writeIsenabler_acks_iff run isIrq isActive
  | itargetsr =>
      rw [or_iff_right (staysActive (by simp))]
      exact writeItargetsr_acks_iff run isIrq isActive
  | sgir =>
      rw [or_iff_right (staysActive (by simp))]
      exact iff_of_false (writeSgir_not_acks run) id
  | ispendr =>
      rw [or_iff_right (staysActive (by simp))]
      exact iff_of_false (writeIspendr_not_acks run) id
  | spendsgir =>
      rw [or_iff_right (staysActive (by simp))]
      exact iff_of_false (writeSpendsgir_not_acks run) id
  | icenabler | icpendr | isactiver | igroupr | ipriorityr | icfgr | cpendsgir | iidr | typer | nsacr
  | icpidr | iccidr =>
      have noAction := writeWord_noAction (by trivial) before action after run
      subst noAction
      rw [or_iff_right (staysActive (by simp))]
      exact iff_of_false not_acks_noAction id

end Registers

theorem handleWrite_deactivates_iff {before after : Distributor numNodes}
    {irq cpu nodeIndex offset : Nat} {data : FaultData} {action : WriteAction}
    (run : handleWrite offset nodeIndex data before = .ok action after) (isIrq : irq < 1020)
    (isActive : actives.bit before irq cpu = true) :
    (actives.bit after irq cpu = false ∨ action.Acks irq cpu) ↔
      before.DeactivatesAt irq cpu nodeIndex offset data := by
  cases data with
  | word val =>
      obtain ⟨reg, _, decoded, run⟩ := Exec.bind_eq_ok.mp run
      obtain ⟨isReg, rfl⟩ := Exec.unwrap_eq_ok.mp decoded
      rw [writeWord_deactivates_iff run isIrq isActive]
      simp [DeactivatesAt, isReg]
  | byte val =>
      obtain ⟨reg, _, decoded, written⟩ := Exec.bind_eq_ok.mp run
      obtain ⟨isReg, rfl⟩ := Exec.unwrap_eq_ok.mp decoded
      cases reg with
      | itargetsr regNum byteIndex =>
          have stays : ¬ actives.bit after irq cpu = false := by
            rcases handleWrite_active run isActive with isActive | ⟨_, isWord, _⟩
            · simp [isActive]
            · simp at isWord
          rw [or_iff_right stays, writeItargetsr_acks_iff written isIrq isActive]
          simp only [DeactivatesAt, isReg, Option.some.injEq, DistRegByte.itargetsr.injEq]
          constructor
          · rintro ⟨sameReg, adds, enabled⟩
            exact ⟨regNum, byteIndex, sameReg, ⟨rfl, rfl⟩, adds, enabled⟩
          · rintro ⟨_, _, sameReg, ⟨rfl, rfl⟩, adds, enabled⟩
            exact ⟨sameReg, adds, enabled⟩
      | _ => simp [writeByte] at written
  | _ => simp [handleWrite] at run

end Distributor

end IceCap.Gic
