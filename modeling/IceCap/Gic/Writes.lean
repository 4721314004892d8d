import IceCap.Gic.Frames
import IceCap.Gic.Sweeps

/-!
# What a write asks for

The lists that a write hands over to the GIC, and the bits that it only sets or
only clears.
-/

set_option autoImplicit false

namespace IceCap.Gic

open IceCap.Library

variable {numNodes : Nat}

def WriteAction.toInject : WriteAction → List (Irq × Cpu)
  | .noAction => []
  | .injectAndAckIrqs toInject _ => toInject.getD []

def WriteAction.toAck : WriteAction → List (Irq × Cpu)
  | .noAction => []
  | .injectAndAckIrqs _ toAck => toAck.getD []

namespace Distributor

/-! ## Bits that only grow or only shrink -/

section Bits
variable {family : Family numNodes} {dist final : Distributor numNodes} {regNum nodeIndex irq cpu : Nat}

theorem Family.update_other {change : Register32 → Register32}
    (run : family.update regNum nodeIndex change dist = .ok () final) (other : irq / 32 ≠ regNum) :
    family.bit final irq cpu = family.bit dist irq cpu := by
  obtain ⟨_, _, _, bits⟩ := Family.update_eq_ok run
  rw [bits, if_neg fun same => other same.1]

theorem Family.update_grows {val : Register32}
    (run : family.update regNum nodeIndex (fun reg => setBits reg val) dist = .ok () final)
    (isSet : family.bit dist irq cpu = true) : family.bit final irq cpu = true := by
  obtain ⟨_, _, _, bits⟩ := Family.update_eq_ok run
  rw [bits]
  split
  · next same =>
      simp only [Family.bit, same.1, Bool.and_eq_true] at isSet
      simp [setBits, isSet.2, of_decide_eq_true isSet.1]
  · exact isSet

theorem Family.update_shrinks {val : Register32}
    (run : family.update regNum nodeIndex (fun reg => clearBits reg val) dist = .ok () final)
    (isSet : family.bit final irq cpu = true) : family.bit dist irq cpu = true := by
  obtain ⟨_, _, _, bits⟩ := Family.update_eq_ok run
  rw [bits] at isSet
  split at isSet
  · next same =>
      simp only [clearBits, BitVec.getLsbD_and, Bool.and_eq_true] at isSet
      simp [Family.bit, same.1, isSet.2.1, of_decide_eq_true isSet.1]
  · exact isSet

/-- A cleared bit is one the write names. -/
theorem Family.update_clears {val : Register32}
    (run : family.update regNum nodeIndex (fun reg => clearBits reg val) dist = .ok () final)
    (isSet : family.bit dist irq cpu = true) (isClear : family.bit final irq cpu = false) :
    irq / 32 = regNum ∧ Family.Sees regNum nodeIndex cpu ∧ val.getLsbD (irq % 32) = true := by
  obtain ⟨_, _, _, bits⟩ := Family.update_eq_ok run
  rw [bits] at isClear
  split at isClear
  · next same =>
      simp only [Family.bit, same.1, Bool.and_eq_true] at isSet
      have less : irq % 32 < 32 := Nat.mod_lt _ (by decide)
      refine ⟨same.1, same.2, ?_⟩
      simpa [clearBits, isSet.1, isSet.2, of_decide_eq_true isSet.1, less] using isClear
  · rw [isSet] at isClear
    simp at isClear

theorem setActive_grows {other node : Nat} (run : setActive other node dist = .ok () final)
    (isActive : actives.bit dist irq cpu = true) : actives.bit final irq cpu = true := by
  obtain ⟨same, differ⟩ := Family.set_bit run irq cpu
  by_cases isSame : Family.SameBit other node irq cpu
  · simp [same isSame, Family.bit_isNode isActive]
  · rwa [differ isSame]

end Bits

/-! ## Sources of an SGI -/

def sgiWord (dist : Distributor numNodes) (regNum : Nat) (cpu : Cpu) : Register32 :=
  ((dist.sgiPending[cpu]?).bind fun bank => bank[regNum]?).getD 0

section Sgi
variable {dist final : Distributor numNodes}

theorem updateSgiPending_eq_ok {regNum nodeIndex : Nat} {change : Register32 → Register32}
    {prev : Register32} (run : updateSgiPending regNum nodeIndex change dist = .ok prev final) :
    prev = dist.sgiWord regNum nodeIndex ∧ (∃ sgiPending, final = { dist with sgiPending }) ∧
    ∀ other cpu, final.sgiWord other cpu =
      if other = regNum ∧ cpu = nodeIndex then change prev else dist.sgiWord other cpu := by
  simp only [updateSgiPending, Exec.bind_eq_ok, Exec.reads_eq_ok, Exec.unwrap_eq_ok,
    Exec.modify_eq_ok, Exec.pure_eq_ok] at run
  obtain ⟨bank, _, ⟨isBank, rfl⟩, _, _, ⟨isPrev, rfl⟩, _, _, isFinal, rfl, rfl⟩ := run
  refine ⟨by simp [sgiWord, isBank, isPrev], ⟨_, isFinal.symm⟩, fun other cpu => ?_⟩
  have isNode : nodeIndex < numNodes := (Vector.getElem?_eq_some_iff.mp isBank).1
  have isReg : regNum < 4 := (Vector.getElem?_eq_some_iff.mp isPrev).1
  subst isFinal
  simp only [sgiWord, Vector.getElem?_setIfInBounds]
  by_cases sameCpu : cpu = nodeIndex
  · subst sameCpu
    by_cases sameReg : other = regNum
    · subst sameReg
      simp [isNode, isReg]
    · rw [isBank]
      simp [isNode, sameReg, Ne.symm sameReg]
  · simp [sameCpu, Ne.symm sameCpu]

end Sgi

/-! ## Sweeps -/

section Sweeps
variable {before after : Distributor numNodes} {action : WriteAction}

theorem sweepBoth_eq_ok {baseIrq numIrqs : Nat}
    (run : sweepBoth baseIrq numIrqs before = .ok action after) :
    after = before ∧ sweepIrqsToInject baseIrq numIrqs before = some action.toInject ∧
      sweepIrqsToAck baseIrq numIrqs before = some action.toAck := by
  simp only [sweepBoth, Exec.bind_eq_ok, Exec.reads_eq_ok] at run
  obtain ⟨toInject, _, ⟨isInject, rfl⟩, toAck, _, ⟨isAck, rfl⟩, rest⟩ := run
  rw [isInject, isAck]
  split at rest
  · next empty =>
      obtain ⟨rfl, rfl⟩ := Exec.pure_eq_ok.mp rest
      exact ⟨rfl, by simp [WriteAction.toInject, List.length_eq_zero_iff.mp empty.1],
        by simp [WriteAction.toAck, List.length_eq_zero_iff.mp empty.2]⟩
  · obtain ⟨rfl, rfl⟩ := Exec.pure_eq_ok.mp rest
    exact ⟨rfl, rfl, rfl⟩

theorem injectOnly_toInject {toInject : List (Irq × Cpu)} :
    (injectOnly toInject).toInject = toInject := by
  unfold injectOnly
  split
  · next empty => simp [WriteAction.toInject, List.length_eq_zero_iff.mp empty]
  · rfl

theorem injectOnly_toAck {toInject : List (Irq × Cpu)} : (injectOnly toInject).toAck = [] := by
  unfold injectOnly
  split <;> rfl

end Sweeps

/-! ### Any register -/

section Words
variable {before after : Distributor numNodes} {irq nodeIndex : Nat} {val : Register32}
  {action : WriteAction} {reg : DistRegWord}

/-- Only a write to a clear-active register clears active bits, and only those it names. -/
theorem writeWord_active {cpu : Nat} (run : writeWord nodeIndex val reg before = .ok action after)
    (isActive : actives.bit before irq cpu = true) :
    actives.bit after irq cpu = true ∨ reg = .icactiver (irq / 32) ∧
      Family.Sees (irq / 32) nodeIndex cpu ∧ val.getLsbD (irq % 32) = true := by
  have ofLeaves (leaves : Leaves (fun dist : Distributor numNodes => actives.bit dist irq) reg) :
      actives.bit after irq cpu = true := by
    have same : actives.bit after irq = actives.bit before irq :=
      writeWord_keeps leaves before action after run
    rwa [same]
  cases reg with
  | isactiver =>
      simp only [writeWord, writeActiver] at run
      split at run
      · obtain ⟨rfl, rfl⟩ := Exec.pure_eq_ok.mp run
        exact .inl isActive
      · simp only [Exec.bind_eq_ok, Exec.pure_eq_ok] at run
        obtain ⟨_, middle, updated, rfl, rfl⟩ := run
        exact .inl (Family.update_grows updated isActive)
  | icactiver =>
      simp only [writeWord, writeActiver] at run
      split at run
      · obtain ⟨rfl, rfl⟩ := Exec.pure_eq_ok.mp run
        exact .inl isActive
      · simp only [Exec.bind_eq_ok, Exec.pure_eq_ok] at run
        obtain ⟨_, after, updated, rfl, rfl⟩ := run
        cases isClear : actives.bit after irq cpu with
        | true => exact .inl rfl
        | false =>
            obtain ⟨rfl, sees, named⟩ := Family.update_clears updated isActive isClear
            exact .inr ⟨rfl, sees, named⟩
  | cpendsgir | spendsgir => exact .inl (ofLeaves ⟨fun _ _ _ => rfl, fun _ _ => rfl⟩)
  | iidr | typer | nsacr | icpidr | iccidr => exact .inl (ofLeaves trivial)
  | ctlr | itargetsr => exact .inl (ofLeaves fun _ _ => rfl)
  | _ => exact .inl (ofLeaves fun _ _ _ => rfl)

end Words

/-! ## Writes of any width -/

section Handle
variable {before after : Distributor numNodes} {offset nodeIndex : Nat} {data : FaultData}
  {action : WriteAction}

theorem handleWrite_failsClean : Exec.FailsClean (handleWrite offset nodeIndex data :
    Exec IrqError (Distributor numNodes) WriteAction) := by
  intro before error after failed
  cases data with
  | word val =>
      obtain failed | ⟨reg, _, isReg, failed⟩ := Exec.bind_eq_err.mp failed
      · simp at failed
      obtain ⟨_, rfl⟩ := Exec.unwrap_eq_ok.mp isReg
      exact writeWord_failsClean _ _ _ failed
  | byte val =>
      obtain failed | ⟨reg, _, isReg, failed⟩ := Exec.bind_eq_err.mp failed
      · simp at failed
      obtain ⟨_, rfl⟩ := Exec.unwrap_eq_ok.mp isReg
      cases reg with
      | itargetsr => exact writeItargetsr_failsClean _ _ _ failed
      | _ => simp [writeByte] at failed
  | _ => simp [handleWrite] at failed

/-- Only a write to a clear-active register clears active bits. -/
theorem handleWrite_active {irq cpu : Nat}
    (run : handleWrite offset nodeIndex data before = .ok action after)
    (isActive : actives.bit before irq cpu = true) :
    actives.bit after irq cpu = true ∨ ∃ val, data = .word val ∧
      DistRegWord.fromOffset offset = some (.icactiver (irq / 32)) ∧
      Family.Sees (irq / 32) nodeIndex cpu ∧ val.getLsbD (irq % 32) = true := by
  cases data with
  | word val =>
      obtain ⟨reg, _, decoded, run⟩ := Exec.bind_eq_ok.mp run
      obtain ⟨isReg, rfl⟩ := Exec.unwrap_eq_ok.mp decoded
      rcases writeWord_active run isActive with isActive | ⟨rfl, named⟩
      · exact .inl isActive
      · exact .inr ⟨val, rfl, isReg, named⟩
  | byte val =>
      obtain ⟨reg, _, isReg, run⟩ := Exec.bind_eq_ok.mp run
      obtain ⟨_, rfl⟩ := Exec.unwrap_eq_ok.mp isReg
      cases reg with
      | itargetsr regNum byteIndex =>
          have keeps : Exec.Keeps (fun dist : Distributor numNodes => actives.bit dist irq)
              (writeByte val (.itargetsr regNum byteIndex)) := writeItargetsr_keeps fun _ _ => rfl
          have same : actives.bit after irq = actives.bit before irq := keeps _ _ _ run
          exact .inl (same ▸ isActive)
      | _ => simp [writeByte] at run
  | _ => simp [handleWrite] at run

end Handle

end Distributor

end IceCap.Gic
