import IceCap.Gic.Banks
import IceCap.Gic.Enables

/-!
# Plain registers

Groups, priorities, targets and configurations: registers that hold what was
last written to them.  The stored registers are seen as cells; a write of a
plain register stores to one cell, and a read and the internal queries of the
distributor take the value from there.
-/

set_option autoImplicit false

namespace IceCap.Gic.Distributor

open IceCap.Library

variable {numNodes : Nat}

/-! ## Cells -/

/-- The registers that are stored, one by one. -/
inductive Cell where
  | control
  | icType
  | distIdent
  | irqGroup0 (cpu : Nat)
  | irqGroup (index : Nat)
  | enable0 (cpu : Nat)
  | enable (index : Nat)
  | pending0 (cpu : Nat)
  | pending (index : Nat)
  | active0 (cpu : Nat)
  | active (index : Nat)
  | priority0 (cpu index : Nat)
  | priority (index : Nat)
  | targets0 (cpu index : Nat)
  | targets (index : Nat)
  | config0
  | config1 (cpu : Nat)
  | config (index : Nat)
  | sgiPending (cpu index : Nat)
  | periphId (index : Nat)
  | componentId (index : Nat)
  deriving DecidableEq, Repr

def content (dist : Distributor numNodes) : Cell → Option Register32
  | .control => some dist.control
  | .icType => some dist.icType
  | .distIdent => some dist.distIdent
  | .irqGroup0 cpu => dist.irqGroup0[cpu]?
  | .irqGroup index => dist.irqGroup[index]?
  | .enable0 cpu => dist.enable0[cpu]?
  | .enable index => dist.enable[index]?
  | .pending0 cpu => dist.pending0[cpu]?
  | .pending index => dist.pending[index]?
  | .active0 cpu => dist.active0[cpu]?
  | .active index => dist.active[index]?
  | .priority0 cpu index => (dist.priority0[cpu]?).bind fun bank => bank[index]?
  | .priority index => dist.priority[index]?
  | .targets0 cpu index => (dist.targets0[cpu]?).bind fun bank => bank[index]?
  | .targets index => dist.targets[index]?
  | .config0 => some dist.config0
  | .config1 cpu => dist.config1[cpu]?
  | .config index => dist.config[index]?
  | .sgiPending cpu index => (dist.sgiPending[cpu]?).bind fun bank => bank[index]?
  | .periphId index => dist.periphId[index]?
  | .componentId index => dist.componentId[index]?

/-! ## The laws -/

/-- The registers that hold what is written to them. -/
def Plain : DistRegWord → Prop
  | .igroupr regNum => regNum ≤ 31
  | .ipriorityr regNum => regNum ≤ 254
  | .itargetsr regNum => 8 ≤ regNum ∧ regNum ≤ 254
  | .icfgr regNum => 1 ≤ regNum ∧ regNum ≤ 63
  | _ => False

/-- The cell of such a register for a cpu. -/
def plainCell (cpu : Nat) : DistRegWord → Option Cell
  | .igroupr regNum => some (if regNum = 0 then .irqGroup0 cpu else .irqGroup (regNum - 1))
  | .ipriorityr regNum => some (if regNum < 8 then .priority0 cpu regNum else .priority (regNum - 8))
  | .itargetsr regNum => if regNum < 8 then none else some (.targets (regNum - 8))
  | .icfgr regNum =>
      if regNum = 0 then none
      else some (if regNum = 1 then .config1 cpu else .config (regNum - 2))
  | _ => none

def byte (val : Register32) (place : Nat) : Register32 := (val >>> (8 * place)) &&& 0xFF

/-- A write of the register by a cpu shows in its reads, in those of all cpus if the register is not
banked, and in the query it is for, and changes no other cell. -/
structure Stores (reg : DistRegWord) (nodeIndex : Nat) (val : Register32)
    (before after : Distributor numNodes) : Prop where
  own : handleRead reg.offset nodeIndex .word after = .ok (.word val) after
  shared : ¬ Banked reg → ∀ cpu < numNodes,
    handleRead reg.offset cpu .word after = .ok (.word val) after
  others : ∀ cell, plainCell nodeIndex reg ≠ some cell → after.content cell = before.content cell
  priority : ∀ regNum, reg = .ipriorityr regNum → ∀ place < 4,
    getPriority (4 * regNum + place) nodeIndex after = .ok (byte val place) after
  target : ∀ regNum, reg = .itargetsr regNum → ∀ place < 4, ∀ cpu < numNodes,
    after.isTarget (4 * regNum + place) cpu = some (decide (cpu < 8) && val.getLsbD (8 * place + cpu))

/-! ## Storing -/

/-- One cell is changed. -/
structure Puts (cell : Cell) (val : Register32) (before after : Distributor numNodes) : Prop where
  stored : after.content cell = some val
  others : ∀ other, cell ≠ other → after.content other = before.content other

section Puts
variable {before after : Distributor numNodes} {nodeIndex regNum index n : Nat} {val : Register32}
  {reg : DistRegWord}

/-- An item of a vector is replaced. -/
theorem puts_row {row : Distributor numNodes → Vector Register32 n} {make : Nat → Cell}
    (isRow : ∀ dist index, content dist (make index) = (row dist)[index]?)
    (isSet : row after = (row before).setIfInBounds index val)
    (rest : ∀ cell, (∀ place, make place ≠ cell) → after.content cell = before.content cell)
    (inBounds : index < n) : Puts (make index) val before after := by
  constructor
  · rw [isRow, isSet]
    exact Vector.getElem?_setIfInBounds_self_of_lt inBounds
  · intro other differ
    by_cases inRow : ∃ place, make place = other
    · obtain ⟨place, rfl⟩ := inRow
      have otherPlace : index ≠ place := fun same => differ (congrArg make same)
      rw [isRow, isRow, isSet]
      exact Vector.getElem?_setIfInBounds_ne otherPlace
    · exact rest other fun place same => inRow ⟨place, same⟩

theorem writeIgroupr_puts (isReg : regNum ≤ 31) (isNode : nodeIndex < numNodes) :
    ∃ after, writeIgroupr regNum nodeIndex val before = .ok .noAction after ∧
      Puts (if regNum = 0 then .irqGroup0 nodeIndex else .irqGroup (regNum - 1)) val before after := by
  have loaded : group.load regNum nodeIndex before = some _ := Family.load_eq_some (by omega) isNode
  by_cases isBanked : regNum = 0
  · subst isBanked
    refine ⟨{ before with irqGroup0 := before.irqGroup0.setIfInBounds nodeIndex val }, ?_, ?_⟩
    · simp only [writeIgroupr, Family.update, Exec.bind_eq_ok, Exec.reads_eq_ok]
      exact ⟨(), _, ⟨_, _, ⟨loaded, rfl⟩, rfl⟩, rfl⟩
    · refine puts_row (fun _ _ => rfl) rfl (fun cell other => ?_) isNode
      cases cell <;> first | rfl | exact absurd rfl (other _)
  · refine ⟨{ before with irqGroup := before.irqGroup.setIfInBounds (regNum - 1) val }, ?_, ?_⟩
    · simp only [writeIgroupr, Family.update, Exec.bind_eq_ok, Exec.reads_eq_ok, isBanked, if_false]
      exact ⟨(), _, ⟨_, _, ⟨loaded, rfl⟩, rfl⟩, rfl⟩
    · rw [if_neg isBanked]
      refine puts_row (fun _ _ => rfl) rfl (fun cell other => ?_) (by omega)
      cases cell <;> first | rfl | exact absurd rfl (other _)

theorem writeIpriorityr_puts (isReg : regNum ≤ 254) (isNode : nodeIndex < numNodes) :
    ∃ after, writeIpriorityr regNum nodeIndex val before = .ok .noAction after ∧
      Puts (if regNum < 8 then .priority0 nodeIndex regNum else .priority (regNum - 8)) val before
        after := by
  by_cases isBanked : regNum < 8
  · have loaded : before.priority0[nodeIndex]? = some before.priority0[nodeIndex] :=
      Vector.getElem?_eq_getElem isNode
    refine ⟨{ before with
      priority0 := before.priority0.setIfInBounds nodeIndex
        (before.priority0[nodeIndex].setIfInBounds regNum val) }, ?_, ?_⟩
    · simp [writeIpriorityr, isBanked, loaded]
    · rw [if_pos isBanked]
      constructor
      · simp [content, isNode, isBanked]
      · intro other differ
        cases other with
        | priority0 cpu place =>
            simp only [content, Vector.getElem?_setIfInBounds]
            split
            · next same =>
                subst same
                have otherPlace : regNum ≠ place :=
                  fun same => differ (congrArg (Cell.priority0 nodeIndex) same)
                simp [isNode, otherPlace]
            · rfl
        | _ => rfl
  · have inBounds : regNum - 8 < 247 := by omega
    refine ⟨{ before with priority := before.priority.setIfInBounds (regNum - 8) val }, ?_, ?_⟩
    · simp [writeIpriorityr, isBanked, inBounds]
    · rw [if_neg isBanked]
      refine puts_row (fun _ _ => rfl) rfl (fun cell other => ?_) inBounds
      cases cell <;> first | rfl | exact absurd rfl (other _)

theorem writeIcfgr_puts (low : 1 ≤ regNum) (high : regNum ≤ 63) (isNode : nodeIndex < numNodes) :
    ∃ after, writeIcfgr regNum nodeIndex val before = .ok .noAction after ∧
      Puts (if regNum = 1 then .config1 nodeIndex else .config (regNum - 2)) val before after := by
  have notFirst : regNum ≠ 0 := by omega
  by_cases isBanked : regNum = 1
  · subst isBanked
    refine ⟨{ before with config1 := before.config1.setIfInBounds nodeIndex val }, ?_, ?_⟩
    · simp [writeIcfgr, isNode]
    · refine puts_row (fun _ _ => rfl) rfl (fun cell other => ?_) isNode
      cases cell <;> first | rfl | exact absurd rfl (other _)
  · have inBounds : regNum - 2 < 62 := by omega
    refine ⟨{ before with config := before.config.setIfInBounds (regNum - 2) val }, ?_, ?_⟩
    · simp [writeIcfgr, notFirst, isBanked, inBounds]
    · rw [if_neg isBanked]
      refine puts_row (fun _ _ => rfl) rfl (fun cell other => ?_) inBounds
      cases cell <;> first | rfl | exact absurd rfl (other _)

/-- The sweep after a write to a target register changes nothing more. -/
theorem writeItargetsr_puts {change : Register32 → Register32} {named : Register32}
    (low : 8 ≤ regNum) (high : regNum ≤ 254) (isNode : nodeIndex < numNodes)
    (isVal : change before.targets[regNum - 8] = val) :
    ∃ action after, writeItargetsr regNum change named before = .ok action after ∧
      Puts (.targets (regNum - 8)) val before after := by
  have inBounds : regNum - 8 < 247 := by omega
  have isShared : ¬ regNum < 8 := by omega
  have loaded : before.targets[regNum - 8]? = some before.targets[regNum - 8] :=
    Vector.getElem?_eq_getElem inBounds
  have puts : Puts (.targets (regNum - 8)) val before
      { before with targets := before.targets.setIfInBounds (regNum - 8) val } := by
    refine puts_row (fun _ _ => rfl) rfl (fun cell other => ?_) inBounds
    cases cell <;> first | rfl | exact absurd rfl (other _)
  have stored : ∀ action after, (if clearBits named before.targets[regNum - 8] = 0 then
        pure .noAction else sweepBoth (regNum * 4) 4 : Exec IrqError (Distributor numNodes) _)
        { before with targets := before.targets.setIfInBounds (regNum - 8) val } = .ok action after →
      writeItargetsr regNum change named before = .ok action after := by
    intro action after swept
    rw [writeItargetsr, if_neg isShared]
    simp only [Exec.bind_eq_ok, Exec.reads_eq_ok, Exec.modify_eq_ok]
    exact ⟨_, _, ⟨loaded, rfl⟩, (), _, rfl, by rwa [isVal]⟩
  by_cases noNew : clearBits named before.targets[regNum - 8] = 0
  · exact ⟨.noAction, _, stored _ _ (by rw [if_pos noNew]; rfl), puts⟩
  · obtain ⟨action, swept⟩ := @sweepBoth_returns _
      { before with targets := before.targets.setIfInBounds (regNum - 8) val } (regNum * 4) 4
      (by omega) (by omega)
    exact ⟨action, _, stored _ _ (by rw [if_neg noNew]; exact swept), puts⟩

/-- A write of a plain register returns and stores to its cell. -/
theorem writeWord_puts (isPlain : Plain reg) (isNode : nodeIndex < numNodes) :
    ∃ cell, plainCell nodeIndex reg = some cell ∧
      ∃ action after, writeWord nodeIndex val reg before = .ok action after ∧
        Puts cell val before after := by
  cases reg with
  | igroupr regNum =>
      obtain ⟨after, run, puts⟩ := writeIgroupr_puts isPlain isNode
      exact ⟨_, rfl, _, after, run, puts⟩
  | ipriorityr regNum =>
      obtain ⟨after, run, puts⟩ := writeIpriorityr_puts isPlain isNode
      exact ⟨_, rfl, _, after, run, puts⟩
  | itargetsr regNum =>
      obtain ⟨low, high⟩ := isPlain
      obtain ⟨action, after, run, puts⟩ := writeItargetsr_puts low high isNode rfl
      exact ⟨_, if_neg (by omega), action, after, run, puts⟩
  | icfgr regNum =>
      obtain ⟨low, high⟩ := isPlain
      obtain ⟨after, run, puts⟩ := writeIcfgr_puts low high isNode
      exact ⟨_, if_neg (by omega), _, after, run, puts⟩
  | _ => exact isPlain.elim

end Puts

/-! ## Loading -/

section Loads
variable {before after : Distributor numNodes} {nodeIndex : Nat} {val : Register32}
  {reg : DistRegWord} {cell : Cell}

theorem readWord_plain {cpu : Nat} (isCell : plainCell cpu reg = some cell) :
    readWord cpu reg =
      Exec.reads fun dist : Distributor numNodes => dist.content cell := by
  cases reg with
  | igroupr regNum =>
      obtain rfl := Option.some.inj isCell
      rw [readWord]
      congr
      funext dist
      unfold Family.load
      split <;> rfl
  | ipriorityr regNum =>
      obtain rfl := Option.some.inj isCell
      rw [readWord]
      congr
      funext dist
      split <;> rfl
  | itargetsr regNum =>
      by_cases isBanked : regNum < 8
      · simp [plainCell, isBanked] at isCell
      · rw [plainCell, if_neg isBanked, Option.some_inj] at isCell
        simp only [readWord, isBanked, if_false, ← isCell, content]
  | icfgr regNum =>
      by_cases isFirst : regNum = 0
      · simp [plainCell, isFirst] at isCell
      · rw [plainCell, if_neg isFirst, Option.some_inj] at isCell
        simp only [readWord, isFirst, if_false, ← isCell]
        congr
        funext dist
        split <;> rfl
  | _ => simp [plainCell] at isCell

theorem plainCell_shared {cpu : Nat} (isShared : ¬ Banked reg) :
    plainCell cpu reg = plainCell nodeIndex reg := by
  cases reg with
  | igroupr regNum =>
      have notFirst : regNum ≠ 0 := isShared
      simp [plainCell, notFirst]
  | ipriorityr regNum =>
      have notLow : ¬ regNum < 8 := isShared
      simp [plainCell, notLow]
  | icfgr regNum =>
      have notOne : regNum ≠ 1 := isShared
      simp [plainCell, notOne]
  | _ => rfl

theorem Plain.numbered (isPlain : Plain reg) : reg.Numbered := by
  cases reg with
  | igroupr | ipriorityr => exact Nat.lt_succ_of_le isPlain
  | itargetsr | icfgr => exact Nat.lt_succ_of_le isPlain.2
  | _ => exact isPlain.elim

theorem byte_eq {place : Nat} : (val &&& (0xFF#32 <<< (place * 8))) >>> (place * 8) = byte val place := by
  apply BitVec.eq_of_getLsbD_eq
  intro i inWidth
  have sameShift : place * 8 + i - place * 8 = i := by omega
  have above : ¬ place * 8 + i < place * 8 := by omega
  simp only [byte, BitVec.getLsbD_ushiftRight, BitVec.getLsbD_and, BitVec.getLsbD_shiftLeft, above,
    sameShift, Nat.mul_comm 8 place]
  by_cases inWord : place * 8 + i < 32
  · simp [inWord]
  · have isClear : val.getLsbD (place * 8 + i) = false :=
      BitVec.getLsbD_of_ge _ _ (Nat.le_of_not_lt inWord)
    simp [isClear]

theorem getPriority_eq {regNum place : Nat} (isNode : nodeIndex < numNodes) (inWord : place < 4)
    (isCell : plainCell nodeIndex (.ipriorityr regNum) = some cell)
    (isVal : after.content cell = some val) :
    getPriority (4 * regNum + place) nodeIndex after = .ok (byte val place) after := by
  have sameReg : (4 * regNum + place) / 4 = regNum := by omega
  have samePlace : (4 * regNum + place) % 4 = place := by omega
  have isReg : (if regNum < 8 then (after.priority0[nodeIndex]?).bind fun bank => bank[regNum]?
      else after.priority[regNum - 8]?) = some val := by
    obtain rfl := Option.some.inj isCell
    rw [← isVal]
    split <;> rfl
  rw [getPriority, if_neg (Nat.not_le.mpr isNode), Exec.reads_eq_ok]
  refine ⟨?_, rfl⟩
  simp only [priorityOf, sameReg, samePlace, isReg, Option.map_some, byte_eq]

theorem allOnes_getLsbD (i : Nat) : (0xFF : Register32).getLsbD i = decide (i < 8) :=
  allCpus_getLsbD i

theorem isTarget_eq {regNum place cpu : Nat} (low : 8 ≤ regNum) (inWord : place < 4)
    (isNode : cpu < numNodes) (isVal : after.content (.targets (regNum - 8)) = some val) :
    after.isTarget (4 * regNum + place) cpu =
      some (decide (cpu < 8) && val.getLsbD (8 * place + cpu)) := by
  have sameReg : (4 * regNum + place) / 4 = regNum := by omega
  have samePlace : (4 * regNum + place) % 4 = place := by omega
  have isShared : ¬ 4 * regNum + place < 32 := by omega
  have isReg : after.targets[regNum - 8]? = some val := isVal
  rw [isTarget, if_neg (Nat.not_le.mpr isNode)]
  simp only [isShared, if_false, sameReg, samePlace, isReg, Option.map_some, shift_test,
    BitVec.getLsbD_and, BitVec.getLsbD_ushiftRight, Nat.mul_comm place 8]
  rw [allOnes_getLsbD, Bool.and_comm]

/-- The targets of a shared interrupt are a byte of its register. -/
theorem targetBit_eq {irq cpu : Nat} (isShared : 32 ≤ irq) (atMost : numNodes ≤ 8)
    (isNode : cpu < numNodes) (isVal : after.content (.targets (irq / 4 - 8)) = some val) :
    after.targetBit irq cpu = val.getLsbD (8 * (irq % 4) + cpu) := by
  have isTarget := isTarget_eq (by omega) (Nat.mod_lt irq (by decide)) isNode isVal
  have sameIrq : 4 * (irq / 4) + irq % 4 = irq := by omega
  have less : cpu < 8 := by omega
  rw [sameIrq, decide_eq_true less, Bool.true_and] at isTarget
  rw [targetBit, isTarget, Option.getD_some]

/-- Plain registers hold what was last written to them, and a write that is refused changes nothing. -/
theorem plain_registers (before : Distributor numNodes) (val : Register32) (isPlain : Plain reg)
    (isNode : nodeIndex < numNodes) :
    (∃ action after, handleWrite reg.offset nodeIndex (.word val) before = .ok action after ∧
      Stores reg nodeIndex val before after) ∧
    ∀ offset other error after, handleWrite offset nodeIndex (.word other) before = .err error after →
      after = before := by
  refine ⟨?_, fun offset other error after failed => handleWrite_failsClean _ _ _ failed⟩
  have decodes := fromOffset_offset isPlain.numbered
  obtain ⟨cell, isCell, action, after, run, puts⟩ := writeWord_puts isPlain isNode
  refine ⟨action, after, (handleWrite_word decodes).trans run, ?_⟩
  have shown : ∀ cpu, plainCell cpu reg = some cell →
      handleRead reg.offset cpu .word after = .ok (.word val) after := by
    intro cpu isCell
    rw [handleRead_word decodes, readWord_plain isCell, Exec.reads_eq_ok]
    exact ⟨puts.stored, rfl⟩
  constructor
  · exact shown nodeIndex isCell
  · intro isShared cpu _
    exact shown cpu ((plainCell_shared isShared).trans isCell)
  · intro other differ
    apply puts.others
    rintro rfl
    exact differ isCell
  · rintro regNum rfl place inWord
    exact getPriority_eq isNode inWord isCell puts.stored
  · rintro regNum rfl place inWord cpu isCpu
    have isStored := puts.stored
    rw [plainCell, if_neg (Nat.not_lt.mpr isPlain.1), Option.some_inj] at isCell
    rw [← isCell] at isStored
    exact isTarget_eq isPlain.1 inWord isCpu isStored

theorem plain_registers_first :
    (∃ action after, handleWrite 0x820 0 (.word 1) (new 1) = .ok action after ∧
      Stores (.itargetsr 8) 0 1 (new 1) after) ∧
    ∀ offset other error after, handleWrite offset 0 (.word other) (new 1) = .err error after →
      after = new 1 :=
  @plain_registers 1 0 (.itargetsr 8) (new 1) 1 ⟨by decide, by decide⟩ (by decide)

end Loads

/-! ## Byte writes -/

section Bytes
variable {regNum byteIndex nodeIndex : Nat}

theorem shiftedByte_getLsbD {val : BitVec 8} {i : Nat} (inWidth : i < 32) :
    (val.setWidth 32 <<< (byteIndex * 8)).getLsbD i =
      (decide (i / 8 = byteIndex) && val.getLsbD (i % 8)) := by
  rw [BitVec.getLsbD_shiftLeft, BitVec.getLsbD_setWidth]
  by_cases inByte : i / 8 = byteIndex
  · have above : ¬ i < byteIndex * 8 := by omega
    have place : i - byteIndex * 8 = i % 8 := by omega
    have inWord : i % 8 < 32 := by omega
    simp [inByte, above, place, inWidth, inWord]
  · by_cases below : i < byteIndex * 8
    · simp [inByte, below]
    · have outside : val.getLsbD (i - byteIndex * 8) = false :=
        BitVec.getLsbD_of_ge _ _ (by omega)
      simp [inByte, outside]

/-- One byte is replaced. -/
theorem setByte_getLsbD {reg : Register32} {val : BitVec 8} {i : Nat} (inWidth : i < 32) :
    (setByte reg byteIndex val).getLsbD i =
      if i / 8 = byteIndex then val.getLsbD (i % 8) else reg.getLsbD i := by
  have mask : (0xff#32 <<< (byteIndex * 8)).getLsbD i = decide (i / 8 = byteIndex) := by
    have ones : (0xff#8).getLsbD (i % 8) = true := by
      rw [show 0xff#8 = BitVec.allOnes 8 from rfl, BitVec.getLsbD_allOnes]
      exact decide_eq_true (by omega)
    have shifted := @shiftedByte_getLsbD byteIndex 0xff#8 i inWidth
    rw [ones, Bool.and_true] at shifted
    exact shifted
  simp only [setByte, BitVec.getLsbD_or, BitVec.getLsbD_and, BitVec.getLsbD_not, mask,
    shiftedByte_getLsbD inWidth, inWidth, decide_true, Bool.true_and]
  by_cases inByte : i / 8 = byteIndex <;> simp [inByte]

/-- The byte names the same new targets as the word. -/
theorem newTargets_byte {prev : Register32} {val : BitVec 8} :
    clearBits (val.setWidth 32 <<< (byteIndex * 8)) prev =
      clearBits (setByte prev byteIndex val) prev := by
  apply BitVec.eq_of_getLsbD_eq
  intro i inWidth
  simp only [clearBits, BitVec.getLsbD_and, BitVec.getLsbD_not, inWidth, decide_true, Bool.true_and,
    shiftedByte_getLsbD inWidth, setByte_getLsbD inWidth]
  by_cases inByte : i / 8 = byteIndex <;> simp [inByte]

/-- A write of a byte, as one of the word. -/
theorem writeItargetsr_byte {dist : Distributor numNodes} {val : BitVec 8} (low : 8 ≤ regNum)
    (high : regNum ≤ 254) :
    writeItargetsr regNum (fun reg => setByte reg byteIndex val)
        (val.setWidth 32 <<< (byteIndex * 8)) dist =
      writeItargetsr regNum (fun _ => setByte dist.targets[regNum - 8] byteIndex val)
        (setByte dist.targets[regNum - 8] byteIndex val) dist := by
  have isShared : ¬ regNum < 8 := by omega
  have inBounds : regNum - 8 < 247 := by omega
  have loaded : dist.targets[regNum - 8]? = some dist.targets[regNum - 8] :=
    Vector.getElem?_eq_getElem inBounds
  rw [writeItargetsr, writeItargetsr, if_neg isShared, if_neg isShared]
  simp [Bind.bind, Exec.reads, loaded, newTargets_byte, Exec.modify]

theorem fromOffset_byte (high : regNum ≤ 254) (inWord : byteIndex ≤ 3) :
    DistRegByte.fromOffset (0x800 + 4 * regNum + byteIndex) =
      if regNum = 254 ∧ byteIndex ≠ 0 then none else some (.itargetsr regNum byteIndex) := by
  have above : ¬ 0x800 + 4 * regNum + byteIndex ≤ 0x7F8 := by omega
  have isReg : (0x800 + 4 * regNum + byteIndex - 0x800) / 4 = regNum := by omega
  have isByte : (0x800 + 4 * regNum + byteIndex - 0x800) % 4 = byteIndex := by omega
  have inRange : regNum < 256 := by omega
  have isIndex : byteIndex < 4 := by omega
  unfold DistRegByte.fromOffset
  simp only [above, and_false, if_false]
  by_cases past : regNum = 254 ∧ byteIndex ≠ 0
  · have outside : ¬ (0x800 ≤ 0x800 + 4 * regNum + byteIndex ∧
        0x800 + 4 * regNum + byteIndex ≤ 0xBF8) := by omega
    have noCpend : ¬ 0xF10 ≤ 0x800 + 4 * regNum + byteIndex := by omega
    have noSpend : ¬ 0xF20 ≤ 0x800 + 4 * regNum + byteIndex := by omega
    rw [if_pos past, if_neg outside, if_neg fun range => noCpend range.1,
      if_neg fun range => noSpend range.1]
  · have inside : 0x800 ≤ 0x800 + 4 * regNum + byteIndex ∧
        0x800 + 4 * regNum + byteIndex ≤ 0xBF8 := by omega
    rw [if_neg past, if_pos inside]
    simp only [calcRegNum, calcRegByteOffset, isReg, isByte, inRange, isIndex, if_true]
    rfl

/-- A byte write does what a word write of the register with that byte replaced does, except for the
last three bytes. -/
theorem byte_write_iff (dist : Distributor numNodes) (val : BitVec 8) (low : 8 ≤ regNum)
    (high : regNum ≤ 254) (isNode : nodeIndex < numNodes) (inWord : byteIndex ≤ 3) :
    ∃ current, handleRead (0x800 + 4 * regNum) nodeIndex .word dist = .ok (.word current) dist ∧
      (handleWrite (0x800 + 4 * regNum + byteIndex) nodeIndex (.byte val) dist =
          handleWrite (0x800 + 4 * regNum) nodeIndex (.word (setByte current byteIndex val)) dist ↔
        ¬ (regNum = 254 ∧ byteIndex ≠ 0)) := by
  have isPlain : Plain (.itargetsr regNum) := ⟨low, high⟩
  have decodes : DistRegWord.fromOffset (0x800 + 4 * regNum) = some (.itargetsr regNum) :=
    fromOffset_offset isPlain.numbered
  have isShared : ¬ regNum < 8 := by omega
  have inBounds : regNum - 8 < 247 := by omega
  have loaded : dist.targets[regNum - 8]? = some dist.targets[regNum - 8] :=
    Vector.getElem?_eq_getElem inBounds
  refine ⟨dist.targets[regNum - 8], ?_, ?_⟩
  · simp [handleRead, decodes, readWord, isShared, loaded]
  have wordWrite : ∀ word, handleWrite (0x800 + 4 * regNum) nodeIndex (.word word) dist =
      writeItargetsr regNum (fun _ => word) word dist := fun word =>
    handleWrite_word (fromOffset_offset isPlain.numbered)
  rw [wordWrite]
  by_cases past : regNum = 254 ∧ byteIndex ≠ 0
  · refine iff_of_false ?_ (not_not_intro past)
    obtain ⟨action, after, run, _⟩ := @writeItargetsr_puts _ dist nodeIndex regNum _
      (fun _ => setByte dist.targets[regNum - 8] byteIndex val)
      (setByte dist.targets[regNum - 8] byteIndex val) low high isNode rfl
    have decodesByte := fromOffset_byte high inWord
    rw [if_pos past] at decodesByte
    rw [run]
    simp [handleWrite, decodesByte, Exec.unwrap, Bind.bind]
  · refine iff_of_true ?_ past
    have decodesByte := fromOffset_byte high inWord
    rw [if_neg past] at decodesByte
    have byteWrite : handleWrite (0x800 + 4 * regNum + byteIndex) nodeIndex (.byte val) dist =
        writeItargetsr regNum (fun reg => setByte reg byteIndex val)
          (val.setWidth 32 <<< (byteIndex * 8)) dist := by
      simp [handleWrite, decodesByte, Exec.unwrap, Bind.bind, writeByte]
    rw [byteWrite, writeItargetsr_byte low high]

theorem byte_write_iff_first :
    ∃ current, handleRead (0x800 + 4 * 8) 0 .word (new 1) = .ok (.word current) (new 1) ∧
      (handleWrite (0x800 + 4 * 8 + 1) 0 (.byte 1) (new 1) =
          handleWrite (0x800 + 4 * 8) 0 (.word (setByte current 1 1)) (new 1) ↔
        ¬ (8 = 254 ∧ 1 ≠ 0)) :=
  byte_write_iff (new 1) 1 (by decide) (by decide) (by decide) (by decide)

/-- The second byte of the last register is past the end of the byte registers. -/
theorem last_byte_panics :
    handleRead 0xBF8 0 .word (new 1) = .ok (.word 0x01010101) (new 1) ∧
      handleWrite 0xBF9 0 (.byte 1) (new 1) = .panic ∧
      handleWrite 0xBF8 0 (.word (setByte 0x01010101 1 1)) (new 1) ≠ .panic := by
  refine ⟨rfl, rfl, ?_⟩
  have numbered : (DistRegWord.itargetsr 254).Numbered := by
    unfold DistRegWord.Numbered
    decide
  have decodes : DistRegWord.fromOffset 0xBF8 = some (.itargetsr 254) :=
    fromOffset_offset numbered
  have returns : (writeItargetsr 254 (fun _ => setByte 0x01010101 1 1) (setByte 0x01010101 1 1) :
      Exec IrqError (Distributor 1) WriteAction) (new 1) ≠ .panic :=
    writeItargetsr_ne_panic (by decide) (by decide)
  simpa [handleWrite, decodes, Exec.unwrap, Bind.bind, writeWord] using returns

end Bytes

end IceCap.Gic.Distributor
