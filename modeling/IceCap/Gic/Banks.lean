import IceCap.Gic.Ack

/-!
# Banked registers

Each cpu has registers of its own.  A write goes to those of the writing cpu,
but the sweep that may follow it goes over all cpus: it acknowledges and injects
interrupts of the other cpus as well.
-/

set_option autoImplicit false

namespace IceCap.Gic.Distributor

open IceCap.Library

variable {numNodes : Nat} {dist before middle after : Distributor numNodes} {irq cpu node : Nat}

/-! ## The bank of a cpu -/

/-- The registers that have one instance for each cpu and that can be written. -/
def Banked : DistRegWord → Prop
  | .igroupr regNum | .isenabler regNum | .icenabler regNum | .ispendr regNum | .icpendr regNum
  | .isactiver regNum | .icactiver regNum => regNum = 0
  | .ipriorityr regNum => regNum < 8
  | .icfgr regNum => regNum = 1
  | .cpendsgir _ | .spendsgir _ => True
  | _ => False

/-- The cpu reads the same values from its own registers. -/
def SameReads (cpu : Nat) (before after : Distributor numNodes) : Prop :=
  ∀ offset reg, DistRegWord.fromOffset offset = some reg → Banked reg → ∀ data,
    handleRead offset cpu .word before = .ok data before ↔
      handleRead offset cpu .word after = .ok data after

/-- What neither an acknowledgement nor an injection changes. -/
def settings (cpu : Nat) (dist : Distributor numNodes) :=
  (dist.control, dist.irqGroup0[cpu]?, dist.enable0[cpu]?, dist.priority0[cpu]?,
    dist.targets0[cpu]?, dist.config1[cpu]?)

/-- The pending and the active bits of a cpu and the sources of its SGIs are the same. -/
structure SameBank (cpu : Nat) (before after : Distributor numNodes) : Prop where
  pending : ∀ irq < 32, pendings.bit after irq cpu = pendings.bit before irq cpu
  active : ∀ irq < 32, actives.bit after irq cpu = actives.bit before irq cpu
  sources : ∀ regNum, after.sgiWord regNum cpu = before.sgiWord regNum cpu

theorem SameBank.refl (dist : Distributor numNodes) : SameBank cpu dist dist :=
  ⟨fun _ _ => rfl, fun _ _ => rfl, fun _ => rfl⟩

theorem SameBank.trans (first : SameBank cpu before middle) (second : SameBank cpu middle after) :
    SameBank cpu before after where
  pending irq isBanked := (second.pending irq isBanked).trans (first.pending irq isBanked)
  active irq isBanked := (second.active irq isBanked).trans (first.active irq isBanked)
  sources regNum := (second.sources regNum).trans (first.sources regNum)

theorem SameBank.symm (same : SameBank cpu before after) : SameBank cpu after before where
  pending irq isBanked := (same.pending irq isBanked).symm
  active irq isBanked := (same.active irq isBanked).symm
  sources regNum := (same.sources regNum).symm

theorem Family.bit_eq_getLsbD {family : Family numNodes} (isNode : cpu < numNodes) (isBanked : irq < 32) :
    family.bit dist irq cpu = ((family.banked dist)[cpu]?.getD 0).getLsbD irq := by
  have noRegister : irq / 32 = 0 := Nat.div_eq_of_lt isBanked
  simp only [bit, word, load, noRegister, isNode, decide_true, Bool.true_and, if_true,
    Nat.mod_eq_of_lt isBanked]

theorem Family.banked_eq_iff {family : Family numNodes} (isNode : cpu < numNodes) :
    (family.banked after)[cpu]? = (family.banked before)[cpu]? ↔
      ∀ irq < 32, family.bit after irq cpu = family.bit before irq cpu := by
  constructor
  · intro same irq isBanked
    rw [bit_eq_getLsbD isNode isBanked, bit_eq_getLsbD isNode isBanked, same]
  · intro same
    rw [Vector.getElem?_eq_getElem isNode, Vector.getElem?_eq_getElem isNode, Option.some_inj]
    apply BitVec.eq_of_getLsbD_eq
    intro irq isBanked
    have sameBit := same irq isBanked
    rw [bit_eq_getLsbD isNode isBanked, bit_eq_getLsbD isNode isBanked,
      Vector.getElem?_eq_getElem isNode, Vector.getElem?_eq_getElem isNode] at sameBit
    exact sameBit

theorem sgiPending_eq_iff (isNode : cpu < numNodes) :
    after.sgiPending[cpu]? = before.sgiPending[cpu]? ↔
      ∀ regNum, after.sgiWord regNum cpu = before.sgiWord regNum cpu := by
  constructor
  · intro same regNum
    rw [sgiWord, sgiWord, same]
  · intro same
    rw [Vector.getElem?_eq_getElem isNode, Vector.getElem?_eq_getElem isNode, Option.some_inj]
    apply Vector.ext
    intro regNum isReg
    simpa [sgiWord, Vector.getElem?_eq_getElem isNode, Vector.getElem?_eq_getElem isReg]
      using same regNum

section Reads
variable {reg : DistRegWord} {content : Distributor numNodes → Option Register32}

theorem handleRead_eq_ok {offset : Nat} {data : FaultData}
    (isReg : DistRegWord.fromOffset offset = some reg) (reads : readWord cpu reg = Exec.reads content) :
    handleRead offset cpu .word dist = .ok data dist ↔
      ∃ val, content dist = some val ∧ data = .word val := by
  simp only [handleRead, isReg, Exec.bind_eq_ok, Exec.unwrap_eq_ok, Exec.pure_eq_ok,
    Option.some.injEq]
  constructor
  · rintro ⟨_, _, ⟨rfl, rfl⟩, val, _, isVal, rfl, rfl⟩
    rw [reads, Exec.reads_eq_ok] at isVal
    exact ⟨val, isVal.1, rfl⟩
  · rintro ⟨val, isVal, rfl⟩
    refine ⟨reg, dist, ⟨rfl, rfl⟩, val, dist, ?_, rfl, rfl⟩
    rw [reads, Exec.reads_eq_ok]
    exact ⟨isVal, rfl⟩

theorem SameReads.of_reads (same : SameReads cpu before after) (offset : Nat) (reg : DistRegWord)
    (isReg : DistRegWord.fromOffset offset = some reg) (isBanked : Banked reg)
    (reads : readWord cpu reg = Exec.reads content) : content after = content before := by
  apply Option.ext
  intro val
  have sameVal := same offset reg isReg isBanked (.word val)
  rw [handleRead_eq_ok isReg reads, handleRead_eq_ok isReg reads] at sameVal
  simpa [eq_comm] using sameVal.symm

/-- What a cpu reads from its own registers is in its settings and its bank. -/
theorem readWord_banked (isNode : cpu < numNodes) (isBanked : Banked reg) :
    ∃ content : Distributor numNodes → Option Register32, readWord cpu reg = Exec.reads content ∧
      ∀ before after, settings cpu after = settings cpu before → SameBank cpu before after →
        content after = content before := by
  cases reg with
  | igroupr | isenabler | icenabler =>
      obtain rfl : _ = 0 := isBanked
      refine ⟨_, rfl, fun before after sameSettings _ => ?_⟩
      simp only [settings, Prod.mk.injEq] at sameSettings
      simp [Family.load, readEnable, group, enables, sameSettings]
  | ispendr | icpendr =>
      obtain rfl : _ = 0 := isBanked
      exact ⟨_, rfl, fun before after _ same => (Family.banked_eq_iff isNode).mpr same.pending⟩
  | isactiver | icactiver =>
      obtain rfl : _ = 0 := isBanked
      exact ⟨_, rfl, fun before after _ same => (Family.banked_eq_iff isNode).mpr same.active⟩
  | ipriorityr regNum =>
      have isReg : regNum < 8 := isBanked
      refine ⟨_, rfl, fun before after sameSettings _ => ?_⟩
      simp only [settings, Prod.mk.injEq] at sameSettings
      simp [isReg, sameSettings]
  | icfgr =>
      obtain rfl : _ = 1 := isBanked
      refine ⟨_, rfl, fun before after sameSettings _ => ?_⟩
      simp only [settings, Prod.mk.injEq] at sameSettings
      simp [sameSettings]
  | cpendsgir | spendsgir =>
      refine ⟨_, rfl, fun before after _ same => ?_⟩
      rw [(sgiPending_eq_iff isNode).mpr same.sources]
  | _ => exact isBanked.elim

theorem sgiWord_past_end {regNum : Nat} (outside : 4 ≤ regNum) : dist.sgiWord regNum cpu = 0 := by
  unfold sgiWord
  cases dist.sgiPending[cpu]? with
  | none => rfl
  | some bank => rw [Option.bind_some, Vector.getElem?_eq_none outside, Option.getD_none]

theorem cpendsgir_offset {regNum : Nat} (isReg : regNum < 4) :
    DistRegWord.fromOffset (0xF10 + 4 * regNum) = some (.cpendsgir regNum) := by
  have numbered : (DistRegWord.cpendsgir regNum).Numbered := isReg
  exact fromOffset_offset numbered

theorem sameReads_iff (isNode : cpu < numNodes) (sameSettings : settings cpu after = settings cpu before) :
    SameReads cpu before after ↔ SameBank cpu before after := by
  constructor
  · intro same
    refine ⟨?_, ?_, fun regNum => ?_⟩
    · apply (Family.banked_eq_iff isNode).mp
      exact same.of_reads 0x200 (.ispendr 0) rfl rfl rfl
    · apply (Family.banked_eq_iff isNode).mp
      exact same.of_reads 0x300 (.isactiver 0) rfl rfl rfl
    · by_cases isReg : regNum < 4
      · have sameContent := same.of_reads _ _ (cpendsgir_offset isReg) trivial rfl
        rw [sgiWord, sgiWord, sameContent]
      · rw [sgiWord_past_end (Nat.le_of_not_lt isReg), sgiWord_past_end (Nat.le_of_not_lt isReg)]
  · intro same offset reg isReg isBanked data
    obtain ⟨content, reads, sameContent⟩ := readWord_banked isNode isBanked
    rw [handleRead_eq_ok isReg reads, handleRead_eq_ok isReg reads,
      sameContent before after sameSettings same]

end Reads

/-! ## Writes by another cpu -/

/-- All registers of a cpu. -/
def bank (cpu : Nat) (dist : Distributor numNodes) :=
  (settings cpu dist, dist.pending0[cpu]?, dist.active0[cpu]?, dist.sgiPending[cpu]?)

theorem sameBank_of_bank (isNode : cpu < numNodes) (same : bank cpu after = bank cpu before) :
    settings cpu after = settings cpu before ∧ SameBank cpu before after := by
  simp only [bank, Prod.mk.injEq] at same
  obtain ⟨sameSettings, samePending, sameActive, sameSources⟩ := same
  exact ⟨sameSettings, (Family.banked_eq_iff isNode).mp samePending,
    (Family.banked_eq_iff isNode).mp sameActive, (sgiPending_eq_iff isNode).mp sameSources⟩

section Writes
variable {regNum nodeIndex : Nat}

/-- Only the bank a family stores to is affected. -/
def Family.LeavesBank (family : Family numNodes) (cpu : Nat) : Prop :=
  ∀ regs0 regs dist, regs0[cpu]? = (family.banked dist)[cpu]? →
    bank cpu (family.put regs0 regs dist) = bank cpu dist

theorem group_leavesBank : (group : Family numNodes).LeavesBank cpu := by
  intro regs0 regs dist same
  simp only [group] at same
  simp [bank, settings, group, same]

theorem enables_leavesBank : (enables : Family numNodes).LeavesBank cpu := by
  intro regs0 regs dist same
  simp only [enables] at same
  simp [bank, settings, enables, same]

theorem pendings_leavesBank : (pendings : Family numNodes).LeavesBank cpu := by
  intro regs0 regs dist same
  simp only [pendings] at same
  simp [bank, settings, pendings, same]

theorem actives_leavesBank : (actives : Family numNodes).LeavesBank cpu := by
  intro regs0 regs dist same
  simp only [actives] at same
  simp [bank, settings, actives, same]

theorem Family.update_bank {family : Family numNodes} {change : Register32 → Register32}
    (leaves : family.LeavesBank cpu) (elsewhere : nodeIndex ≠ cpu) :
    Exec.Keeps (bank cpu) (family.update regNum nodeIndex change) := by
  refine (Exec.Keeps.reads _).bind fun reg => .modify fun dist => ?_
  split
  · exact leaves _ _ dist (Vector.getElem?_setIfInBounds_ne elsewhere)
  · exact leaves _ _ dist rfl

theorem Family.updateBit_bank {family : Family numNodes}
    {change : Register32 → Register32 → Register32} (leaves : family.LeavesBank cpu)
    (elsewhere : nodeIndex ≠ cpu) :
    Exec.Keeps (bank cpu) (family.updateBit irq nodeIndex change) :=
  .ite (.fail _) (family.update_bank leaves elsewhere)

theorem updateSgiPending_bank {change : Register32 → Register32} (elsewhere : nodeIndex ≠ cpu) :
    Exec.Keeps (bank cpu) (updateSgiPending regNum nodeIndex change :
      Exec IrqError (Distributor numNodes) Register32) := by
  refine (Exec.Keeps.reads _).bind fun sources => (Exec.Keeps.unwrap _).bind fun prev =>
    (Exec.Keeps.modify fun dist => ?_).bind fun _ => .pure _
  simp [bank, settings, Vector.getElem?_setIfInBounds_ne elsewhere]

/-- A write to any register but the control register and `GICD_SGIR` goes to no other bank. -/
theorem writeWord_bank {val : Register32} {reg : DistRegWord} (notCtlr : reg ≠ .ctlr)
    (notSgir : reg ≠ .sgir) (elsewhere : nodeIndex ≠ cpu) :
    Exec.Keeps (bank cpu) (writeWord nodeIndex val reg :
      Exec IrqError (Distributor numNodes) WriteAction) := by
  cases reg with
  | ctlr => exact absurd rfl notCtlr
  | sgir => exact absurd rfl notSgir
  | igroupr => exact (group.update_bank group_leavesBank elsewhere).bind fun _ => .pure _
  | isenabler =>
      exact .ite (.pure _) ((enables.update_bank enables_leavesBank elsewhere).bind fun _ =>
        sweepBoth_keeps)
  | icenabler =>
      exact .ite (.pure _) ((enables.update_bank enables_leavesBank elsewhere).bind fun _ => .pure _)
  | ispendr =>
      exact .ite (.pure _) (.ite (.pure _) ((pendings.update_bank pendings_leavesBank elsewhere).bind
        fun _ => (Exec.Keeps.reads _).bind fun _ => .pure _))
  | icpendr =>
      exact .ite (.pure _) (.ite (.fail _) ((pendings.update_bank pendings_leavesBank elsewhere).bind
        fun _ => .pure _))
  | isactiver | icactiver =>
      exact .ite (.pure _) ((actives.update_bank actives_leavesBank elsewhere).bind fun _ => .pure _)
  | ipriorityr =>
      refine .ite ?_ ?_
      · refine (Exec.Keeps.reads _).bind fun _ => (Exec.Keeps.unwrap _).bind fun _ =>
          (Exec.Keeps.modify fun dist => ?_).bind fun _ => .pure _
        simp [bank, settings, Vector.getElem?_setIfInBounds_ne elsewhere]
      · refine (Exec.Keeps.reads _).bind fun _ =>
          (Exec.Keeps.modify fun dist => ?_).bind fun _ => .pure _
        rfl
  | itargetsr => exact writeItargetsr_keeps fun _ _ => rfl
  | icfgr =>
      refine .ite (.pure _) (.ite ?_ ?_)
      · refine (Exec.Keeps.reads _).bind fun _ =>
          (Exec.Keeps.modify fun dist => ?_).bind fun _ => .pure _
        simp [bank, settings, Vector.getElem?_setIfInBounds_ne elsewhere]
      · refine (Exec.Keeps.reads _).bind fun _ =>
          (Exec.Keeps.modify fun dist => ?_).bind fun _ => .pure _
        rfl
  | cpendsgir =>
      exact .ite (.pure _) ((updateSgiPending_bank elsewhere).bind fun _ =>
        (forSgiBytes_keeps fun _ _ => .ite
          (.orPanic (pendings.updateBit_bank pendings_leavesBank elsewhere)) (.pure _)).bind
          fun _ => .pure _)
  | spendsgir =>
      exact .ite (.pure _) ((updateSgiPending_bank elsewhere).bind fun _ =>
        (forSgiBytes_keeps fun _ _ => .ite
          (.orPanic (pendings.updateBit_bank pendings_leavesBank elsewhere)) (.pure _)).bind
          fun _ => (Exec.Keeps.reads _).bind fun _ => .pure _)
  | iidr | typer | nsacr | icpidr | iccidr => exact .fail _

end Writes

/-! ## Acknowledgements -/

section Acks
variable {other : Nat}

/-- An acknowledgement of the interrupt has no effect. -/
def Acked (dist : Distributor numNodes) (irq cpu : Nat) : Prop :=
  actives.bit dist irq cpu = false ∧
    (irq < 16 → (dist.sgiWord (irq / 4) cpu).getLsbD ((irq % 4) * 8) = false) ∧
    (¬ dist.OtherSource irq cpu → pendings.bit dist irq cpu = false)

instance (dist : Distributor numNodes) (irq cpu : Nat) : Decidable (dist.Acked irq cpu) := by
  unfold Acked
  infer_instance

theorem clearBits_getLsbD {reg : Register32} {place i : Nat} :
    (clearBits reg (1#32 <<< place)).getLsbD i = (reg.getLsbD i && !decide (i = place)) := by
  by_cases inside : i < 32
  · have isPlace : (1#32 <<< place).getLsbD i = decide (i = place) := by
      rw [BitVec.getLsbD_shiftLeft, BitVec.getLsbD_one, Bool.eq_iff_iff]
      simp only [inside, decide_true, Bool.true_and, Bool.and_eq_true, Bool.not_eq_true',
        decide_eq_false_iff_not, decide_eq_true_eq]
      omega
    rw [clearBits, BitVec.getLsbD_and, BitVec.getLsbD_not, isPlace]
    simp [inside]
  · simp [BitVec.getLsbD_of_ge _ _ (Nat.le_of_not_lt inside)]

theorem ack_settings (run : ack irq node before = .ok () after) :
    settings cpu after = settings cpu before :=
  ack_keeps (fun _ _ _ => rfl) (fun _ _ _ => rfl) (fun _ _ => rfl) _ _ _ run

/-- Of the sources of SGIs only cpu 0 is affected. -/
theorem ack_otherSource (run : ack irq node before = .ok () after) :
    after.OtherSource other cpu ↔ before.OtherSource other cpu := by
  obtain ⟨_, _, words, _⟩ := ack_eq_ok run
  have sameBit : ∀ source, 0 < source → source < 8 →
      (after.sgiWord (other / 4) cpu).getLsbD ((other % 4) * 8 + source) =
        (before.sgiWord (other / 4) cpu).getLsbD ((other % 4) * 8 + source) := by
    intro source positive below
    rw [words]
    split
    · have differ : (other % 4) * 8 + source ≠ (irq % 4) * 8 := by omega
      rw [clearBits_getLsbD, decide_eq_false differ, Bool.not_false, Bool.and_true]
    · rfl
  constructor
  · rintro ⟨isSgi, source, positive, below, isSet⟩
    exact ⟨isSgi, source, positive, below, sameBit source positive below ▸ isSet⟩
  · rintro ⟨isSgi, source, positive, below, isSet⟩
    exact ⟨isSgi, source, positive, below, (sameBit source positive below).symm ▸ isSet⟩

theorem ack_acked (run : ack irq node before = .ok () after) : after.Acked irq node := by
  obtain ⟨_, activeBits, words, _, lost⟩ := ack_eq_ok run
  refine ⟨?_, fun isSgi => ?_, fun noSource => ?_⟩
  · rw [activeBits, if_pos ⟨rfl, fun _ => rfl⟩]
  · rw [words, if_pos ⟨isSgi, rfl, rfl⟩, clearBits_getLsbD]
    simp
  · rw [lost ((ack_otherSource run).not.mp noSource), if_pos ⟨rfl, fun _ => rfl⟩]

theorem Acked.stays (acked : before.Acked other cpu) (run : ack irq node before = .ok () after) :
    after.Acked other cpu := by
  obtain ⟨_, activeBits, words, kept, lost⟩ := ack_eq_ok run
  obtain ⟨notActive, notFirst, notPending⟩ := acked
  refine ⟨?_, fun isSgi => ?_, fun noSource => ?_⟩
  · rw [activeBits, notActive, ite_self]
  · rw [words]
    split
    · rw [clearBits_getLsbD, notFirst isSgi, Bool.false_and]
    · exact notFirst isSgi
  · have wasClear := notPending ((ack_otherSource run).not.mp noSource)
    by_cases isSource : before.OtherSource irq node
    · rw [kept isSource, wasClear]
    · rw [lost isSource, wasClear, ite_self]

theorem Acked.sameBank (acked : before.Acked irq node) (run : ack irq node before = .ok () after) :
    SameBank cpu before after := by
  obtain ⟨_, activeBits, words, kept, lost⟩ := ack_eq_ok run
  obtain ⟨notActive, notFirst, notPending⟩ := acked
  have here : ∀ other < 32, Family.SameBit irq node other cpu → other = irq ∧ cpu = node :=
    fun other isBanked same =>
      ⟨same.1, same.2 (Nat.div_eq_of_lt (same.1 ▸ isBanked))⟩
  refine ⟨fun other isBanked => ?_, fun other isBanked => ?_, fun regNum => ?_⟩
  · by_cases isSource : before.OtherSource irq node
    · rw [kept isSource]
    · rw [lost isSource]
      split
      · next same =>
          obtain ⟨rfl, rfl⟩ := here other isBanked same
          rw [notPending isSource]
      · rfl
  · rw [activeBits]
    split
    · next same =>
        obtain ⟨rfl, rfl⟩ := here other isBanked same
        rw [notActive]
    · rfl
  · rw [words]
    split
    · next same =>
        obtain ⟨isSgi, rfl, rfl⟩ := same
        apply BitVec.eq_of_getLsbD_eq
        intro i _
        rw [clearBits_getLsbD]
        by_cases isPlace : i = (irq % 4) * 8
        · rw [isPlace, notFirst isSgi, Bool.false_and]
        · rw [decide_eq_false isPlace, Bool.not_false, Bool.and_true]
    · rfl

/-- An acknowledgement for another cpu, or of a shared interrupt. -/
theorem ack_elsewhere (elsewhere : irq < 32 → node ≠ cpu) (run : ack irq node before = .ok () after) :
    SameBank cpu before after := by
  obtain ⟨_, activeBits, words, kept, lost⟩ := ack_eq_ok run
  have differ : ∀ other < 32, ¬ Family.SameBit irq node other cpu := by
    rintro other isBanked ⟨rfl, sees⟩
    exact elsewhere isBanked (sees (Nat.div_eq_of_lt isBanked)).symm
  refine ⟨fun other isBanked => ?_, fun other isBanked => ?_, fun regNum => ?_⟩
  · by_cases isSource : before.OtherSource irq node
    · rw [kept isSource]
    · rw [lost isSource, if_neg (differ other isBanked)]
  · rw [activeBits, if_neg (differ other isBanked)]
  · rw [words, if_neg]
    rintro ⟨isSgi, _, isCpu⟩
    exact elsewhere (by omega) isCpu.symm

end Acks

/-! ## What depends on the bank only -/

section Congr

theorem SameBank.acked (same : SameBank cpu before after) (isBanked : irq < 32) :
    after.Acked irq cpu ↔ before.Acked irq cpu := by
  simp only [Acked, OtherSource, same.pending irq isBanked, same.active irq isBanked, same.sources]

theorem enabled_of_settings (sameSettings : settings cpu after = settings cpu before)
    (isBanked : irq < 32) : enables.bit after irq cpu = enables.bit before irq cpu := by
  simp only [settings, Prod.mk.injEq] at sameSettings
  have noRegister : irq / 32 = 0 := Nat.div_eq_of_lt isBanked
  simp [Family.bit, Family.word, Family.load, noRegister, enables, sameSettings]

theorem SameBank.deliverable (same : SameBank cpu before after)
    (sameSettings : settings cpu after = settings cpu before) (isBanked : irq < 32) :
    after.deliverable irq cpu = before.deliverable irq cpu := by
  have sameEnabled := enabled_of_settings sameSettings isBanked
  simp only [settings, Prod.mk.injEq] at sameSettings
  obtain ⟨sameControl, _, _, _, sameTargets, _⟩ := sameSettings
  have sameTarget : after.targetBit irq cpu = before.targetBit irq cpu := by
    simp [targetBit, isTarget, isBanked, sameTargets]
  simp only [Distributor.deliverable, isGicEnabled, sameControl, sameEnabled, sameTarget,
    same.pending irq isBanked, same.active irq isBanked]

end Congr

end IceCap.Gic.Distributor
