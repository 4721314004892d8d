import IceCap.Gic.Distributor

/-!
# The bits of the distributor

The registers seen as one bit for each interrupt and cpu.  `Family.update` says
once what a register write does to these bits, and the operations on single
interrupts and the tests follow.
-/

set_option autoImplicit false

namespace IceCap.Gic.Distributor

open IceCap.Library

variable {numNodes : Nat}

theorem shift_test (reg : Register32) (shift : Nat) :
    ((reg >>> shift) &&& 1 == 1) = reg.getLsbD shift := by
  rw [Bool.eq_iff_iff, beq_iff_eq]
  constructor
  · intro isOne
    have lowest := congrArg (fun word => word.getLsbD 0) isOne
    simpa using lowest
  · intro isSet
    apply BitVec.eq_of_getLsbD_eq
    intro i below
    cases i with
    | zero => simpa using isSet
    | succ i => simp [BitVec.getLsbD_one]

namespace Family

variable {family : Family numNodes} {dist final : Distributor numNodes}

def word (family : Family numNodes) (regNum : Nat) (cpu : Cpu) (dist : Distributor numNodes) :
    Register32 :=
  (family.load regNum cpu dist).getD 0

/-- The bit of an interrupt as a cpu sees it. -/
def bit (family : Family numNodes) (dist : Distributor numNodes) (irq : Irq) (cpu : Cpu) : Bool :=
  decide (cpu < numNodes) && (family.word (irq / 32) cpu dist).getLsbD (irq % 32)

theorem load_eq_some {regNum nodeIndex : Nat} (isReg : regNum < 32) (isNode : nodeIndex < numNodes) :
    family.load regNum nodeIndex dist = some (family.word regNum nodeIndex dist) := by
  unfold word load
  split
  · rw [Vector.getElem?_eq_getElem isNode]
    rfl
  · rw [Vector.getElem?_eq_getElem (by omega)]
    rfl

theorem test_eq_some {irq cpu : Nat} (isIrq : irq < 1024) :
    family.test dist irq cpu = some (family.bit dist irq cpu) := by
  unfold test bit
  split
  · next outside => simp [Nat.not_lt.mpr outside]
  · next inside =>
      have isNode : cpu < numNodes := Nat.lt_of_not_ge inside
      have loaded : (if irq < 32 then (family.banked dist)[cpu]?
          else (family.shared dist)[irq / 32 - 1]?) = some (family.word (irq / 32) cpu dist) := by
        rw [← load_eq_some (by omega) isNode, load]
        by_cases isBanked : irq < 32
        · rw [if_pos isBanked, if_pos (by omega)]
        · rw [if_neg isBanked, if_neg (by omega)]
      simp only [loaded, Option.map_some, isNode, decide_true, Bool.true_and, shift_test]

/-- Whether a cpu sees what a write by another one changes. -/
def Sees (regNum nodeIndex other : Nat) : Prop := regNum = 0 → other = nodeIndex

instance (regNum nodeIndex other : Nat) : Decidable (Sees regNum nodeIndex other) :=
  inferInstanceAs (Decidable (regNum = 0 → other = nodeIndex))

theorem bit_isNode {irq cpu : Nat} (isSet : family.bit dist irq cpu = true) : cpu < numNodes := by
  simp only [bit, Bool.and_eq_true, decide_eq_true_eq] at isSet
  exact isSet.1

/-- Two cpus that see the same register see the same bit. -/
theorem bit_sees {irq cpu other : Nat} (sees : Sees (irq / 32) cpu other) (isNode : cpu < numNodes)
    (isOther : other < numNodes) : family.bit dist irq other = family.bit dist irq cpu := by
  by_cases isBanked : irq / 32 = 0
  · rw [sees isBanked]
  · simp [bit, word, load, isBanked, isNode, isOther]

/-- What an update does to the registers, -/
theorem update_words {regNum nodeIndex : Nat} {change : Register32 → Register32}
    (run : family.update regNum nodeIndex change dist = .ok () final) :
    regNum < 32 ∧ (regNum = 0 → nodeIndex < numNodes) ∧
    (∃ regs0 regs, final = family.put regs0 regs dist) ∧
    ∀ other cpu, family.word other cpu final =
      if other = regNum ∧ Sees regNum nodeIndex cpu then change (family.word other cpu dist)
      else family.word other cpu dist := by
  simp only [update, Exec.bind_eq_ok, Exec.reads_eq_ok, Exec.modify_eq_ok] at run
  obtain ⟨reg, _, ⟨isReg, rfl⟩, isFinal⟩ := run
  unfold load at isReg
  by_cases isBanked : regNum = 0
  · subst isBanked
    rw [if_pos rfl] at isFinal isReg
    have isNode : nodeIndex < numNodes := (Vector.getElem?_eq_some_iff.mp isReg).1
    refine ⟨by decide, fun _ => isNode, ⟨_, _, isFinal.symm⟩, fun other cpu => ?_⟩
    subst isFinal
    unfold word load
    rw [family.banked_put, family.shared_put, Vector.getElem?_setIfInBounds]
    by_cases sameReg : other = 0
    · subst sameReg
      by_cases sameCpu : nodeIndex = cpu
      · subst sameCpu
        rw [isReg]
        simp [Sees, isNode]
      · simp [Sees, sameCpu, Ne.symm sameCpu]
    · simp [sameReg]
  · rw [if_neg isBanked] at isFinal isReg
    have inBounds : regNum - 1 < 31 := (Vector.getElem?_eq_some_iff.mp isReg).1
    refine ⟨by omega, fun isZero => absurd isZero isBanked, ⟨_, _, isFinal.symm⟩,
      fun other cpu => ?_⟩
    subst isFinal
    unfold word load
    rw [family.banked_put, family.shared_put, Vector.getElem?_setIfInBounds]
    by_cases sameReg : other = regNum
    · subst sameReg
      rw [isReg]
      simp [isBanked, Sees, inBounds]
    · by_cases isZero : other = 0
      · subst isZero
        simp [sameReg]
      · have differ : regNum - 1 ≠ other - 1 := by omega
        simp [isZero, sameReg, differ]

/-- and to the bits. -/
theorem update_eq_ok {regNum nodeIndex : Nat} {change : Register32 → Register32}
    (run : family.update regNum nodeIndex change dist = .ok () final) :
    regNum < 32 ∧ (regNum = 0 → nodeIndex < numNodes) ∧
    (∃ regs0 regs, final = family.put regs0 regs dist) ∧
    ∀ irq cpu, family.bit final irq cpu =
      if irq / 32 = regNum ∧ Sees regNum nodeIndex cpu then
        decide (cpu < numNodes) && (change (family.word regNum cpu dist)).getLsbD (irq % 32)
      else family.bit dist irq cpu := by
  obtain ⟨isReg, isNode, isPut, words⟩ := update_words run
  refine ⟨isReg, isNode, isPut, fun irq cpu => ?_⟩
  unfold bit
  rw [words]
  split
  · next same => rw [same.1]
  · rfl

theorem update_ok (family : Family numNodes) (dist : Distributor numNodes) {regNum nodeIndex : Nat}
    (change : Register32 → Register32) (isReg : regNum < 32) (isNode : nodeIndex < numNodes) :
    ∃ final, family.update regNum nodeIndex change dist = .ok () final := by
  simp only [update, Exec.bind_eq_ok, Exec.reads_eq_ok, Exec.modify_eq_ok]
  exact ⟨_, _, _, ⟨load_eq_some isReg isNode, rfl⟩, rfl⟩

/-- `update` has no error path. -/
theorem update_ne_err {regNum nodeIndex : Nat} {change : Register32 → Register32} {error : IrqError} :
    family.update regNum nodeIndex change dist ≠ .err error final := by
  simp [update]

/-- The bits of one interrupt, as one cpu or all cpus see them. -/
theorem updateBit_eq_ok {irq cpu : Nat} {change : Register32 → Register32 → Register32}
    (run : family.updateBit irq cpu change dist = .ok () final) :
    cpu < numNodes ∧ irq < 1024 ∧ (∃ regs0 regs, final = family.put regs0 regs dist) ∧
    ∀ other seer, family.bit final other seer =
      if other / 32 = irq / 32 ∧ Sees (irq / 32) cpu seer then
        decide (seer < numNodes) && (change (family.word (irq / 32) seer dist)
          (1#32 <<< (irq % 32))).getLsbD (other % 32)
      else family.bit dist other seer := by
  unfold updateBit at run
  split at run
  · simp at run
  · next inside =>
      have sameReg : (if irq < 32 then 0 else irq / 32) = irq / 32 := by
        split <;> omega
      simp only [sameReg] at run
      obtain ⟨isReg, _, isPut, bits⟩ := update_eq_ok run
      exact ⟨Nat.lt_of_not_ge inside, by omega, isPut, bits⟩

theorem updateBit_ok (family : Family numNodes) (dist : Distributor numNodes) {irq cpu : Nat}
    (change : Register32 → Register32 → Register32) (isIrq : irq < 1024)
    (isNode : cpu < numNodes) :
    ∃ final, family.updateBit irq cpu change dist = .ok () final := by
  unfold updateBit
  rw [if_neg (Nat.not_le.mpr isNode)]
  exact update_ok family dist _ (by split <;> omega) isNode

theorem updateBit_ne_err {irq cpu : Nat} {change : Register32 → Register32 → Register32}
    {error : IrqError} (isNode : cpu < numNodes) :
    family.updateBit irq cpu change dist ≠ .err error final := by
  unfold updateBit
  rw [if_neg (Nat.not_le.mpr isNode)]
  exact update_ne_err

/-- Whether the bit of an interrupt that one cpu sees is the one that another sees. -/
def SameBit (irq : Irq) (cpu : Cpu) (other : Irq) (seer : Cpu) : Prop :=
  other = irq ∧ Sees (irq / 32) cpu seer

theorem shiftLeft_getLsbD {irq other : Nat} :
    (1#32 <<< (irq % 32)).getLsbD (other % 32) = decide (other % 32 = irq % 32) := by
  have less : other % 32 < 32 := Nat.mod_lt _ (by decide)
  rw [BitVec.getLsbD_shiftLeft]
  by_cases below : other % 32 < irq % 32
  · have differ : other % 32 ≠ irq % 32 := by omega
    simp [below, differ]
  · by_cases same : other % 32 = irq % 32
    · rw [same] at less
      simp [same, less]
    · have positive : other % 32 - irq % 32 ≠ 0 := by omega
      simp [same, below, less, positive]

/-- The register of the bit is another one, or it is the same and the bit is another. -/
theorem not_sameBit {irq cpu other seer : Nat} (differ : ¬ SameBit irq cpu other seer)
    (sameReg : other / 32 = irq / 32 ∧ Sees (irq / 32) cpu seer) : other % 32 ≠ irq % 32 := by
  intro sameShift
  obtain ⟨sameQuotient, sees⟩ := sameReg
  have same : other = irq := by omega
  exact differ ⟨same, sees⟩

theorem set_bit {irq cpu : Nat} (run : family.updateBit irq cpu setBits dist = .ok () final)
    (other : Irq) (seer : Cpu) :
    (SameBit irq cpu other seer → family.bit final other seer = decide (seer < numNodes)) ∧
      (¬ SameBit irq cpu other seer → family.bit final other seer = family.bit dist other seer) := by
  obtain ⟨_, _, _, bits⟩ := updateBit_eq_ok run
  rw [bits]
  constructor
  · rintro ⟨rfl, sees⟩
    rw [if_pos ⟨rfl, sees⟩, setBits, BitVec.getLsbD_or, shiftLeft_getLsbD]
    simp
  · intro differ
    split
    · next sameReg =>
        have otherShift := not_sameBit differ sameReg
        rw [setBits, BitVec.getLsbD_or, shiftLeft_getLsbD]
        simp [bit, sameReg.1, otherShift]
    · rfl

theorem clear_bit {irq cpu : Nat} (run : family.updateBit irq cpu clearBits dist = .ok () final)
    (other : Irq) (seer : Cpu) :
    (SameBit irq cpu other seer → family.bit final other seer = false) ∧
      (¬ SameBit irq cpu other seer → family.bit final other seer = family.bit dist other seer) := by
  obtain ⟨_, _, _, bits⟩ := updateBit_eq_ok run
  rw [bits]
  have less : other % 32 < 32 := Nat.mod_lt _ (by decide)
  constructor
  · rintro ⟨rfl, sees⟩
    rw [if_pos ⟨rfl, sees⟩, clearBits, BitVec.getLsbD_and, BitVec.getLsbD_not, shiftLeft_getLsbD]
    simp
  · intro differ
    split
    · next sameReg =>
        have otherShift := not_sameBit differ sameReg
        rw [clearBits, BitVec.getLsbD_and, BitVec.getLsbD_not, shiftLeft_getLsbD]
        simp [bit, sameReg.1, otherShift, less]
    · rfl

end Family

/-! ## Deliverable interrupts -/

section Deliverable
variable {dist : Distributor numNodes}

def targetBit (dist : Distributor numNodes) (irq : Irq) (cpu : Cpu) : Bool :=
  (dist.isTarget irq cpu).getD false

theorem isTarget_eq_some {irq cpu : Nat} (isIrq : irq < 1020) :
    dist.isTarget irq cpu = some (dist.targetBit irq cpu) := by
  unfold targetBit
  have isSome : ∃ bit, dist.isTarget irq cpu = some bit := by
    unfold isTarget
    split
    · exact ⟨_, rfl⟩
    · next inside =>
        simp only [Option.map_eq_some_iff]
        by_cases isBanked : irq < 32
        · rw [if_pos isBanked, Vector.getElem?_eq_getElem (Nat.lt_of_not_ge inside)]
          exact ⟨_, _, Vector.getElem?_eq_getElem (by omega), rfl⟩
        · rw [if_neg isBanked]
          exact ⟨_, _, Vector.getElem?_eq_getElem (by omega), rfl⟩
  obtain ⟨bit, isBit⟩ := isSome
  rw [isBit]
  rfl

/-- `should_inject`, bit by bit. -/
def deliverable (dist : Distributor numNodes) (irq : Irq) (cpu : Cpu) : Bool :=
  dist.isGicEnabled && (enables.bit dist irq cpu && (dist.targetBit irq cpu &&
    (pendings.bit dist irq cpu && !actives.bit dist irq cpu)))

theorem shouldInject_eq_some {irq cpu : Nat} (isIrq : irq < 1020) :
    dist.shouldInject irq cpu = some (dist.deliverable irq cpu) := by
  have isRegister : irq < 1024 := by omega
  simp only [shouldInject, isEnabled, isPending, isActive, Family.test_eq_some isRegister,
    isTarget_eq_some isIrq, Option.bind_some, Option.map_some, deliverable]
  cases dist.isGicEnabled <;> cases enables.bit dist irq cpu <;> cases dist.targetBit irq cpu <;>
    cases pendings.bit dist irq cpu <;> simp

theorem shouldAck_eq_some {irq cpu : Nat} (isIrq : irq < 1020) :
    dist.shouldAck irq cpu = some (enables.bit dist irq cpu && !dist.deliverable irq cpu) := by
  have isRegister : irq < 1024 := by omega
  rw [shouldAck, shouldInject_eq_some isIrq, Option.bind_some]
  cases dist.deliverable irq cpu with
  | true => simp
  | false => simp [isEnabled, Family.test_eq_some isRegister]

/-- Interrupts past the last one have enable bits but no targets. -/
theorem shouldInject_past_end {irq cpu : Nat} (low : 1020 ≤ irq) (high : irq < 1024)
    (isNode : cpu < numNodes) :
    dist.shouldInject irq cpu =
      if dist.isGicEnabled ∧ enables.bit dist irq cpu then none else some false := by
  have noTarget : dist.isTarget irq cpu = none := by
    have isShared : ¬ irq < 32 := by omega
    have outside : 247 ≤ irq / 4 - 8 := by omega
    simp only [isTarget]
    rw [if_neg (Nat.not_le.mpr isNode), if_neg isShared, Vector.getElem?_eq_none outside]
    rfl
  simp only [shouldInject, isEnabled, Family.test_eq_some high, Option.bind_some, noTarget]
  cases dist.isGicEnabled <;> cases enables.bit dist irq cpu <;> simp

theorem deliverable_iff {irq cpu : Nat} : dist.deliverable irq cpu = true ↔
    dist.isGicEnabled = true ∧ enables.bit dist irq cpu = true ∧ dist.targetBit irq cpu = true ∧
      pendings.bit dist irq cpu = true ∧ actives.bit dist irq cpu = false := by
  simp [deliverable]

end Deliverable

end IceCap.Gic.Distributor
