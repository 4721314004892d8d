import IceCap.Gic.Enables

/-!
# The views of the pending and the active bits

`GICD_ISPENDRn` and `GICD_ICPENDRn` are two views of the pending bits, and
`GICD_ISACTIVERn` and `GICD_ICACTIVERn` of the active bits.  In the pending
registers the bits of the SGIs are read-only, and a write that names one of
them is not taken at all, with all that it names besides.
-/

set_option autoImplicit false

namespace IceCap.Gic.Distributor

open IceCap.Library

variable {numNodes : Nat}

/-- The four kinds of registers, by what a write is for. -/
inductive View where
  | setPending
  | clearPending
  | setActive
  | clearActive
  deriving DecidableEq, Repr

namespace View

def reg (regNum : Nat) : View → DistRegWord
  | setPending => .ispendr regNum
  | clearPending => .icpendr regNum
  | setActive => .isactiver regNum
  | clearActive => .icactiver regNum

def family : View → Family numNodes
  | setPending | clearPending => pendings
  | setActive | clearActive => actives

/-- What a write makes of the bits that it names. -/
def target : View → Bool
  | setPending | setActive => true
  | clearPending | clearActive => false

/-- The bits of the interrupts below this one are read-only. -/
def firstWritable : View → Nat
  | setPending | clearPending => 16
  | setActive | clearActive => 0

/-- The bits that a write by a cpu is to change. -/
def Changes (view : View) (regNum nodeIndex : Nat) (val : Register32) (irq : Irq) (cpu : Cpu) :
    Prop :=
  Named regNum nodeIndex val irq cpu ∧ view.firstWritable ≤ irq

instance (view : View) (regNum nodeIndex : Nat) (val : Register32) (irq : Irq) (cpu : Cpu) :
    Decidable (view.Changes regNum nodeIndex val irq cpu) :=
  inferInstanceAs (Decidable (_ ∧ _))

/-- A write returns and changes these bits, and nothing else; a read shows what the tests see. -/
structure Lawful (view : View) (regNum nodeIndex : Nat) (val : Register32)
    (dist : Distributor numNodes) : Prop where
  write : ∃ action final,
    handleWrite (view.reg regNum).offset nodeIndex (.word val) dist = .ok action final ∧
      (∃ regs0 regs, final = view.family.put regs0 regs dist) ∧
      ∀ irq cpu : Nat, irq < 1024 → cpu < numNodes → view.family.test final irq cpu =
        if view.Changes regNum nodeIndex val irq cpu then some view.target
        else view.family.test dist irq cpu
  read : ∃ word, handleRead (view.reg regNum).offset nodeIndex .word dist = .ok (.word word) dist ∧
    ∀ k : Nat, k < 32 → view.family.test dist (32 * regNum + k) nodeIndex = some (word.getLsbD k)

/-- A write that names an SGI as well as an interrupt still to be made pending is dropped, one that
clears and names an SGI is refused, and one that makes interrupts of the last register pending may
come to an enabled one past the end. -/
def Misses (regNum nodeIndex : Nat) (val : Register32) (dist : Distributor numNodes) : View → Prop
  | setPending =>
      (regNum = 0 ∧ val &&& 0xFFFF ≠ 0 ∧
        ∃ k : Nat, 16 ≤ k ∧ k < 32 ∧ val.getLsbD k = true ∧ dist.isPending k nodeIndex = some false) ∨
      dist.WritePanics val (.ispendr regNum)
  | clearPending => regNum = 0 ∧ val &&& 0xFFFF ≠ 0
  | setActive | clearActive => False

/-! ## Reads -/

section Laws
variable {view : View} {regNum nodeIndex : Nat} {val : Register32} {dist : Distributor numNodes}

theorem fromOffset_reg (isReg : regNum < 32) :
    DistRegWord.fromOffset (view.reg regNum).offset = some (view.reg regNum) := by
  cases view <;> exact fromOffset_offset isReg

theorem readWord_view : readWord nodeIndex (view.reg regNum) =
    Exec.reads (view.family.load regNum nodeIndex : Distributor numNodes → Option Register32) := by
  cases view <;> rfl

theorem reads (isReg : regNum < 32) (isNode : nodeIndex < numNodes) : ∃ word,
    handleRead (view.reg regNum).offset nodeIndex .word dist = .ok (.word word) dist ∧
    ∀ k : Nat, k < 32 →
      view.family.test dist (32 * regNum + k) nodeIndex = some (word.getLsbD k) := by
  refine ⟨view.family.word regNum nodeIndex dist, ?_, fun k inWord => ?_⟩
  · rw [handleRead_word (fromOffset_reg isReg), readWord_view, Exec.reads_eq_ok]
    exact ⟨Family.load_eq_some isReg isNode, rfl⟩
  · have isIrq : 32 * regNum + k < 1024 := by omega
    rw [Family.test_eq_some isIrq, bit_eq inWord isNode]

/-! ## Writes -/

theorem lawful_iff_writeWord (isReg : regNum < 32) (isNode : nodeIndex < numNodes) :
    view.Lawful regNum nodeIndex val dist ↔ ∃ action final,
      writeWord nodeIndex val (view.reg regNum) dist = .ok action final ∧
      (∃ regs0 regs, final = view.family.put regs0 regs dist) ∧
      ∀ irq cpu : Nat, irq < 1024 → cpu < numNodes → view.family.bit final irq cpu =
        if view.Changes regNum nodeIndex val irq cpu then view.target
        else view.family.bit dist irq cpu := by
  have sameTests : ∀ final : Distributor numNodes, ∀ irq cpu : Nat, irq < 1024 →
      (view.family.test final irq cpu =
        (if view.Changes regNum nodeIndex val irq cpu then some view.target
          else view.family.test dist irq cpu) ↔
      view.family.bit final irq cpu =
        if view.Changes regNum nodeIndex val irq cpu then view.target
        else view.family.bit dist irq cpu) := by
    intro final irq cpu isIrq
    rw [Family.test_eq_some isIrq, Family.test_eq_some isIrq]
    split <;> rw [Option.some_inj]
  constructor
  · rintro ⟨⟨action, final, run, isPut, tests⟩, _⟩
    rw [handleWrite_word (fromOffset_reg isReg)] at run
    exact ⟨action, final, run, isPut, fun irq cpu isIrq isCpu =>
      (sameTests final irq cpu isIrq).mp (tests irq cpu isIrq isCpu)⟩
  · rintro ⟨action, final, run, isPut, bits⟩
    refine ⟨⟨action, final, ?_, isPut, fun irq cpu isIrq isCpu => ?_⟩, reads isReg isNode⟩
    · rw [handleWrite_word (fromOffset_reg isReg), run]
    · exact (sameTests final irq cpu isIrq).mpr (bits irq cpu isIrq isCpu)

/-- A write that does nothing is right if there is nothing to do. -/
theorem lawful_of_same (isReg : regNum < 32) (isNode : nodeIndex < numNodes) {action : WriteAction}
    (run : writeWord nodeIndex val (view.reg regNum) dist = .ok action dist)
    (nothing : ∀ irq cpu : Nat, cpu < numNodes → view.Changes regNum nodeIndex val irq cpu →
      view.family.bit dist irq cpu = view.target) : view.Lawful regNum nodeIndex val dist := by
  rw [lawful_iff_writeWord isReg isNode]
  refine ⟨action, dist, run, ?_, fun irq cpu _ isCpu => ?_⟩
  · cases view <;> exact ⟨_, _, rfl⟩
  · split
    · next changes => exact nothing irq cpu isCpu changes
    · rfl

theorem not_changes_zero {irq cpu : Nat} : ¬ view.Changes regNum nodeIndex 0 irq cpu :=
  fun changes => not_named_zero changes.1

theorem lowHalf_getLsbD (i : Nat) : (0xFFFF : Register32).getLsbD i = decide (i < 16) := by
  have allOnes : (0xFFFF : Register32) = BitVec.ofNat 32 (2 ^ 16 - 1) := rfl
  rw [allOnes, BitVec.getLsbD_ofNat, Nat.testBit_two_pow_sub_one]
  by_cases less : i < 16
  · have inWidth : i < 32 := by omega
    simp [less, inWidth]
  · simp [less]

theorem namesSgi_iff : val &&& 0xFFFF ≠ 0 ↔ ∃ irq : Nat, irq < 16 ∧ val.getLsbD irq = true := by
  constructor
  · intro names
    by_contra none
    apply names
    apply BitVec.eq_of_getLsbD_eq
    intro i _
    rw [BitVec.getLsbD_and, lowHalf_getLsbD]
    by_cases isSgi : i < 16
    · have isClear : val.getLsbD i ≠ true := fun isSet => none ⟨i, isSgi, isSet⟩
      simp [isClear]
    · simp [isSgi]
  · rintro ⟨irq, isSgi, isSet⟩ noBits
    have isClear := congrArg (fun word => word.getLsbD irq) noBits
    simp only [BitVec.getLsbD_and, lowHalf_getLsbD, isSet, isSgi] at isClear
    simp at isClear

/-- A write that names no read-only bit. -/
theorem changes_iff_named {irq cpu : Nat}
    (writable : view.firstWritable = 0 ∨ ¬ (regNum = 0 ∧ val &&& 0xFFFF ≠ 0)) :
    view.Changes regNum nodeIndex val irq cpu ↔ Named regNum nodeIndex val irq cpu := by
  apply and_iff_left_of_imp
  intro named
  rcases writable with isZero | noSgi
  · rw [isZero]
    exact Nat.zero_le irq
  · by_contra readOnly
    have most : view.firstWritable ≤ 16 := by
      cases view <;> decide
    have isSgi : irq < 16 := by omega
    have isFirst : irq / 32 = 0 := Nat.div_eq_of_lt (by omega)
    have sameShift : irq % 32 = irq := Nat.mod_eq_of_lt (by omega)
    obtain ⟨isReg, _, isSet⟩ := named
    rw [sameShift] at isSet
    exact noSgi ⟨isReg.symm.trans isFirst, namesSgi_iff.mpr ⟨irq, isSgi, isSet⟩⟩

/-- A write that updates the register and then returns. -/
theorem lawful_of_update (view : View) (isReg : regNum < 32) (isNode : nodeIndex < numNodes)
    (writable : view.firstWritable = 0 ∨ ¬ (regNum = 0 ∧ val &&& 0xFFFF ≠ 0))
    {final : Distributor numNodes} {action : WriteAction}
    (update : view.family.update regNum nodeIndex (fun reg =>
      if view.target then setBits reg val else clearBits reg val) dist = .ok () final)
    (run : writeWord nodeIndex val (view.reg regNum) dist = .ok action final) :
    view.Lawful regNum nodeIndex val dist := by
  rw [lawful_iff_writeWord isReg isNode]
  obtain ⟨_, _, isPut, _⟩ := Family.update_eq_ok update
  refine ⟨action, final, run, isPut, fun irq cpu _ isCpu => ?_⟩
  simp only [changes_iff_named writable]
  cases isTarget : view.target with
  | true =>
      simp only [isTarget, if_true] at update
      exact update_sets update isCpu
  | false =>
      simp only [isTarget, Bool.false_eq_true, if_false] at update
      exact update_clears update

theorem setActive_lawful (isReg : regNum < 32) (isNode : nodeIndex < numNodes) :
    setActive.Lawful regNum nodeIndex val dist := by
  by_cases isZero : val = 0
  · subst isZero
    exact lawful_of_same isReg isNode rfl fun _ _ _ changes => absurd changes not_changes_zero
  · obtain ⟨final, update⟩ :=
      Family.update_ok actives dist (fun reg => setBits reg val) isReg isNode
    apply lawful_of_update setActive isReg isNode (.inl rfl) update
    simp only [reg, writeWord, writeActiver, isZero, if_false, Exec.bind_eq_ok]
    exact ⟨(), final, update, rfl⟩

theorem clearActive_lawful (isReg : regNum < 32) (isNode : nodeIndex < numNodes) :
    clearActive.Lawful regNum nodeIndex val dist := by
  by_cases isZero : val = 0
  · subst isZero
    exact lawful_of_same isReg isNode rfl fun _ _ _ changes => absurd changes not_changes_zero
  · obtain ⟨final, update⟩ :=
      Family.update_ok actives dist (fun reg => clearBits reg val) isReg isNode
    apply lawful_of_update clearActive isReg isNode (.inl rfl) update
    simp only [reg, writeWord, writeActiver, isZero, if_false, Exec.bind_eq_ok]
    exact ⟨(), final, update, rfl⟩

theorem clearPending_lawful_iff (isReg : regNum < 32) (isNode : nodeIndex < numNodes) :
    clearPending.Lawful regNum nodeIndex val dist ↔ ¬ (regNum = 0 ∧ val &&& 0xFFFF ≠ 0) := by
  by_cases isZero : val = 0
  · subst isZero
    refine iff_of_true (lawful_of_same isReg isNode rfl fun _ _ _ changes => ?_) (by simp)
    exact absurd changes not_changes_zero
  by_cases names : regNum = 0 ∧ val &&& 0xFFFF ≠ 0
  · apply iff_of_false _ (not_not_intro names)
    rw [lawful_iff_writeWord isReg isNode]
    rintro ⟨action, final, run, _⟩
    rw [reg, writeWord, writeIcpendr, if_neg isZero, if_pos names] at run
    simp at run
  · refine iff_of_true ?_ names
    obtain ⟨final, update⟩ :=
      Family.update_ok pendings dist (fun reg => clearBits reg val) isReg isNode
    apply lawful_of_update clearPending isReg isNode (.inr names) update
    rw [reg, writeWord, writeIcpendr, if_neg isZero, if_neg names, Exec.bind_eq_ok]
    exact ⟨(), final, update, rfl⟩

/-- A write that names an SGI is right only if it names nothing else that is still to be done. -/
theorem setPending_lawful_iff_named (isNode : nodeIndex < numNodes) (names : val &&& 0xFFFF ≠ 0) :
    setPending.Lawful 0 nodeIndex val dist ↔
      ¬ ∃ k : Nat, 16 ≤ k ∧ k < 32 ∧ val.getLsbD k = true ∧
        dist.isPending k nodeIndex = some false := by
  have nonzero : val ≠ 0 := by
    rintro rfl
    simp at names
  have run : writeWord nodeIndex val (setPending.reg 0) dist = .ok .noAction dist := by
    rw [reg, writeWord, writeIspendr, if_neg nonzero, if_pos ⟨rfl, names⟩]
    rfl
  constructor
  · rw [lawful_iff_writeWord (by decide) isNode, run]
    rintro ⟨_, _, same, _, bits⟩ ⟨k, notSgi, inWord, isSet, isClear⟩
    obtain ⟨_, rfl⟩ := same
    have isIrq : k < 1024 := by omega
    have noQuotient : k / 32 = 0 := Nat.div_eq_of_lt inWord
    have sameShift : k % 32 = k := Nat.mod_eq_of_lt inWord
    have changes : setPending.Changes 0 nodeIndex val k nodeIndex :=
      ⟨⟨noQuotient, fun _ => rfl, by rwa [sameShift]⟩, notSgi⟩
    have isPending := bits k nodeIndex isIrq isNode
    rw [if_pos changes] at isPending
    rw [Distributor.isPending, Family.test_eq_some isIrq, Option.some_inj] at isClear
    exact absurd (isClear.symm.trans isPending) (by decide)
  · intro nothing
    refine lawful_of_same (by decide) isNode run fun irq cpu isCpu changes => ?_
    obtain ⟨⟨isFirst, sees, isNamed⟩, notSgi⟩ := changes
    have inWord : irq < 32 := (Nat.div_eq_zero_iff.mp isFirst).resolve_left (by decide)
    have isIrq : irq < 1024 := by omega
    obtain rfl := sees rfl
    rw [Nat.mod_eq_of_lt inWord] at isNamed
    by_contra isClear
    refine nothing ⟨irq, notSgi, inWord, isNamed, ?_⟩
    rw [Distributor.isPending, Family.test_eq_some isIrq]
    exact congrArg some (Bool.eq_false_iff.mpr isClear)

theorem setPending_lawful_iff (isReg : regNum < 32) (isNode : nodeIndex < numNodes) :
    setPending.Lawful regNum nodeIndex val dist ↔ ¬ setPending.Misses regNum nodeIndex val dist := by
  by_cases names : regNum = 0 ∧ val &&& 0xFFFF ≠ 0
  · obtain ⟨rfl, names⟩ := names
    have returns : ¬ dist.WritePanics val (.ispendr 0) := fun panics => absurd panics.1 (by decide)
    rw [setPending_lawful_iff_named isNode names, Misses, or_iff_left returns, and_iff_right rfl,
      and_iff_right names]
  have noDrop : setPending.Misses regNum nodeIndex val dist ↔
      dist.WritePanics val (.ispendr regNum) :=
    or_iff_right fun drops => names ⟨drops.1, drops.2.1⟩
  rw [noDrop]
  by_cases isZero : val = 0
  · subst isZero
    refine iff_of_true (lawful_of_same isReg isNode rfl fun _ _ _ changes => ?_) ?_
    · exact absurd changes not_changes_zero
    · simp [WritePanics]
  rw [← writeIspendr_eq_panic isReg isNode]
  constructor
  · intro lawful panics
    obtain ⟨action, final, run, _⟩ := (lawful_iff_writeWord isReg isNode).mp lawful
    rw [reg, writeWord, panics] at run
    simp at run
  · intro returns
    obtain ⟨final, update⟩ :=
      Family.update_ok pendings dist (fun reg => setBits reg val) isReg isNode
    cases swept : sweepIrqsToInject (regNum * 32) 32 final with
    | none =>
        refine absurd ?_ returns
        rw [writeIspendr, if_neg isZero, if_neg names]
        simp [update, swept]
    | some toInject =>
        have run : writeWord nodeIndex val (setPending.reg regNum) dist =
            .ok (injectOnly toInject) final := by
          rw [reg, writeWord, writeIspendr, if_neg isZero, if_neg names]
          simp [update, swept]
        exact lawful_of_update setPending isReg isNode (.inr names) update run

/-- Exactly these writes fall short. -/
theorem lawful_iff (view : View) (val : Register32) (dist : Distributor numNodes)
    (isReg : regNum ≤ 31) (isNode : nodeIndex < numNodes) :
    view.Lawful regNum nodeIndex val dist ↔ ¬ view.Misses regNum nodeIndex val dist := by
  have isReg : regNum < 32 := by omega
  cases view with
  | setPending => exact setPending_lawful_iff isReg isNode
  | clearPending => exact clearPending_lawful_iff isReg isNode
  | setActive => exact iff_of_true (setActive_lawful isReg isNode) id
  | clearActive => exact iff_of_true (clearActive_lawful isReg isNode) id

theorem lawful_iff_first : View.setPending.Lawful 0 0 0x00010000 (new 1) ↔
    ¬ View.setPending.Misses 0 0 0x00010000 (new 1) :=
  lawful_iff .setPending 0x00010000 (new 1) (by decide) (by decide)

/-- PPI 16 is not made pending by a write that names SGI 0 too. -/
theorem mixed_write_dropped : ¬ View.setPending.Lawful 0 0 0x00010001 (new 1) := by
  rw [setPending_lawful_iff_named (by decide) (by decide), not_not]
  exact ⟨16, by decide, by decide, by decide, by decide +kernel⟩

end Laws

end View

end IceCap.Gic.Distributor
