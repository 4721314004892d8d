import IceCap.Gic.Plain

/-!
# The summary bits of the SGIs

The pending bit of an SGI on a cpu is to summarize the eight bits of its sources.
The writes that change the sources go over the four SGIs of a register with a
mask that moves on too far, so that the summary of the third comes from the
sources of the fourth, and that of the fourth from none.
-/

set_option autoImplicit false

namespace IceCap.Gic.Distributor

open IceCap.Library

variable {numNodes : Nat}

/-- An SGI is pending on a cpu if it is pending from some source. -/
def Summarized (dist : Distributor numNodes) : Prop :=
  ∀ irq cpu : Nat, irq < 16 → cpu < numNodes →
    (dist.isPending irq cpu = some true ↔ byte (dist.sgiWord (irq / 4) cpu) (irq % 4) ≠ 0)

/-- A write returns, changes the sources that it names and no others, and leaves the summary right. -/
def KeepsSummary (reg : DistRegWord) (change : Register32 → Register32 → Register32)
    (regNum nodeIndex : Nat) (val : Register32) (dist : Distributor numNodes) : Prop :=
  ∃ action after, handleWrite reg.offset nodeIndex (.word val) dist = .ok action after ∧
    (∀ other cpu : Nat, other < 4 → cpu < numNodes → after.sgiWord other cpu =
      if other = regNum ∧ cpu = nodeIndex then change (dist.sgiWord other cpu) val
      else dist.sgiWord other cpu) ∧
    Summarized after

/-- Either of the two registers. -/
inductive SgiView where
  | cpendsgir
  | spendsgir
  deriving DecidableEq, Repr

namespace SgiView

def reg (regNum : Nat) : SgiView → DistRegWord
  | cpendsgir => .cpendsgir regNum
  | spendsgir => .spendsgir regNum

def change : SgiView → Register32 → Register32 → Register32
  | cpendsgir => clearBits
  | spendsgir => setBits

/-- When the summary comes out right all the same, by what was pending before. -/
def Agrees (prev val : Register32) : SgiView → Prop
  | cpendsgir => val = 0 ∨ (byte (clearBits prev val) 2 = 0 ∧ byte (clearBits prev val) 3 = 0)
  | spendsgir => (byte val 3 ≠ 0 → byte prev 3 ≠ 0) ∧
      (byte prev 2 = 0 → (byte val 2 ≠ 0 ↔ byte (clearBits val prev) 3 ≠ 0))

end SgiView

/-! ## The loop over the four SGIs -/

/-- The mask of a round. -/
def roundMask : Nat → Register32
  | 0 => 0xFF
  | 1 => 0xFF00
  | 2 => 0xFF000000
  | _ => 0

section Loop
variable {before after : Distributor numNodes} {nodeIndex regNum irq : Nat} {target : Bool}

/-- The bits of some SGIs on a cpu have been set or cleared. -/
structure Marked (cond : Nat → Prop) [DecidablePred cond] (nodeIndex : Nat) (target : Bool)
    (before after : Distributor numNodes) : Prop where
  isPut : ∃ regs0 regs, after = pendings.put regs0 regs before
  bits : ∀ other seer : Nat, seer < numNodes → pendings.bit after other seer =
    if cond other ∧ seer = nodeIndex then target else pendings.bit before other seer

def changeTo (target : Bool) : Register32 → Register32 → Register32 :=
  if target then setBits else clearBits

theorem updateBit_marked (isSgi : irq < 16) (isNode : nodeIndex < numNodes) :
    ∃ after, Exec.orPanic (pendings.updateBit irq nodeIndex (changeTo target)) before =
        .ok () after ∧ Marked (fun other => other = irq) nodeIndex target before after := by
  obtain ⟨after, run⟩ :=
    pendings.updateBit_ok before (changeTo target) (by omega : irq < 1024) isNode
  refine ⟨after, Exec.orPanic_eq_ok.mpr run, (Family.updateBit_eq_ok run).2.2.1, ?_⟩
  intro other seer isSeer
  have isBanked : irq / 32 = 0 := Nat.div_eq_of_lt (by omega)
  have sameBit : Family.SameBit irq nodeIndex other seer ↔ other = irq ∧ seer = nodeIndex := by
    simp [Family.SameBit, Family.Sees, isBanked]
  cases target with
  | true =>
      obtain ⟨same, differ⟩ := Family.set_bit run other seer
      split
      · next isSame => rw [same (sameBit.mpr isSame), decide_eq_true isSeer]
      · next isOther => exact differ (fun isSame => isOther (sameBit.mp isSame))
  | false =>
      obtain ⟨same, differ⟩ := Family.clear_bit run other seer
      split
      · next isSame => exact same (sameBit.mpr isSame)
      · next isOther => exact differ (fun isSame => isOther (sameBit.mp isSame))

/-- One round. -/
theorem round_marked (isSgi : irq < 16) (isNode : nodeIndex < numNodes) (cond : Prop) [Decidable cond] :
    ∃ after, (if cond then Exec.orPanic (pendings.updateBit irq nodeIndex (changeTo target))
        else pure () : Exec IrqError (Distributor numNodes) Unit) before = .ok () after ∧
      Marked (fun other => other = irq ∧ cond) nodeIndex target before after := by
  by_cases isCond : cond
  · obtain ⟨after, run, marked⟩ := @updateBit_marked _ before nodeIndex irq target isSgi isNode
    refine ⟨after, by rwa [if_pos isCond], marked.isPut, fun other seer isSeer => ?_⟩
    rw [marked.bits other seer isSeer]
    simp [isCond]
  · refine ⟨before, by rw [if_neg isCond]; rfl, ⟨_, _, rfl⟩, fun other seer _ => ?_⟩
    simp [isCond]

theorem Marked.trans {middle : Distributor numNodes} {cond more both : Nat → Prop}
    [DecidablePred cond] [DecidablePred more] [DecidablePred both]
    (first : Marked cond nodeIndex target before middle)
    (second : Marked more nodeIndex target middle after)
    (either : ∀ other, both other ↔ cond other ∨ more other) :
    Marked both nodeIndex target before after := by
  obtain ⟨_, _, rfl⟩ := first.isPut
  obtain ⟨_, _, rfl⟩ := second.isPut
  refine ⟨⟨_, _, rfl⟩, fun other seer isSeer => ?_⟩
  rw [second.bits other seer isSeer, first.bits other seer isSeer]
  simp only [either]
  by_cases isMore : more other <;> by_cases isCond : cond other <;> by_cases same : seer = nodeIndex <;>
    simp [isMore, isCond, same]

/-- All four rounds: each SGI goes by the bits under its mask. -/
theorem forSgiBytes_marked (isReg : regNum < 4) (isNode : nodeIndex < numNodes)
    (test : Register32 → Prop) [DecidablePred test] :
    ∃ after, forSgiBytes (regNum * 4) (fun irq mask =>
        if test mask then Exec.orPanic (pendings.updateBit irq nodeIndex (changeTo target))
        else pure ()) before = .ok () after ∧
      Marked (fun other => other / 4 = regNum ∧ test (roundMask (other % 4))) nodeIndex target before
        after := by
  obtain ⟨first, runFirst, markedFirst⟩ :=
    @round_marked _ before nodeIndex (regNum * 4) target (by omega) isNode (test 0xFF) _
  obtain ⟨second, runSecond, markedSecond⟩ :=
    @round_marked _ first nodeIndex (regNum * 4 + 1) target (by omega) isNode (test 0xFF00) _
  obtain ⟨third, runThird, markedThird⟩ :=
    @round_marked _ second nodeIndex (regNum * 4 + 2) target (by omega) isNode (test 0xFF000000) _
  obtain ⟨fourth, runFourth, markedFourth⟩ :=
    @round_marked _ third nodeIndex (regNum * 4 + 3) target (by omega) isNode (test 0) _
  have rounds : List.range' (regNum * 4) 4 =
    [regNum * 4, regNum * 4 + 1, regNum * 4 + 2, regNum * 4 + 3] := rfl
  refine ⟨fourth, ?_, ?_⟩
  · simp only [forSgiBytes, rounds, Exec.foldEach_cons, Exec.foldEach_nil, Exec.bind_eq_ok,
      Exec.pure_eq_ok, Nat.sub_self, Nat.add_sub_cancel_left]
    exact ⟨_, fourth, ⟨_, first, ⟨(), first, runFirst, rfl, rfl⟩, _, second,
      ⟨(), second, runSecond, rfl, rfl⟩, _, third, ⟨(), third, runThird, rfl, rfl⟩, _, fourth,
      ⟨(), fourth, runFourth, rfl, rfl⟩, rfl, rfl⟩, trivial, rfl⟩
  · have firstTwo := markedFirst.trans markedSecond fun other => Iff.rfl
    have firstThree := firstTwo.trans markedThird fun other => Iff.rfl
    refine firstThree.trans markedFourth fun other => ?_
    constructor
    · rintro ⟨rfl, holds⟩
      have cases : other % 4 = 0 ∨ other % 4 = 1 ∨ other % 4 = 2 ∨ other % 4 = 3 := by omega
      rcases cases with isRound | isRound | isRound | isRound
      · rw [isRound] at holds
        exact .inl (.inl (.inl ⟨by omega, holds⟩))
      · rw [isRound] at holds
        exact .inl (.inl (.inr ⟨by omega, holds⟩))
      · rw [isRound] at holds
        exact .inl (.inr ⟨by omega, holds⟩)
      · rw [isRound] at holds
        exact .inr ⟨by omega, holds⟩
    · rintro (((⟨rfl, holds⟩ | ⟨rfl, holds⟩) | ⟨rfl, holds⟩) | ⟨rfl, holds⟩)
      · rw [show regNum * 4 % 4 = 0 by omega]
        exact ⟨by omega, holds⟩
      · rw [show (regNum * 4 + 1) % 4 = 1 by omega]
        exact ⟨by omega, holds⟩
      · rw [show (regNum * 4 + 2) % 4 = 2 by omega]
        exact ⟨by omega, holds⟩
      · rw [show (regNum * 4 + 3) % 4 = 3 by omega]
        exact ⟨by omega, holds⟩

end Loop

/-! ## Bytes -/

section Bytes
variable {reg prev val : Register32} {place : Nat}

theorem byte_getLsbD (i : Nat) : (byte reg place).getLsbD i = (reg.getLsbD (8 * place + i) && decide (i < 8)) := by
  rw [byte, BitVec.getLsbD_and, BitVec.getLsbD_ushiftRight, allOnes_getLsbD]

theorem byte_ne_zero_iff : byte reg place ≠ 0 ↔ ∃ i : Nat, i < 8 ∧ reg.getLsbD (8 * place + i) = true := by
  constructor
  · intro nonzero
    by_contra none
    apply nonzero
    apply BitVec.eq_of_getLsbD_eq
    intro i _
    rw [byte_getLsbD]
    by_cases inByte : i < 8
    · have isClear : reg.getLsbD (8 * place + i) ≠ true := fun isSet => none ⟨i, inByte, isSet⟩
      simp [isClear]
    · simp [inByte]
  · rintro ⟨i, inByte, isSet⟩ isZero
    have isClear := congrArg (fun word => word.getLsbD i) isZero
    simp only [byte_getLsbD, isSet, inByte] at isClear
    simp at isClear

/-- A word under the mask of a byte. -/
theorem and_mask_eq_zero : reg &&& (0xFF#32 <<< (place * 8)) = 0 ↔ byte reg place = 0 := by
  rw [← byte_eq]
  constructor
  · intro isZero
    rw [isZero]
    exact BitVec.zero_ushiftRight
  · intro isZero
    apply BitVec.eq_of_getLsbD_eq
    intro i inWidth
    by_cases below : i < place * 8
    · rw [BitVec.getLsbD_and, BitVec.getLsbD_shiftLeft]
      simp [below]
    · have isClear := congrArg (fun word => word.getLsbD (i - place * 8)) isZero
      simp only [BitVec.getLsbD_ushiftRight] at isClear
      rw [Nat.add_sub_cancel' (by omega)] at isClear
      rw [isClear]
      simp

theorem byte_setBits : byte (setBits prev val) place ≠ 0 ↔ byte prev place ≠ 0 ∨ byte val place ≠ 0 := by
  simp only [byte_ne_zero_iff, setBits, BitVec.getLsbD_or, Bool.or_eq_true]
  constructor
  · rintro ⟨i, inByte, was | named⟩
    · exact .inl ⟨i, inByte, was⟩
    · exact .inr ⟨i, inByte, named⟩
  · rintro (⟨i, inByte, was⟩ | ⟨i, inByte, named⟩)
    · exact ⟨i, inByte, .inl was⟩
    · exact ⟨i, inByte, .inr named⟩

theorem byte_clearBits (nonzero : byte (clearBits reg val) place ≠ 0) : byte reg place ≠ 0 := by
  rw [byte_ne_zero_iff] at nonzero ⊢
  obtain ⟨i, inByte, isSet⟩ := nonzero
  rw [clearBits, BitVec.getLsbD_and, Bool.and_eq_true] at isSet
  exact ⟨i, inByte, isSet.1⟩

/-- What is named is new or was there. -/
theorem byte_new_or_prev (nonzero : byte val place ≠ 0) :
    byte (clearBits val prev) place ≠ 0 ∨ byte prev place ≠ 0 := by
  by_contra neither
  rw [not_or, not_not, not_not] at neither
  rw [byte_ne_zero_iff] at nonzero
  obtain ⟨i, inByte, isNamed⟩ := nonzero
  have notNew := neither.1
  have notPrev := neither.2
  rw [← not_not (a := byte _ _ = 0), ← ne_eq, byte_ne_zero_iff] at notNew notPrev
  have inWidth : 8 * place + i < 32 := by
    by_contra outside
    rw [BitVec.getLsbD_of_ge _ _ (by omega)] at isNamed
    simp at isNamed
  refine notNew ⟨i, inByte, ?_⟩
  have wasClear : prev.getLsbD (8 * place + i) = false :=
    Bool.eq_false_iff.mpr fun was => notPrev ⟨i, inByte, was⟩
  rw [clearBits, BitVec.getLsbD_and, BitVec.getLsbD_not, isNamed, wasClear, decide_eq_true inWidth]
  rfl

end Bytes

/-! ## The writes -/

section Writes
variable {before after : Distributor numNodes} {nodeIndex regNum : Nat} {val : Register32}
  {target : Bool}

theorem updateSgiPending_returns (change : Register32 → Register32) (isReg : regNum < 4)
    (isNode : nodeIndex < numNodes) :
    ∃ after, updateSgiPending regNum nodeIndex change before =
        .ok (before.sgiWord regNum nodeIndex) after ∧
      (∃ sgiPending, after = { before with sgiPending }) ∧
      ∀ other cpu, after.sgiWord other cpu =
        if other = regNum ∧ cpu = nodeIndex then change (before.sgiWord regNum nodeIndex)
        else before.sgiWord other cpu := by
  cases run : updateSgiPending regNum nodeIndex change before with
  | ok prev after =>
      obtain ⟨rfl, isPut, words⟩ := updateSgiPending_eq_ok run
      exact ⟨after, rfl, isPut, words⟩
  | err error after => exact absurd run (updateSgiPending_infallible _ _ _)
  | panic =>
      simp [updateSgiPending, isReg, isNode] at run

/-- Where the loop leaves the summary right. -/
theorem summarized_iff {middle : Distributor numNodes} (test : Register32 → Prop)
    [DecidablePred test] {word : Register32} (isReg : regNum < 4) (isNode : nodeIndex < numNodes)
    (summarized : Summarized before) (isPut : ∃ sgiPending, middle = { before with sgiPending })
    (words : ∀ other cpu, middle.sgiWord other cpu =
      if other = regNum ∧ cpu = nodeIndex then word else before.sgiWord other cpu)
    (marked : Marked (fun other => other / 4 = regNum ∧ test (roundMask (other % 4))) nodeIndex target
      middle after) :
    Summarized after ↔ ∀ place : Nat, place < 4 →
      ((if test (roundMask place) then target = true
        else byte (before.sgiWord regNum nodeIndex) place ≠ 0) ↔ byte word place ≠ 0) := by
  obtain ⟨_, rfl⟩ := isPut
  have sameWords : ∀ other cpu, after.sgiWord other cpu =
      if other = regNum ∧ cpu = nodeIndex then word else before.sgiWord other cpu := by
    obtain ⟨_, _, rfl⟩ := marked.isPut
    exact words
  have bits : ∀ irq cpu : Nat, irq < 16 → cpu < numNodes → (after.isPending irq cpu = some true ↔
      if (irq / 4 = regNum ∧ test (roundMask (irq % 4))) ∧ cpu = nodeIndex then target = true
      else before.isPending irq cpu = some true) := by
    intro irq cpu isSgi isCpu
    have isIrq : irq < 1024 := by omega
    rw [isPending, isPending, Family.test_eq_some isIrq, Family.test_eq_some isIrq,
      Option.some_inj, Option.some_inj, marked.bits irq cpu isCpu]
    split <;> rfl
  constructor
  · intro right place inReg
    have isSgi : regNum * 4 + place < 16 := by omega
    have sameReg : (regNum * 4 + place) / 4 = regNum := by omega
    have samePlace : (regNum * 4 + place) % 4 = place := by omega
    have here := right (regNum * 4 + place) nodeIndex isSgi isNode
    have newWord : after.sgiWord regNum nodeIndex = word := by
      rw [sameWords, if_pos ⟨rfl, rfl⟩]
    rw [bits _ _ isSgi isNode, sameReg, samePlace, newWord] at here
    simp only [true_and, and_true] at here
    have was := summarized (regNum * 4 + place) nodeIndex isSgi isNode
    rw [sameReg, samePlace] at was
    rw [← here]
    by_cases holds : test (roundMask place)
    · simp [holds]
    · simp [holds, was]
  · intro right irq cpu isSgi isCpu
    rw [bits irq cpu isSgi isCpu, sameWords]
    have was := summarized irq cpu isSgi isCpu
    by_cases here : irq / 4 = regNum ∧ cpu = nodeIndex
    · obtain ⟨rfl, rfl⟩ := here
      simp only [true_and, and_self, and_true, if_true]
      rw [← right (irq % 4) (Nat.mod_lt _ (by decide))]
      by_cases holds : test (roundMask (irq % 4))
      · simp [holds]
      · simp [holds, was]
    · rw [if_neg here, if_neg fun both => here ⟨both.1.1, both.2⟩]
      exact was

/-- Only the first two masks are those of their rounds. -/
theorem and_roundMask {reg : Register32} :
    (reg &&& roundMask 0 = 0 ↔ byte reg 0 = 0) ∧ (reg &&& roundMask 1 = 0 ↔ byte reg 1 = 0) ∧
      (reg &&& roundMask 2 = 0 ↔ byte reg 3 = 0) ∧ reg &&& roundMask 3 = 0 := by
  have second : roundMask 1 = 0xFF#32 <<< (1 * 8) := by decide
  have fourth : roundMask 2 = 0xFF#32 <<< (3 * 8) := by decide
  rw [second, fourth, and_mask_eq_zero, and_mask_eq_zero]
  exact ⟨@and_mask_eq_zero reg 0, Iff.rfl, Iff.rfl, BitVec.and_zero⟩

theorem forall_places {holds : Nat → Prop} :
    (∀ place : Nat, place < 4 → holds place) ↔ holds 0 ∧ holds 1 ∧ holds 2 ∧ holds 3 := by
  constructor
  · intro all
    exact ⟨all 0 (by decide), all 1 (by decide), all 2 (by decide), all 3 (by decide)⟩
  · rintro ⟨first, second, third, fourth⟩ place inReg
    have cases : place = 0 ∨ place = 1 ∨ place = 2 ∨ place = 3 := by omega
    rcases cases with rfl | rfl | rfl | rfl
    · exact first
    · exact second
    · exact third
    · exact fourth

theorem spendsgir_agrees_iff {prev : Register32} : (∀ place : Nat, place < 4 →
      ((if clearBits val prev &&& roundMask place ≠ 0 then true = true else byte prev place ≠ 0) ↔
        byte (setBits prev val) place ≠ 0)) ↔ SgiView.spendsgir.Agrees prev val := by
  obtain ⟨first, second, third, fourth⟩ := @and_roundMask (clearBits val prev)
  have lane : ∀ place, (if byte (clearBits val prev) place ≠ 0 then True
      else byte prev place ≠ 0) ↔ byte prev place ≠ 0 ∨ byte val place ≠ 0 := by
    intro place
    split
    · next isNew => exact iff_of_true trivial (.inr (byte_clearBits isNew))
    · next notNew =>
        refine (or_iff_left_of_imp fun isNamed => ?_).symm
        exact (byte_new_or_prev isNamed).resolve_left notNew
  rw [forall_places]
  simp only [byte_setBits, ne_eq, first, second, third, fourth, not_true_eq_false, if_false]
  simp only [← ne_eq, lane, SgiView.Agrees, true_and]
  constructor
  · rintro ⟨isThird, isFourth⟩
    refine ⟨fun isNamed => isFourth.mpr (.inr isNamed), fun wasNone => ?_⟩
    have notPrev : ¬ byte prev 2 ≠ 0 := not_not_intro wasNone
    by_cases isNew : byte (clearBits val prev) 3 ≠ 0
    · rw [if_pos isNew] at isThird
      exact iff_of_true ((isThird.mp trivial).resolve_left notPrev) isNew
    · rw [if_neg isNew] at isThird
      exact iff_of_false (fun isNamed => notPrev (isThird.mpr (.inr isNamed))) isNew
  · rintro ⟨isFourth, isThird⟩
    refine ⟨?_, (or_iff_left_of_imp isFourth).symm⟩
    by_cases was : byte prev 2 ≠ 0
    · refine iff_of_true ?_ (.inl was)
      split
      · trivial
      · exact was
    · rw [or_iff_right was, isThird (not_not.mp was)]
      split
      · next isNew => exact iff_of_true trivial isNew
      · next notNew => exact iff_of_false was notNew

theorem cpendsgir_agrees_iff {prev : Register32} (nonzero : val ≠ 0) : (∀ place : Nat, place < 4 →
      ((if clearBits prev val &&& roundMask place = 0 then false = true else byte prev place ≠ 0) ↔
        byte (clearBits prev val) place ≠ 0)) ↔ SgiView.cpendsgir.Agrees prev val := by
  obtain ⟨first, second, third, fourth⟩ := @and_roundMask (clearBits prev val)
  have lane : ∀ place, (if byte (clearBits prev val) place = 0 then false = true
      else byte prev place ≠ 0) ↔ byte (clearBits prev val) place ≠ 0 := by
    intro place
    split
    · next isClear => exact iff_of_false (by decide) (not_not_intro isClear)
    · next still => exact iff_of_true (byte_clearBits still) still
  rw [forall_places]
  simp only [first, second, third, fourth, if_true, lane, SgiView.Agrees, nonzero, false_or, true_and]
  constructor
  · rintro ⟨isThird, isFourth⟩
    have noFourth : byte (clearBits prev val) 3 = 0 := by
      by_contra still
      exact absurd (isFourth.mpr still) (by decide)
    rw [if_pos noFourth] at isThird
    refine ⟨?_, noFourth⟩
    by_contra still
    exact absurd (isThird.mpr still) (by decide)
  · rintro ⟨noThird, noFourth⟩
    rw [if_pos noFourth]
    exact ⟨iff_of_false (by decide) (not_not_intro noThird),
      iff_of_false (by decide) (not_not_intro noFourth)⟩

theorem keepsSummary_iff_of_run {reg : DistRegWord} {change : Register32 → Register32 → Register32}
    {action : WriteAction} (decodes : DistRegWord.fromOffset reg.offset = some reg)
    (run : writeWord nodeIndex val reg before = .ok action after)
    (words : ∀ other cpu, after.sgiWord other cpu =
      if other = regNum ∧ cpu = nodeIndex then change (before.sgiWord regNum nodeIndex) val
      else before.sgiWord other cpu) :
    KeepsSummary reg change regNum nodeIndex val before ↔ Summarized after := by
  unfold KeepsSummary
  rw [handleWrite_word decodes, run]
  constructor
  · rintro ⟨_, _, same, _, summarized⟩
    obtain ⟨_, rfl⟩ := same
    exact summarized
  · intro summarized
    refine ⟨action, after, rfl, fun other cpu _ _ => ?_, summarized⟩
    rw [words]
    split
    · next same => rw [same.1, same.2]
    · rfl

theorem writeCpendsgir_keeps_iff (isReg : regNum < 4) (isNode : nodeIndex < numNodes)
    (nonzero : val ≠ 0) (summarized : Summarized before) :
    KeepsSummary (.cpendsgir regNum) clearBits regNum nodeIndex val before ↔
      SgiView.cpendsgir.Agrees (before.sgiWord regNum nodeIndex) val := by
  obtain ⟨middle, updated, isPut, words⟩ :=
    @updateSgiPending_returns _ before nodeIndex regNum (fun reg => clearBits reg val) isReg isNode
  obtain ⟨after, looped, marked⟩ := @forSgiBytes_marked _ middle nodeIndex regNum false isReg isNode
    (fun mask => clearBits (before.sgiWord regNum nodeIndex) val &&& mask = 0) _
  have run : writeWord nodeIndex val (.cpendsgir regNum) before = .ok .noAction after := by
    rw [writeWord, writeCpendsgir, if_neg nonzero, Exec.bind_of_ok updated]
    exact (Exec.bind_of_ok looped).trans rfl
  have decodes : DistRegWord.fromOffset (DistRegWord.cpendsgir regNum).offset =
    some (.cpendsgir regNum) := cpendsgir_offset isReg
  have sameWords : ∀ other cpu, after.sgiWord other cpu = middle.sgiWord other cpu := by
    obtain ⟨_, _, rfl⟩ := marked.isPut
    exact fun _ _ => rfl
  rw [keepsSummary_iff_of_run decodes run fun other cpu => (sameWords other cpu).trans (words other cpu),
    summarized_iff (fun mask => clearBits (before.sgiWord regNum nodeIndex) val &&& mask = 0) isReg
      isNode summarized isPut words marked]
  exact cpendsgir_agrees_iff nonzero

theorem writeSpendsgir_keeps_iff (isReg : regNum < 4) (isNode : nodeIndex < numNodes)
    (nonzero : val ≠ 0) (summarized : Summarized before) :
    KeepsSummary (.spendsgir regNum) setBits regNum nodeIndex val before ↔
      SgiView.spendsgir.Agrees (before.sgiWord regNum nodeIndex) val := by
  have isFirst : 0 < numNodes := Nat.lt_of_le_of_lt (Nat.zero_le nodeIndex) isNode
  obtain ⟨middle, updated, isPut, words⟩ :=
    @updateSgiPending_returns _ before nodeIndex regNum (fun reg => setBits reg val) isReg isNode
  obtain ⟨after, looped, marked⟩ := @forSgiBytes_marked _ middle nodeIndex regNum true isReg isNode
    (fun mask => clearBits val (before.sgiWord regNum nodeIndex) &&& mask ≠ 0) _
  have returned : ∃ action, writeWord nodeIndex val (.spendsgir regNum) before = .ok action after := by
    cases swept : sweepIrqsToInject (regNum * 4) 4 after with
    | none =>
        refine absurd ((sweepIrqsToInject_eq_none isFirst (by omega)).mp swept) (not_pastEnd ?_)
        omega
    | some toInject =>
        refine ⟨injectOnly toInject, ?_⟩
        have isSwept : Exec.reads (sweepIrqsToInject (regNum * 4) 4) after =
            (.ok toInject after : Outcome IrqError _ _) := Exec.reads_eq_ok.mpr ⟨swept, rfl⟩
        rw [writeWord, writeSpendsgir, if_neg nonzero, Exec.bind_of_ok updated]
        exact (Exec.bind_of_ok looped).trans ((Exec.bind_of_ok isSwept).trans rfl)
  obtain ⟨action, run⟩ := returned
  have decodes : DistRegWord.fromOffset (DistRegWord.spendsgir regNum).offset =
      some (.spendsgir regNum) := by
    have numbered : (DistRegWord.spendsgir regNum).Numbered := isReg
    exact fromOffset_offset numbered
  have sameWords : ∀ other cpu, after.sgiWord other cpu = middle.sgiWord other cpu := by
    obtain ⟨_, _, rfl⟩ := marked.isPut
    exact fun _ _ => rfl
  rw [keepsSummary_iff_of_run decodes run fun other cpu => (sameWords other cpu).trans (words other cpu),
    summarized_iff (fun mask => clearBits val (before.sgiWord regNum nodeIndex) &&& mask ≠ 0) isReg
      isNode summarized isPut words marked]
  exact spendsgir_agrees_iff

/-- A write of nothing does nothing. -/
theorem keepsSummary_zero (view : SgiView) (isReg : regNum < 4) (summarized : Summarized before) :
    KeepsSummary (view.reg regNum) view.change regNum nodeIndex 0 before := by
  have same : ∀ reg, view.change reg 0 = reg := by
    intro reg
    cases view with
    | cpendsgir =>
        rw [SgiView.change, clearBits, show ~~~(0 : Register32) = BitVec.allOnes 32 from rfl]
        exact BitVec.and_allOnes
    | spendsgir => exact BitVec.or_zero
  have run : writeWord nodeIndex 0 (view.reg regNum) before = .ok .noAction before := by
    cases view <;> rfl
  have decodes : DistRegWord.fromOffset (view.reg regNum).offset = some (view.reg regNum) := by
    cases view <;> exact fromOffset_offset isReg
  rw [keepsSummary_iff_of_run decodes run fun other cpu => ?_]
  · exact summarized
  · rw [same]
    split
    · next here => rw [here.1, here.2]
    · rfl

/-- The summary comes out right exactly where the bytes agree. -/
theorem keepsSummary_iff (view : SgiView) (val : Register32) (isReg : regNum ≤ 3)
    (isNode : nodeIndex < numNodes) (summarized : Summarized before) :
    KeepsSummary (view.reg regNum) view.change regNum nodeIndex val before ↔
      view.Agrees (before.sgiWord regNum nodeIndex) val := by
  have isReg : regNum < 4 := Nat.lt_succ_of_le isReg
  by_cases isZero : val = 0
  · subst isZero
    refine iff_of_true (keepsSummary_zero view isReg summarized) ?_
    cases view with
    | cpendsgir => exact .inl rfl
    | spendsgir => simp [SgiView.Agrees, byte, clearBits]
  · cases view with
    | cpendsgir => exact writeCpendsgir_keeps_iff isReg isNode isZero summarized
    | spendsgir => exact writeSpendsgir_keeps_iff isReg isNode isZero summarized

theorem new_summarized : Summarized (new 1) := by
  intro irq cpu isSgi isCpu
  obtain rfl : cpu = 0 := by omega
  revert irq
  decide +kernel

theorem keepsSummary_iff_first :
    KeepsSummary (.spendsgir 0) setBits 0 0 1 (new 1) ↔
      SgiView.spendsgir.Agrees ((new 1).sgiWord 0 0) 1 :=
  keepsSummary_iff .spendsgir 1 (by decide) (by decide) new_summarized

/-- SGI 3, made pending from cpu 0, does not become pending. -/
theorem fourth_sgi_missed :
    Summarized (new 1) ∧ ¬ KeepsSummary (.spendsgir 0) setBits 0 0 0x01000000 (new 1) := by
  refine ⟨new_summarized, ?_⟩
  rw [writeSpendsgir_keeps_iff (by decide) (by decide) (by decide) new_summarized]
  rintro ⟨isFourth, _⟩
  revert isFourth
  decide +kernel

end Writes

end IceCap.Gic.Distributor
