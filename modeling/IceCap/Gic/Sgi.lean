import Mathlib.Algebra.Group.Nat.Defs
import Mathlib.Data.List.Sort
import IceCap.Gic.Enables
import IceCap.Gic.Writes

/-!
# Software generated interrupts

A write of `GICD_SGIR` makes an SGI pending on the cpus it selects, provided the
number it gives is that of an SGI and the cpus it lists are there.  The number is
taken from eight bits instead of four, and the cpus from eight bits however many
nodes there are.
-/

set_option autoImplicit false

namespace IceCap.Gic.Distributor

open IceCap.Library

variable {numNodes : Nat}

/-! ## What a write is to do -/

/-- The SGI that a write of `GICD_SGIR` names. -/
def sgiNumber (val : Register32) : Nat := (val.extractLsb' 0 4).toNat

/-- The interrupt that the code takes it to name. -/
def namedIrq (val : Register32) : Nat := (val.extractLsb' 0 8).toNat

/-- The cpus that it selects, by its filter: those of a list, all others, or the writer itself. -/
def selects (nodeIndex : Nat) (val : Register32) (cpu : Nat) : Bool :=
  let filter := val.extractLsb' 24 2
  if filter = 0 then (val.extractLsb' 16 8).getLsbD cpu
  else if filter = 1 then cpu != nodeIndex
  else if filter = 2 then cpu == nodeIndex
  else false

def selected (numNodes nodeIndex : Nat) (val : Register32) : List Nat :=
  (List.range numNodes).filter (selects nodeIndex val)

/-- The SGI becomes pending on the selected cpus and nothing else changes, and it is to be injected
where it can be. -/
def Generates (nodeIndex : Nat) (val : Register32) (dist : Distributor numNodes) : Prop :=
  ∃ action after, handleWrite 0xF00 nodeIndex (.word val) dist = .ok action after ∧
    (∃ regs0 regs, after = pendings.put regs0 regs dist) ∧
    (∀ irq cpu : Nat, irq < 1024 → cpu < numNodes → after.isPending irq cpu =
      if irq = sgiNumber val ∧ cpu ∈ selected numNodes nodeIndex val then some true
      else dist.isPending irq cpu) ∧
    action = injectOnly (((selected numNodes nodeIndex val).filter fun cpu =>
      after.shouldInject (sgiNumber val) cpu == some true).map fun cpu => (sgiNumber val, cpu))

/-! ## The loop -/

/-- An interrupt has become pending on some cpus. -/
structure Pended (irq : Nat) (cpus : List Nat) (before after : Distributor numNodes) : Prop where
  isPut : ∃ regs0 regs, after = pendings.put regs0 regs before
  bits : ∀ other seer : Nat, pendings.bit after other seer = true ↔
    pendings.bit before other seer = true ∨
      (seer < numNodes ∧ ∃ cpu ∈ cpus, Family.SameBit irq cpu other seer)

section Loop
variable {dist middle after : Distributor numNodes} {irq cpu : Nat} {cpus done : List Nat}

theorem Pended.none (dist : Distributor numNodes) : Pended irq [] dist dist :=
  ⟨⟨_, _, rfl⟩, fun _ _ => by simp⟩

theorem Pended.append {more : List Nat} (first : Pended irq done dist middle)
    (second : Pended irq more middle after) : Pended irq (done ++ more) dist after := by
  obtain ⟨_, _, rfl⟩ := first.isPut
  obtain ⟨_, _, rfl⟩ := second.isPut
  refine ⟨⟨_, _, rfl⟩, fun other seer => ?_⟩
  rw [second.bits, first.bits, or_assoc]
  refine or_congr_right ?_
  simp only [List.mem_append]
  constructor
  · rintro (⟨isNode, cpu, member, same⟩ | ⟨isNode, cpu, member, same⟩)
    · exact ⟨isNode, cpu, .inl member, same⟩
    · exact ⟨isNode, cpu, .inr member, same⟩
  · rintro ⟨isNode, cpu, member | member, same⟩
    · exact .inl ⟨isNode, cpu, member, same⟩
    · exact .inr ⟨isNode, cpu, member, same⟩

theorem setPending_pended (run : setPending irq cpu dist = .ok () after) :
    Pended irq [cpu] dist after := by
  obtain ⟨_, _, isPut, _⟩ := Family.updateBit_eq_ok run
  refine ⟨isPut, fun other seer => ?_⟩
  obtain ⟨same, differ⟩ := Family.set_bit run other seer
  by_cases isSame : Family.SameBit irq cpu other seer
  · rw [same isSame, decide_eq_true_eq]
    constructor
    · intro isNode
      exact .inr ⟨isNode, cpu, List.mem_singleton_self cpu, isSame⟩
    · rintro (isSet | ⟨isNode, _⟩)
      · exact Family.bit_isNode isSet
      · exact isNode
  · rw [differ isSame]
    simp [isSame]

/-- Where a bit stays as it is, so does what can be delivered. -/
theorem Pended.deliverable (pended : Pended irq cpus dist after) (other : Nat)
    (samePending : pendings.bit after other cpu = pendings.bit dist other cpu) :
    after.deliverable other cpu = dist.deliverable other cpu := by
  obtain ⟨_, _, rfl⟩ := pended.isPut
  unfold Distributor.deliverable
  rw [samePending]
  rfl

/-- One round of the loop. -/
theorem pendSgi_returns (isIrq : irq < 1020) (isNode : cpu < numNodes) (toInject : List (Irq × Cpu)) :
    ∃ after, pendSgi irq toInject cpu dist =
        .ok (toInject ++ (([cpu].filter (after.deliverable irq)).map fun cpu => (irq, cpu))) after ∧
      Pended irq [cpu] dist after := by
  obtain ⟨after, isSet⟩ := pendings.updateBit_ok dist setBits (by omega : irq < 1024) isNode
  refine ⟨after, ?_, setPending_pended isSet⟩
  have pended : Exec.orPanic (setPending irq cpu) dist = .ok () after :=
    Exec.orPanic_eq_ok.mpr isSet
  simp only [pendSgi, Exec.bind_eq_ok, Exec.reads_eq_ok, Exec.pure_eq_ok]
  refine ⟨(), after, pended, _, after, ⟨shouldInject_eq_some isIrq, rfl⟩, ?_, rfl⟩
  cases isDeliverable : after.deliverable irq cpu <;> simp [isDeliverable]

/-- What the loop has done when some of the cpus are still to come. -/
def Reached (irq : Nat) (cpus : List Nat) (dist : Distributor numNodes) (rest : List Nat)
    (toInject : List (Irq × Cpu)) (state : Distributor numNodes) : Prop :=
  ∃ done, cpus = done ++ rest ∧ Pended irq done dist state ∧
    toInject = (done.filter (state.deliverable irq)).map fun cpu => (irq, cpu)

theorem forwardSgi_returns (isIrq : irq < 1020) (areNodes : ∀ cpu ∈ cpus, cpu < numNodes) :
    ∃ after, forwardSgi irq cpus dist =
        .ok ((cpus.filter (after.deliverable irq)).map fun cpu => (irq, cpu)) after ∧
      Pended irq cpus dist after := by
  have loop : ∃ toInject after, forwardSgi irq cpus dist = .ok toInject after ∧
      Reached irq cpus dist [] toInject after := by
    apply Exec.foldEach_returns (Reached irq cpus dist) _ ⟨[], rfl, .none dist, rfl⟩
    rintro cpu rest _ before ⟨done, rfl, pended, rfl⟩
    have isNode : cpu < numNodes := areNodes cpu (by simp)
    obtain ⟨after, run, pendedHere⟩ := @pendSgi_returns _ before irq cpu isIrq isNode
      ((done.filter (before.deliverable irq)).map fun cpu => (irq, cpu))
    refine ⟨_, after, run, done ++ [cpu], by simp, pended.append pendedHere, ?_⟩
    rw [List.filter_append, List.map_append]
    congr 2
    apply List.filter_congr
    intro other member
    have isPending : pendings.bit before irq other = true :=
      (pended.bits irq other).mpr
        (.inr ⟨areNodes other (by simp [member]), other, member, rfl, fun _ => rfl⟩)
    have stillPending : pendings.bit after irq other = true :=
      (pendedHere.bits irq other).mpr (.inl isPending)
    exact (pendedHere.deliverable irq (stillPending.trans isPending.symm)).symm
  obtain ⟨toInject, after, run, done, isAll, pended, rfl⟩ := loop
  rw [List.append_nil] at isAll
  subst isAll
  exact ⟨after, run, pended⟩

end Loop

/-! ## The fields -/

section Fields
variable {val : Register32} {nodeIndex : Nat}

theorem field_eq (start width : Nat) :
    (val >>> start) &&& BitVec.ofNat 32 (2 ^ width - 1) =
      (val.extractLsb' start width).setWidth 32 := by
  apply BitVec.eq_of_getLsbD_eq
  intro i inWidth
  rw [BitVec.getLsbD_and, BitVec.getLsbD_ushiftRight, BitVec.getLsbD_ofNat,
    Nat.testBit_two_pow_sub_one, BitVec.getLsbD_setWidth, BitVec.getLsbD_extractLsb']
  simp [inWidth, Bool.and_comm]

theorem namedIrq_eq : (val &&& 0xFF).toNat = namedIrq val := by
  have isField : (val >>> 0) &&& 0xFF = (val.extractLsb' 0 8).setWidth 32 := field_eq 0 8
  rw [BitVec.ushiftRight_zero] at isField
  rw [isField, BitVec.toNat_setWidth_of_le (by decide)]
  rfl

theorem listed_getLsbD (cpu : Nat) :
    ((val >>> 16) &&& 0xFF).getLsbD cpu = (val.extractLsb' 16 8).getLsbD cpu := by
  have isField : (val >>> 16) &&& 0xFF = (val.extractLsb' 16 8).setWidth 32 := field_eq 16 8
  rw [isField, BitVec.getLsbD_setWidth]
  by_cases inWidth : cpu < 32
  · simp [inWidth]
  · rw [BitVec.getLsbD_of_ge (val.extractLsb' 16 8) cpu (by omega)]
    simp

theorem filter_eq : (val >>> 24) &&& 0x3 = (val.extractLsb' 24 2).setWidth 32 := field_eq 24 2

/-- The filter, as the code compares it. -/
theorem filter_eq_iff :
    ((val >>> 24) &&& 0x3 = 0b00 ↔ val.extractLsb' 24 2 = 0) ∧
    ((val >>> 24) &&& 0x3 = 0b01 ↔ val.extractLsb' 24 2 = 1) ∧
    ((val >>> 24) &&& 0x3 = 0b10 ↔ val.extractLsb' 24 2 = 2) := by
  rw [filter_eq]
  generalize val.extractLsb' 24 2 = filter
  revert filter
  decide

theorem selects_others {cpu : Nat} (others : val.extractLsb' 24 2 = 1) :
    selects nodeIndex val cpu = (cpu != nodeIndex) := by
  simp only [selects, others]
  rfl

theorem selects_own {cpu : Nat} (own : val.extractLsb' 24 2 = 2) :
    selects nodeIndex val cpu = (cpu == nodeIndex) := by
  simp only [selects, own]
  rfl

theorem selects_none {cpu : Nat} (notListed : ¬ val.extractLsb' 24 2 = 0)
    (notOthers : ¬ val.extractLsb' 24 2 = 1) (notOwn : ¬ val.extractLsb' 24 2 = 2) :
    selects nodeIndex val cpu = false := by
  rw [selects, if_neg notListed, if_neg notOthers, if_neg notOwn]

theorem mem_selected {cpu : Nat} :
    cpu ∈ selected numNodes nodeIndex val ↔ cpu < numNodes ∧ selects nodeIndex val cpu = true := by
  rw [selected, List.mem_filter, List.mem_range]

/-- A sorted list of the selected cpus is the list of them. -/
theorem selected_eq {cpus : List Nat} (sorted : cpus.Pairwise (· < ·))
    (members : ∀ cpu, cpu ∈ cpus ↔ cpu < numNodes ∧ selects nodeIndex val cpu = true) :
    cpus = selected numNodes nodeIndex val := by
  apply List.Pairwise.eq_of_mem_iff sorted
  · exact List.Pairwise.filter _ List.pairwise_lt_range
  · intro cpu
    rw [members, mem_selected]

theorem sgiNumber_lt : sgiNumber val < 16 := (val.extractLsb' 0 4).isLt

theorem namedIrq_lt : namedIrq val < 256 := (val.extractLsb' 0 8).isLt

end Fields

/-! ## The write -/

section Sgir
variable {dist : Distributor numNodes} {nodeIndex : Nat} {val : Register32}

/-- A write that does not panic goes over the selected cpus. -/
theorem writeSgir_eq (atMost : numNodes ≤ 8) (isNode : nodeIndex < numNodes)
    (returns : ¬ dist.WritePanics val .sgir) {toInject : List (Irq × Cpu)} {after : Distributor numNodes}
    (run : forwardSgi (namedIrq val) (selected numNodes nodeIndex val) dist = .ok toInject after) :
    writeSgir nodeIndex val dist = .ok (injectOnly toInject) after := by
  obtain ⟨isListed, isOthers, isOwn⟩ := @filter_eq_iff val
  have forwarded : ∀ cpus, cpus = selected numNodes nodeIndex val → (do
      let toInject ← forwardSgi (namedIrq val) cpus
      pure (injectOnly toInject) : Exec IrqError (Distributor numNodes) WriteAction) dist =
        .ok (injectOnly toInject) after := by
    rintro cpus rfl
    rw [Exec.bind_of_ok run]
    rfl
  rw [writeSgir, namedIrq_eq]
  simp only [isListed, isOthers, isOwn]
  split
  · next listed =>
      refine forwarded _ (selected_eq (biterate_sorted _) fun cpu => ?_)
      rw [mem_biterate, listed_getLsbD]
      simp only [selects, listed, if_true]
      refine (and_iff_right_of_imp fun isSet => ?_).symm
      by_contra outside
      refine returns (.inl ⟨isListed.mpr listed, shiftRight_ne_zero.mpr ⟨cpu, by omega, ?_⟩⟩)
      rwa [listed_getLsbD]
  split
  · next others =>
      have isFull : numNodes = 8 := by
        by_contra fewer
        exact returns (.inr ⟨isOthers.mpr others, by omega⟩)
      have less : nodeIndex < 8 := by omega
      rw [Exec.assert_bind less]
      refine forwarded _ (selected_eq (biterate_sorted _) fun cpu => ?_)
      rw [mem_biterate, BitVec.getLsbD_xor, allCpus_getLsbD]
      rw [selects_others others, bne_iff_ne]
      by_cases same : cpu = nodeIndex
      · subst same
        have inWidth : cpu < 32 := by omega
        simp [less, inWidth]
      · have isClear : (1#32 <<< nodeIndex).getLsbD cpu = false := by
          have shifted := @Family.shiftLeft_getLsbD nodeIndex cpu
          by_cases isCpu : cpu < 32
          · rw [Nat.mod_eq_of_lt (by omega : nodeIndex < 32), Nat.mod_eq_of_lt isCpu] at shifted
            simp [shifted, same]
          · exact BitVec.getLsbD_of_ge _ _ (by omega)
        simp [isClear, isFull, same]
  split
  · next own =>
      refine forwarded _ (selected_eq (List.pairwise_singleton _ _) fun cpu => ?_)
      rw [selects_own own, List.mem_singleton, beq_iff_eq]
      refine (and_iff_right_of_imp ?_).symm
      rintro rfl
      exact isNode
  · next notListed notOthers notOwn =>
      have noCpus : selected numNodes nodeIndex val = [] :=
        List.filter_eq_nil_iff.mpr fun cpu _ =>
          Bool.eq_false_iff.mp (selects_none notListed notOthers notOwn)
      rw [noCpus] at run
      obtain ⟨rfl, rfl⟩ := Exec.pure_eq_ok.mp run
      rfl

/-- The writes that fall short: those that list a cpu there is none of, and those whose number is
that of a PPI or an SPI, unless both that and the SGI are pending already and neither is to be
injected wherever the write goes. -/
def SgirMisses (nodeIndex : Nat) (val : Register32) (dist : Distributor numNodes) : Prop :=
  dist.WritePanics val .sgir ∨
    (namedIrq val ≠ sgiNumber val ∧ ∃ cpu ∈ selected numNodes nodeIndex val,
      ¬ ∀ irq ∈ [sgiNumber val, namedIrq val],
        dist.isPending irq cpu = some true ∧ dist.shouldInject irq cpu = some false)

theorem handleWrite_sgir :
    handleWrite 0xF00 nodeIndex (.word val) dist = writeSgir nodeIndex val dist := rfl

/-- What the write does, as what it is to do. -/
theorem generates_iff {after : Distributor numNodes}
    (run : writeSgir nodeIndex val dist = .ok (injectOnly
      (((selected numNodes nodeIndex val).filter (after.deliverable (namedIrq val))).map
        fun cpu => (namedIrq val, cpu))) after)
    (pended : Pended (namedIrq val) (selected numNodes nodeIndex val) dist after) :
    Generates nodeIndex val dist ↔
      (∀ irq cpu : Nat, irq < 1024 → cpu < numNodes → (pendings.bit after irq cpu = true ↔
        (irq = sgiNumber val ∧ cpu ∈ selected numNodes nodeIndex val) ∨
          pendings.bit dist irq cpu = true)) ∧
      ((selected numNodes nodeIndex val).filter (after.deliverable (namedIrq val))).map
          (fun cpu => (namedIrq val, cpu)) =
        ((selected numNodes nodeIndex val).filter (after.deliverable (sgiNumber val))).map
          fun cpu => (sgiNumber val, cpu) := by
  have isSgi : sgiNumber val < 1020 := Nat.lt_trans sgiNumber_lt (by decide)
  have sameBits : ∀ irq cpu : Nat, irq < 1024 → (after.isPending irq cpu =
      (if irq = sgiNumber val ∧ cpu ∈ selected numNodes nodeIndex val then some true
        else dist.isPending irq cpu) ↔ (pendings.bit after irq cpu = true ↔
          (irq = sgiNumber val ∧ cpu ∈ selected numNodes nodeIndex val) ∨
            pendings.bit dist irq cpu = true)) := by
    intro irq cpu isIrq
    rw [isPending, isPending, Family.test_eq_some isIrq, Family.test_eq_some isIrq]
    by_cases named : irq = sgiNumber val ∧ cpu ∈ selected numNodes nodeIndex val
    · simp only [named, and_self, if_true, Option.some_inj, true_or, iff_true]
    · rw [if_neg named, Option.some_inj, or_iff_right named, Bool.eq_iff_iff]
  have sameTest : (selected numNodes nodeIndex val).filter (fun cpu =>
      after.shouldInject (sgiNumber val) cpu == some true) =
        (selected numNodes nodeIndex val).filter (after.deliverable (sgiNumber val)) := by
    apply List.filter_congr
    intro cpu _
    rw [shouldInject_eq_some isSgi]
    cases after.deliverable (sgiNumber val) cpu <;> rfl
  unfold Generates
  rw [handleWrite_sgir, run]
  constructor
  · rintro ⟨_, _, same, _, bits, isAction⟩
    obtain ⟨rfl, rfl⟩ := same
    refine ⟨fun irq cpu isIrq isCpu => (sameBits irq cpu isIrq).mp (bits irq cpu isIrq isCpu), ?_⟩
    rw [← sameTest]
    have sameInject := congrArg WriteAction.toInject isAction
    rwa [injectOnly_toInject, injectOnly_toInject] at sameInject
  · rintro ⟨bits, sameInject⟩
    refine ⟨_, _, rfl, pended.isPut,
      fun irq cpu isIrq isCpu => (sameBits irq cpu isIrq).mpr (bits irq cpu isIrq isCpu), ?_⟩
    rw [sameTest, sameInject]

/-- Of the two numbers, the write only makes the one that it is taken to name pending. -/
theorem Pended.bits_of_ne {after : Distributor numNodes} {cpu irq other : Nat} {cpus : List Nat}
    (pended : Pended irq cpus dist after) (differ : other ≠ irq) :
    pendings.bit after other cpu = pendings.bit dist other cpu := by
  rw [Bool.eq_iff_iff, pended.bits]
  refine or_iff_left ?_
  rintro ⟨_, _, _, same⟩
  exact differ same.1

theorem map_pair_eq {cpus others : List Nat} {irq other : Nat} (differ : irq ≠ other) :
    (cpus.map fun cpu => (irq, cpu)) = (others.map fun cpu => (other, cpu)) ↔
      cpus = [] ∧ others = [] := by
  constructor
  · intro same
    cases cpus with
    | nil => exact ⟨rfl, List.map_eq_nil_iff.mp same.symm⟩
    | cons cpu rest =>
        cases others with
        | nil => simp at same
        | cons first more =>
            simp only [List.map_cons, List.cons.injEq, Prod.mk.injEq] at same
            exact absurd same.1.1 differ
  · rintro ⟨rfl, rfl⟩
    rfl

theorem generates_iff_of_ne {after : Distributor numNodes}
    (pended : Pended (namedIrq val) (selected numNodes nodeIndex val) dist after)
    (differ : namedIrq val ≠ sgiNumber val) :
    ((∀ irq cpu : Nat, irq < 1024 → cpu < numNodes → (pendings.bit after irq cpu = true ↔
        (irq = sgiNumber val ∧ cpu ∈ selected numNodes nodeIndex val) ∨
          pendings.bit dist irq cpu = true)) ∧
      ((selected numNodes nodeIndex val).filter (after.deliverable (namedIrq val))).map
          (fun cpu => (namedIrq val, cpu)) =
        ((selected numNodes nodeIndex val).filter (after.deliverable (sgiNumber val))).map
          fun cpu => (sgiNumber val, cpu)) ↔
      ∀ cpu ∈ selected numNodes nodeIndex val, ∀ irq ∈ [sgiNumber val, namedIrq val],
        pendings.bit dist irq cpu = true ∧ dist.deliverable irq cpu = false := by
  have isNamed : namedIrq val < 1024 := Nat.lt_trans namedIrq_lt (by decide)
  have isSgi : sgiNumber val < 1024 := Nat.lt_trans sgiNumber_lt (by decide)
  rw [map_pair_eq differ]
  simp only [List.filter_eq_nil_iff, Bool.not_eq_true, List.mem_cons, List.not_mem_nil, or_false,
    forall_eq_or_imp, forall_eq]
  constructor
  · rintro ⟨bits, noneNamed, noneSgi⟩ cpu isSelected
    have isNode : cpu < numNodes := (mem_selected.mp isSelected).1
    have sgiPending : pendings.bit dist (sgiNumber val) cpu = true := by
      rw [← pended.bits_of_ne (Ne.symm differ)]
      exact (bits _ cpu isSgi isNode).mpr (.inl ⟨rfl, isSelected⟩)
    have nowPending : pendings.bit after (namedIrq val) cpu = true :=
      (pended.bits _ cpu).mpr (.inr ⟨isNode, cpu, isSelected, rfl, fun _ => rfl⟩)
    have namedPending : pendings.bit dist (namedIrq val) cpu = true :=
      ((bits _ cpu isNamed isNode).mp nowPending).resolve_left fun same => differ same.1
    refine ⟨⟨sgiPending, ?_⟩, namedPending, ?_⟩
    · rw [← pended.deliverable _ (pended.bits_of_ne (Ne.symm differ))]
      exact noneSgi cpu isSelected
    · rw [← pended.deliverable _ (nowPending.trans namedPending.symm)]
      exact noneNamed cpu isSelected
  · intro quiet
    have sameBits : ∀ irq cpu : Nat, cpu < numNodes →
        pendings.bit after irq cpu = pendings.bit dist irq cpu := by
      intro irq cpu isNode
      rw [Bool.eq_iff_iff, pended.bits]
      refine or_iff_left_of_imp ?_
      rintro ⟨_, other, isSelected, rfl, sees⟩
      have isOther : other < numNodes := (mem_selected.mp isSelected).1
      rw [Family.bit_sees sees isOther isNode]
      exact (quiet other isSelected).2.1
    refine ⟨fun irq cpu _ isNode => ?_, fun cpu isSelected => ?_, fun cpu isSelected => ?_⟩
    · rw [sameBits irq cpu isNode]
      refine (or_iff_right_of_imp ?_).symm
      rintro ⟨rfl, isSelected⟩
      exact (quiet cpu isSelected).1.1
    · rw [pended.deliverable _ (sameBits _ cpu (mem_selected.mp isSelected).1)]
      exact (quiet cpu isSelected).2.2
    · rw [pended.deliverable _ (sameBits _ cpu (mem_selected.mp isSelected).1)]
      exact (quiet cpu isSelected).1.2

theorem sgir_generates_iff (dist : Distributor numNodes) (val : Register32) (atMost : numNodes ≤ 8)
    (isNode : nodeIndex < numNodes) :
    Generates nodeIndex val dist ↔ ¬ SgirMisses nodeIndex val dist := by
  by_cases panics : dist.WritePanics val .sgir
  · refine iff_of_false ?_ (not_not_intro (.inl panics))
    rintro ⟨action, after, run, _⟩
    rw [handleWrite_sgir, (writeSgir_eq_panic isNode atMost).mpr panics] at run
    simp at run
  have isNamed : namedIrq val < 1020 := Nat.lt_trans namedIrq_lt (by decide)
  have isSgi : sgiNumber val < 1020 := Nat.lt_trans sgiNumber_lt (by decide)
  obtain ⟨after, forwarded, pended⟩ :=
    @forwardSgi_returns _ dist (namedIrq val) (selected numNodes nodeIndex val) isNamed
      fun cpu isSelected => (mem_selected.mp isSelected).1
  rw [generates_iff (writeSgir_eq atMost isNode panics forwarded) pended, SgirMisses,
    or_iff_right panics]
  by_cases same : namedIrq val = sgiNumber val
  · refine iff_of_true ⟨fun irq cpu isIrq isCpu => ?_, by rw [same]⟩ fun misses => misses.1 same
    rw [pended.bits, or_comm, same]
    refine or_congr_left ?_
    constructor
    · rintro ⟨_, other, isSelected, rfl, sees⟩
      have isBanked : sgiNumber val / 32 = 0 :=
        Nat.div_eq_of_lt (Nat.lt_trans sgiNumber_lt (by decide))
      rw [sees isBanked]
      exact ⟨rfl, isSelected⟩
    · rintro ⟨rfl, isSelected⟩
      exact ⟨isCpu, cpu, isSelected, rfl, fun _ => rfl⟩
  · have isIrq : ∀ irq ∈ [sgiNumber val, namedIrq val], irq < 1020 := by
      simp [isSgi, isNamed]
    rw [generates_iff_of_ne pended same, not_and, not_exists]
    constructor
    · rintro quiet _ cpu ⟨isSelected, notQuiet⟩
      refine notQuiet fun irq member => ?_
      have less : irq < 1024 := Nat.lt_trans (isIrq irq member) (by decide)
      rw [isPending, Family.test_eq_some less, shouldInject_eq_some (isIrq irq member),
        Option.some_inj, Option.some_inj]
      exact quiet cpu isSelected irq member
    · intro quiet cpu isSelected irq member
      have less : irq < 1024 := Nat.lt_trans (isIrq irq member) (by decide)
      have quietHere := not_not.mp (fun notQuiet => quiet same cpu ⟨isSelected, notQuiet⟩) irq member
      rwa [isPending, Family.test_eq_some less, shouldInject_eq_some (isIrq irq member),
        Option.some_inj, Option.some_inj] at quietHere

theorem sgir_generates_iff_own : Generates 0 0x02000001 (new 1) ↔ ¬ SgirMisses 0 0x02000001 (new 1) :=
  sgir_generates_iff (new 1) 0x02000001 (by decide) (by decide)

/-- With four nodes a write to all other cpus panics, and 0x20 names SPI 32 in place of SGI 0. -/
theorem sgir_panics_and_names_spi :
    ¬ Generates 0 0x01000000 (new 4) ∧ ¬ Generates 0 0x02000020 (new 1) := by
  constructor
  · rintro ⟨action, after, run, _⟩
    have isPanic : writeSgir 0 0x01000000 (new 4) = .panic :=
      (writeSgir_eq_panic (by decide) (by decide)).mpr (.inr ⟨by decide, by decide⟩)
    rw [handleWrite_sgir, isPanic] at run
    simp at run
  · rintro ⟨action, after, run, _, bits, _⟩
    have same : handleWrite 0xF00 0 (.word 0x02000020) (new 1) =
      .ok .noAction { new 1 with pending := (new 1).pending.setIfInBounds 0 1 } := rfl
    rw [same] at run
    obtain ⟨rfl, rfl⟩ := run
    have isClear := bits 32 0 (by decide) (by decide)
    revert isClear
    decide +kernel

end Sgir

end IceCap.Gic.Distributor
