import IceCap.Gic.Frames
import IceCap.Gic.Panics

/-!
# The two views of the enable bits

Writes of `GICD_ISENABLERn` set the bits that `is_enabled` tests.  Writes of
`GICD_ICENABLERn` and reads of either go to the next shared register instead:
the views agree on the banked register, and on a shared one only as long as it
and the next hold the same bits and nothing is cleared.
-/

set_option autoImplicit false

namespace IceCap.Gic.Distributor

open IceCap.Library

variable {numNodes : Nat}

/-! ## What the views are to show -/

/-- The enable bits that a write of a register by a cpu names. -/
def Named (regNum nodeIndex : Nat) (val : Register32) (irq : Irq) (cpu : Cpu) : Prop :=
  irq / 32 = regNum ∧ Family.Sees regNum nodeIndex cpu ∧ val.getLsbD (irq % 32) = true

instance (regNum nodeIndex : Nat) (val : Register32) (irq : Irq) (cpu : Cpu) :
    Decidable (Named regNum nodeIndex val irq cpu) :=
  inferInstanceAs (Decidable (_ ∧ _))

/-- A word write returns, and makes the named enable bits what it is for and no other. -/
def Writes (reg : DistRegWord) (regNum nodeIndex : Nat) (val : Register32) (target : Bool)
    (dist : Distributor numNodes) : Prop :=
  ∃ action final, handleWrite reg.offset nodeIndex (.word val) dist = .ok action final ∧
    ∀ irq cpu : Nat, irq < 1024 → cpu < numNodes → ∀ enabled, dist.isEnabled irq cpu = some enabled →
      final.isEnabled irq cpu = some (if Named regNum nodeIndex val irq cpu then target else enabled)

/-- A word read returns the enable bits of the interrupts of the register. -/
def Reads (reg : DistRegWord) (regNum nodeIndex : Nat) (dist : Distributor numNodes) : Prop :=
  ∃ word, handleRead reg.offset nodeIndex .word dist = .ok (.word word) dist ∧
    ∀ k : Nat, k < 32 → dist.isEnabled (32 * regNum + k) nodeIndex = some (word.getLsbD k)

/-- Set, clear, read and `is_enabled` go to one state. -/
structure OneState (regNum nodeIndex : Nat) (val : Register32) (dist : Distributor numNodes) :
    Prop where
  set : Writes (.isenabler regNum) regNum nodeIndex val true dist
  clear : Writes (.icenabler regNum) regNum nodeIndex val false dist
  readSet : Reads (.isenabler regNum) regNum nodeIndex dist
  readClear : Reads (.icenabler regNum) regNum nodeIndex dist

/-- The register and the next one have the same interrupts enabled, and none that is named. -/
def Doubled (regNum nodeIndex : Nat) (val : Register32) (dist : Distributor numNodes) : Prop :=
  ∀ k : Nat, k < 32 → dist.isEnabled (32 * regNum + k) nodeIndex =
      dist.isEnabled (32 * (regNum + 1) + k) nodeIndex ∧
    (val.getLsbD k = true → dist.isEnabled (32 * regNum + k) nodeIndex = some false)

/-! ## By register number -/

section Views
variable {regNum nodeIndex : Nat} {val : Register32} {target : Bool} {dist : Distributor numNodes}
  {reg : DistRegWord}

theorem fromOffset_enables (isReg : regNum < 32) :
    DistRegWord.fromOffset (DistRegWord.isenabler regNum).offset = some (.isenabler regNum) ∧
      DistRegWord.fromOffset (DistRegWord.icenabler regNum).offset = some (.icenabler regNum) := by
  constructor <;> exact fromOffset_offset isReg

theorem handleWrite_word (decodes : DistRegWord.fromOffset reg.offset = some reg) :
    handleWrite reg.offset nodeIndex (.word val) dist = writeWord nodeIndex val reg dist := by
  simp [handleWrite, decodes, Exec.unwrap, Bind.bind]

theorem handleRead_word (decodes : DistRegWord.fromOffset reg.offset = some reg)
    {word : Register32} {final : Distributor numNodes} :
    handleRead reg.offset nodeIndex .word dist = .ok (.word word) final ↔
      readWord nodeIndex reg dist = .ok word final := by
  simp [handleRead, decodes]

/-- A write shows in the bits. -/
theorem writes_iff (decodes : DistRegWord.fromOffset reg.offset = some reg) :
    Writes reg regNum nodeIndex val target dist ↔
      ∃ action final, writeWord nodeIndex val reg dist = .ok action final ∧
        ∀ irq cpu : Nat, irq < 1024 → cpu < numNodes → enables.bit final irq cpu =
          if Named regNum nodeIndex val irq cpu then target else enables.bit dist irq cpu := by
  unfold Writes
  rw [handleWrite_word decodes]
  refine exists_congr fun action => exists_congr fun final => and_congr_right fun _ => ?_
  refine forall_congr' fun irq => forall_congr' fun cpu => forall_congr' fun isIrq =>
    forall_congr' fun _ => ?_
  simp only [isEnabled, Family.test_eq_some isIrq, Option.some.injEq, forall_eq']

/-- A read that loads another register shows that one. -/
theorem reads_iff (decodes : DistRegWord.fromOffset reg.offset = some reg) (isReg : regNum < 32)
    (isRead : ∀ dist : Distributor numNodes, readWord nodeIndex reg dist =
      Exec.reads (readEnable regNum nodeIndex) dist) :
    Reads reg regNum nodeIndex dist ↔ ∃ word, readEnable regNum nodeIndex dist = some word ∧
      ∀ k : Nat, k < 32 → enables.bit dist (32 * regNum + k) nodeIndex = word.getLsbD k := by
  unfold Reads
  refine exists_congr fun word => ?_
  rw [handleRead_word decodes, isRead, Exec.reads_eq_ok]
  refine and_congr (by simp) (forall_congr' fun k => forall_congr' fun inWord => ?_)
  have isIrq : 32 * regNum + k < 1024 := by omega
  rw [isEnabled, Family.test_eq_some isIrq, Option.some_inj]

theorem bit_eq {family : Family numNodes} {k : Nat} (inWord : k < 32) (isNode : nodeIndex < numNodes) :
    family.bit dist (32 * regNum + k) nodeIndex = (family.word regNum nodeIndex dist).getLsbD k := by
  have sameReg : (32 * regNum + k) / 32 = regNum := by omega
  have sameShift : (32 * regNum + k) % 32 = k := by omega
  rw [Family.bit, sameReg, sameShift, decide_eq_true isNode, Bool.true_and]

/-! ## Setting -/

theorem update_sets {family : Family numNodes} {final : Distributor numNodes}
    (run : family.update regNum nodeIndex (fun reg => setBits reg val) dist = .ok () final)
    {irq cpu : Nat} (isCpu : cpu < numNodes) : family.bit final irq cpu =
      if Named regNum nodeIndex val irq cpu then true else family.bit dist irq cpu := by
  obtain ⟨_, _, _, bits⟩ := Family.update_eq_ok run
  rw [bits]
  by_cases sameReg : irq / 32 = regNum ∧ Family.Sees regNum nodeIndex cpu
  · rw [if_pos sameReg]
    by_cases isNamed : val.getLsbD (irq % 32) = true
    · rw [if_pos ⟨sameReg.1, sameReg.2, isNamed⟩]
      simp [setBits, isNamed, isCpu]
    · rw [if_neg fun named => isNamed named.2.2]
      simp [setBits, isNamed, Family.bit, sameReg.1]
  · rw [if_neg sameReg, if_neg fun named => sameReg ⟨named.1, named.2.1⟩]

theorem sweepBoth_returns {baseIrq numIrqs : Nat} (isNode : 0 < numNodes)
    (below : baseIrq + numIrqs ≤ 1020) :
    ∃ action, sweepBoth baseIrq numIrqs dist = .ok action dist := by
  cases swept : sweepBoth baseIrq numIrqs dist with
  | ok action final =>
      have same : final = dist := @sweepBoth_keeps _ _ id _ _ _ _ _ swept
      exact ⟨action, by rw [same]⟩
  | err error final => exact absurd swept (sweepBoth_infallible _ _ _)
  | panic =>
      exact absurd ((sweepBoth_eq_panic isNode (by omega)).mp swept) (not_pastEnd below)

/-- A write of nothing returns at once, and names nothing. -/
theorem not_named_zero {irq cpu : Nat} : ¬ Named regNum nodeIndex 0 irq cpu := by
  intro named
  simp [Named] at named

theorem isenabler_sets (isReg : regNum < 31) (isNode : nodeIndex < numNodes) :
    Writes (.isenabler regNum) regNum nodeIndex val true dist := by
  rw [writes_iff (fromOffset_enables (by omega)).1]
  by_cases isZero : val = 0
  · subst isZero
    refine ⟨.noAction, dist, rfl, fun irq cpu _ _ => ?_⟩
    rw [if_neg not_named_zero]
  · obtain ⟨final, run⟩ := Family.update_ok enables dist (fun reg => setBits reg val)
      (by omega : regNum < 32) isNode
    obtain ⟨action, swept⟩ := @sweepBoth_returns _ final (regNum * 32) 32 (by omega) (by omega)
    have written : writeWord nodeIndex val (.isenabler regNum) dist = .ok action final := by
      simp only [writeWord, writeIsenabler, isZero, if_false, Exec.bind_eq_ok]
      exact ⟨(), final, run, swept⟩
    exact ⟨action, final, written, fun irq cpu _ isCpu => update_sets run isCpu⟩

/-! ## Clearing -/

theorem update_clears {family : Family numNodes} {final : Distributor numNodes}
    (run : family.update regNum nodeIndex (fun reg => clearBits reg val) dist = .ok () final)
    {irq cpu : Nat} : family.bit final irq cpu =
      if Named regNum nodeIndex val irq cpu then false else family.bit dist irq cpu := by
  obtain ⟨_, _, _, bits⟩ := Family.update_eq_ok run
  have inWord : irq % 32 < 32 := Nat.mod_lt _ (by decide)
  rw [bits]
  by_cases sameReg : irq / 32 = regNum ∧ Family.Sees regNum nodeIndex cpu
  · rw [if_pos sameReg]
    by_cases isNamed : val.getLsbD (irq % 32) = true
    · rw [if_pos ⟨sameReg.1, sameReg.2, isNamed⟩, clearBits, BitVec.getLsbD_and, BitVec.getLsbD_not,
        isNamed]
      simp
    · rw [if_neg fun named => isNamed named.2.2, clearBits, BitVec.getLsbD_and, BitVec.getLsbD_not,
        Bool.eq_false_iff.mpr isNamed]
      simp [Family.bit, sameReg.1, inWord]
  · rw [if_neg sameReg, if_neg fun named => sameReg ⟨named.1, named.2.1⟩]

/-- What a write of `GICD_ICENABLERn` does, by the register it goes to. -/
theorem icenabler_clears {goesTo : Nat} (isReg : regNum < 31) (isNode : nodeIndex < numNodes)
    (isGoal : (if regNum = 0 then 0 else regNum + 1) = goesTo) :
    Writes (.icenabler regNum) regNum nodeIndex val false dist ↔
      ∀ irq cpu : Nat, irq < 1024 → cpu < numNodes →
        (if Named goesTo nodeIndex val irq cpu then false else enables.bit dist irq cpu) =
          if Named regNum nodeIndex val irq cpu then false else enables.bit dist irq cpu := by
  have inBounds : goesTo < 32 := by
    rw [← isGoal]
    split <;> omega
  have returned : ∃ final, writeWord nodeIndex val (.icenabler regNum) dist = .ok .noAction final ∧
      ∀ irq cpu, enables.bit final irq cpu =
        if Named goesTo nodeIndex val irq cpu then false else enables.bit dist irq cpu := by
    by_cases isZero : val = 0
    · subst isZero
      refine ⟨dist, rfl, fun irq cpu => ?_⟩
      rw [if_neg not_named_zero]
    · obtain ⟨final, run⟩ := Family.update_ok enables dist (fun reg => clearBits reg val) inBounds
        isNode
      have written : writeWord nodeIndex val (.icenabler regNum) dist = .ok .noAction final := by
        simp only [writeWord, writeIcenabler, isZero, if_false, isGoal, Exec.bind_eq_ok]
        exact ⟨(), final, run, rfl⟩
      exact ⟨final, written, fun irq cpu => update_clears run⟩
  obtain ⟨final, written, bits⟩ := returned
  rw [writes_iff (fromOffset_enables (by omega)).2, written]
  simp only [Outcome.ok.injEq, ← bits]
  constructor
  · rintro ⟨_, _, ⟨_, rfl⟩, cleared⟩
    exact cleared
  · intro cleared
    exact ⟨_, _, ⟨rfl, rfl⟩, cleared⟩

/-- In a shared register a write clears the named bits only if they are clear already, and it leaves
the next register alone only if they are clear there. -/
theorem icenabler_clears_shared (isShared : regNum ≠ 0) (isReg : regNum < 31)
    (isNode : nodeIndex < numNodes) :
    Writes (.icenabler regNum) regNum nodeIndex val false dist ↔
      ∀ k : Nat, k < 32 → val.getLsbD k = true →
        enables.bit dist (32 * regNum + k) nodeIndex = false ∧
          enables.bit dist (32 * (regNum + 1) + k) nodeIndex = false := by
  rw [icenabler_clears isReg isNode (if_neg isShared)]
  constructor
  · intro same k inWord isNamed
    have named : ∀ goesTo : Nat, ∀ other : Nat,
        Named other nodeIndex val (32 * goesTo + k) nodeIndex ↔ other = goesTo := by
      intro goesTo other
      have sameReg : (32 * goesTo + k) / 32 = goesTo := by omega
      have sameShift : (32 * goesTo + k) % 32 = k := by omega
      rw [Named, sameReg, sameShift]
      exact ⟨fun holds => holds.1.symm, fun holds => ⟨holds.symm, fun _ => rfl, isNamed⟩⟩
    have here := same (32 * regNum + k) nodeIndex (by omega) isNode
    have next := same (32 * (regNum + 1) + k) nodeIndex (by omega) isNode
    simp only [named regNum, Nat.succ_ne_self, if_true,
      if_false] at here
    simp only [named (regNum + 1), Nat.left_eq_add, Nat.one_ne_zero, if_true,
      if_false] at next
    exact ⟨here, next.symm⟩
  · intro clear irq cpu isIrq isCpu
    have seen : ∀ goesTo : Nat, goesTo ≠ 0 → enables.bit dist (32 * goesTo + irq % 32) nodeIndex = false →
        Named goesTo nodeIndex val irq cpu → enables.bit dist irq cpu = false := by
      intro goesTo isGoal isClear named
      have sameIrq : 32 * goesTo + irq % 32 = irq := by
        rw [← named.1]
        exact Nat.div_add_mod irq 32
      rw [sameIrq] at isClear
      rw [← isClear]
      exact Family.bit_sees (fun none => absurd (named.1.symm.trans none) isGoal) isNode isCpu
    have inWord : irq % 32 < 32 := Nat.mod_lt _ (by decide)
    by_cases named : Named regNum nodeIndex val irq cpu
    · rw [if_pos named, seen regNum isShared (clear _ inWord named.2.2).1 named, ite_self]
    · rw [if_neg named]
      split
      · next namedNext =>
          exact (seen (regNum + 1) (by omega) (clear _ inWord namedNext.2.2).2 namedNext).symm
      · rfl

/-! ## Reading -/

/-- Both reads show the bits of the register that `enable[reg_num]` is. -/
theorem reads_goes_to {goesTo : Nat} (isReg : regNum < 31) (isNode : nodeIndex < numNodes)
    (isGoal : (if regNum = 0 then 0 else regNum + 1) = goesTo)
    (decodes : DistRegWord.fromOffset reg.offset = some reg)
    (isRead : ∀ dist : Distributor numNodes, readWord nodeIndex reg dist =
      Exec.reads (readEnable regNum nodeIndex) dist) :
    Reads reg regNum nodeIndex dist ↔ ∀ k : Nat, k < 32 →
      enables.bit dist (32 * regNum + k) nodeIndex =
        enables.bit dist (32 * goesTo + k) nodeIndex := by
  have inBounds : goesTo < 32 := by
    rw [← isGoal]
    split <;> omega
  have loaded : readEnable regNum nodeIndex dist =
      some (Family.word enables goesTo nodeIndex dist) := by
    rw [readEnable, isGoal]
    exact Family.load_eq_some inBounds isNode
  rw [reads_iff decodes (by omega) isRead, loaded]
  constructor
  · rintro ⟨word, isWord, shown⟩ k inWord
    rw [shown k inWord, ← Option.some.inj isWord, bit_eq inWord isNode]
  · intro same
    refine ⟨_, rfl, fun k inWord => ?_⟩
    rw [same k inWord, bit_eq inWord isNode]

/-- The last register cannot be read. -/
theorem not_reads_last (decodes : DistRegWord.fromOffset reg.offset = some reg)
    (isRead : ∀ dist : Distributor numNodes, readWord nodeIndex reg dist =
      Exec.reads (readEnable 31 nodeIndex) dist) : ¬ Reads reg 31 nodeIndex dist := by
  rw [reads_iff decodes (by decide) isRead]
  rintro ⟨word, isWord, _⟩
  simp [readEnable, Family.load] at isWord

/-! ## One state -/

theorem doubled_iff (isReg : regNum < 31) : Doubled regNum nodeIndex val dist ↔
    ∀ k : Nat, k < 32 → enables.bit dist (32 * regNum + k) nodeIndex =
        enables.bit dist (32 * (regNum + 1) + k) nodeIndex ∧
      (val.getLsbD k = true → enables.bit dist (32 * regNum + k) nodeIndex = false) := by
  refine forall_congr' fun k => forall_congr' fun inWord => ?_
  have isIrq : 32 * regNum + k < 1024 := by omega
  have isNext : 32 * (regNum + 1) + k < 1024 := by omega
  simp only [isEnabled, Family.test_eq_some isIrq, Family.test_eq_some isNext, Option.some_inj]

/-- The views of a register are one state on the banked register, and on a shared one if the next
register doubles it and the write names nothing that is enabled. -/
theorem oneState_iff (dist : Distributor numNodes) (val : Register32) (isReg : regNum ≤ 31)
    (isNode : nodeIndex < numNodes) :
    OneState regNum nodeIndex val dist ↔
      regNum = 0 ∨ (regNum < 31 ∧ Doubled regNum nodeIndex val dist) := by
  have decodes := fromOffset_enables (by omega : regNum < 32)
  by_cases isLast : regNum = 31
  · subst isLast
    refine iff_of_false (fun one => not_reads_last decodes.1 (fun _ => rfl) one.readSet) ?_
    rintro (isZero | ⟨less, _⟩)
    · exact absurd isZero (by decide)
    · exact absurd less (Nat.lt_irrefl 31)
  · have inBounds : regNum < 31 := by omega
    by_cases isBanked : regNum = 0
    · subst isBanked
      refine iff_of_true ⟨isenabler_sets inBounds isNode, ?_, ?_, ?_⟩ (.inl rfl)
      · exact (icenabler_clears inBounds isNode (if_pos rfl)).mpr fun _ _ _ _ => rfl
      · exact (reads_goes_to inBounds isNode (if_pos rfl) decodes.1 fun _ => rfl).mpr
          fun _ _ => rfl
      · exact (reads_goes_to inBounds isNode (if_pos rfl) decodes.2 fun _ => rfl).mpr
          fun _ _ => rfl
    · have shows : Reads (.isenabler regNum) regNum nodeIndex dist ↔ _ :=
        reads_goes_to inBounds isNode (if_neg isBanked) decodes.1 fun _ => rfl
      have clears : Writes (.icenabler regNum) regNum nodeIndex val false dist ↔ _ :=
        icenabler_clears_shared isBanked inBounds isNode
      rw [doubled_iff inBounds]
      constructor
      · intro one
        refine .inr ⟨inBounds, fun k inWord => ⟨shows.mp one.readSet k inWord, fun isNamed => ?_⟩⟩
        exact (clears.mp one.clear k inWord isNamed).1
      · rintro (isZero | ⟨_, doubled⟩)
        · exact absurd isZero isBanked
        · have sameBits := fun k inWord => (doubled k inWord).1
          refine ⟨isenabler_sets inBounds isNode, clears.mpr fun k inWord isNamed => ?_,
            shows.mpr sameBits, ?_⟩
          · have here := (doubled k inWord).2 isNamed
            exact ⟨here, by rw [← sameBits k inWord, here]⟩
          · exact (reads_goes_to inBounds isNode (if_neg isBanked) decodes.2 fun _ => rfl).mpr
              sameBits

theorem oneState_iff_banked : OneState 0 0 1 (new 1) ↔ 0 = 0 ∨ (0 < 31 ∧ Doubled 0 0 1 (new 1)) :=
  oneState_iff (new 1) 1 (by decide) (by decide)

/-- The first SPI of a new distributor is enabled, and acknowledged. -/
theorem enable_first : handleWrite (DistRegWord.isenabler 1).offset 0 (.word 1) (new 1) =
    .ok (.injectAndAckIrqs (some []) (some [(32, 0)]))
      { new 1 with enable := (new 1).enable.setIfInBounds 0 1 } := by
  rw [handleWrite_word (fromOffset_enables (by decide)).1, writeWord, writeIsenabler,
    if_neg (by decide), Exec.bind_eq_ok]
  refine ⟨(), _, rfl, ?_⟩
  simp only [sweepBoth, Exec.bind_eq_ok, Exec.reads_eq_ok]
  exact ⟨[], _, ⟨by decide +kernel, rfl⟩, [(32, 0)], _, ⟨by decide +kernel, rfl⟩, rfl⟩

/-- An SPI that has been enabled can be disabled no more. -/
theorem disable_misses : ∃ action dist, handleWrite (DistRegWord.isenabler 1).offset 0 (.word 1)
      (new 1) = .ok action dist ∧ ¬ OneState 1 0 1 dist := by
  refine ⟨_, _, enable_first, fun one => ?_⟩
  have isClear := (icenabler_clears_shared (by decide) (by decide) (by decide)).mp one.clear 0
    (by decide) (by decide)
  revert isClear
  decide +kernel

end Views

end IceCap.Gic.Distributor
