import IceCap.Gic.Sweeps

/-!
# Which word accesses make the VMM panic

Register by register, and then by offset.  The vectors have a register for every
number an offset can name, except that the enable registers are read and cleared
one place too far; and a write to `GICD_SGIR` may name cpus there are none of.
-/

set_option autoImplicit false

namespace IceCap.Gic.Distributor

open IceCap.Library

variable {numNodes : Nat}

/-! ## Calls that return -/

section Returns
variable {dist : Distributor numNodes} {family : Family numNodes}

theorem update_ne_panic {regNum nodeIndex : Nat} {change : Register32 → Register32}
    (isReg : regNum < 32) (isNode : nodeIndex < numNodes) :
    family.update regNum nodeIndex change dist ≠ .panic := by
  obtain ⟨final, run⟩ := family.update_ok dist change isReg isNode
  simp [run]

theorem update_past_end {nodeIndex : Nat} {change : Register32 → Register32} :
    family.update 32 nodeIndex change dist = .panic := by
  have isNone : family.load 32 nodeIndex dist = none := by
    simp [Family.load]
  simp [Family.update, isNone]

theorem orPanic_updateBit {irq cpu : Nat} {change : Register32 → Register32 → Register32}
    (isIrq : irq < 1024) :
    Exec.orPanic (family.updateBit irq cpu change) dist = .panic ↔ numNodes ≤ cpu := by
  rw [Exec.orPanic_eq_panic]
  constructor
  · intro notOk
    by_contra isNode
    obtain ⟨final, run⟩ := family.updateBit_ok dist change isIrq (Nat.lt_of_not_le isNode)
    exact notOk () final run
  · intro outside result final run
    simp [Family.updateBit, outside] at run

theorem pendSgi_eq_panic {irq cpu : Nat} (isIrq : irq < 1020) (toInject : List (Irq × Cpu)) :
    pendSgi irq toInject cpu dist = .panic ↔ numNodes ≤ cpu := by
  have isRegister : irq < 1024 := by omega
  simp [pendSgi, setPending, -Exec.orPanic_eq_panic, orPanic_updateBit isRegister,
    shouldInject_eq_some isIrq]

theorem forwardSgi_eq_panic {irq : Nat} (isIrq : irq < 1020) (cpus : List Nat) :
    forwardSgi irq cpus dist = .panic ↔ ∃ cpu ∈ cpus, numNodes ≤ cpu := by
  have infallible : ∀ toInject cpu,
      Exec.Infallible (pendSgi irq toInject cpu :
        Exec IrqError (Distributor numNodes) (List (Irq × Cpu))) := by
    intro toInject cpu
    exact (Exec.Infallible.orPanic _).bind fun _ => (Exec.Infallible.reads _).bind fun _ => .pure _
  exact Exec.foldEach_eq_panic (fun cpu => numNodes ≤ cpu) infallible
    (fun toInject cpu dist => pendSgi_eq_panic isIrq toInject) cpus [] dist

/-- The loops over an SGI register only touch existing bits of an existing node. -/
theorem forSgiBytes_ne_panic {regNum nodeIndex : Nat} (isReg : regNum < 4)
    (isNode : nodeIndex < numNodes) (skip : Register32 → Prop) [DecidablePred skip]
    (change : Register32 → Register32 → Register32) :
    forSgiBytes (regNum * 4) (fun irq mask =>
      if skip mask then Exec.orPanic (pendings.updateBit irq nodeIndex change) else pure ()) dist ≠
        .panic := by
  have round : ∀ irq ∈ List.range' (regNum * 4) 4, ∀ (mask : Register32)
      (dist : Distributor numNodes), (do
        (if skip (mask <<< ((irq - regNum * 4) * 8)) then
          Exec.orPanic (pendings.updateBit irq nodeIndex change) else pure ())
        pure (mask <<< ((irq - regNum * 4) * 8)) :
          Exec IrqError (Distributor numNodes) Register32) dist ≠ .panic := by
    intro irq member mask dist
    rw [List.mem_range'_1] at member
    have isIrq : irq < 1024 := by omega
    split <;> simp [-Exec.orPanic_eq_panic, orPanic_updateBit isIrq, isNode]
  have loop := Exec.foldEach_ne_panic round 0xFF#32 dist
  simpa [forSgiBytes] using loop

end Returns

/-! ## Register by register -/

/-- The word writes that panic. -/
def WritePanics (dist : Distributor numNodes) (val : Register32) : DistRegWord → Prop
  | .icenabler regNum => regNum = 31 ∧ val ≠ 0
  | .isenabler regNum => regNum = 31 ∧ val ≠ 0 ∧ dist.isGicEnabled = true ∧
      (dist.enable[30] ||| val) >>> 28 ≠ 0
  | .ispendr regNum => regNum = 31 ∧ val ≠ 0 ∧ dist.isGicEnabled = true ∧
      dist.enable[30] >>> 28 ≠ 0
  | .sgir =>
      ((val >>> 24) &&& 0x3 = 0b00 ∧ ((val >>> 16) &&& 0xFF) >>> numNodes ≠ 0) ∨
      ((val >>> 24) &&& 0x3 = 0b01 ∧ numNodes < 8)
  | _ => False

/-- The word reads that panic. -/
def ReadPanics : DistRegWord → Prop
  | .isenabler regNum => regNum = 31
  | .icenabler regNum => regNum = 31
  | _ => False

theorem shiftRight_ne_zero {reg : Register32} {n : Nat} :
    reg >>> n ≠ 0 ↔ ∃ i, n ≤ i ∧ reg.getLsbD i = true := by
  constructor
  · intro nonzero
    by_contra none
    apply nonzero
    apply BitVec.eq_of_getLsbD_eq
    intro i _
    have isClear : reg.getLsbD (n + i) = false := by
      by_contra isSet
      exact none ⟨n + i, by omega, by simpa using isSet⟩
    simp [isClear]
  · rintro ⟨i, above, isSet⟩ isZero
    have cleared := congrArg (fun word => word.getLsbD (i - n)) isZero
    simp only [BitVec.getLsbD_ushiftRight] at cleared
    rw [Nat.add_sub_cancel' above, isSet] at cleared
    simp at cleared

section Registers
variable {dist : Distributor numNodes} {nodeIndex : Nat}

/-- The last enable register holds four bits past the last interrupt. -/
theorem pastEnd_iff {reg : Register32} (isNode : 0 < numNodes)
    (isLast : Family.word enables 31 0 dist = reg) :
    dist.PastEnd (31 * 32) 32 ↔ dist.isGicEnabled = true ∧ reg >>> 28 ≠ 0 := by
  unfold PastEnd
  rw [shiftRight_ne_zero]
  refine and_congr_right fun _ => ?_
  constructor
  · rintro ⟨irq, past, low, high, enabled⟩
    have sameReg : irq / 32 = 31 := by omega
    rw [Family.bit, sameReg, isLast] at enabled
    exact ⟨irq % 32, by omega, by simpa [isNode] using enabled⟩
  · rintro ⟨i, above, isSet⟩
    have inWidth : i < 32 := by
      by_contra outside
      rw [BitVec.getLsbD_of_ge _ _ (by omega)] at isSet
      simp at isSet
    have sameReg : (992 + i) / 32 = 31 := by omega
    have sameShift : (992 + i) % 32 = i := by omega
    refine ⟨992 + i, by omega, by omega, by omega, ?_⟩
    simp [Family.bit, sameReg, sameShift, isLast, isSet, isNode]

theorem not_pastEnd {baseIrq numIrqs : Nat} (below : baseIrq + numIrqs ≤ 1020) :
    ¬ dist.PastEnd baseIrq numIrqs := by
  rintro ⟨_, irq, past, _, high, _⟩
  omega

theorem enables_word_last {cpu : Nat} : Family.word enables 31 cpu dist = dist.enable[30] := by
  simp [Family.word, Family.load, enables]

theorem writeCtlr_ne_panic {val : Register32} (isNode : 0 < numNodes) :
    writeCtlr val dist ≠ .panic := by
  have swept : ∀ dist : Distributor numNodes, sweepBoth 0 1020 dist ≠ .panic := by
    intro dist panicked
    exact not_pastEnd (by decide) ((sweepBoth_eq_panic isNode (by decide)).mp panicked)
  unfold writeCtlr
  split
  · simp only [ne_eq, Exec.bind_eq_panic, Exec.get_ne_panic, Exec.modify_ne_panic, Exec.get_eq_ok,
      Exec.modify_eq_ok, false_or]
    rintro ⟨_, _, ⟨rfl, rfl⟩, _, _, rfl, panicked⟩
    split at panicked
    · exact swept _ panicked
    · simp at panicked
  · split <;> simp

theorem writeIsenabler_eq_panic {regNum : Nat} {val : Register32} (isReg : regNum < 32)
    (isNode : nodeIndex < numNodes) :
    writeIsenabler regNum nodeIndex val dist = .panic ↔
      dist.WritePanics val (.isenabler regNum) := by
  have isFirst : 0 < numNodes := by omega
  unfold writeIsenabler WritePanics
  split
  · next isZero => simp [isZero]
  · next nonzero =>
      obtain ⟨final, run⟩ := Family.update_ok enables dist (fun reg => setBits reg val) isReg isNode
      obtain ⟨_, _, ⟨_, _, isPut⟩, words⟩ := Family.update_words run
      have sameControl : final.isGicEnabled = dist.isGicEnabled := by
        rw [isPut]
        rfl
      simp only [Exec.bind_eq_panic, run, reduceCtorEq, Outcome.ok.injEq, true_and, false_or,
        exists_eq_left', exists_const, sweepBoth_eq_panic isFirst (by omega : regNum * 32 + 32 ≤ 1024)]
      by_cases isLast : regNum = 31
      · subst isLast
        have isWord : Family.word enables 31 0 final = dist.enable[30] ||| val := by
          rw [words, if_pos ⟨rfl, fun isZero => absurd isZero (by decide)⟩, enables_word_last]
          rfl
        rw [pastEnd_iff isFirst isWord, sameControl]
        exact ⟨fun past => ⟨rfl, nonzero, past⟩, fun panics => panics.2.2⟩
      · simp [isLast, not_pastEnd (by omega : regNum * 32 + 32 ≤ 1020)]

theorem writeIcenabler_eq_panic {regNum : Nat} {val : Register32} (isReg : regNum < 32)
    (isNode : nodeIndex < numNodes) :
    writeIcenabler regNum nodeIndex val dist = .panic ↔
      dist.WritePanics val (.icenabler regNum) := by
  unfold writeIcenabler WritePanics
  split
  · next isZero => simp [isZero]
  · next nonzero =>
      by_cases isLast : regNum = 31
      · subst isLast
        have panicked : (enables : Family numNodes).update (if 31 = 0 then 0 else 31 + 1) nodeIndex
            (fun reg => clearBits reg val) dist = .panic := update_past_end
        rw [Exec.bind_eq_panic]
        exact ⟨fun _ => ⟨rfl, nonzero⟩, fun _ => .inl panicked⟩
      · have index : (if regNum = 0 then 0 else regNum + 1) < 32 := by
          split <;> omega
        simp [isLast, update_ne_panic index isNode]

theorem writeIspendr_eq_panic {regNum : Nat} {val : Register32} (isReg : regNum < 32)
    (isNode : nodeIndex < numNodes) :
    writeIspendr regNum nodeIndex val dist = .panic ↔ dist.WritePanics val (.ispendr regNum) := by
  have isFirst : 0 < numNodes := by omega
  unfold writeIspendr WritePanics
  split
  · next isZero => simp [isZero]
  · next nonzero =>
      split
      · next isSgi => simp [isSgi.1]
      · obtain ⟨final, run⟩ :=
          Family.update_ok pendings dist (fun reg => setBits reg val) isReg isNode
        obtain ⟨_, _, ⟨_, _, isPut⟩, _⟩ := Family.update_words run
        have sameControl : final.isGicEnabled = dist.isGicEnabled := by
          rw [isPut]
          rfl
        simp only [Exec.bind_eq_panic, run, reduceCtorEq, Outcome.ok.injEq, true_and, false_or,
          exists_eq_left', exists_const, Exec.reads_eq_panic, Exec.pure_ne_panic, and_false, exists_false,
          or_false, sweepIrqsToInject_eq_none isFirst (by omega : regNum * 32 + 32 ≤ 1024)]
        by_cases isLast : regNum = 31
        · subst isLast
          have isWord : Family.word enables 31 0 final = dist.enable[30] := by
            rw [enables_word_last, isPut]
            rfl
          rw [pastEnd_iff isFirst isWord, sameControl]
          exact ⟨fun past => ⟨rfl, nonzero, past⟩, fun panics => panics.2.2⟩
        · simp [isLast, not_pastEnd (by omega : regNum * 32 + 32 ≤ 1020)]

theorem writeItargetsr_ne_panic {regNum : Nat} {change : Register32 → Register32}
    {named : Register32} (isReg : regNum < 255) (isNode : 0 < numNodes) :
    writeItargetsr regNum change named dist ≠ .panic := by
  unfold writeItargetsr
  split
  · simp
  · next isShared =>
      have isSome : dist.targets[regNum - 8]? = some (dist.targets[regNum - 8]) :=
        Vector.getElem?_eq_getElem (by omega)
      simp only [ne_eq, Exec.bind_eq_panic, Exec.reads_eq_panic, Exec.reads_eq_ok, isSome,
        reduceCtorEq, false_or, Exec.modify_ne_panic, Exec.modify_eq_ok]
      rintro ⟨_, _, ⟨_, rfl⟩, _, _, rfl, panicked⟩
      split at panicked
      · simp at panicked
      · exact not_pastEnd (by omega)
          ((sweepBoth_eq_panic isNode (by omega : regNum * 4 + 4 ≤ 1024)).mp panicked)

theorem allCpus_getLsbD (cpu : Nat) : (0b11111111#32).getLsbD cpu = decide (cpu < 8) := by
  have allOnes : (0b11111111#32) = BitVec.ofNat 32 (2 ^ 8 - 1) := rfl
  rw [allOnes, BitVec.getLsbD_ofNat, Nat.testBit_two_pow_sub_one]
  by_cases less : cpu < 8
  · have inWidth : cpu < 32 := by omega
    simp [less, inWidth]
  · simp [less]

/-- All cpus but the source are too many unless there are eight nodes. -/
theorem allButSource (isNode : nodeIndex < numNodes) :
    (∃ cpu, (0b11111111#32 ^^^ (1#32 <<< nodeIndex)).getLsbD cpu = true ∧ numNodes ≤ cpu) ↔
      numNodes < 8 := by
  have notSource : ∀ cpu, numNodes ≤ cpu → (1#32 <<< nodeIndex).getLsbD cpu = false := by
    intro cpu above
    have positive : cpu - nodeIndex ≠ 0 := by omega
    rw [BitVec.getLsbD_shiftLeft, BitVec.getLsbD_one]
    simp [positive]
  constructor
  · rintro ⟨cpu, isSet, above⟩
    rw [BitVec.getLsbD_xor, notSource cpu above, allCpus_getLsbD] at isSet
    simp only [Bool.xor_false, decide_eq_true_eq] at isSet
    omega
  · intro fewer
    refine ⟨7, ?_, by omega⟩
    rw [BitVec.getLsbD_xor, notSource 7 (by omega), allCpus_getLsbD]
    rfl

theorem writeSgir_eq_panic {val : Register32} (isNode : nodeIndex < numNodes)
    (atMost : numNodes ≤ 8) :
    writeSgir nodeIndex val dist = .panic ↔ dist.WritePanics val .sgir := by
  have isIrq : (val &&& 0xFF).toNat < 1020 := by
    rw [BitVec.toNat_and]
    exact Nat.lt_of_le_of_lt Nat.and_le_right (by decide)
  have forwarded : ∀ cpus, (do
      let toInject ← forwardSgi (val &&& 0xFF).toNat cpus
      pure (injectOnly toInject) : Exec IrqError (Distributor numNodes) WriteAction) dist =
        .panic ↔ ∃ cpu ∈ cpus, numNodes ≤ cpu := by
    intro cpus
    simp only [Exec.bind_eq_panic, Exec.pure_ne_panic, and_false, exists_false, or_false]
    exact forwardSgi_eq_panic isIrq cpus
  unfold WritePanics
  by_cases listed : (val >>> 24) &&& 0x3 = 0b00
  · have isCall : (writeSgir nodeIndex val : Exec IrqError (Distributor numNodes) WriteAction) =
        (do let toInject ← forwardSgi (val &&& 0xFF).toNat (biterate ((val >>> 16) &&& 0xFF))
            pure (injectOnly toInject)) := if_pos listed
    have notOthers : ¬ (val >>> 24) &&& 0x3 = 0b01 := by
      rw [listed]
      decide
    rw [isCall, forwarded]
    simp only [mem_biterate]
    constructor
    · rintro ⟨cpu, isSet, above⟩
      exact .inl ⟨listed, shiftRight_ne_zero.mpr ⟨cpu, above, isSet⟩⟩
    · rintro (⟨_, nonzero⟩ | ⟨others, _⟩)
      · obtain ⟨cpu, above, isSet⟩ := shiftRight_ne_zero.mp nonzero
        exact ⟨cpu, isSet, above⟩
      · exact absurd others notOthers
  · by_cases others : (val >>> 24) &&& 0x3 = 0b01
    · have isCall : (writeSgir nodeIndex val : Exec IrqError (Distributor numNodes) WriteAction) =
          (do Exec.assert (nodeIndex < 8)
              let toInject ← forwardSgi (val &&& 0xFF).toNat
                (biterate (0b11111111#32 ^^^ (1#32 <<< nodeIndex)))
              pure (injectOnly toInject)) := (if_neg listed).trans (if_pos others)
      have less : nodeIndex < 8 := by omega
      have panics : writeSgir nodeIndex val dist = .panic ↔
          ∃ cpu ∈ biterate (0b11111111#32 ^^^ (1#32 <<< nodeIndex)), numNodes ≤ cpu := by
        rw [isCall, Exec.bind_eq_panic, ← forwarded]
        constructor
        · rintro (outside | ⟨_, _, isSame, panicked⟩)
          · exact absurd less (Exec.assert_eq_panic.mp outside)
          · obtain ⟨_, rfl⟩ := Exec.assert_eq_ok.mp isSame
            exact panicked
        · intro panicked
          exact .inr ⟨(), dist, Exec.assert_eq_ok.mpr ⟨less, rfl⟩, panicked⟩
      rw [panics]
      simp only [mem_biterate, allButSource isNode]
      constructor
      · intro fewer
        exact .inr ⟨others, fewer⟩
      · rintro (⟨isListed, _⟩ | ⟨_, fewer⟩)
        · exact absurd isListed listed
        · exact fewer
    · have isCall : (writeSgir nodeIndex val : Exec IrqError (Distributor numNodes) WriteAction) =
          if (val >>> 24) &&& 0x3 = 0b10 then (do
            let toInject ← forwardSgi (val &&& 0xFF).toNat [nodeIndex]
            pure (injectOnly toInject)) else pure .noAction :=
        (if_neg listed).trans (if_neg others)
      rw [isCall]
      simp only [listed, others, false_and, or_false, iff_false]
      split
      · rw [forwarded]
        simp [isNode]
      · simp

theorem writeIpriorityr_ne_panic {regNum : Nat} {val : Register32} (isReg : regNum < 255)
    (isNode : nodeIndex < numNodes) : writeIpriorityr regNum nodeIndex val dist ≠ .panic := by
  unfold writeIpriorityr
  split
  · next isBanked => simp [isNode, isBanked]
  · have isShared : regNum - 8 < 247 := by omega
    simp [isShared]

theorem writeIcfgr_ne_panic {regNum : Nat} {val : Register32} (isReg : regNum < 64)
    (isNode : nodeIndex < numNodes) : writeIcfgr regNum nodeIndex val dist ≠ .panic := by
  unfold writeIcfgr
  split
  · simp
  · split
    · simp [isNode]
    · have isShared : regNum - 2 < 62 := by omega
      simp [isShared]

theorem updateSgiPending_ne_panic {regNum : Nat} {change : Register32 → Register32}
    (isReg : regNum < 4) (isNode : nodeIndex < numNodes) :
    updateSgiPending regNum nodeIndex change dist ≠ .panic := by
  simp [updateSgiPending, isReg, isNode]

theorem writeCpendsgir_ne_panic {regNum : Nat} {val : Register32} (isReg : regNum < 4)
    (isNode : nodeIndex < numNodes) : writeCpendsgir regNum nodeIndex val dist ≠ .panic := by
  unfold writeCpendsgir
  split
  · simp
  · simp only [ne_eq, Exec.bind_eq_panic, Exec.pure_ne_panic, and_false, exists_false, or_false]
    rintro (updated | ⟨prev, middle, _, looped⟩)
    · exact updateSgiPending_ne_panic isReg isNode updated
    · exact forSgiBytes_ne_panic isReg isNode _ clearBits looped

theorem writeSpendsgir_ne_panic {regNum : Nat} {val : Register32} (isReg : regNum < 4)
    (isNode : nodeIndex < numNodes) : writeSpendsgir regNum nodeIndex val dist ≠ .panic := by
  have isFirst : 0 < numNodes := by omega
  unfold writeSpendsgir
  split
  · simp
  · simp only [ne_eq, Exec.bind_eq_panic, Exec.pure_ne_panic, and_false, exists_false, or_false,
      Exec.reads_eq_panic]
    rintro (updated | ⟨prev, middle, _, looped | ⟨_, after, _, swept⟩⟩)
    · exact updateSgiPending_ne_panic isReg isNode updated
    · exact forSgiBytes_ne_panic isReg isNode _ setBits looped
    · exact not_pastEnd (by omega)
        ((sweepIrqsToInject_eq_none isFirst (by omega : regNum * 4 + 4 ≤ 1024)).mp swept)

/-- Word writes that panic, by register. -/
theorem writeWord_eq_panic {val : Register32} {reg : DistRegWord} (isNode : nodeIndex < numNodes)
    (atMost : numNodes ≤ 8) (numbered : reg.Numbered) :
    writeWord nodeIndex val reg dist = .panic ↔ dist.WritePanics val reg := by
  have isFirst : 0 < numNodes := by omega
  cases reg with
  | isenabler regNum => exact writeIsenabler_eq_panic numbered isNode
  | icenabler regNum => exact writeIcenabler_eq_panic numbered isNode
  | ispendr regNum => exact writeIspendr_eq_panic numbered isNode
  | sgir => exact writeSgir_eq_panic isNode atMost
  | ctlr => exact iff_of_false (writeCtlr_ne_panic isFirst) id
  | igroupr regNum => simp [writeWord, writeIgroupr, WritePanics, update_ne_panic numbered isNode]
  | icpendr regNum =>
      simp only [writeWord, writeIcpendr, WritePanics, iff_false]
      split
      · simp
      · split <;> simp [update_ne_panic numbered isNode]
  | isactiver regNum | icactiver regNum =>
      simp only [writeWord, writeActiver, WritePanics, iff_false]
      split <;> simp [update_ne_panic numbered isNode]
  | ipriorityr regNum => exact iff_of_false (writeIpriorityr_ne_panic numbered isNode) id
  | itargetsr regNum => exact iff_of_false (writeItargetsr_ne_panic numbered isFirst) id
  | icfgr regNum => exact iff_of_false (writeIcfgr_ne_panic numbered isNode) id
  | cpendsgir regNum => exact iff_of_false (writeCpendsgir_ne_panic numbered isNode) id
  | spendsgir regNum => exact iff_of_false (writeSpendsgir_ne_panic numbered isNode) id
  | typer | iidr | nsacr _ | iccidr _ | icpidr _ => simp [writeWord, WritePanics]

theorem readEnable_eq_none {regNum : Nat} (isReg : regNum < 32) (isNode : nodeIndex < numNodes) :
    readEnable regNum nodeIndex dist = none ↔ regNum = 31 := by
  unfold readEnable
  by_cases isLast : regNum = 31
  · subst isLast
    simp [Family.load]
  · have index : (if regNum = 0 then 0 else regNum + 1) < 32 := by
      split <;> omega
    simp [Family.load_eq_some index isNode, isLast]

/-- Word reads that panic, by register. -/
theorem readWord_eq_panic {reg : DistRegWord} (isNode : nodeIndex < numNodes)
    (numbered : reg.Numbered) : readWord nodeIndex reg dist = .panic ↔ ReadPanics reg := by
  cases reg with
  | isenabler regNum | icenabler regNum =>
      simp only [readWord, Exec.reads_eq_panic, ReadPanics]
      exact readEnable_eq_none numbered isNode
  | igroupr regNum | ispendr regNum | icpendr regNum | isactiver regNum | icactiver regNum =>
      simp [readWord, ReadPanics, Family.load_eq_some numbered isNode]
  | ipriorityr regNum | itargetsr regNum =>
      have isReg : regNum < 255 := numbered
      simp only [readWord, Exec.reads_eq_panic, ReadPanics, iff_false]
      split
      · next isBanked => simp [isNode, isBanked]
      · have isShared : regNum - 8 < 247 := by omega
        simp [isShared]
  | icfgr regNum =>
      have isReg : regNum < 64 := numbered
      have isShared : regNum - 2 < 62 := by omega
      simp only [readWord, Exec.reads_eq_panic, ReadPanics, iff_false]
      split
      · simp
      · split <;> simp [isNode, isShared]
  | cpendsgir regNum | spendsgir regNum =>
      have isReg : regNum < 4 := numbered
      simp [readWord, ReadPanics, isNode, isReg]
  | iccidr regNum =>
      have isReg : regNum < 4 := numbered
      simp [readWord, ReadPanics, isReg]
  | icpidr regNum =>
      have isReg : regNum < 12 := Nat.lt_trans numbered (by decide)
      simp [readWord, ReadPanics, isReg]
  | ctlr | typer | iidr | nsacr _ | sgir => simp [readWord, ReadPanics]

end Registers

/-! ## By offset -/

/-- The word writes that panic: clearing or setting enable bits in the last register, making
interrupts of the last register pending while one past the end is enabled, and software interrupts
for cpus that do not exist. -/
def WritePanicsAt (dist : Distributor numNodes) (offset : Nat) (val : Register32) : Prop :=
  (offset = 0x1FC ∧ val ≠ 0) ∨
  (offset = 0x17C ∧ val ≠ 0 ∧ dist.isGicEnabled = true ∧ (dist.enable[30] ||| val) >>> 28 ≠ 0) ∨
  (offset = 0x27C ∧ val ≠ 0 ∧ dist.isGicEnabled = true ∧ dist.enable[30] >>> 28 ≠ 0) ∨
  (offset = 0xF00 ∧ (val >>> 24) &&& 0x3 = 0b00 ∧ ((val >>> 16) &&& 0xFF) >>> numNodes ≠ 0) ∨
  (offset = 0xF00 ∧ (val >>> 24) &&& 0x3 = 0b01 ∧ numNodes < 8)

theorem writePanicsAt_iff {dist : Distributor numNodes} {val : Register32} {reg : DistRegWord}
    (numbered : reg.Numbered) : dist.WritePanicsAt reg.offset val ↔ dist.WritePanics val reg := by
  unfold WritePanicsAt
  cases reg with
  | icenabler regNum =>
      simp only [DistRegWord.Numbered, DistRegWord.offset] at numbered ⊢
      constructor
      · rintro (⟨isOffset, nonzero⟩ | ⟨isOffset, _⟩ | ⟨isOffset, _⟩ | ⟨isOffset, _⟩ | ⟨isOffset, _⟩)
        · exact ⟨by omega, nonzero⟩
        all_goals omega
      · rintro ⟨rfl, nonzero⟩
        exact .inl ⟨rfl, nonzero⟩
  | isenabler regNum =>
      simp only [DistRegWord.Numbered, DistRegWord.offset] at numbered ⊢
      constructor
      · rintro (⟨isOffset, _⟩ | ⟨isOffset, rest⟩ | ⟨isOffset, _⟩ | ⟨isOffset, _⟩ | ⟨isOffset, _⟩)
        · omega
        · exact ⟨by omega, rest⟩
        all_goals omega
      · rintro ⟨rfl, rest⟩
        exact .inr (.inl ⟨rfl, rest⟩)
  | ispendr regNum =>
      simp only [DistRegWord.Numbered, DistRegWord.offset] at numbered ⊢
      constructor
      · rintro (⟨isOffset, _⟩ | ⟨isOffset, _⟩ | ⟨isOffset, rest⟩ | ⟨isOffset, _⟩ | ⟨isOffset, _⟩)
        · omega
        · omega
        · exact ⟨by omega, rest⟩
        all_goals omega
      · rintro ⟨rfl, rest⟩
        exact .inr (.inr (.inl ⟨rfl, rest⟩))
  | sgir =>
      constructor
      · rintro (⟨isOffset, _⟩ | ⟨isOffset, _⟩ | ⟨isOffset, _⟩ | ⟨_, rest⟩ | ⟨_, rest⟩)
        · simp [DistRegWord.offset] at isOffset
        · simp [DistRegWord.offset] at isOffset
        · simp [DistRegWord.offset] at isOffset
        · exact .inl rest
        · exact .inr rest
      · rintro (rest | rest)
        · exact .inr (.inr (.inr (.inl ⟨rfl, rest⟩)))
        · exact .inr (.inr (.inr (.inr ⟨rfl, rest⟩)))
  | _ =>
      refine iff_of_false ?_ id
      simp only [DistRegWord.Numbered, DistRegWord.offset] at numbered ⊢
      omega

theorem readPanicsAt_iff {reg : DistRegWord} (numbered : reg.Numbered) :
    (reg.offset = 0x17C ∨ reg.offset = 0x1FC) ↔ ReadPanics reg := by
  cases reg with
  | isenabler regNum | icenabler regNum =>
      simp only [DistRegWord.Numbered, DistRegWord.offset, ReadPanics] at numbered ⊢
      omega
  | _ =>
      refine iff_of_false ?_ id
      simp only [DistRegWord.Numbered, DistRegWord.offset] at numbered ⊢
      omega

/-- A word access to a register there is returns, with a value or an error, except in these cases. -/
theorem word_access_returns {dist : Distributor numNodes} {offset nodeIndex : Nat}
    {val : Register32} (reg : DistRegWord) (atMost : numNodes ≤ 8) (isNode : nodeIndex < numNodes)
    (aligned : 4 ∣ offset) (decodes : DistRegWord.fromOffset offset = some reg) :
    (handleWrite offset nodeIndex (.word val) dist ≠ .panic ↔ ¬ dist.WritePanicsAt offset val) ∧
    (handleRead offset nodeIndex .word dist ≠ .panic ↔ ¬ (offset = 0x17C ∨ offset = 0x1FC)) := by
  obtain ⟨numbered, isOffset⟩ := fromOffset_eq_some aligned decodes
  have isWrite : handleWrite offset nodeIndex (.word val) dist = writeWord nodeIndex val reg dist := by
    simp [handleWrite, decodes, Exec.unwrap, Bind.bind]
  constructor
  · rw [isWrite, ne_eq, writeWord_eq_panic isNode atMost numbered, isOffset,
      writePanicsAt_iff numbered]
  · have isRead : handleRead offset nodeIndex .word dist = .panic ↔
        readWord nodeIndex reg dist = .panic := by
      simp [handleRead, decodes]
    rw [ne_eq, isRead, readWord_eq_panic isNode numbered, isOffset, readPanicsAt_iff numbered]

theorem word_access_returns_isenabler :
    (handleWrite 0x100 0 (.word 1) (new 1) ≠ .panic ↔ ¬ (new 1).WritePanicsAt 0x100 1) ∧
    (handleRead 0x100 0 .word (new 1) ≠ .panic ↔ ¬ (0x100 = 0x17C ∨ 0x100 = 0x1FC)) :=
  word_access_returns (.isenabler 0) (by decide) (by decide) (by decide) (by decide)

/-- The last enable register of a new distributor can be neither read nor cleared. -/
theorem last_enable_panics :
    handleWrite 0x1FC 0 (.word 1) (new 1) = .panic ∧ handleRead 0x1FC 0 .word (new 1) = .panic ∧
      DistRegWord.fromOffset 0x1FC = some (.icenabler 31) := by
  decide +kernel

end IceCap.Gic.Distributor
