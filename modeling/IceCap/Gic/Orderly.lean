import IceCap.Gic.Ack
import IceCap.Gic.Enables
import IceCap.Gic.Stranding
import IceCap.Gic.Writes

/-!
# Orderly accesses

An access that the architecture provides for: to a register there is, of a value
that names no cpu and no interrupt there is none of, and no private interrupt
that nobody acknowledges.  As long as a guest makes no other ones, all of them
return, and what they leave is such that the next ones do.
-/

set_option autoImplicit false

namespace IceCap.Gic

open IceCap.Library

variable {numNodes : Nat}

/-- All the cpus that the bytes of a register name are there. -/
def Register32.Routes (reg : Register32) (numNodes : Nat) : Prop :=
  ∀ i, reg.getLsbD i = true → i % 8 < numNodes

/-- The interrupts and cpus that are handed over are there, and the private interrupts that are to be
acknowledged are known. -/
structure WriteAction.Proper (action : WriteAction) (known : Irq → Prop) (numNodes : Nat) :
    Prop where
  toInject : ∀ pair ∈ action.toInject, pair.1 < 1020 ∧ pair.2 < numNodes
  toAck : ∀ pair ∈ action.toAck, pair.1 < 1020 ∧ pair.2 < numNodes ∧
    (16 ≤ pair.1 → pair.1 < 32 → known pair.1)

/-- The word writes of an orderly guest. -/
def DistRegWord.Orderly (known : Irq → Prop) (numNodes : Nat) (val : Register32) :
    DistRegWord → Prop
  | .ctlr => val = 0 ∨ val = 1
  | .isenabler regNum =>
      ∀ k, val.getLsbD k = true → 32 * regNum + k < 1020 ∧
        (16 ≤ 32 * regNum + k → 32 * regNum + k < 32 → known (32 * regNum + k))
  | .icenabler regNum => regNum ≠ 31
  | .icpendr regNum => regNum = 0 → val &&& 0xFFFF = 0
  | .itargetsr regNum => 8 ≤ regNum ∧ Register32.Routes val numNodes
  | .sgir => ((val >>> 24) &&& 0x3 = 0b00 → ((val >>> 16) &&& 0xFF) >>> numNodes = 0) ∧
      ((val >>> 24) &&& 0x3 = 0b01 → 8 ≤ numNodes)
  | .igroupr _ | .ispendr _ | .isactiver _ | .icactiver _ | .ipriorityr _ | .icfgr _ | .cpendsgir _
  | .spendsgir _ => True
  | .typer | .iidr | .nsacr _ | .icpidr _ | .iccidr _ => False

namespace Distributor

/-- The interrupts that are enabled are there, the private ones among them are known, and the shared
ones are routed to cpus there are. -/
structure Sound (known : Irq → Prop) (dist : Distributor numNodes) : Prop where
  enabled : ∀ irq cpu : Nat, enables.bit dist irq cpu = true →
    irq < 1020 ∧ (16 ≤ irq → irq < 32 → known irq)
  targets : ∀ (regNum : Nat) (reg : Register32), dist.targets[regNum]? = some reg →
    Register32.Routes reg numNodes

section Sound
variable {known : Irq → Prop} {dist final : Distributor numNodes} {nodeIndex : Nat}
  {val : Register32} {reg : DistRegWord} {action : WriteAction}

/-- What soundness is about. -/
def routing (dist : Distributor numNodes) :
    Vector Register32 numNodes × Vector Register32 31 × Vector Register32 247 :=
  (dist.enable0, dist.enable, dist.targets)

theorem Sound.of_routing (sound : dist.Sound known) (same : final.routing = dist.routing) :
    final.Sound known := by
  obtain ⟨sameBanked, sameShared, sameTargets⟩ :
      final.enable0 = dist.enable0 ∧ final.enable = dist.enable ∧ final.targets = dist.targets := by
    simpa [routing] using same
  have sameBit : ∀ irq cpu, enables.bit final irq cpu = enables.bit dist irq cpu := by
    intro irq cpu
    simp only [Family.bit, Family.word, Family.load, enables, sameBanked, sameShared]
  refine ⟨fun irq cpu isEnabled => sound.enabled irq cpu (sameBit irq cpu ▸ isEnabled), ?_⟩
  rw [sameTargets]
  exact sound.targets

theorem new_sound (isNode : 0 < numNodes) : (new numNodes).Sound known where
  enabled irq cpu isEnabled := by
    have isWord : Family.word enables (irq / 32) cpu (new numNodes) =
        if irq / 32 = 0 ∧ cpu < numNodes then 0x0000ffff else 0 := by
      simp only [Family.word, Family.load, enables, new, reset]
      by_cases isFirst : irq / 32 = 0
      · by_cases isCpu : cpu < numNodes <;> simp [isFirst, isCpu]
      · by_cases isReg : irq / 32 - 1 < 31 <;> simp [isFirst, isReg]
    rw [Family.bit, isWord, Bool.and_eq_true] at isEnabled
    split at isEnabled
    · next isFirst =>
        have isSgi : irq % 32 < 16 := by
          by_contra notSgi
          have isClear : (0x0000ffff#32).getLsbD (irq % 32) = false := by
            have isAll : ∀ k < 32, 16 ≤ k → (0x0000ffff#32).getLsbD k = false := by decide
            exact isAll _ (Nat.mod_lt _ (by decide)) (Nat.le_of_not_lt notSgi)
          exact absurd (isEnabled.2.symm.trans isClear) (by decide)
        omega
    · simp at isEnabled
  targets regNum reg isReg := by
    obtain ⟨_, isReg⟩ := Vector.getElem?_eq_some_iff.mp isReg
    obtain rfl : 0x01010101 = reg := by
      simpa [new, reset] using isReg
    intro i isSet
    have isAll : ∀ i < 32, (0x01010101#32).getLsbD i = true → i % 8 = 0 := by decide
    have inWord : i < 32 := by
      by_contra outside
      simp [BitVec.getLsbD_of_ge _ _ (Nat.le_of_not_lt outside)] at isSet
    rwa [isAll i inWord isSet]

/-- The targets of a shared interrupt are there. -/
theorem Sound.routed (sound : dist.Sound known) {irq target : Nat} {targets : Register32}
    (isTargets : dist.getSpiTargets irq = some targets) (isSet : targets.getLsbD target = true) :
    target < numNodes := by
  unfold getSpiTargets at isTargets
  split at isTargets
  · simp at isTargets
  · obtain ⟨reg, isReg, rfl⟩ := Option.map_eq_some_iff.mp isTargets
    rw [BitVec.getLsbD_and, Bool.and_eq_true, BitVec.getLsbD_ushiftRight] at isSet
    have inByte : target < 8 := by
      by_contra outside
      have isClear : (0xFF#32).getLsbD target = false := by
        by_cases inWord : target < 32
        · have isAll : ∀ k < 32, 8 ≤ k → (0xFF#32).getLsbD k = false := by decide
          exact isAll target inWord (Nat.le_of_not_lt outside)
        · exact BitVec.getLsbD_of_ge _ _ (Nat.le_of_not_lt inWord)
      exact absurd (isSet.2.symm.trans isClear) (by decide)
    have isRouted := sound.targets _ _ isReg _ isSet.1
    have sameTarget : (irq % 4 * 8 + target) % 8 = target := by omega
    rwa [sameTarget] at isRouted

/-! ## What is handed over -/

theorem proper_noAction : WriteAction.noAction.Proper known numNodes where
  toInject pair member := by simp [WriteAction.toInject] at member
  toAck pair member := by simp [WriteAction.toAck] at member

theorem shouldInject_isIrq {irq cpu : Nat} (isRegister : irq < 1024) (isNode : cpu < numNodes)
    (passes : dist.shouldInject irq cpu = some true) : irq < 1020 := by
  by_contra past
  rw [shouldInject_past_end (Nat.le_of_not_lt past) isRegister isNode] at passes
  split at passes <;> simp at passes

theorem sweep_toInject {baseIrq numIrqs : Nat} {toInject : List (Irq × Cpu)}
    (inRange : baseIrq + numIrqs ≤ 1024)
    (swept : sweepIrqsToInject baseIrq numIrqs dist = some toInject) :
    ∀ pair ∈ toInject, pair.1 < 1020 ∧ pair.2 < numNodes := by
  intro pair member
  obtain ⟨isIrq, isNode, passes⟩ := sweepIrqs_sound swept pair member
  have below := (List.mem_range'_1.mp isIrq).2
  exact ⟨shouldInject_isIrq (Nat.lt_of_lt_of_le below inRange) isNode passes, isNode⟩

theorem sweepBoth_proper {baseIrq numIrqs : Nat} (inRange : baseIrq + numIrqs ≤ 1024)
    (sound : dist.Sound known) (run : sweepBoth baseIrq numIrqs dist = .ok action final) :
    final.Sound known ∧ action.Proper known numNodes := by
  obtain ⟨rfl, areToInject, areToAck⟩ := sweepBoth_eq_ok run
  refine ⟨sound, sweep_toInject inRange areToInject, fun pair member => ?_⟩
  obtain ⟨isIrq, isNode, passes⟩ := sweepIrqs_sound areToAck pair member
  have isRegister : pair.1 < 1024 := Nat.lt_of_lt_of_le (List.mem_range'_1.mp isIrq).2 inRange
  have tested : enables.test final pair.1 pair.2 = some true := by
    obtain ⟨inject, _, rest⟩ := Option.bind_eq_some_iff.mp passes
    cases inject with
    | true => simp at rest
    | false => exact rest
  have isSet := Option.some.inj ((Family.test_eq_some isRegister).symm.trans tested)
  obtain ⟨isIrq, isKnown⟩ := sound.enabled pair.1 pair.2 isSet
  exact ⟨isIrq, isNode, isKnown⟩

theorem injectOnly_proper {toInject : List (Irq × Cpu)}
    (areProper : ∀ pair ∈ toInject, pair.1 < 1020 ∧ pair.2 < numNodes) :
    (injectOnly toInject).Proper known numNodes where
  toInject := by rwa [injectOnly_toInject]
  toAck pair member := by simp [injectOnly_toAck] at member

/-! ## Writes return -/

/-- The last enable bits are those of no interrupt. -/
theorem Sound.last (sound : dist.Sound known) (isNode : 0 < numNodes) : dist.enable[30] >>> 28 = 0 := by
  by_contra nonzero
  obtain ⟨i, above, isSet⟩ := shiftRight_ne_zero.mp nonzero
  have inWord : i < 32 := by
    by_contra outside
    simp [BitVec.getLsbD_of_ge _ _ (Nat.le_of_not_lt outside)] at isSet
  have isBit : enables.bit dist (32 * 31 + i) 0 = true := by
    rw [bit_eq inWord isNode, enables_word_last]
    exact isSet
  have isIrq := (sound.enabled _ _ isBit).1
  omega

theorem writeItargetsr_infallible {regNum : Nat} {change : Register32 → Register32}
    {named : Register32} (notBanked : 8 ≤ regNum) :
    Exec.Infallible (writeItargetsr regNum change named :
      Exec IrqError (Distributor numNodes) WriteAction) := by
  unfold writeItargetsr
  rw [if_neg (Nat.not_lt.mpr notBanked)]
  exact (Exec.Infallible.reads _).bind fun _ => (Exec.Infallible.modify _).bind fun _ =>
    .ite (.pure _) sweepBoth_infallible

theorem writeWord_infallible (orderly : reg.Orderly known numNodes val) :
    Exec.Infallible (writeWord nodeIndex val reg :
      Exec IrqError (Distributor numNodes) WriteAction) := by
  cases reg with
  | iidr | typer | nsacr | icpidr | iccidr => exact orderly.elim
  | ctlr =>
      unfold writeWord writeCtlr
      rcases orderly with rfl | rfl
      · rw [if_neg (by decide), if_pos rfl]
        exact (Exec.Infallible.modify _).bind fun _ => .pure _
      · rw [if_pos rfl]
        exact Exec.Infallible.get.bind fun _ => (Exec.Infallible.modify _).bind fun _ =>
          .ite sweepBoth_infallible (.pure _)
  | icpendr regNum =>
      refine .ite (.pure _) ?_
      rw [if_neg fun refused => refused.2 (orderly refused.1)]
      exact Family.update_infallible.bind fun _ => .pure _
  | itargetsr regNum =>
      exact writeItargetsr_infallible orderly.1
  | igroupr => exact Family.update_infallible.bind fun _ => .pure _
  | isenabler => exact .ite (.pure _) (Family.update_infallible.bind fun _ => sweepBoth_infallible)
  | icenabler | isactiver | icactiver =>
      exact .ite (.pure _) (Family.update_infallible.bind fun _ => .pure _)
  | ispendr =>
      exact .ite (.pure _) (.ite (.pure _) (Family.update_infallible.bind fun _ =>
        (Exec.Infallible.reads _).bind fun _ => .pure _))
  | ipriorityr =>
      refine .ite ?_ ?_
      · exact (Exec.Infallible.reads _).bind fun _ => (Exec.Infallible.unwrap _).bind fun _ =>
          (Exec.Infallible.modify _).bind fun _ => .pure _
      · exact (Exec.Infallible.reads _).bind fun _ => (Exec.Infallible.modify _).bind fun _ => .pure _
  | icfgr =>
      refine .ite (.pure _) (.ite ?_ ?_)
      all_goals
        exact (Exec.Infallible.reads _).bind fun _ => (Exec.Infallible.modify _).bind fun _ => .pure _
  | sgir =>
      refine .ite ?_ (.ite ?_ (.ite ?_ (.pure _)))
      · exact forwardSgi_infallible.bind fun _ => .pure _
      · exact (Exec.Infallible.assert _).bind fun _ => forwardSgi_infallible.bind fun _ => .pure _
      · exact forwardSgi_infallible.bind fun _ => .pure _
  | cpendsgir =>
      exact .ite (.pure _) (updateSgiPending_infallible.bind fun _ =>
        (forSgiBytes_infallible fun _ _ => .ite (.orPanic _) (.pure _)).bind fun _ => .pure _)
  | spendsgir =>
      exact .ite (.pure _) (updateSgiPending_infallible.bind fun _ =>
        (forSgiBytes_infallible fun _ _ => .ite (.orPanic _) (.pure _)).bind fun _ =>
          (Exec.Infallible.reads _).bind fun _ => .pure _)

theorem writeWord_returns (isNode : nodeIndex < numNodes) (atMost : numNodes ≤ 8)
    (numbered : reg.Numbered) (sound : dist.Sound known) (orderly : reg.Orderly known numNodes val) :
    ∃ action final, writeWord nodeIndex val reg dist = .ok action final := by
  have isFirst : 0 < numNodes := Nat.zero_lt_of_lt isNode
  have notPanics : ¬ dist.WritePanics val reg := by
    cases reg with
    | icenabler regNum => exact fun panics => orderly panics.1
    | isenabler regNum =>
        rintro ⟨rfl, _, _, past⟩
        obtain ⟨i, above, isSet⟩ := shiftRight_ne_zero.mp past
        rw [BitVec.getLsbD_or, Bool.or_eq_true] at isSet
        rcases isSet with isOld | isNew
        · exact shiftRight_ne_zero.mpr ⟨i, above, isOld⟩ (sound.last isFirst)
        · have isIrq := (orderly i isNew).1
          omega
    | ispendr regNum => exact fun panics => panics.2.2.2 (sound.last isFirst)
    | sgir =>
        rintro (⟨isListed, outside⟩ | ⟨isOthers, few⟩)
        · exact outside (orderly.1 isListed)
        · exact absurd (orderly.2 isOthers) (Nat.not_le.mpr few)
    | _ => exact id
  cases run : writeWord nodeIndex val reg dist with
  | ok action final => exact ⟨action, final, rfl⟩
  | err error final => exact absurd run (writeWord_infallible orderly _ _ _)
  | panic => exact absurd ((writeWord_eq_panic isNode atMost numbered).mp run) notPanics

/-! ## and what they leave is sound -/

theorem isenabler_sound {regNum : Nat} (sound : dist.Sound known)
    (orderly : (DistRegWord.isenabler regNum).Orderly known numNodes val)
    (run : enables.update regNum nodeIndex (fun reg => setBits reg val) dist = .ok () final) :
    final.Sound known where
  enabled irq cpu isEnabled := by
    rw [update_sets run (Family.bit_isNode isEnabled)] at isEnabled
    split at isEnabled
    · next isNamed =>
        obtain ⟨isReg, _, isSet⟩ := isNamed
        have isIrq : 32 * regNum + irq % 32 = irq := isReg ▸ Nat.div_add_mod irq 32
        have isOrderly := orderly (irq % 32) isSet
        rwa [isIrq] at isOrderly
    · exact sound.enabled irq cpu isEnabled
  targets := by
    have sameTargets : final.targets = dist.targets :=
      enables.update_keeps (fun _ _ _ => rfl) _ _ _ run
    rw [sameTargets]
    exact sound.targets

theorem icenabler_sound {regNum : Nat} (sound : dist.Sound known)
    (run : enables.update regNum nodeIndex (fun reg => clearBits reg val) dist = .ok () final) :
    final.Sound known where
  enabled irq cpu isEnabled := sound.enabled irq cpu (Family.update_shrinks run isEnabled)
  targets := by
    have sameTargets : final.targets = dist.targets :=
      enables.update_keeps (fun _ _ _ => rfl) _ _ _ run
    rw [sameTargets]
    exact sound.targets

theorem writeItargetsr_sound {regNum : Nat} {change : Register32 → Register32} {named : Register32}
    (sound : dist.Sound known) (isReg : regNum < 255)
    (routes : ∀ reg, dist.targets[regNum - 8]? = some reg →
      Register32.Routes (change reg) numNodes)
    (run : writeItargetsr regNum change named dist = .ok action final) :
    final.Sound known ∧ action.Proper known numNodes := by
  unfold writeItargetsr at run
  split at run
  · simp at run
  simp only [Exec.bind_eq_ok, Exec.reads_eq_ok, Exec.modify_eq_ok] at run
  obtain ⟨prev, _, ⟨isPrev, rfl⟩, _, middle, isMiddle, run⟩ := run
  have isSound : middle.Sound known := by
    subst isMiddle
    refine ⟨sound.enabled, fun other reg isOther => ?_⟩
    rw [Vector.getElem?_setIfInBounds] at isOther
    split at isOther
    · split at isOther
      · obtain rfl := Option.some.inj isOther
        exact routes prev isPrev
      · simp at isOther
    · exact sound.targets other reg isOther
  split at run
  · obtain ⟨rfl, rfl⟩ := Exec.pure_eq_ok.mp run
    exact ⟨isSound, proper_noAction⟩
  · exact sweepBoth_proper (by omega) isSound run

theorem writeWord_sound (sound : dist.Sound known) (numbered : reg.Numbered)
    (orderly : reg.Orderly known numNodes val)
    (run : writeWord nodeIndex val reg dist = .ok action final) :
    final.Sound known ∧ action.Proper known numNodes := by
  have ofQuiet (quiet : Quiet reg) (isSound : final.Sound known) :
      final.Sound known ∧ action.Proper known numNodes := by
    obtain rfl := writeWord_noAction quiet dist action final run
    exact ⟨isSound, proper_noAction⟩
  have ofLeaves (leaves : @Leaves numNodes _ routing reg) : final.Sound known :=
    sound.of_routing (writeWord_keeps leaves _ _ _ run)
  cases reg with
  | iidr | typer | nsacr | icpidr | iccidr => exact orderly.elim
  | igroupr | icpendr | isactiver | icactiver | icfgr | ipriorityr =>
      exact ofQuiet trivial (ofLeaves fun _ _ _ => rfl)
  | cpendsgir => exact ofQuiet trivial (ofLeaves ⟨fun _ _ _ => rfl, fun _ _ => rfl⟩)
  | icenabler regNum =>
      refine ofQuiet trivial ?_
      change writeIcenabler regNum nodeIndex val dist = _ at run
      unfold writeIcenabler at run
      split at run
      · obtain ⟨_, rfl⟩ := Exec.pure_eq_ok.mp run
        exact sound
      · obtain ⟨_, _, updated, returned⟩ := Exec.bind_eq_ok.mp run
        obtain ⟨_, rfl⟩ := Exec.pure_eq_ok.mp returned
        exact icenabler_sound sound updated
  | isenabler regNum =>
      change writeIsenabler regNum nodeIndex val dist = _ at run
      unfold writeIsenabler at run
      split at run
      · obtain ⟨rfl, rfl⟩ := Exec.pure_eq_ok.mp run
        exact ⟨sound, proper_noAction⟩
      · obtain ⟨_, _, updated, swept⟩ := Exec.bind_eq_ok.mp run
        have isReg : regNum < 32 := numbered
        exact sweepBoth_proper (by omega) (isenabler_sound sound orderly updated) swept
  | itargetsr regNum => exact writeItargetsr_sound sound numbered (fun _ _ => orderly.2) run
  | ctlr =>
      change writeCtlr val dist = _ at run
      unfold writeCtlr at run
      split at run
      · obtain ⟨_, _, isGet, run⟩ := Exec.bind_eq_ok.mp run
        obtain ⟨rfl, rfl⟩ := Exec.get_eq_ok.mp isGet
        obtain ⟨_, middle, isOn, run⟩ := Exec.bind_eq_ok.mp run
        obtain rfl := Exec.modify_eq_ok.mp isOn
        split at run
        · have isSound : Sound known { dist with control := setBits dist.control val } :=
            sound.of_routing rfl
          exact sweepBoth_proper (by decide : 0 + 1020 ≤ 1024) isSound run
        · obtain ⟨rfl, rfl⟩ := Exec.pure_eq_ok.mp run
          exact ⟨sound.of_routing rfl, proper_noAction⟩
      · split at run
        · obtain ⟨_, _, isOff, run⟩ := Exec.bind_eq_ok.mp run
          obtain rfl := Exec.modify_eq_ok.mp isOff
          obtain ⟨rfl, rfl⟩ := Exec.pure_eq_ok.mp run
          exact ⟨sound.of_routing rfl, proper_noAction⟩
        · simp at run
  | ispendr regNum =>
      refine ⟨ofLeaves fun _ _ _ => rfl, ?_⟩
      have isReg : regNum < 32 := numbered
      change writeIspendr regNum nodeIndex val dist = _ at run
      unfold writeIspendr at run
      split at run
      · obtain ⟨rfl, _⟩ := Exec.pure_eq_ok.mp run
        exact proper_noAction
      split at run
      · obtain ⟨rfl, _⟩ := Exec.pure_eq_ok.mp run
        exact proper_noAction
      · simp only [Exec.bind_eq_ok, Exec.reads_eq_ok, Exec.pure_eq_ok] at run
        obtain ⟨_, _, _, _, _, ⟨swept, rfl⟩, rfl, rfl⟩ := run
        exact injectOnly_proper (sweep_toInject (by omega) swept)
  | sgir =>
      refine ⟨ofLeaves fun _ _ _ => rfl, ?_⟩
      obtain ⟨areNodes, _, isInject⟩ := writeSgir_eq_ok run
      obtain ⟨toInject, rfl, _⟩ := writeSgir_forwards run
      rw [injectOnly_toInject] at isInject
      refine injectOnly_proper fun pair member => ?_
      rw [isInject] at member
      obtain ⟨cpu, isCpu, rfl⟩ := List.mem_map.mp member
      have isIrq : (val &&& 0xFF).toNat < 1020 := by
        have less := @namedIrq_lt val
        rw [namedIrq_eq]
        omega
      exact ⟨isIrq, areNodes cpu (List.mem_filter.mp isCpu).1⟩
  | spendsgir regNum =>
      refine ⟨ofLeaves ⟨fun _ _ _ => rfl, fun _ _ => rfl⟩, ?_⟩
      have isReg : regNum < 4 := numbered
      change writeSpendsgir regNum nodeIndex val dist = _ at run
      unfold writeSpendsgir at run
      split at run
      · obtain ⟨rfl, _⟩ := Exec.pure_eq_ok.mp run
        exact proper_noAction
      · simp only [Exec.bind_eq_ok, Exec.reads_eq_ok, Exec.pure_eq_ok] at run
        obtain ⟨_, _, _, _, _, _, _, _, ⟨swept, rfl⟩, rfl, rfl⟩ := run
        exact injectOnly_proper (sweep_toInject (by omega) swept)

end Sound

end Distributor

/-! ## By offset -/

/-- A store of an orderly guest: a word, or one byte of the targets of shared interrupts. -/
def FaultData.Orderly (known : Irq → Prop) (numNodes offset : Nat) : FaultData → Prop
  | .word val => ∃ reg, DistRegWord.fromOffset offset = some reg ∧ reg.Orderly known numNodes val
  | .byte val => ∃ regNum byteIndex,
      DistRegByte.fromOffset offset = some (.itargetsr regNum byteIndex) ∧ 8 ≤ regNum ∧
        ∀ i, val.getLsbD i = true → i < numNodes
  | .halfWord _ | .doubleWord _ => False

/-- The registers that an orderly guest loads. -/
def DistRegWord.Readable : DistRegWord → Prop
  | .nsacr _ | .sgir => False
  | .isenabler regNum | .icenabler regNum => regNum ≠ 31
  | _ => True

namespace Distributor

section Offsets
variable {known : Irq → Prop} {dist final : Distributor numNodes} {nodeIndex offset : Nat}
  {reg : DistRegWord} {action : WriteAction}

theorem setByte_routes {reg : Register32} {byteIndex : Nat} {val : BitVec 8}
    (routes : Register32.Routes reg numNodes) (isRouted : ∀ i, val.getLsbD i = true → i < numNodes) :
    Register32.Routes (setByte reg byteIndex val) numNodes := by
  intro i isSet
  simp only [setByte, BitVec.getLsbD_or, BitVec.getLsbD_and, Bool.or_eq_true, Bool.and_eq_true,
    BitVec.getLsbD_shiftLeft, BitVec.getLsbD_setWidth] at isSet
  rcases isSet with ⟨isOld, _⟩ | ⟨⟨_, above⟩, _, isNew⟩
  · exact routes i isOld
  · have inByte : i - byteIndex * 8 < 8 := by
      by_contra outside
      simp [BitVec.getLsbD_of_ge _ _ (Nat.le_of_not_lt outside)] at isNew
    have isPlace : i % 8 = i - byteIndex * 8 := by
      simp only [Bool.not_eq_true', decide_eq_false_iff_not] at above
      omega
    rw [isPlace]
    exact isRouted _ isNew

theorem byte_isReg {regNum byteIndex : Nat}
    (decodes : DistRegByte.fromOffset offset = some (.itargetsr regNum byteIndex)) : regNum < 255 := by
  simp only [DistRegByte.fromOffset, calcRegNum, Option.bind_eq_bind] at decodes
  split at decodes
  · simp [Option.bind_eq_some_iff] at decodes
  split at decodes
  · next inside =>
      obtain ⟨_, isNumber, decodes⟩ := Option.bind_eq_some_iff.mp decodes
      obtain ⟨_, _, isReg⟩ := Option.bind_eq_some_iff.mp decodes
      obtain ⟨rfl, _⟩ : _ = regNum ∧ _ = byteIndex := by simpa using isReg
      split at isNumber
      · obtain rfl := Option.some.inj isNumber
        omega
      · simp at isNumber
  split at decodes
  · simp [Option.bind_eq_some_iff] at decodes
  split at decodes
  · simp [Option.bind_eq_some_iff] at decodes
  · simp at decodes

theorem handleWrite_total {data : FaultData} (isNode : nodeIndex < numNodes) (atMost : numNodes ≤ 8)
    (aligned : ∀ val, data = .word val → 4 ∣ offset) (sound : dist.Sound known)
    (orderly : data.Orderly known numNodes offset) :
    ∃ action final, handleWrite offset nodeIndex data dist = .ok action final ∧
      final.Sound known ∧ action.Proper known numNodes := by
  cases data with
  | halfWord | doubleWord => exact orderly.elim
  | word val =>
      obtain ⟨reg, decodes, orderly⟩ := orderly
      obtain ⟨numbered, _⟩ := fromOffset_eq_some (aligned val rfl) decodes
      obtain ⟨action, final, run⟩ := writeWord_returns isNode atMost numbered sound orderly
      refine ⟨action, final, ?_, writeWord_sound sound numbered orderly run⟩
      rw [handleWrite, Exec.unwrap_bind decodes]
      exact run
  | byte val =>
      obtain ⟨regNum, byteIndex, decodes, notBanked, isRouted⟩ := orderly
      have isReg := byte_isReg decodes
      have isWrite : handleWrite offset nodeIndex (.byte val) dist = writeItargetsr regNum
          (fun reg => setByte reg byteIndex val) (val.setWidth 32 <<< (byteIndex * 8)) dist := by
        rw [handleWrite, Exec.unwrap_bind decodes]
        rfl
      rw [isWrite]
      cases run : writeItargetsr regNum (fun reg => setByte reg byteIndex val)
          (val.setWidth 32 <<< (byteIndex * 8)) dist with
      | ok action final =>
          exact ⟨action, final, rfl, writeItargetsr_sound sound isReg (fun reg isTargets =>
            setByte_routes (sound.targets _ reg isTargets) isRouted) run⟩
      | err error final => exact absurd run (writeItargetsr_infallible notBanked _ _ _)
      | panic => exact absurd run (writeItargetsr_ne_panic isReg (Nat.zero_lt_of_lt isNode))

theorem readWord_keeps {γ : Type} {view : Distributor numNodes → γ} :
    Exec.Keeps view (readWord nodeIndex reg) := by
  unfold readWord
  cases reg with
  | nsacr | sgir => exact .fail _
  | _ => exact .reads _

theorem handleRead_total (isNode : nodeIndex < numNodes) (aligned : 4 ∣ offset)
    (decodes : DistRegWord.fromOffset offset = some reg) (readable : reg.Readable) :
    ∃ val, handleRead offset nodeIndex .word dist = .ok (.word val) dist := by
  obtain ⟨numbered, _⟩ := fromOffset_eq_some aligned decodes
  rw [handleRead, Exec.unwrap_bind decodes]
  cases run : readWord nodeIndex reg dist with
  | ok val final =>
      obtain rfl : final = dist := @readWord_keeps _ _ _ _ id _ _ _ run
      exact ⟨val, Exec.bind_eq_ok.mpr ⟨val, final, run, rfl⟩⟩
  | err error final =>
      unfold readWord at run
      cases reg with
      | nsacr | sgir => exact readable.elim
      | _ => exact absurd run (Exec.Infallible.reads _ _ _ _)
  | panic =>
      have panics := (readWord_eq_panic isNode numbered).mp run
      cases reg with
      | isenabler | icenabler => exact absurd panics readable
      | _ => exact panics.elim

end Offsets

end Distributor

end IceCap.Gic
