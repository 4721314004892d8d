import IceCap.Gic.Banks
import IceCap.Gic.Queues

/-!
# Banked registers are private but for the sweeps

The sweep after a write acknowledges and injects the SGIs and PPIs of all cpus.
Another cpu does not notice exactly if there is nothing to be acknowledged for
it, and nothing that can still be injected.
-/

set_option autoImplicit false

namespace IceCap.Gic

open IceCap.Library Exec Distributor

variable {numNodes : Nat} {ε C : Type}

/-! ## What is swept for -/

/-- The SGIs and PPIs that a write to a register sweeps for, to inject them. -/
def DistRegWord.sweptToInject (val : Register32) : DistRegWord → List Irq
  | .isenabler 0 => if val = 0 then [] else List.range' 0 32
  | .ispendr 0 => if val = 0 ∨ val &&& 0xFFFF ≠ 0 then [] else List.range' 0 32
  | .spendsgir regNum => if val = 0 then [] else List.range' (regNum * 4) 4
  | _ => []

/-- The SGIs and PPIs that a write to a register sweeps for, to acknowledge them. -/
def DistRegWord.sweptToAck (val : Register32) : DistRegWord → List Irq
  | .isenabler 0 => if val = 0 then [] else List.range' 0 32
  | _ => []

namespace Distributor

variable {before after : Distributor numNodes} {irq cpu nodeIndex regNum baseIrq numIrqs : Nat}
  {val : Register32} {reg : DistRegWord} {action : WriteAction}

/-- What a write hands over of the SGIs and PPIs. -/
structure HandsOver (after : Distributor numNodes) (toInject toAck : List Irq) (action : WriteAction) :
    Prop where
  inject : ∀ irq cpu, irq < 32 →
    ((irq, cpu) ∈ action.toInject ↔ irq ∈ toInject ∧ after.deliverable irq cpu = true)
  ack : ∀ irq cpu, irq < 32 → ((irq, cpu) ∈ action.toAck ↔
    irq ∈ toAck ∧ enables.bit after irq cpu = true ∧ after.deliverable irq cpu = false)
  banked : ∀ irq ∈ toInject, irq < 32
  together : toInject = [] ∨ ∀ pair ∈ action.toInject, pair.1 < 32

theorem sweepIrqsToInject_banked {pairs : List (Irq × Cpu)}
    (swept : sweepIrqsToInject baseIrq numIrqs after = some pairs) (isBanked : irq < 32) :
    (irq, cpu) ∈ pairs ↔
      irq ∈ List.range' baseIrq numIrqs ∧ after.deliverable irq cpu = true := by
  constructor
  · intro member
    obtain ⟨isSwept, _, passes⟩ := sweepIrqs_sound swept _ member
    rw [shouldInject_eq_some (by omega)] at passes
    exact ⟨isSwept, Option.some.inj passes⟩
  · rintro ⟨isSwept, isDeliverable⟩
    have isCpu : cpu < numNodes := Family.bit_isNode (deliverable_iff.mp isDeliverable).2.1
    obtain ⟨other, member, same⟩ := sweepIrqs_complete swept isSwept isCpu
      (by rw [shouldInject_eq_some (by omega), isDeliverable])
    rwa [same isBanked] at member

theorem sweepIrqsToAck_banked {pairs : List (Irq × Cpu)}
    (swept : sweepIrqsToAck baseIrq numIrqs after = some pairs) (isBanked : irq < 32) :
    (irq, cpu) ∈ pairs ↔ irq ∈ List.range' baseIrq numIrqs ∧
      enables.bit after irq cpu = true ∧ after.deliverable irq cpu = false := by
  constructor
  · intro member
    obtain ⟨isSwept, _, passes⟩ := sweepIrqs_sound swept _ member
    rw [shouldAck_eq_some (by omega)] at passes
    exact ⟨isSwept, by simpa using Option.some.inj passes⟩
  · rintro ⟨isSwept, isEnabled, notDeliverable⟩
    obtain ⟨other, member, same⟩ := sweepIrqs_complete swept isSwept (Family.bit_isNode isEnabled)
      (by rw [shouldAck_eq_some (by omega), isEnabled, notDeliverable]; rfl)
    rwa [same isBanked] at member

theorem handsOver_nothing : HandsOver after [] [] .noAction where
  inject irq cpu _ := by simp [WriteAction.toInject]
  ack irq cpu _ := by simp [WriteAction.toAck]
  banked := by simp
  together := .inl rfl

theorem handsOver_banked {toAck : List Irq} (inRange : baseIrq + numIrqs ≤ 32)
    (injects : sweepIrqsToInject baseIrq numIrqs after = some action.toInject)
    (acks : ∀ irq cpu, irq < 32 → ((irq, cpu) ∈ action.toAck ↔
      irq ∈ toAck ∧ enables.bit after irq cpu = true ∧ after.deliverable irq cpu = false)) :
    HandsOver after (List.range' baseIrq numIrqs) toAck action where
  inject irq cpu isBanked := sweepIrqsToInject_banked injects isBanked
  ack := acks
  banked irq isSwept := by
    rw [List.mem_range'_1] at isSwept
    exact Nat.lt_of_lt_of_le isSwept.2 inRange
  together := by
    refine .inr fun pair member => ?_
    have isSwept := (sweepIrqs_sound injects pair member).1
    rw [List.mem_range'_1] at isSwept
    exact Nat.lt_of_lt_of_le isSwept.2 inRange

theorem handsOver_shared (isShared : 32 ≤ baseIrq)
    (injects : sweepIrqsToInject baseIrq numIrqs after = some action.toInject)
    (acks : action.toAck = [] ∨ sweepIrqsToAck baseIrq numIrqs after = some action.toAck) :
    HandsOver after [] [] action := by
  have notSwept : ∀ irq < 32, irq ∉ List.range' baseIrq numIrqs := by
    intro irq isBanked isSwept
    rw [List.mem_range'_1] at isSwept
    omega
  refine ⟨fun irq cpu isBanked => ?_, fun irq cpu isBanked => ?_, by simp, .inl rfl⟩
  · rw [sweepIrqsToInject_banked injects isBanked]
    simp [notSwept irq isBanked]
  · rcases acks with isEmpty | acks
    · simp [isEmpty]
    · rw [sweepIrqsToAck_banked acks isBanked]
      simp [notSwept irq isBanked]

theorem writeIsenabler_handsOver
    (run : writeIsenabler regNum nodeIndex val before = .ok action after) :
    HandsOver after ((DistRegWord.isenabler regNum).sweptToInject val)
      ((DistRegWord.isenabler regNum).sweptToAck val) action := by
  unfold writeIsenabler at run
  split at run
  · next isZero =>
      obtain ⟨rfl, rfl⟩ := Exec.pure_eq_ok.mp run
      cases regNum <;> simpa [DistRegWord.sweptToInject, DistRegWord.sweptToAck, isZero]
        using handsOver_nothing
  · next nonzero =>
      obtain ⟨_, middle, _, rest⟩ := Exec.bind_eq_ok.mp run
      obtain ⟨rfl, injects, acks⟩ := sweepBoth_eq_ok rest
      cases regNum with
      | zero =>
          simp only [DistRegWord.sweptToInject, DistRegWord.sweptToAck, if_neg nonzero]
          exact handsOver_banked (by decide) injects fun _ _ => sweepIrqsToAck_banked acks
      | succ regNum => exact handsOver_shared (by omega) injects (.inr acks)

theorem writeIspendr_handsOver (run : writeIspendr regNum nodeIndex val before = .ok action after) :
    HandsOver after ((DistRegWord.ispendr regNum).sweptToInject val) [] action := by
  unfold writeIspendr at run
  split at run
  · next isZero =>
      obtain ⟨rfl, rfl⟩ := Exec.pure_eq_ok.mp run
      cases regNum <;> simpa [DistRegWord.sweptToInject, isZero] using handsOver_nothing
  split at run
  · next isRefused =>
      obtain ⟨rfl, rfl⟩ := Exec.pure_eq_ok.mp run
      obtain ⟨rfl, namesSgi⟩ := isRefused
      rw [show (DistRegWord.ispendr 0).sweptToInject val = [] from if_pos (.inr namesSgi)]
      exact handsOver_nothing
  next nonzero notRefused =>
  simp only [Exec.bind_eq_ok, Exec.reads_eq_ok, Exec.pure_eq_ok] at run
  obtain ⟨_, middle, _, toInject, _, ⟨swept, rfl⟩, rfl, rfl⟩ := run
  have isSwept : (injectOnly toInject).toInject = toInject := injectOnly_toInject
  rw [← isSwept] at swept
  cases regNum with
  | zero =>
      have accepted : ¬ (val = 0 ∨ val &&& 0xFFFF ≠ 0) := by
        rintro (isZero | namesSgi)
        · exact nonzero isZero
        · exact notRefused ⟨rfl, namesSgi⟩
      simp only [DistRegWord.sweptToInject, if_neg accepted]
      exact handsOver_banked (by decide) swept fun _ _ _ => by simp [injectOnly_toAck]
  | succ regNum => exact handsOver_shared (by omega) swept (.inl injectOnly_toAck)

theorem writeItargetsr_handsOver {change : Register32 → Register32} {named : Register32}
    (run : writeItargetsr regNum change named before = .ok action after) :
    HandsOver after [] [] action := by
  unfold writeItargetsr at run
  split at run
  · simp at run
  next isShared =>
  simp only [Exec.bind_eq_ok, Exec.reads_eq_ok, Exec.modify_eq_ok] at run
  obtain ⟨prev, _, ⟨_, rfl⟩, _, _, _, rest⟩ := run
  split at rest
  · obtain ⟨rfl, rfl⟩ := Exec.pure_eq_ok.mp rest
    exact handsOver_nothing
  · obtain ⟨rfl, injects, acks⟩ := sweepBoth_eq_ok rest
    exact handsOver_shared (by omega) injects (.inr acks)

theorem writeSpendsgir_handsOver
    (run : writeSpendsgir regNum nodeIndex val before = .ok action after) :
    HandsOver after ((DistRegWord.spendsgir regNum).sweptToInject val) [] action := by
  unfold writeSpendsgir at run
  split at run
  · next isZero =>
      obtain ⟨rfl, rfl⟩ := Exec.pure_eq_ok.mp run
      simpa [DistRegWord.sweptToInject, isZero] using handsOver_nothing
  next nonzero =>
  simp only [Exec.bind_eq_ok, Exec.reads_eq_ok, Exec.pure_eq_ok] at run
  obtain ⟨prev, middle, updated, _, _, _, toInject, _, ⟨swept, rfl⟩, rfl, rfl⟩ := run
  have isSwept : (injectOnly toInject).toInject = toInject := injectOnly_toInject
  rw [← isSwept] at swept
  have isReg : regNum < 4 := by
    simp only [updateSgiPending, Exec.bind_eq_ok, Exec.reads_eq_ok, Exec.unwrap_eq_ok] at updated
    obtain ⟨_, _, _, _, _, ⟨isPrev, _⟩, _⟩ := updated
    exact (Vector.getElem?_eq_some_iff.mp isPrev).1
  simp only [DistRegWord.sweptToInject, if_neg nonzero]
  exact handsOver_banked (by omega) swept fun _ _ _ => by simp [injectOnly_toAck]

theorem writeWord_handsOver (notCtlr : reg ≠ .ctlr) (notSgir : reg ≠ .sgir)
    (run : writeWord nodeIndex val reg before = .ok action after) :
    HandsOver after (reg.sweptToInject val) (reg.sweptToAck val) action := by
  cases reg with
  | ctlr => exact absurd rfl notCtlr
  | sgir => exact absurd rfl notSgir
  | isenabler => exact writeIsenabler_handsOver run
  | ispendr => exact writeIspendr_handsOver run
  | itargetsr => exact writeItargetsr_handsOver run
  | spendsgir => exact writeSpendsgir_handsOver run
  | _ =>
      obtain rfl : action = .noAction := writeWord_noAction (by trivial) before action after run
      exact handsOver_nothing

end Distributor

namespace GIC

/-! ## Injection and the bank of a cpu -/

/-- All slots of a cpu are taken. -/
def Full (gic : GIC numNodes C) (cpu : Nat) : Prop :=
  ∀ index < numLrs, gic.slot cpu index ≠ none

instance (gic : GIC numNodes C) (cpu : Nat) : Decidable (gic.Full cpu) :=
  inferInstanceAs (Decidable (∀ index < numLrs, gic.slot cpu index ≠ none))

section Inject
variable {gic final : GIC numNodes C} {callbacks : GICCallbacks ε C}
  {callingNode node index cpu irq other : Nat}

theorem injectIrq_keeps {γ : Type} {view : Distributor numNodes → γ} (pending : pendings.Leaves view)
    (active : actives.Leaves view)
    (run : Ends (injectIrq callbacks callingNode node index irq) gic final) :
    view final.dist = view gic.dist := by
  rcases injectIrq_ends run with ⟨rfl, _⟩ | ⟨_, _, dist, pended, ends⟩
  · rfl
  · have samePended := pendings.updateBit_keeps pending _ _ _ pended
    rcases ends with ⟨_, isDist, _⟩ | ⟨_, activated, _⟩
    · rw [isDist, samePended]
    · rw [actives.updateBit_keeps active _ _ _ activated, samePended]

theorem injectIrq_bits (run : Ends (injectIrq callbacks callingNode node index irq) gic final)
    (differ : ¬ Family.SameBit irq node other cpu) :
    pendings.bit final.dist other cpu = pendings.bit gic.dist other cpu ∧
      actives.bit final.dist other cpu = actives.bit gic.dist other cpu := by
  rcases injectIrq_ends run with ⟨rfl, _⟩ | ⟨_, _, dist, pended, ends⟩
  · exact ⟨rfl, rfl⟩
  · have samePending := (Family.set_bit pended other cpu).2 differ
    obtain ⟨_, _, ⟨_, _, isPut⟩, _⟩ := Family.updateBit_eq_ok pended
    have sameActive : actives.bit dist other cpu = actives.bit gic.dist other cpu := by
      subst isPut
      rfl
    rcases ends with ⟨_, isDist, _⟩ | ⟨_, activated, _⟩
    · rw [isDist]
      exact ⟨samePending, sameActive⟩
    · obtain ⟨_, _, ⟨_, _, isPut⟩, _⟩ := Family.updateBit_eq_ok activated
      refine ⟨?_, ((Family.set_bit activated other cpu).2 differ).trans sameActive⟩
      rw [← samePending, isPut]
      rfl

/-- A deliverable interrupt becomes active. -/
theorem injectIrq_activates (run : Ends (injectIrq callbacks callingNode node index irq) gic final)
    (isDeliverable : gic.dist.deliverable irq node = true) :
    actives.bit final.dist irq node = true := by
  have isNode : node < numNodes := Family.bit_isNode (deliverable_iff.mp isDeliverable).2.1
  rcases injectIrq_ends run with ⟨_, outside⟩ | ⟨_, _, dist, pended, ends⟩
  · exact absurd isNode (Nat.not_lt.mpr outside)
  · rcases ends with ⟨refused, _⟩ | ⟨_, activated, _⟩
    · have same : Family.SameBit irq node irq node := ⟨rfl, fun _ => rfl⟩
      have isPending := (Family.set_bit pended irq node).1 same
      rw [decide_eq_true isNode] at isPending
      rw [deliverable_iff] at isDeliverable
      obtain ⟨on, enabled, target, _, inactive⟩ := isDeliverable
      obtain ⟨_, _, ⟨_, _, isPut⟩, _⟩ := Family.updateBit_eq_ok pended
      have deliverable : dist.deliverable irq node = true := by
        refine deliverable_iff.mpr ⟨?_, ?_, ?_, isPending, ?_⟩
        all_goals
          subst isPut
          assumption
      rw [deliverable] at refused
      simp at refused
    · rw [(Family.set_bit activated irq node).1 ⟨rfl, fun _ => rfl⟩, decide_eq_true isNode]

/-- A forwarded interrupt changes nothing but its own bits, and nothing at all if the slots of the
cpu are taken. -/
theorem forwardIrq_keeps {γ : Type} {view : Distributor numNodes → γ} (pending : pendings.Leaves view)
    (active : actives.Leaves view)
    (run : Ends (forwardIrq callbacks callingNode node irq) gic final) :
    view final.dist = view gic.dist := by
  rcases forwardIrq_chooses run with ⟨_, _, _, injected⟩ | ⟨_, sameDist, _⟩
  · exact injectIrq_keeps pending active injected
  · rw [sameDist]

theorem forwardIrq_bits (run : Ends (forwardIrq callbacks callingNode node irq) gic final)
    (differ : ¬ Family.SameBit irq node other cpu) :
    pendings.bit final.dist other cpu = pendings.bit gic.dist other cpu ∧
      actives.bit final.dist other cpu = actives.bit gic.dist other cpu := by
  rcases forwardIrq_chooses run with ⟨_, _, _, injected⟩ | ⟨_, sameDist, _⟩
  · exact injectIrq_bits injected differ
  · rw [sameDist]
    exact ⟨rfl, rfl⟩

theorem forwardIrq_full (run : Ends (forwardIrq callbacks callingNode node irq) gic final)
    (isFull : gic.Full node) : final.dist = gic.dist ∧ final.slot = gic.slot := by
  rcases forwardIrq_chooses run with ⟨index, isIndex, isEmpty, _⟩ | ⟨_, sameDist, sameSlot, _⟩
  · exact absurd isEmpty (isFull index isIndex)
  · exact ⟨sameDist, sameSlot⟩

theorem forwardIrq_activates (run : Ends (forwardIrq callbacks callingNode node irq) gic final)
    (notFull : ¬ gic.Full node) (isDeliverable : gic.dist.deliverable irq node = true) :
    actives.bit final.dist irq node = true := by
  rcases forwardIrq_chooses run with ⟨index, _, _, injected⟩ | ⟨isFull, _⟩
  · exact injectIrq_activates injected isDeliverable
  · exact absurd isFull notFull

theorem forwardIrq_settings (run : Ends (forwardIrq callbacks callingNode node irq) gic final) :
    settings cpu final.dist = settings cpu gic.dist :=
  forwardIrq_keeps (fun _ _ _ => rfl) (fun _ _ _ => rfl) run

theorem forwardIrq_elsewhere (elsewhere : irq < 32 → node ≠ cpu)
    (run : Ends (forwardIrq callbacks callingNode node irq) gic final) :
    SameBank cpu gic.dist final.dist := by
  have differ : ∀ other < 32, ¬ Family.SameBit irq node other cpu := by
    rintro other isBanked ⟨rfl, sees⟩
    exact elsewhere isBanked (sees (Nat.div_eq_of_lt isBanked)).symm
  have sameSources : final.dist.sgiWord = gic.dist.sgiWord :=
    forwardIrq_keeps (fun _ _ _ => rfl) (fun _ _ _ => rfl) run
  exact ⟨fun other isBanked => (forwardIrq_bits run (differ other isBanked)).1,
    fun other isBanked => (forwardIrq_bits run (differ other isBanked)).2,
    fun regNum => by rw [sameSources]⟩

theorem forwardIrq_otherSlots (elsewhere : node ≠ cpu)
    (run : Ends (forwardIrq callbacks callingNode node irq) gic final) (index : Nat) :
    final.slot cpu index = gic.slot cpu index := by
  rcases forwardIrq_chooses run with ⟨_, _, _, injected⟩ | ⟨_, _, sameSlot, _⟩
  · rcases injectIrq_ends injected with ⟨rfl, _⟩ | ⟨_, _, _, _, ⟨_, _, sameSlot⟩ | ⟨_, _, slots⟩⟩
    · rfl
    · rw [sameSlot]
    · rw [slots, if_neg fun here => elsewhere here.1.symm]
  · rw [sameSlot]

theorem forwardIrq_active (run : Ends (forwardIrq callbacks callingNode node irq) gic final)
    (isActive : actives.bit gic.dist other cpu = true) : actives.bit final.dist other cpu = true := by
  rcases forwardIrq_chooses run with ⟨_, _, _, injected⟩ | ⟨_, sameDist, _⟩
  · rcases injectIrq_ends injected with ⟨rfl, _⟩ | ⟨_, _, dist, pended, ends⟩
    · exact isActive
    · obtain ⟨_, _, ⟨_, _, isPut⟩, _⟩ := Family.updateBit_eq_ok pended
      have isActive : actives.bit dist other cpu = true := by
        subst isPut
        exact isActive
      rcases ends with ⟨_, isDist, _⟩ | ⟨_, activated, _⟩
      · rw [isDist, isActive]
      · exact setActive_grows activated isActive
  · rw [sameDist, isActive]

theorem forwardIrq_acked (run : Ends (forwardIrq callbacks callingNode node irq) gic final)
    (differ : ¬ Family.SameBit irq node other cpu) (acked : gic.dist.Acked other cpu) :
    final.dist.Acked other cpu := by
  obtain ⟨samePending, sameActive⟩ := forwardIrq_bits run differ
  have sameSources : final.dist.sgiWord = gic.dist.sgiWord :=
    forwardIrq_keeps (fun _ _ _ => rfl) (fun _ _ _ => rfl) run
  simpa only [Acked, OtherSource, samePending, sameActive, sameSources] using acked

end Inject

/-! ## The loops after a write -/

section Loops
variable {gic final : GIC numNodes C} {callbacks : GICCallbacks ε C}
  {callingNode cpu : Nat} {pairs : List (Irq × Cpu)}

theorem ackIrq_dist {pair : Irq × Cpu} (run : ackIrq callbacks callingNode pair gic = .ok () final) :
    Distributor.ack pair.1 pair.2 gic.dist = .ok () final.dist ∧ final.slot = gic.slot := by
  obtain ⟨_, middle, acked, rest⟩ := bind_eq_ok.mp run
  obtain ⟨dist, isAcked, rfl⟩ := onDist_eq_ok.mp acked
  split at rest
  · obtain ⟨sameDist, sameSlot, _⟩ := onCallbacks_ends (.inl ⟨_, rest⟩)
    rw [sameDist, sameSlot]
    exact ⟨isAcked, rfl⟩
  · obtain ⟨_, rfl⟩ := pure_eq_ok.mp rest
    exact ⟨isAcked, rfl⟩

theorem acks_settings (run : forEach pairs (ackIrq callbacks callingNode) gic = .ok () final) :
    settings cpu final.dist = settings cpu gic.dist ∧ final.slot = gic.slot := by
  refine forEach_preserves (fun state : GIC numNodes C =>
    settings cpu state.dist = settings cpu gic.dist ∧ state.slot = gic.slot)
    (fun pair _ before after _ holds acked => ?_) ⟨rfl, rfl⟩ run
  obtain ⟨isAcked, sameSlot⟩ := ackIrq_dist acked
  exact ⟨(ack_settings isAcked).trans holds.1, sameSlot.trans holds.2⟩

theorem acks_sameBank
    (acked : ∀ pair ∈ pairs, pair.1 < 32 → pair.2 = cpu → gic.dist.Acked pair.1 cpu)
    (run : forEach pairs (ackIrq callbacks callingNode) gic = .ok () final) :
    SameBank cpu gic.dist final.dist := by
  refine forEach_preserves (fun state : GIC numNodes C => SameBank cpu gic.dist state.dist)
    (fun pair member before after _ same step => ?_) (SameBank.refl _) run
  obtain ⟨isAcked, _⟩ := ackIrq_dist step
  by_cases here : pair.1 < 32 ∧ pair.2 = cpu
  · obtain ⟨isBanked, isCpu⟩ := here
    have nothing := (same.acked isBanked).mpr (acked pair member isBanked isCpu)
    rw [← isCpu] at nothing
    exact same.trans (nothing.sameBank isAcked)
  · exact same.trans (ack_elsewhere (fun isBanked isCpu => here ⟨isBanked, isCpu⟩) isAcked)

theorem acks_acked (run : forEach pairs (ackIrq callbacks callingNode) gic = .ok () final) :
    ∀ pair ∈ pairs, final.dist.Acked pair.1 pair.2 := by
  induction pairs generalizing gic with
  | nil => simp
  | cons first rest ih =>
      obtain ⟨_, middle, acked, others⟩ := bind_eq_ok.mp run
      intro pair member
      rcases List.mem_cons.mp member with rfl | later
      · refine forEach_preserves (fun state : GIC numNodes C => state.dist.Acked pair.1 pair.2)
          (fun other _ before after _ holds step => ?_) (ack_acked (ackIrq_dist acked).1) others
        exact holds.stays (ackIrq_dist step).1
      · exact ih others pair later

theorem forwards_settings (run : forEach pairs
      (fun pair => forwardIrq callbacks callingNode pair.2 pair.1) gic = .ok () final) :
    settings cpu final.dist = settings cpu gic.dist :=
  forEach_preserves (fun state : GIC numNodes C => settings cpu state.dist = settings cpu gic.dist)
    (fun _ _ _ _ _ holds step => (forwardIrq_settings (.inl ⟨_, step⟩)).trans holds) rfl run

theorem forwards_sameBank
    (isFull : (∃ pair ∈ pairs, pair.1 < 32 ∧ pair.2 = cpu) → gic.Full cpu)
    (run : forEach pairs (fun pair => forwardIrq callbacks callingNode pair.2 pair.1) gic =
      .ok () final) : SameBank cpu gic.dist final.dist := by
  refine (forEach_preserves (fun state : GIC numNodes C =>
    SameBank cpu gic.dist state.dist ∧ (gic.Full cpu → state.Full cpu))
    (fun pair member before after _ holds step => ?_) ⟨SameBank.refl _, id⟩ run).1
  have step : Ends (forwardIrq callbacks callingNode pair.2 pair.1) before after := .inl ⟨_, step⟩
  refine ⟨?_, fun full index isIndex => ?_⟩
  · by_cases here : pair.1 < 32 ∧ pair.2 = cpu
    · have full := holds.2 (isFull ⟨pair, member, here⟩)
      rw [← here.2] at full
      rw [(forwardIrq_full step full).1]
      exact holds.1
    · exact holds.1.trans (forwardIrq_elsewhere (fun isBanked isCpu => here ⟨isBanked, isCpu⟩) step)
  · obtain ⟨held, isHeld⟩ := Option.ne_none_iff_exists'.mp (holds.2 full index isIndex)
    simp [forwardIrq_slots step isHeld]

/-- Of the deliverable interrupts the first that is forwarded to an empty slot becomes active. -/
theorem forwards_activate (banked : ∀ pair ∈ pairs, pair.1 < 32)
    (deliverable : ∀ pair ∈ pairs, pair.2 = cpu → gic.dist.deliverable pair.1 cpu = true)
    (some : ∃ pair ∈ pairs, pair.2 = cpu) (notFull : ¬ gic.Full cpu)
    (run : forEach pairs (fun pair => forwardIrq callbacks callingNode pair.2 pair.1) gic =
      .ok () final) :
    ∃ irq < 32, gic.dist.deliverable irq cpu = true ∧ actives.bit final.dist irq cpu = true := by
  induction pairs generalizing gic with
  | nil => simp at some
  | cons first rest ih =>
      obtain ⟨_, middle, forwarded, others⟩ := bind_eq_ok.mp run
      have forwarded : Ends (forwardIrq callbacks callingNode first.2 first.1) gic middle :=
        .inl ⟨_, forwarded⟩
      by_cases here : first.2 = cpu
      · have isDeliverable := deliverable first List.mem_cons_self here
        refine ⟨first.1, banked first List.mem_cons_self, isDeliverable, ?_⟩
        rw [← here] at isDeliverable notFull
        have isActive := forwardIrq_activates forwarded notFull isDeliverable
        rw [here] at isActive
        exact forEach_preserves (fun state : GIC numNodes C => actives.bit state.dist first.1 cpu = true)
          (fun _ _ _ _ _ holds step => forwardIrq_active (.inl ⟨_, step⟩) holds) isActive others
      · have same : SameBank cpu gic.dist middle.dist := forwardIrq_elsewhere (fun _ => here) forwarded
        have sameDeliverable : ∀ irq < 32,
            middle.dist.deliverable irq cpu = gic.dist.deliverable irq cpu :=
          fun irq => same.deliverable (forwardIrq_settings forwarded)
        have others := ih (fun pair later => banked pair (List.mem_cons_of_mem _ later))
          (fun pair later isCpu => ?_) ?_ (fun full => notFull fun index isIndex => ?_) others
        · obtain ⟨irq, isBanked, isDeliverable, isActive⟩ := others
          exact ⟨irq, isBanked, sameDeliverable irq isBanked ▸ isDeliverable, isActive⟩
        · have later := List.mem_cons_of_mem first later
          rw [sameDeliverable pair.1 (banked pair later)]
          exact deliverable pair later isCpu
        · obtain ⟨pair, member, isCpu⟩ := some
          rcases List.mem_cons.mp member with rfl | later
          · exact absurd isCpu here
          · exact ⟨pair, later, isCpu⟩
        · rw [← forwardIrq_otherSlots here forwarded index]
          exact full index isIndex

end Loops

/-! ## Writes by another cpu -/

section Write
variable {gic final : GIC numNodes C} {callbacks : GICCallbacks ε C}
  {callingNode offset cpu : Nat} {val : Register32} {reg : DistRegWord}

/-- Of the interrupts swept for, those of the cpu that are enabled but not deliverable have nothing
to be acknowledged, and where some are deliverable there is no empty slot for them. -/
def Spares (gic : GIC numNodes C) (cpu : Nat) (val : Register32) (reg : DistRegWord) : Prop :=
  (∀ irq ∈ reg.sweptToAck val, enables.bit gic.dist irq cpu = true →
    gic.dist.deliverable irq cpu = false → gic.dist.Acked irq cpu) ∧
  ∀ irq ∈ reg.sweptToInject val, gic.dist.deliverable irq cpu = true → gic.Full cpu

instance (gic : GIC numNodes C) (cpu : Nat) (val : Register32) (reg : DistRegWord) :
    Decidable (gic.Spares cpu val reg) := by
  unfold Spares
  infer_instance

theorem sweptToAck_banked {irq : Irq} (isSwept : irq ∈ reg.sweptToAck val) : irq < 32 := by
  unfold DistRegWord.sweptToAck at isSwept
  split at isSwept
  · split at isSwept
    · simp at isSwept
    · rw [List.mem_range'_1] at isSwept
      exact isSwept.2
  · simp at isSwept

/-- Whether a cpu is spared depends on its registers and slots only. -/
theorem spares_congr {dist : Distributor numNodes} (same : SameBank cpu gic.dist dist)
    (sameSettings : settings cpu dist = settings cpu gic.dist)
    (banked : ∀ irq ∈ reg.sweptToInject val, irq < 32) :
    gic.Spares cpu val reg ↔ Spares { gic with dist } cpu val reg := by
  have acks : ∀ irq ∈ reg.sweptToAck val,
      (enables.bit dist irq cpu = enables.bit gic.dist irq cpu ∧
        dist.deliverable irq cpu = gic.dist.deliverable irq cpu ∧
        (dist.Acked irq cpu ↔ gic.dist.Acked irq cpu)) := by
    intro irq isSwept
    have isBanked := sweptToAck_banked isSwept
    exact ⟨enabled_of_settings sameSettings isBanked, same.deliverable sameSettings isBanked,
      same.acked isBanked⟩
  refine and_congr (forall₂_congr fun irq isSwept => ?_) (forall₂_congr fun irq isSwept => ?_)
  · obtain ⟨sameEnabled, sameDeliverable, sameAcked⟩ := acks irq isSwept
    rw [sameEnabled, sameDeliverable, sameAcked]
  · rw [same.deliverable sameSettings (banked irq isSwept)]
    rfl

/-- The loops after a write leave the bank of a cpu as it is exactly if they have nothing to do
there. -/
theorem loops_sameBank {acked : GIC numNodes C} {action : WriteAction}
    (handsOver : HandsOver gic.dist (reg.sweptToInject val) (reg.sweptToAck val) action)
    (isAcked : forEach action.toAck (ackIrq callbacks callingNode) gic = .ok () acked)
    (forwarded : forEach action.toInject
      (fun pair => forwardIrq callbacks callingNode pair.2 pair.1) acked = .ok () final) :
    SameBank cpu gic.dist final.dist ↔ gic.Spares cpu val reg := by
  obtain ⟨ackedSettings, ackedSlot⟩ :
    settings cpu acked.dist = settings cpu gic.dist ∧ acked.slot = gic.slot := acks_settings isAcked
  have ackedFull : acked.Full cpu ↔ gic.Full cpu := by rw [Full, Full, ackedSlot]
  constructor
  · intro same
    have nothing : ∀ irq ∈ reg.sweptToAck val, enables.bit gic.dist irq cpu = true →
        gic.dist.deliverable irq cpu = false → gic.dist.Acked irq cpu := by
      intro irq isSwept isEnabled notDeliverable
      have isBanked := sweptToAck_banked isSwept
      have member := (handsOver.ack irq cpu isBanked).mpr ⟨isSwept, isEnabled, notDeliverable⟩
      have stays := forEach_preserves (fun state : GIC numNodes C => state.dist.Acked irq cpu)
        (fun pair isPair before after _ holds step => ?_) (acks_acked isAcked _ member) forwarded
      · exact (same.acked isBanked).mp stays
      · refine forwardIrq_acked (.inl ⟨_, step⟩) (fun sameBit => ?_) holds
        obtain ⟨isIrq, sees⟩ := sameBit
        have isPair : (irq, cpu) ∈ action.toInject := by
          rw [isIrq, sees (Nat.div_eq_of_lt (isIrq ▸ isBanked))]
          exact isPair
        rw [((handsOver.inject irq cpu isBanked).mp isPair).2] at notDeliverable
        simp at notDeliverable
    refine ⟨nothing, fun irq isSwept isDeliverable => ?_⟩
    by_contra notFull
    have isBanked := handsOver.banked irq isSwept
    have sameAcked : SameBank cpu gic.dist acked.dist := by
      refine acks_sameBank (fun pair isPair isBanked isCpu => ?_) isAcked
      subst isCpu
      obtain ⟨isSwept, isEnabled, notDeliverable⟩ := (handsOver.ack _ _ isBanked).mp isPair
      exact nothing pair.1 isSwept isEnabled notDeliverable
    have banked := handsOver.together.resolve_left (List.ne_nil_of_mem isSwept)
    have deliverable : ∀ pair ∈ action.toInject, pair.2 = cpu →
        acked.dist.deliverable pair.1 cpu = true := by
      rintro ⟨other, _⟩ isPair rfl
      rw [sameAcked.deliverable ackedSettings (banked _ isPair)]
      exact ((handsOver.inject _ _ (banked _ isPair)).mp isPair).2
    obtain ⟨other, isOther, stillDeliverable, isActive⟩ := forwards_activate banked deliverable
      ⟨_, (handsOver.inject irq cpu isBanked).mpr ⟨isSwept, isDeliverable⟩, rfl⟩
      (fun full => notFull (ackedFull.mp full)) forwarded
    rw [sameAcked.deliverable ackedSettings isOther, deliverable_iff] at stillDeliverable
    rw [same.active other isOther, stillDeliverable.2.2.2.2] at isActive
    simp at isActive
  · rintro ⟨nothing, full⟩
    have sameAcked : SameBank cpu gic.dist acked.dist := by
      refine acks_sameBank (fun pair isPair isBanked isCpu => ?_) isAcked
      subst isCpu
      obtain ⟨isSwept, isEnabled, notDeliverable⟩ := (handsOver.ack _ _ isBanked).mp isPair
      exact nothing pair.1 isSwept isEnabled notDeliverable
    refine sameAcked.trans (forwards_sameBank (fun ⟨pair, isPair, isBanked, isCpu⟩ => ?_) forwarded)
    subst isCpu
    obtain ⟨isSwept, isDeliverable⟩ := (handsOver.inject _ _ isBanked).mp isPair
    exact ackedFull.mpr (full pair.1 isSwept isDeliverable)

/-- After a write by another cpu a cpu reads the same from its own registers, exactly if the sweep
that follows the write spares it. -/
theorem handleWrite_private (isReg : DistRegWord.fromOffset offset = some reg) (notCtlr : reg ≠ .ctlr)
    (notSgir : reg ≠ .sgir) (elsewhere : callingNode ≠ cpu) (isNode : cpu < numNodes)
    (run : handleWrite callbacks callingNode offset (.word val) gic = .ok () final) :
    SameReads cpu gic.dist final.dist ↔ gic.Spares cpu val reg := by
  rw [handleWrite_eq] at run
  obtain ⟨action, _, wrote, rest⟩ := bind_eq_ok.mp run
  obtain ⟨dist, written, rfl⟩ := onDist_eq_ok.mp wrote
  obtain ⟨_, acked, isAcked, forwarded⟩ := bind_eq_ok.mp rest
  obtain ⟨_, _, isFound, written⟩ := bind_eq_ok.mp written
  obtain ⟨isWord, rfl⟩ := unwrap_eq_ok.mp isFound
  obtain rfl := Option.some.inj (isReg.symm.trans isWord)
  obtain ⟨sameSettings, sameBank⟩ := sameBank_of_bank isNode
    (writeWord_bank notCtlr notSgir elsewhere _ _ _ written)
  have handsOver := writeWord_handsOver notCtlr notSgir written
  have finalSettings := (forwards_settings forwarded).trans
    ((acks_settings isAcked).1.trans sameSettings)
  rw [sameReads_iff isNode finalSettings, spares_congr sameBank sameSettings handsOver.banked]
  have exact : SameBank cpu dist final.dist ↔ _ := loops_sameBank handsOver isAcked forwarded
  rw [← exact]
  exact ⟨sameBank.symm.trans, sameBank.trans⟩

/-- Cpu 0 enables interrupt 27 for itself before anything has happened. -/
theorem handleWrite_private_first : ∃ final,
    handleWrite silent 0 0x100 (.word 0x08000000) (new 2 ()) = .ok () final ∧
      SameReads 1 (new 2 ()).dist final.dist := by
  obtain ⟨final, serves⟩ := Option.isSome_iff_exists.mp
    (show (serve (.handleWrite 0 0x100 (.word 0x08000000)) (new 2 ())).isSome by decide +kernel)
  have returned := serve_returns _ _ _ serves
  refine ⟨final, returned, ?_⟩
  exact (handleWrite_private rfl (by decide) (by decide) (by decide) (by decide) returned).mpr
    (by decide +kernel)

/-- Cpu 1 has an SGI in service when cpu 0 enables interrupt 27 for itself: the SGI of cpu 1 is
acknowledged. -/
theorem enabled_by_other_cpu : ∃ taken gic final,
    Recorded (Returns silent) (new 2 ()) taken gic ∧
      handleWrite silent 0 0x100 (.word 0x08000000) gic = .ok () final ∧
      ¬ SameReads 1 gic.dist final.dist := by
  obtain ⟨taken, gic, run, _, serves⟩ := silent_run 2
    [.handleWrite 0 0x000 (.word 1), .handleWrite 0 0xF00 (.word 0x00020000)]
    (fun run => (serve (.handleWrite 0 0x100 (.word 0x08000000)) run.2).any fun final =>
      decide (actives.load 0 1 final.dist ≠ actives.load 0 1 run.2.dist)) (by decide +kernel)
  obtain ⟨final, returned, differ⟩ := (Option.any_eq_true _ _).mp serves
  refine ⟨taken, gic, final, run, serve_returns _ _ _ returned, fun same => ?_⟩
  exact of_decide_eq_true differ (same.of_reads 0x300 (.isactiver 0) rfl rfl rfl)

end Write

end GIC

end IceCap.Gic
