import IceCap.Gic.Accept
import IceCap.Gic.Embedding
import IceCap.Gic.Orderly
import IceCap.Library.Triple

/-!
# A GIC that serves an orderly guest

The embedder acknowledges the private interrupts that it knows, and puts an
interrupt into a list register that is free.  What the GIC asks of it is never
anything else, so that every orderly call returns: a slot of the mirror that is
empty stands for a list register that is free, and what is in one can be
acknowledged.
-/

set_option autoImplicit false

namespace IceCap.Gic

open IceCap.Library Exec

/-- The number of the interrupt is one of its kind. -/
def QualifiedIrq.Exists (numNodes : Nat) : QualifiedIrq → Prop
  | .qualifiedPpi node irq => node < numNodes ∧ irq < 32
  | .spi irq => 32 ≤ irq ∧ irq < 1020

/-- What an embedder acknowledges. -/
def QualifiedIrq.Served (numNodes : Nat) (known : Irq → Prop) : QualifiedIrq → Prop
  | .qualifiedPpi node irq => node < numNodes ∧ irq < 32 ∧ known irq
  | .spi _ => True

/-- The callbacks return, and take no list register but the one they inject into. -/
structure GICCallbacks.Serve {ε C : Type} (callbacks : GICCallbacks ε C) (numNodes : Nat)
    (known : Irq → Prop) (free : C → Nat → Nat → Prop) : Prop where
  ack : ∀ callingNode irq state, callingNode < numNodes → irq.Served numNodes known →
    ∃ final, callbacks.ack callingNode irq state = .ok () final ∧
      ∀ node index, free state node index → free final node index
  inject : ∀ callingNode targetNode index irq priority state, callingNode < numNodes →
    targetNode < numNodes → index < numLrs → irq < 1020 → priority < 32 →
    free state targetNode index →
    ∃ final, callbacks.vcpuInjectIrq callingNode targetNode index irq priority state = .ok () final ∧
      ∀ node other, ¬ (node = targetNode ∧ other = index) → free state node other →
        free final node other

namespace GIC

variable {numNodes : Nat} {ε C α : Type} {known : Irq → Prop} {free : C → Nat → Nat → Prop}

structure Steady (known : Irq → Prop) (free : C → Nat → Nat → Prop) (gic : GIC numNodes C) :
    Prop where
  dist : gic.dist.Sound known
  slots : ∀ (node index irq : Nat), gic.slot node index = some irq →
    irq < 1020 ∧ (16 ≤ irq → irq < 32 → known irq)
  queues : ∀ node, ∀ irq ∈ gic.overflow node, irq < 1020
  free : ∀ node index, node < numNodes → index < numLrs → gic.slot node index = none →
    free gic.callbacks node index

theorem new_steady {state : C} (isNode : 0 < numNodes)
    (allFree : ∀ node index, free state node index) : (new numNodes state).Steady known free where
  dist := Distributor.new_sound isNode
  slots node index irq held := by simp [slot_of_new rfl] at held
  queues node irq member := by simp [overflow_of_new rfl] at member
  free node index _ _ _ := allFree node index

section Calls
variable {callbacks : GICCallbacks ε C} {callingNode targetNode index irq : Nat}

theorem Steady.withDist {gic : GIC numNodes C} (steady : gic.Steady known free)
    {dist : Distributor numNodes} (sound : dist.Sound known) :
    ({ gic with dist } : GIC numNodes C).Steady known free :=
  ⟨sound, steady.slots, steady.queues, steady.free⟩

/-- A call of the distributor that has nothing to do with routing. -/
theorem onDist_total {pre : GIC numNodes C → Prop} {post : α → GIC numNodes C → Prop}
    {call : Exec IrqError (Distributor numNodes) α}
    (total : ∀ gic, pre gic → ∃ value dist, call gic.dist = .ok value dist ∧
      post value { gic with dist }) :
    Total pre (onDist call : Exec (Failure ε) (GIC numNodes C) α) post := Total.inside total

theorem updateBit_sound {family : Distributor.Family numNodes} {dist final : Distributor numNodes}
    {change : Register32 → Register32 → Register32}
    (leaves : family.Leaves Distributor.routing) (sound : dist.Sound known)
    (run : family.updateBit irq targetNode change dist = .ok () final) : final.Sound known :=
  sound.of_routing (family.updateBit_keeps leaves _ _ _ run)

/-- The mirror is changed in one slot. -/
theorem setMirror_total {held : Option Irq} {pre : GIC numNodes C → Prop}
    {post : Unit → GIC numNodes C → Prop} (isNode : targetNode < numNodes) (isIndex : index < numLrs)
    (leads : ∀ gic final : GIC numNodes C, pre gic → final.callbacks = gic.callbacks →
      final.dist = gic.dist → final.overflow = gic.overflow →
      (∀ node other, final.slot node other =
        if node = targetNode ∧ other = index then held else gic.slot node other) → post () final) :
    Total pre (setMirror targetNode index held : Exec (Failure ε) _ Unit) post := by
  rw [total_iff]
  intro gic holds
  obtain ⟨final, updated⟩ := updateLr_returns (ε := ε) gic
    (fun lr => { lr with mirror := lr.mirror.setIfInBounds index held }) isNode
  have run : (setMirror targetNode index held : Exec (Failure ε) _ Unit) gic = .ok () final :=
    bind_eq_ok.mpr ⟨(), gic, assert_eq_ok.mpr ⟨isIndex, rfl⟩, updated⟩
  obtain ⟨sameDist, sameOverflow, slots⟩ := setMirror_eq_ok run
  have sameCallbacks : final.callbacks = gic.callbacks := by
    obtain ⟨_, _, rfl⟩ := updateLr_eq_ok updated
    rfl
  exact ⟨(), final, run, leads gic final holds sameCallbacks sameDist sameOverflow slots⟩

theorem injectIrq_total (serve : callbacks.Serve numNodes known free)
    (isCaller : callingNode < numNodes) (isNode : targetNode < numNodes) (isIndex : index < numLrs)
    (isIrq : irq < 1020) :
    Total (fun gic : GIC numNodes C => gic.Steady known free ∧ gic.slot targetNode index = none)
      (injectIrq callbacks callingNode targetNode index irq) fun _ gic => gic.Steady known free := by
  have isRegister : irq < 1024 := Nat.lt_trans isIrq (by decide)
  refine Triple.through (fun (priority : Register32) gic => priority.toNat >>> 3 < 32 ∧
    gic.Steady known free ∧ gic.slot targetNode index = none) (onDist_total fun gic holds => ?_)
    fun priority => .of_fact fun isPriority => ?_
  · obtain ⟨priority, run⟩ := getPriority_returns gic.dist isIrq isNode
    refine ⟨priority, gic.dist, run, ?_, holds⟩
    rw [Distributor.getPriority, if_neg (Nat.not_le.mpr isNode)] at run
    exact priorityOf_lt (reads_eq_ok.mp run).1
  refine Triple.through (fun _ gic => gic.Steady known free ∧ gic.slot targetNode index = none)
    (onDist_total fun gic holds => ?_) fun _ => ?_
  · obtain ⟨dist, run⟩ :=
      Distributor.pendings.updateBit_ok gic.dist Distributor.setBits isRegister isNode
    exact ⟨(), dist, run, holds.1.withDist (updateBit_sound (fun _ _ _ => rfl) holds.1.dist run),
      holds.2⟩
  refine Triple.through (fun inject gic => (inject = true → 16 ≤ irq → irq < 32 → known irq) ∧
    gic.Steady known free ∧ gic.slot targetNode index = none) (onDist_total fun gic holds => ?_)
    fun inject => .of_fact fun isKnown => ?_
  · refine ⟨gic.dist.deliverable irq targetNode, gic.dist,
      reads_eq_ok.mpr ⟨Distributor.shouldInject_eq_some isIrq, rfl⟩, fun isDeliverable => ?_, holds⟩
    exact (holds.1.dist.enabled irq targetNode
      (Distributor.deliverable_iff.mp isDeliverable).2.1).2
  refine .ite (fun isInject => ?_) fun _ => .pure fun _ holds => holds.1
  refine Triple.through (fun _ gic => gic.Steady known free ∧ gic.slot targetNode index = none)
    (onDist_total fun gic holds => ?_) fun _ => ?_
  · obtain ⟨dist, run⟩ :=
      Distributor.actives.updateBit_ok gic.dist Distributor.setBits isRegister isNode
    exact ⟨(), dist, run, holds.1.withDist (updateBit_sound (fun _ _ _ => rfl) holds.1.dist run),
      holds.2⟩
  refine Triple.through (fun _ gic => gic.Steady known free ∧
    gic.slot targetNode index = some irq ∧ free gic.callbacks targetNode index)
    (setMirror_total isNode isIndex ?_) fun _ => ?_
  · rintro gic final ⟨steady, isEmpty⟩ sameCallbacks sameDist sameOverflow slots
    refine ⟨⟨sameDist ▸ steady.dist, fun node other held isHeld => ?_,
      sameOverflow ▸ steady.queues, fun node other isOther isPlace isFree => ?_⟩, ?_, ?_⟩
    · rw [slots] at isHeld
      split at isHeld
      · obtain rfl := Option.some.inj isHeld
        exact ⟨isIrq, isKnown isInject⟩
      · exact steady.slots node other held isHeld
    · rw [slots] at isFree
      split at isFree
      · simp at isFree
      · rw [sameCallbacks]
        exact steady.free node other isOther isPlace isFree
    · rw [slots, if_pos ⟨rfl, rfl⟩]
    · rw [sameCallbacks]
      exact steady.free targetNode index isNode isIndex isEmpty
  refine Total.inside fun gic holds => ?_
  obtain ⟨steady, isHeld, isFree⟩ := holds
  obtain ⟨final, run, staysFree⟩ := serve.inject callingNode targetNode index irq _ gic.callbacks
    isCaller isNode isIndex isIrq isPriority isFree
  refine ⟨(), final, run, steady.dist, steady.slots, steady.queues, ?_⟩
  intro node other isOther isPlace isEmpty
  refine staysFree node other ?_ (steady.free node other isOther isPlace isEmpty)
  rintro ⟨rfl, rfl⟩
  have stillHeld : gic.slot node other = none := isEmpty
  simp [isHeld] at stillHeld

/-- A queue is changed, and holds interrupts there are. -/
theorem updateOverflow_total (change : List Irq → List Irq) {pre : GIC numNodes C → Prop}
    (isNode : targetNode < numNodes) (steady : ∀ gic, pre gic → gic.Steady known free)
    (areIrqs : ∀ queue : List Irq, (∀ irq ∈ queue, irq < 1020) → ∀ irq ∈ change queue, irq < 1020) :
    Total pre (updateLr targetNode (fun lr => { lr with overflow := change lr.overflow }) :
      Exec (Failure ε) (GIC numNodes C) Unit) fun _ gic => gic.Steady known free := by
  rw [total_iff]
  intro gic holds
  obtain ⟨final, run⟩ := updateLr_returns (ε := ε) gic
    (fun lr => { lr with overflow := change lr.overflow }) isNode
  obtain ⟨sameDist, sameSlot, queues⟩ := updateOverflow_eq_ok change run
  have sameCallbacks : final.callbacks = gic.callbacks := by
    obtain ⟨_, _, rfl⟩ := updateLr_eq_ok run
    rfl
  have before := steady gic holds
  refine ⟨(), final, run, sameDist ▸ before.dist, sameSlot ▸ before.slots, fun node => ?_, ?_⟩
  · rw [queues]
    split
    · exact areIrqs _ (before.queues node)
    · exact before.queues node
  · rw [sameSlot, sameCallbacks]
    exact before.free

theorem forwardIrq_total (serve : callbacks.Serve numNodes known free)
    (isCaller : callingNode < numNodes) (isNode : targetNode < numNodes) (isIrq : irq < 1020) :
    Total (Steady known free) (forwardIrq callbacks callingNode targetNode irq)
      fun _ (gic : GIC numNodes C) => gic.Steady known free := by
  refine Triple.through (fun lr gic => gic.lrs[targetNode]? = some lr ∧ gic.Steady known free)
    (.reads fun gic _ => ⟨_, Vector.getElem?_eq_getElem isNode⟩) fun lr => ?_
  cases isSlot : lr.emptySlot with
  | some index =>
      have isIndex : index < numLrs := List.mem_range.mp (List.mem_of_find?_eq_some isSlot)
      exact (injectIrq_total serve isCaller isNode isIndex isIrq).strengthen fun gic holds =>
        ⟨holds.2, (emptySlot_eq_some holds.1 isSlot).2⟩
  | none =>
      refine .ite (fun _ => .pure fun _ holds => holds.2) fun _ => ?_
      refine updateOverflow_total (· ++ [irq]) isNode (fun _ holds => holds.2) fun queue areIrqs other member => ?_
      rcases List.mem_append.mp member with isOld | isNew
      · exact areIrqs other isOld
      · exact List.mem_singleton.mp isNew ▸ isIrq

/-! ## The calls of the VMM -/

theorem handleIrq_total (serve : callbacks.Serve numNodes known free)
    (isCaller : callingNode < numNodes) {qualified : QualifiedIrq}
    (isIrq : qualified.Exists numNodes) :
    Total (Steady known free) (handleIrq callbacks callingNode qualified)
      fun _ (gic : GIC numNodes C) => gic.Steady known free := by
  cases qualified with
  | qualifiedPpi node irq =>
      exact forwardIrq_total serve isCaller isIrq.1 (Nat.lt_trans isIrq.2 (by decide))
  | spi irq =>
      obtain ⟨isSpi, isIrq⟩ := isIrq
      refine Triple.through (fun _ => Steady known free) (onDist_total fun gic steady =>
        ⟨_, _, reads_eq_ok.mpr ⟨Distributor.isTarget_eq_some isIrq, rfl⟩, steady⟩) fun isTarget => ?_
      refine .ite (fun _ => forwardIrq_total serve isCaller isCaller isIrq) fun _ => ?_
      refine Triple.through (fun targets gic => (∀ target, targets.getLsbD target = true →
        target < numNodes) ∧ gic.Steady known free) (onDist_total fun gic steady => ?_)
        fun targets => .of_fact fun areNodes => ?_
      · obtain ⟨targets, isTargets⟩ := getSpiTargets_isSome gic.dist isSpi isIrq
        exact ⟨targets, _, reads_eq_ok.mpr ⟨isTargets, rfl⟩,
          fun target isSet => steady.dist.routed isTargets isSet, steady⟩
      cases isHead : (biterate targets).head? with
      | none => exact .pure fun _ steady => steady
      | some target =>
          have isSet := mem_biterate.mp (List.mem_of_head? isHead)
          exact forwardIrq_total serve isCaller (areNodes target isSet) isIrq

theorem ack_total {node : Nat} (isNode : node < numNodes) (isIrq : irq < 1020)
    {dist : Distributor numNodes} (sound : dist.Sound known) :
    ∃ final, Distributor.ack irq node dist = .ok () final ∧ final.Sound known := by
  have isRegister : irq < 1024 := Nat.lt_trans isIrq (by decide)
  have cleared : ∃ middle, (if irq < 16 then Distributor.clearSgiPending irq 0 node
      else Distributor.clearPending irq node) dist = .ok () middle := by
    by_cases isSgi : irq < 16
    · rw [if_pos isSgi, Distributor.clearSgiPending,
        if_neg (Nat.not_le.mpr (Nat.zero_lt_of_lt isNode)), if_neg (Nat.not_le.mpr isNode),
        if_neg (Nat.not_lt.mpr (Nat.le_of_lt isSgi))]
      cases run : Distributor.updateSgiPending (irq / 4) node
          (fun reg => Distributor.clearBits reg (1#32 <<< (0 + irq % 4 * 8))) dist with
      | ok prev middle =>
          rw [bind_of_ok run]
          split
          · obtain ⟨last, cleared⟩ :=
              Distributor.pendings.updateBit_ok middle Distributor.clearBits isRegister isNode
            exact ⟨last, orPanic_eq_ok.mpr cleared⟩
          · exact ⟨middle, rfl⟩
      | err error middle => exact absurd run (Distributor.updateSgiPending_infallible _ _ _)
      | panic =>
          have isReg : irq / 4 < 4 := by omega
          exact absurd run (Distributor.updateSgiPending_ne_panic isReg isNode)
    · rw [if_neg isSgi]
      exact Distributor.pendings.updateBit_ok dist Distributor.clearBits isRegister isNode
  obtain ⟨middle, isCleared⟩ := cleared
  obtain ⟨final, isInactive⟩ :=
    Distributor.actives.updateBit_ok middle Distributor.clearBits isRegister isNode
  have run : Distributor.ack irq node dist = .ok () final := by
    rw [Distributor.ack, if_neg (Nat.not_le.mpr isNode), bind_of_ok isCleared]
    exact isInactive
  exact ⟨final, run, sound.of_routing (Distributor.ack_keeps (fun _ _ _ => rfl) (fun _ _ _ => rfl)
    (fun _ _ => rfl) _ _ _ run)⟩

theorem popOverflow_total {node : Nat} (isNode : node < numNodes) :
    Total (fun gic : GIC numNodes C => gic.Steady known free ∧ gic.slot node index = none)
      (popOverflow node : Exec (Failure ε) _ _) fun next gic =>
        (∀ irq, next = some irq → irq < 1020) ∧ gic.Steady known free ∧ gic.slot node index = none := by
  refine total_iff.mpr fun gic ⟨steady, isEmpty⟩ => ?_
  obtain ⟨final, updated⟩ := updateLr_returns (ε := ε) gic
    (fun lr => { lr with overflow := lr.overflow.tail }) isNode
  have run : (popOverflow node : Exec (Failure ε) _ _) gic = .ok (gic.lrs[node]).overflow.head? final :=
    bind_eq_ok.mpr ⟨_, gic, reads_eq_ok.mpr ⟨Vector.getElem?_eq_getElem isNode, rfl⟩,
      bind_eq_ok.mpr ⟨(), final, updated, rfl⟩⟩
  obtain ⟨isNext, sameDist, sameSlot, queues⟩ := popOverflow_eq_ok run
  have sameCallbacks : final.callbacks = gic.callbacks := by
    obtain ⟨_, _, rfl⟩ := updateLr_eq_ok updated
    rfl
  refine ⟨_, final, run, fun irq isIrq => ?_, ⟨sameDist ▸ steady.dist, sameSlot ▸ steady.slots,
    fun other held member => ?_, ?_⟩, sameSlot ▸ isEmpty⟩
  · rw [isNext] at isIrq
    exact steady.queues node irq (List.mem_of_head? isIrq)
  · rw [queues] at member
    split at member
    · exact steady.queues other held (List.mem_of_mem_tail member)
    · exact steady.queues other held member
  · rw [sameSlot, sameCallbacks]
    exact steady.free

/-- What was in a slot is acknowledged, and the slot is given to the first in the queue. -/
theorem handleMaintenance_total (serve : callbacks.Serve numNodes known free) {node : Nat}
    (isNode : node < numNodes) (isIndex : index < numLrs) :
    Total (fun gic : GIC numNodes C => gic.Steady known free ∧ (gic.slot node index).isSome ∧
        free gic.callbacks node index) (handleMaintenance callbacks node index)
      fun _ gic => gic.Steady known free := by
  refine Triple.through (fun slot gic => (∃ irq, slot = some irq ∧ irq < 1020 ∧
    (16 ≤ irq → irq < 32 → known irq)) ∧ gic.Steady known free ∧ free gic.callbacks node index)
    ?_ fun slot => .of_fact fun isSlot => ?_
  · refine total_iff.mpr fun gic ⟨steady, isSome, isFree⟩ => ?_
    obtain ⟨irq, isHeld⟩ := Option.isSome_iff_exists.mp isSome
    refine ⟨some irq, gic, reads_eq_ok.mpr ⟨?_, rfl⟩, ⟨irq, rfl, steady.slots node index irq isHeld⟩,
      steady, isFree⟩
    exact Option.join_eq_some_iff.mp isHeld
  obtain ⟨irq, rfl, isIrq, isKnown⟩ := isSlot
  refine Triple.bind (.unwrap fun _ _ => ⟨irq, rfl⟩) fun found => .of_fact fun isFound => ?_
  obtain rfl := Option.some.inj isFound
  refine Triple.through (fun _ gic => gic.Steady known free ∧ gic.slot node index = none)
    (setMirror_total isNode isIndex ?_) fun _ => ?_
  · rintro gic final ⟨steady, isFree⟩ sameCallbacks sameDist sameOverflow slots
    refine ⟨⟨sameDist ▸ steady.dist, fun other place held isHeld => ?_, sameOverflow ▸ steady.queues,
      fun other place isOther isPlace isEmpty => ?_⟩, ?_⟩
    · rw [slots] at isHeld
      split at isHeld
      · simp at isHeld
      · exact steady.slots other place held isHeld
    · rw [sameCallbacks]
      rw [slots] at isEmpty
      split at isEmpty
      · next same => rwa [same.1, same.2]
      · exact steady.free other place isOther isPlace isEmpty
    · rw [slots, if_pos ⟨rfl, rfl⟩]
  refine Triple.through (fun _ gic => gic.Steady known free ∧ gic.slot node index = none)
    (onDist_total fun gic holds => ?_) fun _ => ?_
  · obtain ⟨dist, run, sound⟩ := ack_total isNode isIrq holds.1.dist
    exact ⟨(), dist, run, holds.1.withDist sound, holds.2⟩
  refine Triple.through (fun _ gic => gic.Steady known free ∧ gic.slot node index = none)
    (Total.inside fun gic holds => ?_) fun _ => ?_
  · have isServed : QualifiedIrq.Served numNodes known
        (if irq ≥ 16 ∧ irq < 32 then .qualifiedPpi node irq else .spi irq) := by
      split
      · next isPpi => exact ⟨isNode, isPpi.2, isKnown isPpi.1 isPpi.2⟩
      · trivial
    obtain ⟨final, run, staysFree⟩ := serve.ack node _ gic.callbacks isNode isServed
    exact ⟨(), final, run, ⟨holds.1.dist, holds.1.slots, holds.1.queues,
      fun other place isOther isPlace isEmpty =>
        staysFree other place (holds.1.free other place isOther isPlace isEmpty)⟩, holds.2⟩
  refine Triple.through (fun next gic => (∀ irq, next = some irq → irq < 1020) ∧
    gic.Steady known free ∧ gic.slot node index = none) (popOverflow_total isNode) fun next =>
      .of_fact fun isNext => ?_
  cases next with
  | none => exact .pure fun _ holds => holds.1
  | some irq => exact injectIrq_total serve isNode isNode isIndex (isNext irq rfl)

theorem ackIrq_total (serve : callbacks.Serve numNodes known free)
    (isCaller : callingNode < numNodes) {pair : Irq × Cpu} (isIrq : pair.1 < 1020)
    (isNode : pair.2 < numNodes) (isKnown : 16 ≤ pair.1 → pair.1 < 32 → known pair.1) :
    Total (Steady known free) (ackIrq callbacks callingNode pair)
      fun _ (gic : GIC numNodes C) => gic.Steady known free := by
  refine Triple.through (fun _ => Steady known free) (onDist_total fun gic steady => ?_) fun _ => ?_
  · obtain ⟨dist, run, sound⟩ := ack_total isNode isIrq steady.dist
    exact ⟨(), dist, run, steady.withDist sound⟩
  refine .ite (fun notSgi => Total.inside fun gic steady => ?_) fun _ => .pure fun _ steady => steady
  have isServed : QualifiedIrq.Served numNodes known
      (if pair.1 < 32 then .qualifiedPpi pair.2 pair.1 else .spi pair.1) := by
    split
    · next isPrivate => exact ⟨isNode, isPrivate, isKnown notSgi isPrivate⟩
    · trivial
  obtain ⟨final, run, staysFree⟩ := serve.ack callingNode _ gic.callbacks isCaller isServed
  exact ⟨(), final, run, steady.dist, steady.slots, steady.queues,
    fun node index isNode isIndex isEmpty =>
      staysFree node index (steady.free node index isNode isIndex isEmpty)⟩

theorem handleWrite_total (serve : callbacks.Serve numNodes known free) (atMost : numNodes ≤ 8)
    (isCaller : callingNode < numNodes) {offset : Nat} {data : FaultData}
    (aligned : ∀ val, data = .word val → 4 ∣ offset) (orderly : data.Orderly known numNodes offset) :
    Total (Steady known free) (handleWrite callbacks callingNode offset data)
      fun _ (gic : GIC numNodes C) => gic.Steady known free := by
  rw [handleWrite_eq]
  refine Triple.through (fun action gic => action.Proper known numNodes ∧ gic.Steady known free)
    (onDist_total fun gic steady => ?_) fun action => .of_fact fun proper => ?_
  · obtain ⟨action, dist, run, sound, proper⟩ :=
      Distributor.handleWrite_total isCaller atMost aligned steady.dist orderly
    exact ⟨action, dist, run, proper, steady.withDist sound⟩
  refine Triple.through (fun _ => Steady known free) (.forEach fun pair member => ?_) fun _ => ?_
  · obtain ⟨isIrq, isNode, isKnown⟩ := proper.toAck pair member
    exact ackIrq_total serve isCaller isIrq isNode isKnown
  · refine .forEach fun pair member => ?_
    obtain ⟨isIrq, isNode⟩ := proper.toInject pair member
    exact forwardIrq_total serve isCaller isNode isIrq

end Calls

end GIC

end IceCap.Gic
