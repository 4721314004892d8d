import IceCap.Gic.Stranding

/-!
# No interrupt is left behind

An interrupt that could be injected now waits in a slot or in the queue of one of its
targets.  `handle_served_iff` says exactly which calls break this, and `run_served_iff`
extends it to runs.
-/

set_option autoImplicit false

namespace IceCap.Gic

open IceCap.Library Exec Distributor

/-! ## Acknowledgements -/

section Acks
variable {numNodes : Nat} {irq : Nat} {before middle after : Distributor numNodes}
  {hits more : Nat → Prop}

/-- The interrupt has been acknowledged on the cpus that are hit. -/
structure Acknowledged (irq : Nat) (hits : Nat → Prop) (before after : Distributor numNodes) :
    Prop where
  keeps : (after.isGicEnabled, enables.bit after irq, after.targetBit irq) =
    (before.isGicEnabled, enables.bit before irq, before.targetBit irq)
  source : ∀ cpu, after.OtherSource irq cpu ↔ before.OtherSource irq cpu
  active : ∀ cpu, actives.bit after irq cpu = true ↔ actives.bit before irq cpu = true ∧ ¬ hits cpu
  pending : ∀ cpu, pendings.bit after irq cpu = true ↔
    pendings.bit before irq cpu = true ∧ (hits cpu → before.OtherSource irq cpu)

theorem Acknowledged.none (noHits : ∀ cpu, ¬ hits cpu) : Acknowledged irq hits before before :=
  ⟨rfl, fun _ => Iff.rfl, fun cpu => by simp [noHits], fun cpu => by simp [noHits]⟩

theorem Acknowledged.trans (first : Acknowledged irq hits before middle)
    (second : Acknowledged irq more middle after) :
    Acknowledged irq (fun cpu => hits cpu ∨ more cpu) before after := by
  refine ⟨second.keeps.trans first.keeps, fun cpu => (second.source cpu).trans (first.source cpu),
    fun cpu => ?_, fun cpu => ?_⟩
  · rw [second.active, first.active, not_or, and_assoc]
  · rw [second.pending, first.pending, first.source, or_imp, and_assoc]

theorem Acknowledged.congr (acknowledged : Acknowledged irq hits before after)
    (same : ∀ cpu, hits cpu ↔ more cpu) : Acknowledged irq more before after := by
  obtain rfl : hits = more := funext fun cpu => propext (same cpu)
  exact acknowledged

theorem ack_acknowledged {other node : Nat} (run : ack other node before = .ok () after) :
    Acknowledged irq (fun cpu => Family.SameBit other node irq cpu) before after := by
  obtain ⟨_, activeBits, _, kept, lost⟩ := ack_eq_ok run
  have keeps : Keeps (fun dist : Distributor numNodes =>
      (dist.isGicEnabled, enables.bit dist irq, dist.targetBit irq)) (ack other node) :=
    ack_keeps (fun _ _ _ => rfl) (fun _ _ _ => rfl) fun _ _ => rfl
  refine ⟨keeps _ _ _ run, fun cpu => ack_otherSource run, fun cpu => ?_, fun cpu => ?_⟩
  · rw [activeBits]
    split
    · next isSame => simp [isSame]
    · next isOther => simp [isOther]
  · have sameSource : Family.SameBit other node irq cpu →
        (before.OtherSource other node ↔ before.OtherSource irq cpu) := by
      rintro ⟨rfl, sees⟩
      constructor
      · intro isSource
        rwa [sees (Nat.div_eq_of_lt (Nat.lt_trans isSource.1 (by decide)))]
      · intro isSource
        rwa [← sees (Nat.div_eq_of_lt (Nat.lt_trans isSource.1 (by decide)))]
    by_cases isSource : before.OtherSource other node
    · rw [kept isSource]
      exact (and_iff_left fun isSame => (sameSource isSame).mp isSource).symm
    · rw [lost isSource]
      split
      · next isSame =>
          refine iff_of_false (by simp) fun remains => isSource ?_
          exact (sameSource isSame).mpr (remains.2 isSame)
      · next isOther => simp [isOther]

/-- What is deliverable once the acknowledgements of an action have been made. -/
theorem Acknowledged.deliverable {action : WriteAction} {cpu : Nat}
    (acknowledged : Acknowledged irq (action.Acks irq) before after) :
    after.deliverable irq cpu = true ↔ before.DeliverableAfter action irq cpu := by
  have keeps := acknowledged.keeps
  simp only [Prod.mk.injEq] at keeps
  obtain ⟨sameOn, sameEnabled, sameTarget⟩ := keeps
  have notActive := not_congr (acknowledged.active cpu)
  rw [Bool.not_eq_true] at notActive
  rw [deliverable_iff, sameOn, sameEnabled, sameTarget, acknowledged.pending, notActive]
  unfold DeliverableAfter Ready
  by_cases acks : action.Acks irq cpu
  · simp [acks, and_assoc]
  · simp [acks, deliverable_iff]

end Acks

namespace GIC

variable {numNodes : Nat} {ε C : Type}

/-- The interrupt is in a slot or in the queue of a node. -/
def Waits (gic : GIC numNodes C) (irq node : Nat) : Prop :=
  (∃ index < numLrs, gic.slot node index = some irq) ∨ irq ∈ gic.overflow node

/-- What is deliverable waits at a target. -/
def Served (gic : GIC numNodes C) (irq : Nat) : Prop :=
  ∀ cpu, gic.dist.deliverable irq cpu = true → gic.dist.Attends (gic.Waits irq) irq cpu

/-- What is deliverable waits at a target or is still to be forwarded. -/
def ServedBut (gic : GIC numNodes C) (coming : List (Irq × Cpu)) (irq : Nat) : Prop :=
  ∀ cpu, gic.dist.deliverable irq cpu = true → gic.dist.Attends (gic.Waits irq) irq cpu ∨
    ∃ node, (irq, node) ∈ coming ∧ Family.Sees (irq / 32) node cpu

section Forwarding
variable {gic final : GIC numNodes C} {callbacks : GICCallbacks ε C}
  {callingNode targetNode index irq other : Nat} {coming : List (Irq × Cpu)}

theorem servedBut_nil_iff : gic.ServedBut [] irq ↔ gic.Served irq := by
  simp [ServedBut, Served]

/-- An attempt to inject into an empty slot.  The interrupt becomes pending, and active if it can be
sent to this node. -/
structure Injected (other targetNode : Nat) (gic final : GIC numNodes C) : Prop where
  target : ∀ irq, final.dist.targetBit irq = gic.dist.targetBit irq
  waits : ∀ irq node, final.Waits irq node ↔
    gic.Waits irq node ∨ irq = other ∧ node = targetNode ∧ gic.dist.Sendable other targetNode
  elsewhere : ∀ irq cpu, ¬ Family.SameBit other targetNode irq cpu →
    final.dist.deliverable irq cpu = gic.dist.deliverable irq cpu
  here : ∀ cpu, Family.Sees (other / 32) targetNode cpu → (final.dist.deliverable other cpu = true ↔
    gic.dist.Sendable other cpu ∧ ¬ gic.dist.Sendable other targetNode)

theorem injectIrq_injected (isNode : targetNode < numNodes) (isIndex : index < numLrs)
    (isEmpty : gic.slot targetNode index = none)
    (run : Ends (injectIrq callbacks callingNode targetNode index other) gic final) :
    Injected other targetNode gic final := by
  rcases injectIrq_ends run with ⟨_, outside⟩ | ⟨_, sameOverflow, dist, pended, ends⟩
  · exact absurd isNode (Nat.not_lt.mpr outside)
  have bits := Family.set_bit pended
  have samePut : (∀ irq, dist.targetBit irq = gic.dist.targetBit irq) ∧
      (∀ irq cpu, dist.Sendable irq cpu ↔ gic.dist.Sendable irq cpu) := by
    obtain ⟨_, _, ⟨_, _, rfl⟩, _⟩ := Family.updateBit_eq_ok pended
    exact ⟨fun _ => rfl, fun _ _ => Iff.rfl⟩
  obtain ⟨sameTarget, sameSendable⟩ := samePut
  have pendedHere : ∀ cpu, Family.Sees (other / 32) targetNode cpu →
      (dist.deliverable other cpu = true ↔ gic.dist.Sendable other cpu) := by
    intro cpu sees
    rw [deliverable_iff_sendable, sameSendable]
    refine and_iff_left_of_imp fun sendable => ?_
    rw [(bits other cpu).1 ⟨rfl, sees⟩]
    simpa using targetBit_isNode sendable.2.2.1
  have pendedElsewhere : ∀ irq cpu, ¬ Family.SameBit other targetNode irq cpu →
      dist.deliverable irq cpu = gic.dist.deliverable irq cpu := by
    intro irq cpu differ
    rw [Bool.eq_iff_iff, deliverable_iff_sendable, deliverable_iff_sendable, sameSendable,
      (bits irq cpu).2 differ]
  rcases ends with ⟨notDeliverable, sameDist, sameSlot⟩ | ⟨isDeliverable, activated, slots⟩
  · have notSendable : ¬ gic.dist.Sendable other targetNode := by
      rw [← pendedHere targetNode fun _ => rfl, notDeliverable]
      simp
    refine ⟨?_, fun irq node => ?_, ?_, fun cpu sees => ?_⟩
    · rwa [sameDist]
    · simp [Waits, sameSlot, sameOverflow, notSendable]
    · rwa [sameDist]
    · rw [sameDist, pendedHere cpu sees]
      exact (and_iff_left notSendable).symm
  · have sendable := (pendedHere targetNode fun _ => rfl).mp isDeliverable
    have activeBits := Family.set_bit activated
    have sameReady : (∀ irq, final.dist.targetBit irq = dist.targetBit irq) ∧
        ∀ irq cpu, final.dist.Ready irq cpu ↔ dist.Ready irq cpu := by
      obtain ⟨_, _, ⟨_, _, isPut⟩, _⟩ := Family.updateBit_eq_ok activated
      rw [isPut]
      exact ⟨fun _ => rfl, fun _ _ => Iff.rfl⟩
    refine ⟨fun irq => (sameReady.1 irq).trans (sameTarget irq), fun irq node => ?_,
      fun irq cpu differ => ?_, fun cpu sees => ?_⟩
    · unfold Waits
      rw [sameOverflow]
      constructor
      · rintro (⟨place, isPlace, held⟩ | isQueued)
        · rw [slots] at held
          split at held
          · next isNew => exact .inr ⟨(Option.some.inj held).symm, isNew.1, sendable⟩
          · exact .inl (.inl ⟨place, isPlace, held⟩)
        · exact .inl (.inr isQueued)
      · rintro ((⟨place, isPlace, held⟩ | isQueued) | ⟨rfl, rfl, _⟩)
        · refine .inl ⟨place, isPlace, ?_⟩
          rw [slots, if_neg]
          · exact held
          · rintro ⟨rfl, rfl⟩
            simp [isEmpty] at held
        · exact .inr isQueued
        · exact .inl ⟨index, isIndex, by rw [slots, if_pos ⟨rfl, rfl⟩]⟩
    · rw [← pendedElsewhere irq cpu differ, Bool.eq_iff_iff, deliverable_iff_ready,
        deliverable_iff_ready, sameReady.2, (activeBits irq cpu).2 differ]
    · refine iff_of_false (fun delivered => ?_) fun both => both.2 sendable
      have isCpu := targetBit_isNode (deliverable_iff.mp delivered).2.2.1
      have notActive := (deliverable_iff.mp delivered).2.2.2.2
      rw [(activeBits other cpu).1 ⟨rfl, sees⟩, decide_eq_true isCpu] at notActive
      simp at notActive

/-- What forwarding does that matters for the others and for the interrupt itself. -/
structure Forwarded (other targetNode : Nat) (gic final : GIC numNodes C) : Prop where
  target : ∀ irq, final.dist.targetBit irq = gic.dist.targetBit irq
  keeps : ∀ irq node, gic.Waits irq node → final.Waits irq node
  new : ∀ irq node, final.Waits irq node → gic.Waits irq node ∨ irq = other ∧ node = targetNode
  elsewhere : ∀ irq cpu, ¬ Family.SameBit other targetNode irq cpu →
    final.dist.deliverable irq cpu = gic.dist.deliverable irq cpu
  here : ∀ cpu, Family.Sees (other / 32) targetNode cpu →
    (32 ≤ other → gic.dist.targetBit other targetNode = true) →
    final.dist.deliverable other cpu = true → final.Waits other targetNode

theorem Injected.forwarded (injected : Injected other targetNode gic final) :
    Forwarded other targetNode gic final where
  target := injected.target
  keeps irq node waits := (injected.waits irq node).mpr (.inl waits)
  new irq node waits := ((injected.waits irq node).mp waits).imp_right fun isNew => ⟨isNew.1, isNew.2.1⟩
  elsewhere := injected.elsewhere
  here cpu sees isTarget delivered := by
    obtain ⟨sendable, notSent⟩ := (injected.here cpu sees).mp delivered
    exact absurd (sendable.sees sees isTarget) notSent

theorem forwardIrq_forwarded
    (run : Ends (forwardIrq callbacks callingNode targetNode other) gic final) :
    Forwarded other targetNode gic final := by
  have isNode := forwardIrq_isNode run
  rcases forwardIrq_chooses run with ⟨index, isIndex, isEmpty, injected⟩ | ⟨_, sameDist, sameSlot, queues⟩
  · exact (injectIrq_injected isNode isIndex isEmpty injected).forwarded
  have queued : ∀ irq node, irq ∈ final.overflow node ↔
      irq ∈ gic.overflow node ∨ irq = other ∧ node = targetNode := by
    intro irq node
    rw [queues]
    split
    · next isNew => simp [isNew.1]
    · next present =>
        refine (or_iff_left_of_imp ?_).symm
        rintro ⟨rfl, rfl⟩
        exact Classical.not_not.mp fun absent => present ⟨rfl, absent⟩
  refine ⟨fun _ => by rw [sameDist], fun irq node waits => ?_, fun irq node waits => ?_,
    fun _ _ _ => by rw [sameDist], fun _ _ _ _ => ?_⟩
  · unfold Waits at waits ⊢
    rw [sameSlot, queued]
    exact waits.imp_right .inl
  · unfold Waits at waits ⊢
    rw [sameSlot, queued] at waits
    exact or_assoc.mpr waits
  · exact .inr ((queued other targetNode).mpr (.inr ⟨rfl, rfl⟩))

theorem Forwarded.served_iff (forwarded : Forwarded other targetNode gic final)
    (isTarget : other = irq → 32 ≤ irq → gic.dist.targetBit irq targetNode = true) :
    gic.ServedBut ((other, targetNode) :: coming) irq ↔ final.ServedBut coming irq := by
  have inHead : ∀ cpu, (∃ node, (irq, node) ∈ (other, targetNode) :: coming ∧
      Family.Sees (irq / 32) node cpu) ↔ Family.SameBit other targetNode irq cpu ∨
        ∃ node, (irq, node) ∈ coming ∧ Family.Sees (irq / 32) node cpu := by
    intro cpu
    constructor
    · rintro ⟨node, member, sees⟩
      rcases List.mem_cons.mp member with isHead | later
      · obtain ⟨rfl, rfl⟩ := Prod.mk.inj isHead
        exact .inl ⟨rfl, sees⟩
      · exact .inr ⟨node, later, sees⟩
    · rintro (⟨rfl, sees⟩ | ⟨node, later, sees⟩)
      · exact ⟨targetNode, List.mem_cons_self, sees⟩
      · exact ⟨node, List.mem_cons_of_mem _ later, sees⟩
  unfold ServedBut
  refine forall_congr' fun cpu => ?_
  rw [inHead]
  by_cases isSame : Family.SameBit other targetNode irq cpu
  · refine iff_of_true (fun _ => .inr (.inl isSame)) fun delivered => .inl ?_
    obtain ⟨rfl, sees⟩ := isSame
    have waits := forwarded.here cpu sees (isTarget rfl) delivered
    refine ⟨targetNode, sees, ?_, waits⟩
    by_cases isBanked : irq < 32
    · obtain rfl := sees (Nat.div_eq_of_lt isBanked)
      exact (deliverable_iff.mp delivered).2.2.1
    · rw [forwarded.target]
      exact isTarget rfl (Nat.le_of_not_lt isBanked)
  · have attends : gic.dist.Attends (gic.Waits irq) irq cpu ↔
        final.dist.Attends (final.Waits irq) irq cpu := by
      unfold Attends
      rw [forwarded.target]
      refine exists_congr fun node => and_congr_right fun sees => and_congr_right fun _ => ?_
      refine ⟨forwarded.keeps irq node, fun waits => (forwarded.new irq node waits).resolve_right ?_⟩
      rintro ⟨rfl, rfl⟩
      exact isSame ⟨rfl, sees⟩
    rw [forwarded.elsewhere irq cpu isSame, attends, or_iff_right isSame]

/-- Forwarding all that an action hands over leaves nobody waiting that was among it. -/
theorem forwards_served_iff (isTarget : ∀ node, (irq, node) ∈ coming → 32 ≤ irq →
      gic.dist.targetBit irq node = true)
    (run : forEach coming (fun pair => forwardIrq callbacks callingNode pair.2 pair.1) gic =
      .ok () final) : gic.ServedBut coming irq ↔ final.Served irq := by
  induction coming generalizing gic with
  | nil =>
      obtain ⟨_, rfl⟩ := pure_eq_ok.mp run
      exact servedBut_nil_iff
  | cons pair rest ih =>
      obtain ⟨other, targetNode⟩ := pair
      rw [forEach_cons] at run
      obtain ⟨_, middle, first, run⟩ := bind_eq_ok.mp run
      have forwarded : Forwarded other targetNode gic middle := forwardIrq_forwarded (.inl ⟨_, first⟩)
      rw [forwarded.served_iff fun same isShared =>
        isTarget targetNode (by rw [← same]; exact List.mem_cons_self) isShared]
      refine ih (fun node member isShared => ?_) run
      rw [forwarded.target]
      exact isTarget node (List.mem_cons_of_mem _ member) isShared

end Forwarding

/-! ## The calls -/

section Calls
variable {gic final : GIC numNodes C} {callbacks : GICCallbacks ε C}
  {callingNode node index irq : Nat}

/-- The interrupt goes to a node that is none of its targets, while it can be sent to others. -/
def Misdirects (gic : GIC numNodes C) (irq node : Nat) : Prop :=
  32 ≤ irq ∧ gic.dist.targetBit irq node = false ∧ ∃ cpu < numNodes, gic.dist.Sendable irq cpu ∧
    ¬ gic.dist.Attends (gic.Waits irq) irq cpu

/-- An attempt at a node that is a target, or for another interrupt. -/
theorem Injected.servedBut_iff {other : Nat} (injected : Injected other node gic final)
    (isTarget : other = irq → 32 ≤ irq → gic.dist.targetBit irq node = true) :
    gic.ServedBut [(other, node)] irq ↔ final.Served irq := by
  rw [injected.forwarded.served_iff isTarget, servedBut_nil_iff]

theorem Injected.misdirects_iff (injected : Injected irq node gic final) (isShared : 32 ≤ irq)
    (notTarget : gic.dist.targetBit irq node = false) :
    final.Served irq ↔ ¬ gic.Misdirects irq node := by
  have sees : ∀ other cpu, Family.Sees (irq / 32) other cpu := fun _ _ isFirst => by omega
  have notSendable : ¬ gic.dist.Sendable irq node := by
    rintro ⟨_, _, isTarget, _⟩
    rw [notTarget] at isTarget
    simp at isTarget
  have sameWaits : final.Waits irq = gic.Waits irq := by
    funext other
    exact propext ((injected.waits irq other).trans (or_iff_left fun isNew => notSendable isNew.2.2))
  unfold Served
  simp only [injected.here _ (sees node _), notSendable, not_false_eq_true, and_true, sameWaits,
    Attends.congr (funext fun cpu => congrFun (injected.target irq) cpu)]
  constructor
  · rintro served ⟨_, _, cpu, _, sendable, missed⟩
    exact missed (served cpu sendable)
  · intro directed cpu sendable
    by_contra missed
    exact directed ⟨isShared, notTarget, cpu, targetBit_isNode sendable.2.2.1, sendable, missed⟩

theorem forwardIrq_served_iff (served : gic.Served irq) {other targetNode : Nat}
    (run : Ends (forwardIrq callbacks callingNode targetNode other) gic final) :
    final.Served irq ↔ ¬ (other = irq ∧ (∃ index < numLrs, gic.slot targetNode index = none) ∧
      gic.Misdirects irq targetNode) := by
  by_cases astray : other = irq ∧ 32 ≤ irq ∧ gic.dist.targetBit irq targetNode = false
  · obtain ⟨rfl, isShared, notTarget⟩ := astray
    rcases forwardIrq_chooses run with ⟨index, isIndex, isEmpty, injected⟩ | ⟨isFull, sameDist, _⟩
    · rw [(injectIrq_injected (forwardIrq_isNode run) isIndex isEmpty injected).misdirects_iff
        isShared notTarget]
      exact not_congr ⟨fun misdirects => ⟨rfl, ⟨index, isIndex, isEmpty⟩, misdirects⟩,
        fun all => all.2.2⟩
    · have forwarded := forwardIrq_forwarded run
      refine iff_of_true (fun cpu delivered => ?_) ?_
      · rw [sameDist] at delivered ⊢
        obtain ⟨node, sees, isTarget, waits⟩ := served cpu delivered
        exact ⟨node, sees, isTarget, forwarded.keeps _ _ waits⟩
      · rintro ⟨_, ⟨index, isIndex, isEmpty⟩, _⟩
        exact isFull index isIndex isEmpty
  · have isTarget : other = irq → 32 ≤ irq → gic.dist.targetBit irq targetNode = true := by
      intro same isShared
      by_contra notTarget
      exact astray ⟨same, isShared, by simpa using notTarget⟩
    have forwarded : gic.ServedBut [(other, targetNode)] irq ↔ final.ServedBut [] irq :=
      (forwardIrq_forwarded run).served_iff isTarget
    rw [servedBut_nil_iff] at forwarded
    refine iff_of_true (forwarded.mp fun cpu delivered => .inl (served cpu delivered)) ?_
    rintro ⟨same, _, isShared, notTarget, _⟩
    exact astray ⟨same, isShared, notTarget⟩

/-- The end of an interrupt that stays pending from another source, and waits nowhere else. -/
def LeavesPending (gic : GIC numNodes C) (irq node index : Nat) : Prop :=
  gic.slot node index = some irq ∧ gic.dist.Ready irq node ∧ gic.dist.OtherSource irq node ∧
    irq ∉ gic.overflow node ∧ ∀ place < numLrs, gic.slot node place = some irq → place = index

/-- The next interrupt is no longer routed to the node, while it can be sent to others. -/
def PopsAstray (gic : GIC numNodes C) (irq node index : Nat) : Prop :=
  (gic.overflow node).head? = some irq ∧ 32 ≤ irq ∧ gic.dist.targetBit irq node = false ∧
    ∃ cpu < numNodes, gic.dist.isGicEnabled = true ∧ enables.bit gic.dist irq cpu = true ∧
      gic.dist.targetBit irq cpu = true ∧
      (actives.bit gic.dist irq cpu = true → gic.slot node index = some irq) ∧
      ¬ gic.dist.Attends (gic.Waits irq) irq cpu

section Ended
variable {popped : GIC numNodes C} {held : Nat}

/-- What waited does so still, or was in the slot that is emptied, or is taken from the queue. -/
theorem waits_popped (slots : ∀ other place, popped.slot other place =
      if other = node ∧ place = index then none else gic.slot other place)
    (queues : ∀ other, popped.overflow other =
      if other = node then (gic.overflow other).tail else gic.overflow other)
    {other : Nat} (waits : gic.Waits irq other) : popped.Waits irq other ∨
      other = node ∧ (gic.slot node index = some irq ∨ (gic.overflow node).head? = some irq) := by
  unfold Waits
  rcases waits with ⟨place, isPlace, isHeld⟩ | isQueued
  · by_cases isEmptied : other = node ∧ place = index
    · obtain ⟨rfl, rfl⟩ := isEmptied
      exact .inr ⟨rfl, .inl isHeld⟩
    · exact .inl (.inl ⟨place, isPlace, by rwa [slots, if_neg isEmptied]⟩)
  · rw [queues]
    split
    · next same =>
        subst same
        cases isQueue : gic.overflow other with
        | nil => simp [isQueue] at isQueued
        | cons next later =>
            rw [isQueue] at isQueued
            rcases List.mem_cons.mp isQueued with rfl | isLater
            · exact .inr ⟨rfl, .inr rfl⟩
            · exact .inl (.inr isLater)
    · exact .inl (.inr isQueued)

theorem popped_waits (slots : ∀ other place, popped.slot other place =
      if other = node ∧ place = index then none else gic.slot other place)
    (queues : ∀ other, popped.overflow other =
      if other = node then (gic.overflow other).tail else gic.overflow other)
    {other : Nat} (waits : popped.Waits irq other) :
    (∃ place < numLrs, ¬ (other = node ∧ place = index) ∧ gic.slot other place = some irq) ∨
      irq ∈ gic.overflow other := by
  rcases waits with ⟨place, isPlace, isHeld⟩ | isQueued
  · rw [slots] at isHeld
    split at isHeld
    · simp at isHeld
    · next elsewhere => exact .inl ⟨place, isPlace, elsewhere, isHeld⟩
  · rw [queues] at isQueued
    split at isQueued
    · exact .inr (List.mem_of_mem_tail isQueued)
    · exact .inr isQueued

/-- With the slot emptied and the interrupt acknowledged, all are served but the next in the queue,
unless the one that has ended is left behind. -/
theorem popped_servedBut_iff (served : gic.Served irq) (isHeld : gic.slot node index = some held)
    (acked : ack held node gic.dist = .ok () popped.dist)
    (slots : ∀ other place, popped.slot other place =
      if other = node ∧ place = index then none else gic.slot other place)
    (queues : ∀ other, popped.overflow other =
      if other = node then (gic.overflow other).tail else gic.overflow other) :
    popped.ServedBut ((gic.overflow node).head?.toList.map fun next => (next, node)) irq ↔
      ¬ gic.LeavesPending irq node index := by
  have acknowledged := @ack_acknowledged _ irq _ _ _ _ acked
  have keeps := acknowledged.keeps
  simp only [Prod.mk.injEq] at keeps
  obtain ⟨sameOn, sameEnabled, sameTarget⟩ := keeps
  have sameReady : ∀ cpu, popped.dist.Ready irq cpu ↔ gic.dist.Ready irq cpu ∧
      (Family.SameBit held node irq cpu → gic.dist.OtherSource irq cpu) := by
    intro cpu
    unfold Ready
    rw [sameOn, sameEnabled, sameTarget, acknowledged.pending]
    simp only [and_assoc]
  have coming : ∀ other, (irq, other) ∈ (gic.overflow node).head?.toList.map (fun next => (next, node)) ↔
      other = node ∧ (gic.overflow node).head? = some irq := by
    intro other
    simp only [List.mem_map, Option.mem_toList, Prod.mk.injEq]
    constructor
    · rintro ⟨next, isNext, rfl, rfl⟩
      exact ⟨rfl, isNext⟩
    · rintro ⟨rfl, isNext⟩
      exact ⟨irq, isNext, rfl, rfl⟩
  constructor
  · rintro servedBut ⟨isIrq, ready, isSource, notQueued, onlyHere⟩
    obtain rfl := Option.some.inj (isHeld.symm.trans isIrq)
    have isFirst : held / 32 = 0 := Nat.div_eq_of_lt (Nat.lt_trans isSource.1 (by decide))
    have isReady := (sameReady node).mpr ⟨ready, fun _ => isSource⟩
    have notActive : actives.bit popped.dist held node = false := by
      rw [Bool.eq_false_iff, ne_eq, acknowledged.active]
      exact fun isActive => isActive.2 ⟨rfl, fun _ => rfl⟩
    rcases servedBut node (deliverable_iff_ready.mpr ⟨isReady, notActive⟩) with
      ⟨other, sees, _, waits⟩ | ⟨other, member, _⟩
    · obtain rfl := sees isFirst
      rcases popped_waits slots queues waits with ⟨place, isPlace, elsewhere, isThere⟩ | isQueued
      · exact elsewhere ⟨rfl, onlyHere place isPlace isThere⟩
      · exact notQueued isQueued
    · exact notQueued (List.mem_of_mem_head? ((coming other).mp member).2)
  · intro notLeft cpu delivered
    obtain ⟨isReady, notActive⟩ := deliverable_iff_ready.mp delivered
    obtain ⟨wasReady, isSource⟩ := (sameReady cpu).mp isReady
    have stillWaits : ∀ other, Family.Sees (irq / 32) other cpu → gic.dist.targetBit irq other = true →
        gic.Waits irq other → ¬ (other = node ∧ gic.slot node index = some irq) →
        popped.dist.Attends (popped.Waits irq) irq cpu ∨
          ∃ node', (irq, node') ∈ (gic.overflow node).head?.toList.map (fun next => (next, node)) ∧
            Family.Sees (irq / 32) node' cpu := by
      intro other sees isTarget waits elsewhere
      rcases waits_popped slots queues waits with waits | ⟨rfl, isEmptied | isNext⟩
      · exact .inl ⟨other, sees, by rwa [sameTarget], waits⟩
      · exact absurd ⟨rfl, isEmptied⟩ elsewhere
      · exact .inr ⟨other, (coming other).mpr ⟨rfl, isNext⟩, sees⟩
    by_cases isSame : Family.SameBit held node irq cpu
    · have source := isSource isSame
      obtain ⟨rfl, sees⟩ := isSame
      obtain rfl := sees (Nat.div_eq_of_lt (Nat.lt_trans source.1 (by decide)))
      by_contra missed
      refine notLeft ⟨isHeld, wasReady, source, fun isQueued => ?_, fun place isPlace isThere => ?_⟩
      · cases isQueue : gic.overflow cpu with
        | nil => simp [isQueue] at isQueued
        | cons next later =>
            rw [isQueue] at isQueued
            rcases List.mem_cons.mp isQueued with rfl | isLater
            · exact missed (.inr ⟨cpu, (coming cpu).mpr ⟨rfl, by rw [isQueue]; rfl⟩, sees⟩)
            · refine missed (.inl ⟨cpu, sees, by rw [sameTarget]; exact wasReady.2.2.1, .inr ?_⟩)
              rw [queues, if_pos rfl, isQueue]
              exact isLater
      · by_contra elsewhere
        refine missed (.inl ⟨cpu, sees, by rw [sameTarget]; exact wasReady.2.2.1, .inl ⟨place, isPlace, ?_⟩⟩)
        rwa [slots, if_neg fun both => elsewhere both.2]
    · have wasInactive : actives.bit gic.dist irq cpu = false := by
        rw [Bool.eq_false_iff, ne_eq, acknowledged.active] at notActive
        exact Bool.eq_false_iff.mpr fun isActive => notActive ⟨isActive, isSame⟩
      obtain ⟨other, sees, isTarget, waits⟩ :=
        served cpu (deliverable_iff_ready.mpr ⟨wasReady, wasInactive⟩)
      refine stillWaits other sees isTarget waits ?_
      rintro ⟨rfl, isEmptied⟩
      obtain rfl := Option.some.inj (isHeld.symm.trans isEmptied)
      exact isSame ⟨rfl, sees⟩

theorem popped_misdirects_iff (isHeld : gic.slot node index = some held)
    (acked : ack held node gic.dist = .ok () popped.dist)
    (slots : ∀ other place, popped.slot other place =
      if other = node ∧ place = index then none else gic.slot other place)
    (queues : ∀ other, popped.overflow other =
      if other = node then (gic.overflow other).tail else gic.overflow other)
    (isNext : (gic.overflow node).head? = some irq) :
    popped.Misdirects irq node ↔ gic.PopsAstray irq node index := by
  have acknowledged := @ack_acknowledged _ irq _ _ _ _ acked
  have keeps := acknowledged.keeps
  simp only [Prod.mk.injEq] at keeps
  obtain ⟨sameOn, sameEnabled, sameTarget⟩ := keeps
  unfold Misdirects PopsAstray
  rw [sameTarget, and_iff_right isNext]
  refine and_congr_right fun isShared => and_congr_right fun notTarget => exists_congr fun cpu =>
    and_congr_right fun _ => ?_
  have notActive : actives.bit popped.dist irq cpu = false ↔
      (actives.bit gic.dist irq cpu = true → gic.slot node index = some irq) := by
    rw [Bool.eq_false_iff, ne_eq, acknowledged.active, not_and, not_not, isHeld, Option.some.injEq]
    refine imp_congr_right fun _ => ⟨fun same => same.1.symm, fun same => ⟨same.symm, ?_⟩⟩
    intro isFirst
    rw [same] at isFirst
    omega
  have attends : popped.dist.Attends (popped.Waits irq) irq cpu ↔
      gic.dist.Attends (gic.Waits irq) irq cpu := by
    unfold Attends
    rw [sameTarget]
    refine exists_congr fun other => and_congr_right fun _ => and_congr_right fun isTarget => ?_
    have elsewhere : other ≠ node := by
      rintro rfl
      rw [notTarget] at isTarget
      simp at isTarget
    constructor
    · intro waits
      rcases popped_waits slots queues waits with ⟨place, isPlace, _, isThere⟩ | isQueued
      · exact .inl ⟨place, isPlace, isThere⟩
      · exact .inr isQueued
    · intro waits
      exact (waits_popped slots queues waits).resolve_right fun here => elsewhere here.1
  unfold Sendable
  rw [sameOn, sameEnabled, sameTarget, notActive, attends]
  simp only [and_assoc]

end Ended

theorem handleMaintenance_served_iff (served : gic.Served irq)
    (run : handleMaintenance callbacks node index gic = .ok () final) :
    final.Served irq ↔ ¬ (gic.LeavesPending irq node index ∨ gic.PopsAstray irq node index) := by
  obtain ⟨held, popped, isHeld, acked, slots, queues, rest⟩ := handleMaintenance_eq_ok run
  have isNode := (ack_eq_ok acked).1
  have isIndex := slot_isIndex isHeld
  have servedBut := popped_servedBut_iff served isHeld acked slots queues
  have isEmpty : popped.slot node index = none := by
    rw [slots, if_pos ⟨rfl, rfl⟩]
  have sameTarget : popped.dist.targetBit irq = gic.dist.targetBit irq :=
    (Prod.mk.inj (Prod.mk.inj (@ack_acknowledged _ irq _ _ _ _ acked).keeps).2).2
  split at rest
  · next next isNext =>
      have injected := injectIrq_injected isNode isIndex isEmpty (.inl ⟨_, rest⟩)
      by_cases astray : next = irq ∧ 32 ≤ irq ∧ gic.dist.targetBit irq node = false
      · obtain ⟨rfl, isShared, notTarget⟩ := astray
        rw [injected.misdirects_iff isShared (by rw [sameTarget]; exact notTarget),
          popped_misdirects_iff isHeld acked slots queues isNext]
        refine not_congr (or_iff_right ?_).symm
        rintro ⟨_, _, isSource, _⟩
        have isSgi := isSource.1
        omega
      · have isTarget : next = irq → 32 ≤ irq → popped.dist.targetBit irq node = true := by
          intro same isShared
          by_contra notTarget
          rw [sameTarget] at notTarget
          exact astray ⟨same, isShared, by simpa using notTarget⟩
        rw [isNext] at servedBut
        rw [← injected.servedBut_iff isTarget]
        refine servedBut.trans (not_congr (or_iff_left ?_).symm)
        rintro ⟨isIrq, isShared, notTarget, _⟩
        exact astray ⟨Option.some.inj (isNext.symm.trans isIrq), isShared, notTarget⟩
  · next isNone =>
      subst rest
      rw [isNone] at servedBut
      rw [← servedBut_nil_iff]
      refine servedBut.trans (not_congr (or_iff_left ?_).symm)
      rintro ⟨isIrq, _⟩
      rw [isNone] at isIrq
      simp at isIrq

theorem handleIrq_served_iff {qualified : QualifiedIrq} (served : gic.Served irq)
    (run : handleIrq callbacks callingNode qualified gic = .ok () final) :
    final.Served irq ↔ ∀ targetNode, qualified = .qualifiedPpi targetNode irq →
      (∃ index < numLrs, gic.slot targetNode index = none) → ¬ gic.Misdirects irq targetNode := by
  cases qualified with
  | qualifiedPpi targetNode other =>
      rw [forwardIrq_served_iff served (.inl ⟨_, run⟩)]
      simp only [QualifiedIrq.qualifiedPpi.injEq]
      constructor
      · rintro directed _ ⟨rfl, same⟩ isFree misdirects
        exact directed ⟨same, isFree, misdirects⟩
      · rintro directed ⟨same, isFree, misdirects⟩
        exact directed targetNode ⟨rfl, same⟩ isFree misdirects
  | spi other =>
      refine iff_of_true ?_ fun _ isPpi => by simp at isPpi
      rcases handleIrq_ends (.inl ⟨_, run⟩) with rfl | ⟨targetNode, _, forwarded, isPpi | isTarget⟩
      · exact served
      · simp at isPpi
      · refine (forwardIrq_served_iff served forwarded).mpr ?_
        rintro ⟨rfl, _, _, notTarget, _⟩
        rw [isTarget] at notTarget
        simp at notTarget

theorem ackIrq_eq_ok {pair : Irq × Cpu} (run : ackIrq callbacks callingNode pair gic = .ok () final) :
    final.slot = gic.slot ∧ final.overflow = gic.overflow ∧
      ack pair.1 pair.2 gic.dist = .ok () final.dist := by
  obtain ⟨_, acked, isAcked, rest⟩ := bind_eq_ok.mp run
  obtain ⟨dist, isAck, rfl⟩ := onDist_eq_ok.mp isAcked
  split at rest
  · obtain ⟨sameDist, sameSlot, sameOverflow⟩ := onCallbacks_ends (.inl ⟨_, rest⟩)
    exact ⟨sameSlot, sameOverflow, by rw [sameDist]; exact isAck⟩
  · obtain ⟨_, rfl⟩ := pure_eq_ok.mp rest
    exact ⟨rfl, rfl, isAck⟩

theorem acks_acknowledged {pairs : List (Irq × Cpu)}
    (run : forEach pairs (ackIrq callbacks callingNode) gic = .ok () final) :
    final.slot = gic.slot ∧ final.overflow = gic.overflow ∧
      Acknowledged irq (fun cpu => ∃ node, (irq, node) ∈ pairs ∧ Family.Sees (irq / 32) node cpu)
        gic.dist final.dist := by
  induction pairs generalizing gic with
  | nil =>
      obtain ⟨_, rfl⟩ := pure_eq_ok.mp run
      exact ⟨rfl, rfl, .none (by simp)⟩
  | cons pair rest ih =>
      rw [forEach_cons] at run
      obtain ⟨_, middle, first, run⟩ := bind_eq_ok.mp run
      obtain ⟨sameSlot, sameOverflow, isAck⟩ := ackIrq_eq_ok first
      obtain ⟨laterSlot, laterOverflow, later⟩ := ih run
      refine ⟨laterSlot.trans sameSlot, laterOverflow.trans sameOverflow,
        ((ack_acknowledged isAck).trans later).congr fun cpu => ?_⟩
      constructor
      · rintro (⟨rfl, sees⟩ | ⟨node, member, sees⟩)
        · exact ⟨pair.2, List.mem_cons_self, sees⟩
        · exact ⟨node, List.mem_cons_of_mem _ member, sees⟩
      · rintro ⟨node, member, sees⟩
        rcases List.mem_cons.mp member with isFirst | isLater
        · rw [← isFirst]
          exact .inl ⟨rfl, sees⟩
        · exact .inr ⟨node, isLater, sees⟩

theorem handleWrite_served_iff {offset : Nat} {val : Register32} (isIrq : irq < 1020)
    (atMost : numNodes ≤ 8) (served : gic.Served irq)
    (run : handleWrite callbacks callingNode offset (.word val) gic = .ok () final) :
    final.Served irq ↔ ¬ ∃ reg, DistRegWord.fromOffset offset = some reg ∧
      gic.dist.Strands (gic.Waits irq) irq callingNode val reg := by
  rw [handleWrite_eq] at run
  obtain ⟨action, _, written, run⟩ := bind_eq_ok.mp run
  obtain ⟨dist, isWritten, rfl⟩ := onDist_eq_ok.mp written
  obtain ⟨reg, _, decoded, isWritten⟩ := bind_eq_ok.mp isWritten
  obtain ⟨isReg, rfl⟩ := unwrap_eq_ok.mp decoded
  obtain ⟨_, acked, isAcked, forwarded⟩ := bind_eq_ok.mp run
  obtain ⟨sameSlot, sameOverflow, acknowledged⟩ := @acks_acknowledged _ _ _ _ _ _ _ irq _ isAcked
  have sameTarget : acked.dist.targetBit irq = dist.targetBit irq :=
    (Prod.mk.inj (Prod.mk.inj acknowledged.keeps).2).2
  have sameWaits : acked.Waits irq = gic.Waits irq := by
    have slots : acked.slot = gic.slot := sameSlot
    have queues : acked.overflow = gic.overflow := sameOverflow
    funext node
    simp only [Waits, slots, queues]
  have handles : acked.ServedBut action.toInject irq ↔ dist.Handles (gic.Waits irq) action irq := by
    refine forall_congr' fun cpu => ?_
    rw [Acknowledged.deliverable acknowledged, sameWaits, Attends.congr sameTarget]
    rfl
  rw [← forwards_served_iff (fun node member _ => ?_) forwarded, handles,
    writeWord_handles_iff isIrq atMost served isWritten]
  · simp [isReg]
  · rw [sameTarget]
    exact writeWord_aims isIrq isWritten node member

/-- The calls that leave an interrupt behind. -/
def Strands (gic : GIC numNodes C) (irq : Nat) : Call → Prop
  | .handleIrq _ (.qualifiedPpi node other) => other = irq ∧
      (∃ index < numLrs, gic.slot node index = none) ∧ gic.Misdirects irq node
  | .handleMaintenance node index => gic.LeavesPending irq node index ∨ gic.PopsAstray irq node index
  | .handleWrite callingNode offset (.word val) => ∃ reg, DistRegWord.fromOffset offset = some reg ∧
      gic.dist.Strands (gic.Waits irq) irq callingNode val reg
  | _ => False

def Call.WordSized : Call → Prop
  | .handleWrite _ _ data => ∃ val, data = .word val
  | _ => True

/-- A call that returns `Ok`, with word-sized writes only. -/
def ReturnsWord (callbacks : GICCallbacks ε C) (call : Call) (before after : GIC numNodes C) : Prop :=
  Returns callbacks call before after ∧ call.WordSized

theorem ReturnsWord.served_iff {call : Call} {before after : GIC numNodes C} (isIrq : irq < 1020)
    (atMost : numNodes ≤ 8) (served : before.Served irq)
    (step : ReturnsWord callbacks call before after) :
    after.Served irq ↔ ¬ before.Strands irq call := by
  obtain ⟨run, wordSized⟩ := step
  cases call with
  | handleIrq callingNode qualified =>
      rw [handleIrq_served_iff served run]
      cases qualified with
      | qualifiedPpi targetNode other =>
          simp only [QualifiedIrq.qualifiedPpi.injEq]
          constructor
          · rintro directed ⟨same, isFree, misdirects⟩
            exact directed targetNode ⟨rfl, same⟩ isFree misdirects
          · rintro directed _ ⟨rfl, same⟩ isFree misdirects
            exact directed ⟨same, isFree, misdirects⟩
      | spi other => exact iff_of_true (fun _ isPpi => by simp at isPpi) id
  | handleMaintenance node index => exact handleMaintenance_served_iff served run
  | handleWrite callingNode offset data =>
      obtain ⟨val, rfl⟩ := wordSized
      exact handleWrite_served_iff isIrq atMost served run

theorem new_served {state : C} : (new numNodes state).Served irq := by
  intro cpu isDeliverable
  have isOn := (deliverable_iff.mp isDeliverable).1
  simp [new, Distributor.new, reset, isGicEnabled] at isOn

/-- `Served`, as the code sees it. -/
theorem servedAll_iff {gic : GIC numNodes C} :
    (∀ irq < 1020, ∀ cpu, gic.dist.shouldInject irq cpu = some true →
      ∃ node, (irq < 32 → node = cpu) ∧ gic.dist.isTarget irq node = some true ∧
        ((∃ index, gic.slot node index = some irq) ∨ irq ∈ gic.overflow node)) ↔
      ∀ irq < 1020, gic.Served irq := by
  refine forall_congr' fun irq => forall_congr' fun isIrq => forall_congr' fun cpu => ?_
  rw [shouldInject_eq_some isIrq, Option.some_inj]
  refine imp_congr_right fun _ => exists_congr fun node => and_congr ?_ (and_congr ?_ (or_congr_left ?_))
  · constructor
    · intro same isFirst
      exact (same ((Nat.div_eq_zero_iff_lt (by decide)).mp isFirst)).symm
    · intro sees isBanked
      exact (sees (Nat.div_eq_of_lt isBanked)).symm
  · rw [isTarget_eq_some isIrq, Option.some_inj]
  · exact exists_congr fun index => (and_iff_right_of_imp slot_isIndex).symm

/-- In every state of a run each interrupt that should be injected is in a slot or in the queue of one
of its targets, exactly if no call of the run leaves one behind. -/
theorem run_delivers {state : C} {taken : List (GIC numNodes C × Call)} (atMost : numNodes ≤ 8)
    (run : Recorded (ReturnsWord callbacks) (new numNodes state) taken final) :
    Recorded.Throughout (ReturnsWord callbacks) (new numNodes state) taken
        (fun gic => ∀ irq < 1020, ∀ cpu, gic.dist.shouldInject irq cpu = some true →
          ∃ node, (irq < 32 → node = cpu) ∧ gic.dist.isTarget irq node = some true ∧
            ((∃ index, gic.slot node index = some irq) ∨ irq ∈ gic.overflow node)) ↔
      ∀ entry ∈ taken, ∀ irq < 1020, ¬ entry.1.Strands irq entry.2 := by
  simp only [servedAll_iff]
  have starts : ∀ irq < 1020, (new numNodes state).Served irq := fun _ _ => new_served
  refine @Recorded.holds_iff _ _ _ _ _ _ (fun gic => ∀ irq < 1020, gic.Served irq)
    (fun gic call => ∀ irq < 1020, ¬ gic.Strands irq call) starts
    (fun call before after served step => ?_) run
  exact forall_congr' fun irq => forall_congr' fun isIrq =>
    step.served_iff isIrq atMost (served irq isIrq)

end Calls

/-! ## One run of each kind -/

theorem silent_word_run (numNodes : Nat) (calls : List Call)
    (check : List (GIC numNodes Unit × Call) × GIC numNodes Unit → Bool)
    (evaluates : (Recorded.record serve calls (new numNodes ())).any check = true)
    (wordSized : ∀ call ∈ calls, call.WordSized) :
    ∃ taken final, Recorded (ReturnsWord silent) (new numNodes ()) taken final ∧
      taken.map Prod.snd = calls ∧ check (taken, final) = true := by
  obtain ⟨taken, final, run, isCalls, checked⟩ := silent_run numNodes calls check evaluates
  rw [← isCalls] at wordSized
  exact ⟨taken, final, run.restrict wordSized, isCalls, checked⟩

theorem not_otherSource_of_new {dist : Distributor numNodes} {irq cpu : Nat}
    (isNew : dist.sgiPending = (Distributor.new numNodes).sgiPending) : ¬ dist.OtherSource irq cpu := by
  have noSource : ∀ regNum, dist.sgiWord regNum cpu = 0 := by
    intro regNum
    unfold sgiWord
    rw [isNew]
    by_cases isCpu : cpu < numNodes
    · by_cases isReg : regNum < 4
      · simp [Distributor.new, reset, isCpu, isReg]
      · simp [Distributor.new, reset, isCpu, isReg]
    · simp [isCpu]
  rintro ⟨_, _, _, _, isSet⟩
  simp [noSource] at isSet

/-- Five interrupts become pending at once; there are slots for four of them. -/
def fivePending : List Call :=
  [.handleWrite 0 0x000 (.word 1), .handleWrite 0 0x104 (.word 0x1F), .handleWrite 0 0x204 (.word 0x1F)]

/-- No SGI is pending, so the three writes strand nothing. -/
theorem fivePending_strands {gic : GIC numNodes C} {irq : Nat}
    (noSource : ∀ irq cpu, ¬ gic.dist.OtherSource irq cpu) {call : Call} (member : call ∈ fivePending) :
    ¬ gic.Strands irq call := by
  simp only [fivePending, List.mem_cons, List.not_mem_nil, or_false] at member
  rcases member with rfl | rfl | rfl
  · rintro ⟨reg, isReg, strands⟩
    obtain rfl := Option.some.inj
      ((show DistRegWord.fromOffset 0x000 = some .ctlr by decide).symm.trans isReg)
    obtain ⟨_, _, cpu, _, _, ⟨_, _, _, isSource⟩, _⟩ := strands
    exact noSource irq cpu isSource
  · rintro ⟨reg, isReg, strands⟩
    obtain rfl := Option.some.inj
      ((show DistRegWord.fromOffset 0x104 = some (.isenabler 1) by decide).symm.trans isReg)
    obtain ⟨_, _, _, cpu, _, _, ⟨_, _, _, isSource⟩, _⟩ := strands
    exact noSource irq cpu isSource
  · rintro ⟨reg, isReg, strands⟩
    obtain rfl := Option.some.inj
      ((show DistRegWord.fromOffset 0x204 = some (.ispendr 1) by decide).symm.trans isReg)
    exact strands

theorem run_delivers_fivePending : ∃ taken final,
    Recorded (ReturnsWord silent) (new 1 ()) taken final ∧ taken.map Prod.snd = fivePending ∧
      final.dist.shouldInject 36 0 = some true ∧
      ∃ node, (36 < 32 → node = 0) ∧ final.dist.isTarget 36 node = some true ∧
        ((∃ index, final.slot node index = some 36) ∨ 36 ∈ final.overflow node) := by
  obtain ⟨taken, final, run, isCalls, checked⟩ := silent_word_run 1 fivePending
    (fun run => (run.1.all fun entry =>
        decide (entry.1.dist.sgiPending = (Distributor.new 1).sgiPending)) &&
      decide (run.2.dist.shouldInject 36 0 = some true))
    (by decide +kernel) (by simp [fivePending, Call.WordSized])
  obtain ⟨noSgi, isDeliverable⟩ := Bool.and_eq_true_iff.mp checked
  have strands : ∀ entry ∈ taken, ∀ irq < 1020, ¬ entry.1.Strands irq entry.2 := by
    intro entry member irq _
    refine fivePending_strands (fun irq cpu => ?_) ?_
    · exact not_otherSource_of_new (of_decide_eq_true (List.all_eq_true.mp noSgi entry member))
    · rw [← isCalls]
      exact List.mem_map_of_mem member
  have delivers := (run_delivers (by decide) run).mpr strands taken final (List.prefix_refl _) run
  exact ⟨taken, final, run, isCalls, of_decide_eq_true isDeliverable,
    delivers 36 (by decide) 0 (of_decide_eq_true isDeliverable)⟩

/-- SGI 0 is made pending on cpu 0 by cpu 1.  Its end leaves it pending, and it waits nowhere. -/
theorem pended_by_other_left_behind : ∃ taken final,
    Recorded (ReturnsWord silent) (new 2 ()) taken final ∧
      taken.map Prod.snd = [.handleWrite 0 0x000 (.word 1), .handleWrite 0 0xF20 (.word 2),
        .handleMaintenance 0 0] ∧
      final.dist.shouldInject 0 0 = some true ∧
      ∀ node, (∀ index, final.slot node index ≠ some 0) ∧ 0 ∉ final.overflow node := by
  obtain ⟨taken, final, run, isCalls, checked⟩ := silent_word_run 2
    [.handleWrite 0 0x000 (.word 1), .handleWrite 0 0xF20 (.word 2), .handleMaintenance 0 0]
    (fun run => decide (run.2.dist.shouldInject 0 0 = some true ∧ run.2.lrs = (new 2 ()).lrs))
    (by decide +kernel) (by simp [Call.WordSized])
  obtain ⟨isDeliverable, isNew⟩ := of_decide_eq_true checked
  refine ⟨taken, final, run, isCalls, isDeliverable, fun node => ⟨fun index => ?_, ?_⟩⟩
  · simp [slot_of_new isNew]
  · simp [overflow_of_new isNew]

end GIC

end IceCap.Gic
