import IceCap.Gic.Slots

/-!
# What the GIC asks of its embedder

The callbacks are made with sound arguments: an injection is into a list
register there is, of an interrupt and with a priority that fit the kernel's
types, and what is acknowledged as a private interrupt is one.  So what the
callbacks keep under such arguments, every call of the GIC keeps.
-/

set_option autoImplicit false

namespace IceCap.Gic

open IceCap.Library Exec

/-- What is acknowledged as a private interrupt is one. -/
def QualifiedIrq.Proper : QualifiedIrq → Prop
  | .qualifiedPpi _ irq => 16 ≤ irq ∧ irq < 32
  | .spi irq => irq < 16 ∨ 32 ≤ irq

/-- What the callbacks keep of their state. -/
structure GICCallbacks.Keep {ε C : Type} (callbacks : GICCallbacks ε C) (numNodes : Nat)
    (invariant : C → Prop) : Prop where
  ack : ∀ callingNode irq, irq.Proper → Maintains invariant (callbacks.ack callingNode irq)
  inject : ∀ callingNode targetNode index irq priority, targetNode < numNodes → index < numLrs →
    irq < 1020 → priority < 32 →
    Maintains invariant (callbacks.vcpuInjectIrq callingNode targetNode index irq priority)

namespace GIC

variable {numNodes : Nat} {ε C α : Type} {callbacks : GICCallbacks ε C} {invariant : C → Prop}
  {callingNode targetNode index irq : Nat}

/-- The invariant of the callbacks, of the whole GIC. -/
def Embeds (invariant : C → Prop) (gic : GIC numNodes C) : Prop := invariant gic.callbacks

theorem onDist_embeds {call : Exec IrqError (Distributor numNodes) α} :
    Maintains (Embeds invariant) (onDist call : Exec (Failure ε) (GIC numNodes C) α) := by
  intro gic final run holds
  obtain ⟨dist, _, rfl⟩ := ends_focus.mp run
  exact holds

theorem updateLr_embeds {node : Nat} {change : Lr → Lr} :
    Maintains (Embeds invariant) (updateLr node change : Exec (Failure ε) (GIC numNodes C) Unit) := by
  intro gic final run holds
  obtain ⟨_, run⟩ := updateLr_infallible.ends run
  obtain ⟨_, _, rfl⟩ := updateLr_eq_ok run
  exact holds

theorem setMirror_embeds {held : Option Irq} :
    Maintains (Embeds invariant)
      (setMirror targetNode index held : Exec (Failure ε) (GIC numNodes C) Unit) :=
  (Maintains.of_spares (.assert _)).bind fun _ => updateLr_embeds

theorem onCallbacks_embeds {call : Exec ε C α} (maintains : Maintains invariant call) :
    Maintains (Embeds invariant) (onCallbacks call : Exec (Failure ε) (GIC numNodes C) α) := by
  intro gic final run holds
  obtain ⟨state, ends, rfl⟩ := ends_focus.mp run
  exact maintains _ _ (ends_mapErr.mp ends) holds

/-- A priority is a byte. -/
theorem priorityOf_lt {dist : Distributor numNodes} {priority : Register32}
    (found : dist.priorityOf irq targetNode = some priority) : priority.toNat >>> 3 < 32 := by
  simp only [Distributor.priorityOf, Option.map_eq_some_iff] at found
  obtain ⟨reg, _, rfl⟩ := found
  have isByte : ((reg &&& 0xFF#32 <<< (irq % 4 * 8)) >>> (irq % 4 * 8)).toNat < 256 := by
    have place : irq % 4 = 0 ∨ irq % 4 = 1 ∨ irq % 4 = 2 ∨ irq % 4 = 3 := by omega
    rw [BitVec.toNat_ushiftRight, BitVec.toNat_and, Nat.shiftRight_eq_div_pow]
    rcases place with isPlace | isPlace | isPlace | isPlace
    all_goals
      rw [isPlace]
      apply Nat.div_lt_of_lt_mul
      exact Nat.lt_of_le_of_lt Nat.and_le_right (by decide)
  rw [Nat.shiftRight_eq_div_pow]
  omega

theorem injectIrq_embeds (keep : callbacks.Keep numNodes invariant) :
    Maintains (Embeds invariant) (injectIrq callbacks callingNode targetNode index irq :
      Exec (Failure ε) (GIC numNodes C) Unit) := by
  have sound : ∀ (gic : GIC numNodes C) (priority : Register32) (middle : GIC numNodes C),
      Embeds invariant gic →
      (onDist (Distributor.getPriority irq targetNode) : Exec (Failure ε) _ _) gic =
        .ok priority middle →
      (irq < 1020 ∧ targetNode < numNodes) ∧ priority.toNat >>> 3 < 32 := by
    intro gic priority middle _ run
    obtain ⟨dist, isPriority, _⟩ := onDist_eq_ok.mp run
    refine ⟨?_, ?_⟩
    · obtain ⟨_, isIrq, isNode⟩ := getPriority_isIrq isPriority
      exact ⟨isIrq, isNode⟩
    · unfold Distributor.getPriority at isPriority
      split at isPriority
      · simp at isPriority
      · exact priorityOf_lt (reads_eq_ok.mp isPriority).1
  refine onDist_embeds.bindWhere sound fun priority facts => ?_
  obtain ⟨⟨isIrq, isNode⟩, isPriority⟩ := facts
  refine onDist_embeds.bind fun _ => onDist_embeds.bind fun inject => ?_
  refine .ite (onDist_embeds.bind fun _ => ?_) (.of_spares (.pure _))
  by_cases isIndex : index < numLrs
  · exact setMirror_embeds.bind fun _ =>
      onCallbacks_embeds (keep.inject _ _ _ _ _ isNode isIndex isIrq isPriority)
  · intro gic final run holds
    obtain ⟨_, middle, placed, _⟩ := ((Infallible.assert _).bind fun _ =>
      updateLr_infallible).ends_bind run
    obtain ⟨_, _, asserted, _⟩ := bind_eq_ok.mp placed
    exact absurd (assert_eq_ok.mp asserted).1 isIndex

theorem forwardIrq_embeds (keep : callbacks.Keep numNodes invariant) :
    Maintains (Embeds invariant) (forwardIrq callbacks callingNode targetNode irq :
      Exec (Failure ε) (GIC numNodes C) Unit) := by
  refine (Maintains.of_spares (.reads _)).bind fun lr => ?_
  cases lr.emptySlot with
  | some index => exact injectIrq_embeds keep
  | none => exact .ite (.of_spares (.pure _)) updateLr_embeds

theorem handleIrq_embeds (keep : callbacks.Keep numNodes invariant) {qualified : QualifiedIrq} :
    Maintains (Embeds invariant) (handleIrq callbacks callingNode qualified :
      Exec (Failure ε) (GIC numNodes C) Unit) := by
  cases qualified with
  | qualifiedPpi node irq => exact forwardIrq_embeds keep
  | spi irq =>
      refine onDist_embeds.bind fun isTarget => .ite (forwardIrq_embeds keep) ?_
      refine onDist_embeds.bind fun targets => ?_
      cases (biterate targets).head? with
      | some target => exact forwardIrq_embeds keep
      | none => exact .of_spares (.pure _)

theorem popOverflow_embeds {node : Nat} :
    Maintains (Embeds invariant) (popOverflow node : Exec (Failure ε) (GIC numNodes C) _) :=
  (Maintains.of_spares (.reads _)).bind fun _ => updateLr_embeds.bind fun _ => .of_spares (.pure _)

theorem handleMaintenance_embeds (keep : callbacks.Keep numNodes invariant) {node : Nat} :
    Maintains (Embeds invariant) (handleMaintenance callbacks node index :
      Exec (Failure ε) (GIC numNodes C) Unit) := by
  refine (Maintains.of_spares (.reads _)).bind fun held => ?_
  refine (Maintains.of_spares (.unwrap _)).bind fun irq => ?_
  refine setMirror_embeds.bind fun _ => onDist_embeds.bind fun _ => ?_
  refine (onCallbacks_embeds (keep.ack _ _ ?_)).bind fun _ => popOverflow_embeds.bind fun next => ?_
  · split
    · next isPpi => exact isPpi
    · next notPpi =>
        rcases Nat.lt_or_ge irq 16 with isSgi | notSgi
        · exact .inl isSgi
        · exact .inr (Nat.le_of_not_lt fun isPrivate => notPpi ⟨notSgi, isPrivate⟩)
  · cases next with
    | some irq => exact injectIrq_embeds keep
    | none => exact .of_spares (.pure _)

theorem ackIrq_embeds (keep : callbacks.Keep numNodes invariant) {pair : Irq × Cpu} :
    Maintains (Embeds invariant) (ackIrq callbacks callingNode pair :
      Exec (Failure ε) (GIC numNodes C) Unit) := by
  refine onDist_embeds.bind fun _ => ?_
  by_cases notSgi : pair.1 ≥ 16
  · rw [if_pos notSgi]
    refine onCallbacks_embeds (keep.ack _ _ ?_)
    split
    · next isPpi => exact ⟨notSgi, isPpi⟩
    · next isSpi => exact .inr (Nat.le_of_not_lt isSpi)
  · rw [if_neg notSgi]
    exact .of_spares (.pure _)

theorem handleWrite_embeds (keep : callbacks.Keep numNodes invariant) {offset : Nat}
    {data : FaultData} :
    Maintains (Embeds invariant) (handleWrite callbacks callingNode offset data :
      Exec (Failure ε) (GIC numNodes C) Unit) := by
  rw [handleWrite_eq]
  refine onDist_embeds.bind fun action => ?_
  refine (Maintains.forEach fun pair _ => ackIrq_embeds keep).bind fun _ => ?_
  exact .forEach fun pair _ => forwardIrq_embeds keep

end GIC

end IceCap.Gic
