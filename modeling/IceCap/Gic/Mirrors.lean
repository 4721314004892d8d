import Mathlib.Logic.Relation
import IceCap.Gic.Deactivation
import IceCap.Gic.Slots

/-!
# An interrupt is in one slot

An interrupt that is in a slot of a mirror is active, and an active interrupt is
not injected; so it stays in one slot, until something other than the end of the
interrupt clears its active bit.  A guest can do that, and the sweeps that follow
enabling and routing do it.
-/

set_option autoImplicit false

namespace IceCap.Gic.GIC

open IceCap.Library Exec Distributor

variable {numNodes : Nat} {ε C : Type}

structure Unique (irq : Irq) (gic : GIC numNodes C) : Prop where
  isIrq : ∀ node index, gic.slot node index = some irq → irq < 1020
  active : ∀ node index, gic.slot node index = some irq → actives.bit gic.dist irq node = true
  single : ∀ node index otherNode otherIndex, gic.slot node index = some irq →
    gic.slot otherNode otherIndex = some irq → (irq < 32 → node = otherNode) →
    node = otherNode ∧ index = otherIndex

section Parts
variable {gic final : GIC numNodes C} {irq : Nat}

/-- No new slot, and no active bit less for those that are left. -/
theorem Unique.mono (unique : Unique irq gic)
    (slots : ∀ node index, final.slot node index = some irq → gic.slot node index = some irq)
    (active : ∀ node index, final.slot node index = some irq →
      actives.bit gic.dist irq node = true → actives.bit final.dist irq node = true) :
    Unique irq final where
  isIrq node index held := unique.isIrq node index (slots node index held)
  active node index held := active node index held (unique.active node index (slots node index held))
  single node index otherNode otherIndex held otherHeld :=
    unique.single node index otherNode otherIndex (slots node index held)
      (slots otherNode otherIndex otherHeld)

theorem Unique.congr (unique : Unique irq gic) (sameDist : final.dist = gic.dist)
    (sameSlot : final.slot = gic.slot) : Unique irq final := by
  refine unique.mono (fun node index held => ?_) fun node index _ isActive => ?_
  · rwa [sameSlot] at held
  · rwa [sameDist]

theorem setPending_actives {other node : Nat} {dist after : Distributor numNodes}
    (run : setPending other node dist = .ok () after) : actives.bit after = actives.bit dist := by
  obtain ⟨_, _, ⟨_, _, rfl⟩, _⟩ := Family.updateBit_eq_ok run
  rfl

/-- An interrupt that is not active is in no slot that it could be confused with. -/
theorem Unique.inject {dist : Distributor numNodes} {targetNode index : Nat} (unique : Unique irq gic)
    (isIrq : irq < 1020) (isDeliverable : dist.deliverable irq targetNode = true)
    (activated : setActive irq targetNode dist = .ok () final.dist)
    (sameActives : actives.bit dist = actives.bit gic.dist)
    (slots : ∀ otherNode otherIndex, final.slot otherNode otherIndex =
      if otherNode = targetNode ∧ otherIndex = index then some irq
      else gic.slot otherNode otherIndex) : Unique irq final := by
  obtain ⟨_, enabled, _, _, notActive⟩ := deliverable_iff.mp isDeliverable
  have isTarget : targetNode < numNodes := Family.bit_isNode enabled
  have absent : ∀ node place, gic.slot node place = some irq → ¬ (irq < 32 → node = targetNode) := by
    intro node place held sees
    have isActive := unique.active node place held
    have sees : Family.Sees (irq / 32) targetNode node := fun isZero => sees (by omega)
    rw [Family.bit_sees sees isTarget (Family.bit_isNode isActive), ← sameActives, notActive] at isActive
    simp at isActive
  constructor
  · exact fun _ _ _ => isIrq
  · intro node place held
    rw [slots] at held
    split at held
    · next isNew =>
        rw [(Family.set_bit activated irq node).1 ⟨rfl, fun _ => isNew.1⟩]
        simpa [isNew.1] using isTarget
    · apply setActive_grows activated
      rw [sameActives]
      exact unique.active node place held
  · intro node place otherNode otherPlace held otherHeld sameNode
    rw [slots] at held otherHeld
    split at held
    · next isNew =>
        split at otherHeld
        · next otherNew => exact ⟨isNew.1.trans otherNew.1.symm, isNew.2.trans otherNew.2.symm⟩
        · refine absurd (fun isBanked => ?_) (absent otherNode otherPlace otherHeld)
          rw [← sameNode isBanked, isNew.1]
    · split at otherHeld
      · next otherNew =>
          refine absurd (fun isBanked => ?_) (absent node place held)
          rw [sameNode isBanked, otherNew.1]
      · exact unique.single node place otherNode otherPlace held otherHeld sameNode

end Parts

section Calls
variable {gic final : GIC numNodes C} {callbacks : GICCallbacks ε C}
  {callingNode targetNode index irq other : Nat}

theorem injectIrq_unique (unique : Unique irq gic)
    (run : Ends (injectIrq callbacks callingNode targetNode index other) gic final) :
    Unique irq final := by
  rcases injectIrq_ends run with ⟨rfl, _⟩ | ⟨isIrq, _, dist, pended, notInjected | injected⟩
  · exact unique
  · obtain ⟨_, sameDist, sameSlot⟩ := notInjected
    refine unique.mono (fun node index held => ?_) fun node index _ isActive => ?_
    · rwa [sameSlot] at held
    · rwa [sameDist, setPending_actives pended]
  · obtain ⟨isDeliverable, activated, slots⟩ := injected
    have sameActives := setPending_actives pended
    have grows : ∀ node, actives.bit gic.dist irq node = true →
        actives.bit final.dist irq node = true := by
      intro node isActive
      apply setActive_grows activated
      rwa [sameActives]
    by_cases same : other = irq
    · subst same
      exact unique.inject isIrq isDeliverable activated sameActives slots
    · refine unique.mono (fun node place held => ?_) fun node _ _ => grows node
      rw [slots] at held
      split at held
      · exact absurd (Option.some.inj held) same
      · exact held

theorem forwardIrq_unique (unique : Unique irq gic)
    (run : Ends (forwardIrq callbacks callingNode targetNode other) gic final) : Unique irq final := by
  rcases forwardIrq_ends run with ⟨index, injected⟩ | ⟨sameDist, sameSlot, _⟩
  · exact injectIrq_unique unique injected
  · exact unique.congr sameDist sameSlot

theorem handleIrq_unique {qualified : QualifiedIrq} (unique : Unique irq gic)
    (run : Ends (handleIrq callbacks callingNode qualified) gic final) : Unique irq final := by
  rcases handleIrq_ends run with rfl | ⟨_, _, forwarded, _⟩
  · exact unique
  · exact forwardIrq_unique unique forwarded

theorem ack_actives {dist after : Distributor numNodes} {node cpu : Nat}
    (run : ack other node dist = .ok () after) (differ : ¬ Family.SameBit other node irq cpu) :
    actives.bit after irq cpu = actives.bit dist irq cpu := by
  unfold Distributor.ack at run
  split at run
  · simp at run
  obtain ⟨_, middle, cleared, rest⟩ := bind_eq_ok.mp run
  have keeps : Keeps (fun dist : Distributor numNodes => actives.bit dist irq)
      (if other < 16 then clearSgiPending other 0 node else clearPending other node) := by
    refine .ite (.ite (.fail _) (.ite (.fail _) (.ite (.fail _) ?_))) ?_
    · exact (updateSgiPending_keeps fun _ _ => rfl).bind fun _ =>
        .ite (.orPanic (Family.updateBit_keeps fun _ _ _ => rfl)) (.pure _)
    · exact Family.updateBit_keeps fun _ _ _ => rfl
  have same : actives.bit middle irq = actives.bit dist irq := keeps _ _ _ cleared
  rw [(Family.clear_bit rest irq cpu).2 differ, same]

theorem handleMaintenance_unique {node : Nat} (unique : Unique irq gic)
    (run : Ends (handleMaintenance callbacks node index) gic final) : Unique irq final := by
  obtain ⟨other, cleared, acked, isHeld, ⟨sameDist, _, slots⟩, ⟨sameSlot, _, isAcked⟩, rest⟩ :=
    handleMaintenance_ends run
  have sub : ∀ node place, cleared.slot node place = some irq → gic.slot node place = some irq := by
    intro node place held
    rw [slots] at held
    split at held
    · simp at held
    · exact held
  have uniqueAcked : Unique irq acked := by
    refine unique.mono (fun otherNode place held => ?_) fun otherNode place held isActive => ?_
    · rw [sameSlot] at held
      exact sub otherNode place held
    · rw [sameSlot] at held
      rcases isAcked with same | isAcked
      · rwa [same, sameDist]
      · rw [ack_actives isAcked, sameDist]
        · exact isActive
        -- the emptied slot was the only one whose interrupt is acknowledged here
        · rintro ⟨rfl, sees⟩
          have sameNode : irq < 32 → node = otherNode := fun isBanked => (sees (by omega)).symm
          obtain ⟨rfl, rfl⟩ := unique.single node index otherNode place isHeld
            (sub otherNode place held) sameNode
          simp [slots] at held
  rcases rest with ⟨lastDist, lastSlot, _⟩ | ⟨popped, poppedDist, poppedSlot, _, rest⟩
  · exact uniqueAcked.congr lastDist lastSlot
  · have uniquePopped := uniqueAcked.congr poppedDist poppedSlot
    split at rest
    · exact injectIrq_unique uniquePopped rest
    · exact rest ▸ uniquePopped

/-- The write clears the active bit of an interrupt that is in a slot. -/
def ClearsHeld (gic : GIC numNodes C) (irq : Irq) (callingNode offset : Nat) (data : FaultData) : Prop :=
  ∃ node index, gic.slot node index = some irq ∧
    gic.dist.DeactivatesAt irq node callingNode offset data

theorem handleWrite_unique {offset : Nat} {data : FaultData} (unique : Unique irq gic)
    (kept : ¬ gic.ClearsHeld irq callingNode offset data)
    (run : Ends (handleWrite callbacks callingNode offset data) gic final) : Unique irq final := by
  rw [handleWrite_eq] at run
  rcases ends_bind.mp run with ⟨error, failed⟩ | ⟨action, _, written, rest⟩
  · obtain ⟨_, dist, refused, rfl⟩ := onDist_eq_err failed
    obtain rfl := handleWrite_failsClean _ _ _ refused
    exact unique
  obtain ⟨dist, isWritten, rfl⟩ := onDist_eq_ok.mp written
  have stays : ∀ node index, gic.slot node index = some irq →
      ¬ (actives.bit dist irq node = false ∨ action.Acks irq node) := by
    intro node index held deactivates
    exact kept ⟨node, index, held, (handleWrite_deactivates_iff isWritten
      (unique.isIrq node index held) (unique.active node index held)).mp deactivates⟩
  have uniqueWritten : Unique irq { gic with dist } := by
    refine unique.mono (fun _ _ held => held) fun node place held _ => ?_
    by_contra isCleared
    exact stays node place held (.inl (Bool.eq_false_iff.mpr isCleared))
  -- acknowledging does not touch the slots, so none of what is acknowledged is in one
  have acking : ∀ pair ∈ action.toAck, ∀ before after : GIC numNodes C,
      Unique irq before ∧ before.slot = gic.slot → Ends (ackIrq callbacks callingNode pair) before after →
      Unique irq after ∧ after.slot = gic.slot := by
    rintro pair member before after ⟨uniqueBefore, sameSlot⟩ acked
    obtain ⟨slots, _, isAcked⟩ := ackIrq_ends acked
    refine ⟨uniqueBefore.mono (fun node place held => slots ▸ held) fun node place held isActive => ?_,
      slots.trans sameSlot⟩
    rcases isAcked with same | isAcked
    · rwa [same]
    · rw [ack_actives isAcked]
      · exact isActive
      · rintro ⟨rfl, sees⟩
        rw [slots, sameSlot] at held
        exact stays node place held (.inr ⟨pair.2, member, sees⟩)
  have forwarding : ∀ pair ∈ action.toInject, ∀ before after : GIC numNodes C, Unique irq before →
      Ends (forwardIrq callbacks callingNode pair.2 pair.1) before after → Unique irq after :=
    fun pair _ before after uniqueBefore forwarded => forwardIrq_unique uniqueBefore forwarded
  rcases ends_bind.mp rest with ⟨error, failed⟩ | ⟨_, acked, isAcked, rest⟩
  · exact (ends_forEach _ acking ⟨uniqueWritten, rfl⟩ (.inr ⟨error, failed⟩)).1
  · have uniqueAcked := (ends_forEach _ acking ⟨uniqueWritten, rfl⟩ (.inl ⟨_, isAcked⟩)).1
    exact ends_forEach _ forwarding uniqueAcked rest

/-- Steps of a run, with values or with errors, that leave the active bit of an interrupt in a slot
alone. -/
def HoldStep (callbacks : GICCallbacks ε C) (irq : Irq) (before after : GIC numNodes C) : Prop :=
  ∃ call, Ends (handle callbacks call) before after ∧
    ∀ callingNode offset data, call = .handleWrite callingNode offset data →
      ¬ before.ClearsHeld irq callingNode offset data

theorem HoldStep.unique {before after : GIC numNodes C} (step : HoldStep callbacks irq before after)
    (unique : Unique irq before) : Unique irq after := by
  obtain ⟨call, run, kept⟩ := step
  cases call with
  | handleIrq callingNode qualified => exact handleIrq_unique unique run
  | handleMaintenance node index => exact handleMaintenance_unique unique run
  | handleWrite callingNode offset data =>
      exact handleWrite_unique unique (kept callingNode offset data rfl) run

theorem new_unique {state : C} : Unique irq (new numNodes state) := by
  have empty := slot_of_new (rfl : (new numNodes state).lrs = (new numNodes state).lrs)
  constructor
  all_goals simp [empty]

/-- An interrupt whose active bit is left alone is in one slot of a node at most, and a shared one
in one slot of all nodes. -/
theorem run_unique {state : C} (run : Relation.ReflTransGen (HoldStep callbacks irq)
      (new numNodes state) gic) :
    (∀ node index otherIndex, gic.slot node index = some irq → gic.slot node otherIndex = some irq →
      index = otherIndex) ∧
    (32 ≤ irq → ∀ node index otherNode otherIndex, gic.slot node index = some irq →
      gic.slot otherNode otherIndex = some irq → node = otherNode) := by
  have unique : Unique irq gic := by
    induction run with
    | refl => exact new_unique
    | tail _ step ih => exact step.unique ih
  constructor
  · intro node index otherIndex held otherHeld
    exact (unique.single node index node otherIndex held otherHeld fun _ => rfl).2
  · intro isShared node index otherNode otherIndex held otherHeld
    exact (unique.single node index otherNode otherIndex held otherHeld fun isBanked =>
      absurd isBanked (Nat.not_lt.mpr isShared)).1

end Calls

section Runs

/-- As long as nothing has been injected, every step leaves the active bits of slots alone. -/
theorem holdRun_concat {irq : Irq} (calls : List Call) (call : Call)
    (run : Relation.ReflTransGen (HoldStep silent irq) (new numNodes ()) (after numNodes calls))
    (returns : (handle silent call (after numNodes calls)).isOk = true)
    (isNew : (after numNodes calls).lrs = (new numNodes ()).lrs) :
    Relation.ReflTransGen (HoldStep silent irq) (new numNodes ())
      (after numNodes (calls ++ [call])) := by
  rw [after_concat]
  refine run.tail ⟨call, .inl ⟨(), handle_next returns⟩, fun _ _ _ _ => ?_⟩
  rintro ⟨node, index, held, _⟩
  simp [slot_of_new isNew] at held

def enable32 : List Call := [.handleWrite 0 0x000 (.word 1), .handleWrite 0 0x104 (.word 1)]

/-- Interrupt 32 is enabled and injected. -/
theorem run_unique_injected :
    (after 1 (enable32 ++ [.handleIrq 0 (.spi 32)])).slot 0 0 = some 32 ∧
    ∀ index, (after 1 (enable32 ++ [.handleIrq 0 (.spi 32)])).slot 0 index = some 32 → 0 = index := by
  have first : Relation.ReflTransGen (HoldStep silent 32) (new 1 ())
      (after 1 [.handleWrite 0 0x000 (.word 1)]) :=
    holdRun_concat [] _ .refl (by decide +kernel) rfl
  have second : Relation.ReflTransGen (HoldStep silent 32) (new 1 ()) (after 1 enable32) :=
    holdRun_concat [.handleWrite 0 0x000 (.word 1)] _ first (by decide +kernel) (by decide +kernel)
  have run := holdRun_concat enable32 (.handleIrq 0 (.spi 32)) second (by decide +kernel)
    (by decide +kernel)
  have held : (after 1 (enable32 ++ [.handleIrq 0 (.spi 32)])).slot 0 0 = some 32 := by
    decide +kernel
  exact ⟨held, fun index otherHeld => (run_unique run).1 0 0 index held otherHeld⟩

def enabledAgain : List Call :=
  enable32 ++ [.handleIrq 0 (.spi 32), .handleWrite 0 0x104 (.word 1), .handleIrq 0 (.spi 32)]

/-- The guest enables interrupt 32 again while it is in a slot, and it comes again.  All calls
return, and it is in two slots. -/
theorem enabled_again_two_slots :
    Exec.forEach enabledAgain (handle silent) (new 1 ()) = .ok () (after 1 enabledAgain) ∧
    (after 1 enabledAgain).slot 0 0 = some 32 ∧ (after 1 enabledAgain).slot 0 1 = some 32 := by
  refine ⟨forEach_after ?_, ?_, ?_⟩
  all_goals decide +kernel

end Runs

end IceCap.Gic.GIC
