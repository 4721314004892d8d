import IceCap.Gic.Queues

/-!
# An interrupt that arrives again

A cpu may be sent an interrupt while it has not yet ended an earlier one of the
same number.  If there is no empty slot the second one waits in the queue.
Otherwise it is noted in the pending bit only, which is set already, and which
the acknowledgement of the first one clears.
-/

set_option autoImplicit false

namespace IceCap.Gic

open IceCap.Library Exec Distributor

/-! ## Being made pending again -/

/-- The cpus that a write to `GICD_SGIR` names. -/
def Distributor.sgirCpus (nodeIndex : Nat) (val : Register32) : List Cpu :=
  let targetListFilter := (val >>> 24) &&& 0x3
  if targetListFilter = 0b00 then biterate ((val >>> 16) &&& 0xFF)
  else if targetListFilter = 0b01 then biterate (0b11111111#32 ^^^ (1#32 <<< nodeIndex))
  else if targetListFilter = 0b10 then [nodeIndex]
  else []

namespace GIC

variable {numNodes : Nat} {ε C : Type}

/-- The call makes the interrupt pending on the cpu: a device has raised it and it is routed to the
cpu, or it is sent to the cpu by a write to `GICD_SGIR`. -/
def Repends (gic : GIC numNodes C) (irq cpu : Nat) : Call → Prop
  | .handleIrq _ (.qualifiedPpi node other) => other = irq ∧ node = cpu
  | .handleIrq callingNode (.spi other) => other = irq ∧
      (gic.dist.isTarget irq callingNode = some true ∧ callingNode = cpu ∨
        gic.dist.isTarget irq callingNode = some false ∧
          ((gic.dist.getSpiTargets irq).bind fun targets => (biterate targets).head?) = some cpu)
  | .handleWrite callingNode offset (.word val) => DistRegWord.fromOffset offset = some .sgir ∧
      (val &&& 0xFF).toNat = irq ∧ cpu ∈ sgirCpus callingNode val
  | _ => False

instance (gic : GIC numNodes C) (irq cpu : Nat) (call : Call) : Decidable (gic.Repends irq cpu call) := by
  unfold Repends
  split <;> infer_instance

/-- The run comes to the end of an interrupt that was made pending again while it was active and
held in this slot. -/
def EndsAgain (taken : List (GIC numNodes C × Call)) (irq cpu index : Nat)
    (before : GIC numNodes C) : Prop :=
  ∃ earlier held call between,
    earlier ++ (held, call) :: between ++ [(before, .handleMaintenance cpu index)] <+: taken ∧
    held.Repends irq cpu call ∧ held.slot cpu index = some irq ∧
    actives.bit held.dist irq cpu = true ∧
    ∀ entry ∈ between, entry.2 ≠ .handleMaintenance cpu index

/-- An interrupt is in a slot or in the queue of a cpu, or its pending bit is set. -/
def Kept (gic : GIC numNodes C) (irq cpu : Nat) : Prop :=
  (∃ index, gic.slot cpu index = some irq) ∨ irq ∈ gic.overflow cpu ∨
    pendings.bit gic.dist irq cpu = true

/-- The interrupt in a slot is also in another slot or in the queue, or it is pending from a source
that its acknowledgement leaves pending. -/
def KeptTwice (gic : GIC numNodes C) (irq cpu index : Nat) : Prop :=
  (∃ other < numLrs, other ≠ index ∧ gic.slot cpu other = some irq) ∨ irq ∈ gic.overflow cpu ∨
    gic.dist.OtherSource irq cpu ∧ pendings.bit gic.dist irq cpu = true

instance (gic : GIC numNodes C) (irq cpu index : Nat) : Decidable (gic.KeptTwice irq cpu index) := by
  unfold KeptTwice
  infer_instance

variable {gic final : GIC numNodes C} {callbacks : GICCallbacks ε C}
  {callingNode node cpu index irq next : Nat}

/-! ## The end of the first one -/

/-- An attempt to inject keeps what was kept, and the interrupt that it is about. -/
theorem injectIrq_kept (run : Ends (injectIrq callbacks callingNode node index next) gic final)
    (isNode : node < numNodes) (isEmpty : gic.slot node index = none) :
    final.Kept irq node ↔ irq = next ∨ gic.Kept irq node := by
  rcases injectIrq_ends run with ⟨_, outside⟩ | ⟨_, sameOverflow, dist, pended, ends⟩
  · exact absurd isNode (Nat.not_lt.mpr outside)
  have pendingBits : pendings.bit final.dist = pendings.bit dist := by
    rcases ends with ⟨_, isDist, _⟩ | ⟨_, activated, _⟩
    · rw [isDist]
    · obtain ⟨_, _, ⟨_, _, isPut⟩, _⟩ := Family.updateBit_eq_ok activated
      rw [isPut]
      rfl
  obtain ⟨same, differ⟩ := Family.set_bit pended irq node
  by_cases isNext : irq = next
  · have isPending := same ⟨isNext, fun _ => rfl⟩
    rw [decide_eq_true isNode, ← pendingBits] at isPending
    exact iff_of_true (.inr (.inr isPending)) (.inl isNext)
  · have samePending := differ fun both => isNext both.1
    rw [← pendingBits] at samePending
    have slots : ∀ other, final.slot node other = some irq ↔ gic.slot node other = some irq := by
      intro other
      rcases ends with ⟨_, _, sameSlot⟩ | ⟨_, _, slots⟩
      · rw [sameSlot]
      · rw [slots]
        split
        · next here =>
            rw [here.2, isEmpty]
            simp [Ne.symm isNext]
        · rfl
    simp only [Kept, slots, sameOverflow, samePending, isNext, false_or]

/-- An interrupt is still there after its end exactly if it was kept twice. -/
theorem handleMaintenance_kept (isHeld : gic.slot cpu index = some irq)
    (run : handleMaintenance callbacks cpu index gic = .ok () final) :
    final.Kept irq cpu ↔ gic.KeptTwice irq cpu index := by
  obtain ⟨ended, popped, isEnded, acked, slots, queues, rest⟩ := handleMaintenance_eq_ok run
  obtain rfl := Option.some.inj (isEnded.symm.trans isHeld)
  obtain ⟨isNode, _, _, kept, lost⟩ := ack_eq_ok acked
  have inSlot : (∃ other, popped.slot cpu other = some ended) ↔
      ∃ other < numLrs, other ≠ index ∧ gic.slot cpu other = some ended := by
    constructor
    · rintro ⟨other, isOther⟩
      rw [slots] at isOther
      split at isOther
      · simp at isOther
      · next elsewhere =>
          exact ⟨other, slot_isIndex isOther, fun same => elsewhere ⟨rfl, same⟩, isOther⟩
    · rintro ⟨other, _, differ, isOther⟩
      exact ⟨other, by rw [slots, if_neg fun both => differ both.2, isOther]⟩
  have isPending : pendings.bit popped.dist ended cpu = true ↔
      gic.dist.OtherSource ended cpu ∧ pendings.bit gic.dist ended cpu = true := by
    by_cases isSource : gic.dist.OtherSource ended cpu
    · rw [kept isSource]
      simp [isSource]
    · rw [lost isSource, if_pos ⟨rfl, fun _ => rfl⟩]
      simp [isSource]
  have isPopped : popped.Kept ended cpu ↔
      (∃ other < numLrs, other ≠ index ∧ gic.slot cpu other = some ended) ∨
        ended ∈ (gic.overflow cpu).tail ∨
        gic.dist.OtherSource ended cpu ∧ pendings.bit gic.dist ended cpu = true := by
    rw [Kept, inSlot, isPending, queues, if_pos rfl]
  cases isQueue : gic.overflow cpu with
  | nil =>
      rw [isQueue] at rest isPopped
      obtain rfl : final = popped := rest
      rw [isPopped, KeptTwice, isQueue, List.tail_nil]
  | cons next later =>
      rw [isQueue] at rest isPopped
      have isEmpty : popped.slot cpu index = none := by rw [slots, if_pos ⟨rfl, rfl⟩]
      rw [injectIrq_kept (.inl ⟨_, rest⟩) isNode isEmpty, isPopped, KeptTwice, isQueue, List.mem_cons,
        List.tail_cons, or_assoc]
      exact or_left_comm

/-! ## In the meantime -/

/-- A call that returns, with `Ok` or with an error. -/
def Runs (callbacks : GICCallbacks ε C) (call : Call) (before after : GIC numNodes C) : Prop :=
  Ends (handle callbacks call) before after

theorem Returns.runs {call : Call} {before after : GIC numNodes C}
    (returns : Returns callbacks call before after) : Runs callbacks call before after :=
  .inl ⟨_, returns⟩

theorem handleWrite_slots {offset : Nat} {data : FaultData}
    (run : Ends (handleWrite callbacks callingNode offset data) gic final)
    (isHeld : gic.slot cpu index = some irq) : final.slot cpu index = some irq := by
  apply handleWrite_preserves (fun gic => gic.slot cpu index = some irq) _ _ (fun _ => isHeld) run
  · intro pair before after holds acked
    rw [(ackIrq_ends acked).1, holds]
  · intro other node before after holds forwarded
    exact forwardIrq_slots forwarded holds

theorem handleMaintenance_slots {place : Nat}
    (run : Ends (handleMaintenance callbacks node place) gic final)
    (elsewhere : ¬ (cpu = node ∧ index = place)) (isHeld : gic.slot cpu index = some irq) :
    final.slot cpu index = some irq := by
  obtain ⟨ended, cleared, acked, _, ⟨_, _, slots⟩, ⟨sameSlot, _⟩, rest⟩ := handleMaintenance_ends run
  have isAcked : acked.slot cpu index = some irq := by
    rw [sameSlot, slots, if_neg elsewhere, isHeld]
  rcases rest with ⟨_, lastSlot, _⟩ | ⟨popped, _, poppedSlot, _, rest⟩
  · rw [lastSlot, isAcked]
  · rw [← poppedSlot] at isAcked
    split at rest
    · have isEmpty : popped.slot node place = none := by
        rw [poppedSlot, sameSlot, slots, if_pos ⟨rfl, rfl⟩]
      exact (injectIrq_slots rest isEmpty).2 cpu index irq isAcked
    · rw [rest, isAcked]

/-- An interrupt stays in its slot until its end. -/
theorem Runs.slots {call : Call} {before after : GIC numNodes C}
    (isHeld : before.slot cpu index = some irq) (runs : Runs callbacks call before after)
    (isOther : call ≠ .handleMaintenance cpu index) : after.slot cpu index = some irq := by
  cases call with
  | handleIrq callingNode qualified =>
      rcases handleIrq_ends runs with rfl | ⟨_, _, forwarded, _⟩
      · exact isHeld
      · exact forwardIrq_slots forwarded isHeld
  | handleMaintenance node place =>
      refine handleMaintenance_slots runs (fun here => isOther ?_) isHeld
      rw [here.1, here.2]
  | handleWrite callingNode offset data => exact handleWrite_slots runs isHeld

variable {taken : List (GIC numNodes C × Call)}

theorem EndsAgain.isHeld {first before : GIC numNodes C}
    (run : Recorded (Runs callbacks) first taken final)
    (ends : EndsAgain taken irq cpu index before) : before.slot cpu index = some irq := by
  obtain ⟨earlier, held, call, between, isEarlier, repends, isHeld, _, others⟩ := ends
  refine (run.entry isEarlier).1.persists (fun gic => gic.slot cpu index = some irq)
    (fun _ call => call ≠ .handleMaintenance cpu index)
    (fun _ _ _ holds runs isOther => runs.slots holds isOther) rfl isHeld fun entry member => ?_
  rcases List.mem_cons.mp member with rfl | later
  · rintro rfl
    exact repends
  · exact others entry later

/-- An interrupt that ends after it was made pending again is still there exactly if it was kept
twice. -/
theorem run_keeps_again {state : C} {before : GIC numNodes C} {after : GIC numNodes C}
    (run : Recorded (Runs callbacks) (new numNodes state) taken final)
    (ends : EndsAgain taken irq cpu index before)
    (returned : handleMaintenance callbacks cpu index before = .ok () after) :
    after.Kept irq cpu ↔ before.KeptTwice irq cpu index :=
  handleMaintenance_kept (ends.isHeld run) returned

/-! ## Two senders -/

theorem silent_again (numNodes : Nat) (calls : List Call) (again : Call) (irq cpu index : Nat)
    (kept : Bool) (evaluates : (Recorded.record serve (calls ++ [again, .handleMaintenance cpu index])
      (new numNodes ())).any (fun run => match run.1.reverse with
        | (before, _) :: (held, _) :: _ => decide (held.Repends irq cpu again ∧
            held.slot cpu index = some irq ∧ actives.bit held.dist irq cpu = true ∧
            decide (before.KeptTwice irq cpu index) = kept)
        | _ => false) = true) :
    ∃ taken before final, Recorded (Runs silent) (new numNodes ()) taken final ∧
      EndsAgain taken irq cpu index before ∧
      handleMaintenance silent cpu index before = .ok () final ∧
      decide (before.KeptTwice irq cpu index) = kept := by
  obtain ⟨taken, final, run, isCalls, checked⟩ := silent_run numNodes _ _ evaluates
  obtain ⟨earlier, ending, rfl, _, isEnding⟩ := List.map_eq_append_iff.mp isCalls
  obtain ⟨⟨held, again⟩, rest, rfl, rfl, isRest⟩ := List.map_eq_cons_iff.mp isEnding
  obtain ⟨⟨before, _⟩, none, rfl, rfl, isNone⟩ := List.map_eq_cons_iff.mp isRest
  obtain rfl := List.map_eq_nil_iff.mp isNone
  simp only [List.reverse_append, List.reverse_cons, List.reverse_nil, List.nil_append,
    List.cons_append, decide_eq_true_eq] at checked
  obtain ⟨repends, isHeld, isActive, isKept⟩ := checked
  rw [show earlier ++ [(held, again), (before, .handleMaintenance cpu index)] =
    earlier ++ (held, again) :: [] ++ [(before, .handleMaintenance cpu index)] by simp] at run
  exact ⟨_, before, final, run.mono fun _ _ _ => Returns.runs,
    ⟨earlier, held, again, [], List.prefix_refl _, repends, isHeld, isActive, by simp⟩,
    run.last.2, isKept⟩

/-- A device raises interrupt 32 again while all four slots are taken. -/
theorem run_keeps_again_queued : ∃ taken before final,
    Recorded (Runs silent) (new 1 ()) taken final ∧ EndsAgain taken 32 0 0 before ∧
      handleMaintenance silent 0 0 before = .ok () final ∧ final.Kept 32 0 := by
  obtain ⟨taken, before, final, run, ends, returned, isKept⟩ := silent_again 1
    [.handleWrite 0 0x000 (.word 1), .handleWrite 0 0x104 (.word 0xF), .handleIrq 0 (.spi 32),
      .handleIrq 0 (.spi 33), .handleIrq 0 (.spi 34), .handleIrq 0 (.spi 35)]
    (.handleIrq 0 (.spi 32)) 32 0 0 true (by decide +kernel)
  exact ⟨taken, before, final, run, ends, returned,
    (run_keeps_again run ends returned).mpr (of_decide_eq_true isKept)⟩

/-- SGI 0 is sent by cpu 1 and then, before it is ended, by cpu 0: the second one is lost. -/
theorem sent_twice_lost : ∃ taken before final,
    Recorded (Runs silent) (new 2 ()) taken final ∧ EndsAgain taken 0 0 0 before ∧
      handleMaintenance silent 0 0 before = .ok () final ∧ ¬ final.Kept 0 0 := by
  obtain ⟨taken, before, final, run, ends, returned, isKept⟩ := silent_again 2
    [.handleWrite 0 0x000 (.word 1), .handleWrite 1 0xF00 (.word 0x00010000)]
    (.handleWrite 0 0xF00 (.word 0x00010000)) 0 0 0 false (by decide +kernel)
  refine ⟨taken, before, final, run, ends, returned, fun kept => ?_⟩
  have keptTwice := (handleMaintenance_kept (ends.isHeld run) returned).mp kept
  exact of_decide_eq_false isKept keptTwice

end GIC

end IceCap.Gic
