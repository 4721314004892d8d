import IceCap.Gic.Ack
import IceCap.Library.Recorded

/-!
# A queue has a full mirror before it

An interrupt is queued only if all slots are taken, and it leaves the queue when
a slot is emptied.  The slot is then taken again, unless the interrupt that is
next cannot be injected any more.
-/

set_option autoImplicit false

namespace IceCap.Gic.GIC

open IceCap.Library Exec Distributor

variable {numNodes : Nat} {ε C : Type}

/-- All slots of a node with a queue are taken. -/
def Conserving (gic : GIC numNodes C) : Prop :=
  ∀ node, gic.overflow node ≠ [] → ∀ index < numLrs, gic.slot node index ≠ none

/-- If there is more than one interrupt in the queue, the first of them can be injected once the one
in the slot has been acknowledged. -/
def Refills (gic : GIC numNodes C) (node index : Nat) : Prop :=
  ∀ next later, gic.overflow node = next :: later → later ≠ [] →
    gic.dist.isGicEnabled = true ∧ enables.bit gic.dist next node = true ∧
      gic.dist.targetBit next node = true ∧
      (actives.bit gic.dist next node = true → gic.slot node index = some next)

theorem refills_iff {gic : GIC numNodes C} {node index next : Nat} {later : List Irq}
    (isQueue : gic.overflow node = next :: later) : gic.Refills node index ↔ (later ≠ [] →
      gic.dist.isGicEnabled = true ∧ enables.bit gic.dist next node = true ∧
        gic.dist.targetBit next node = true ∧
        (actives.bit gic.dist next node = true → gic.slot node index = some next)) := by
  refine ⟨fun refills => refills next later isQueue, fun refills other rest isOther => ?_⟩
  obtain ⟨rfl, rfl⟩ := List.cons.inj (isQueue.symm.trans isOther)
  exact refills

instance (gic : GIC numNodes C) (node index : Nat) : Decidable (gic.Refills node index) :=
  match isQueue : gic.overflow node with
  | [] => isTrue fun next later isNext => by simp [isQueue] at isNext
  | _ :: _ => decidable_of_iff _ (refills_iff isQueue).symm

def RefillsOn (gic : GIC numNodes C) : Call → Prop
  | .handleMaintenance node index => gic.Refills node index
  | _ => True

instance (gic : GIC numNodes C) (call : Call) : Decidable (gic.RefillsOn call) := by
  cases call <;> unfold RefillsOn <;> infer_instance

variable {gic final : GIC numNodes C} {callbacks : GICCallbacks ε C}
  {callingNode targetNode node index irq : Nat}

/-- The queues are as they were and no slot has been emptied. -/
theorem Conserving.mono (conserving : gic.Conserving) (sameOverflow : final.overflow = gic.overflow)
    (slots : ∀ node index, gic.slot node index ≠ none → final.slot node index ≠ none) :
    final.Conserving := by
  intro node isQueue index isIndex
  rw [sameOverflow] at isQueue
  exact slots node index (conserving node isQueue index isIndex)

/-- Injecting takes a slot at most. -/
theorem injectIrq_slots (run : Ends (injectIrq callbacks callingNode targetNode index irq) gic final)
    (isEmpty : gic.slot targetNode index = none) :
    final.overflow = gic.overflow ∧
      ∀ node place held, gic.slot node place = some held → final.slot node place = some held := by
  rcases injectIrq_ends run with ⟨rfl, _⟩ | ⟨_, sameOverflow, dist, _, ⟨_, _, sameSlot⟩ | ⟨_, _, slots⟩⟩
  · exact ⟨rfl, fun _ _ _ => id⟩
  · exact ⟨sameOverflow, fun node place held isHeld => by rw [sameSlot, isHeld]⟩
  · refine ⟨sameOverflow, fun node place held isHeld => ?_⟩
    rw [slots, if_neg]
    · exact isHeld
    · rintro ⟨rfl, rfl⟩
      simp [isEmpty] at isHeld

theorem forwardIrq_slots (run : Ends (forwardIrq callbacks callingNode targetNode irq) gic final)
    {place held : Nat} (isHeld : gic.slot node place = some held) :
    final.slot node place = some held := by
  rcases forwardIrq_chooses run with ⟨index, _, isEmpty, injected⟩ | ⟨_, _, sameSlot, _⟩
  · exact (injectIrq_slots injected isEmpty).2 node place held isHeld
  · rw [sameSlot, isHeld]

theorem forwardIrq_conserving (conserving : gic.Conserving)
    (run : Ends (forwardIrq callbacks callingNode targetNode irq) gic final) : final.Conserving := by
  rcases forwardIrq_chooses run with ⟨index, _, isEmpty, injected⟩ | ⟨isFull, _, sameSlot, queues⟩
  · obtain ⟨sameOverflow, slots⟩ := injectIrq_slots injected isEmpty
    refine conserving.mono sameOverflow fun node place isTaken => ?_
    obtain ⟨held, isHeld⟩ := Option.ne_none_iff_exists'.mp isTaken
    simp [slots node place held isHeld]
  · intro node isQueue index isIndex
    rw [sameSlot]
    rw [queues] at isQueue
    split at isQueue
    · next isNew =>
        rw [isNew.1]
        exact isFull index isIndex
    · exact conserving node isQueue index isIndex

theorem handleIrq_conserving {qualified : QualifiedIrq} (conserving : gic.Conserving)
    (run : Ends (handleIrq callbacks callingNode qualified) gic final) : final.Conserving := by
  rcases handleIrq_ends run with rfl | ⟨_, _, forwarded, _⟩
  · exact conserving
  · exact forwardIrq_conserving conserving forwarded

theorem handleWrite_conserving {offset : Nat} {data : FaultData} (conserving : gic.Conserving)
    (run : Ends (handleWrite callbacks callingNode offset data) gic final) : final.Conserving := by
  refine handleWrite_preserves Conserving (fun _ before after holds acked => ?_)
    (fun _ _ _ _ => forwardIrq_conserving) (fun _ => conserving) run
  obtain ⟨sameSlot, sameOverflow, _⟩ := ackIrq_ends acked
  exact holds.mono sameOverflow fun node index => by rw [sameSlot]; exact id

/-- The interrupt that is next is injected exactly if nothing but its being active now in this very
slot stands against it. -/
theorem popped_deliverable {popped : GIC numNodes C} {dist : Distributor numNodes} {next : Nat}
    (isHeld : gic.slot node index = some irq) (acked : ack irq node gic.dist = .ok () popped.dist)
    (pended : setPending next node popped.dist = .ok () dist) :
    dist.deliverable next node = true ↔
      gic.dist.isGicEnabled = true ∧ enables.bit gic.dist next node = true ∧
        gic.dist.targetBit next node = true ∧
        (actives.bit gic.dist next node = true → gic.slot node index = some next) := by
  obtain ⟨isNode, activeBits, _⟩ := ack_eq_ok acked
  have isPending := (Family.set_bit pended next node).1 ⟨rfl, fun _ => rfl⟩
  rw [decide_eq_true isNode] at isPending
  obtain ⟨_, _, ⟨_, _, rfl⟩, _⟩ := Family.updateBit_eq_ok pended
  have keeps : Keeps (fun dist : Distributor numNodes =>
      (dist.isGicEnabled, enables.bit dist next node, dist.targetBit next node)) (ack irq node) :=
    ack_keeps (fun _ _ _ => rfl) (fun _ _ _ => rfl) fun _ _ => rfl
  have same := keeps _ _ _ acked
  simp only [Prod.mk.injEq] at same
  obtain ⟨sameOn, sameEnabled, sameTarget⟩ := same
  have notActive : actives.bit popped.dist next node = false ↔
      (actives.bit gic.dist next node = true → gic.slot node index = some next) := by
    rw [activeBits, isHeld]
    by_cases sameIrq : next = irq
    · rw [if_pos ⟨sameIrq, fun _ => rfl⟩]
      simp [sameIrq]
    · rw [if_neg fun sameBit => sameIrq sameBit.1]
      simp [Ne.symm sameIrq]
  rw [deliverable_iff, ← sameOn, ← sameEnabled, ← sameTarget, ← notActive]
  exact ⟨fun ⟨on, enabled, target, _, inactive⟩ => ⟨on, enabled, target, inactive⟩,
    fun ⟨on, enabled, target, inactive⟩ => ⟨on, enabled, target, isPending, inactive⟩⟩

/-- The end of an interrupt leaves a slot empty before a queue exactly if the next one is refused
and is not the last. -/
theorem handleMaintenance_conserving (conserving : gic.Conserving)
    (run : handleMaintenance callbacks node index gic = .ok () final) :
    final.Conserving ↔ gic.Refills node index := by
  obtain ⟨irq, popped, isHeld, acked, slots, queues, rest⟩ := handleMaintenance_eq_ok run
  have poppedElsewhere : ∀ other, other ≠ node → popped.overflow other ≠ [] →
      ∀ place < numLrs, popped.slot other place ≠ none := by
    intro other differ isOther place isPlace
    rw [queues, if_neg differ] at isOther
    rw [slots, if_neg fun both => differ both.1]
    exact conserving other isOther place isPlace
  cases isQueue : gic.overflow node with
  | nil =>
      rw [isQueue] at rest
      obtain rfl : final = popped := rest
      refine iff_of_true (fun other isOther => ?_) fun next later isNext => ?_
      · by_cases same : other = node
        · subst same
          simp [queues, isQueue] at isOther
        · exact poppedElsewhere other same isOther
      · simp [isQueue] at isNext
  | cons next later =>
      rw [isQueue] at rest
      have isNode := (ack_eq_ok acked).1
      have isRest : popped.overflow node = later := by simp [queues, isQueue]
      rcases injectIrq_ends (.inl ⟨_, rest⟩) with ⟨_, outside⟩ | ⟨_, sameOverflow, dist, pended, ends⟩
      · exact absurd isNode (Nat.not_lt.mpr outside)
      rw [refills_iff isQueue, ← popped_deliverable isHeld acked pended]
      rcases ends with ⟨refused, _, sameSlot⟩ | ⟨injected, _, finalSlots⟩
      · -- the emptied slot stays empty
        rw [refused]
        constructor
        · intro holds isLater
          have isTaken := holds node (by rwa [sameOverflow, isRest]) index (slot_isIndex isHeld)
          rw [sameSlot, slots, if_pos ⟨rfl, rfl⟩] at isTaken
          exact absurd rfl isTaken
        · intro noLater other isOther
          rw [sameOverflow] at isOther
          rw [sameSlot]
          by_cases same : other = node
          · subst same
            exact absurd (noLater (isRest ▸ isOther)) (by simp)
          · exact poppedElsewhere other same isOther
      · -- the emptied slot is taken by the interrupt that was next
        refine iff_of_true (fun other isOther place isPlace => ?_) fun _ => injected
        rw [sameOverflow] at isOther
        rw [finalSlots]
        split
        · simp
        · next notHere =>
            by_cases same : other = node
            · subst same
              rw [slots, if_neg notHere]
              exact conserving other (by simp [isQueue]) place isPlace
            · exact poppedElsewhere other same isOther place isPlace

/-- A call that returns `Ok`. -/
def Returns (callbacks : GICCallbacks ε C) (call : Call) (before after : GIC numNodes C) : Prop :=
  handle callbacks call before = .ok () after

theorem Returns.conserving {call : Call} {before after : GIC numNodes C}
    (conserving : before.Conserving) (returns : Returns callbacks call before after) :
    after.Conserving ↔ before.RefillsOn call := by
  cases call with
  | handleIrq callingNode qualified =>
      exact iff_of_true (handleIrq_conserving conserving (.inl ⟨_, returns⟩)) trivial
  | handleMaintenance node index => exact handleMaintenance_conserving conserving returns
  | handleWrite callingNode offset data =>
      exact iff_of_true (handleWrite_conserving conserving (.inl ⟨_, returns⟩)) trivial

theorem new_conserving {state : C} : (new numNodes state).Conserving := by
  intro node isQueue
  exact absurd (overflow_of_new rfl node) isQueue

/-- In every state of a run all slots of the nodes with a queue are taken, exactly if every
interrupt that ends in the run makes room for one that can be injected or is the last. -/
theorem run_conserving {state : C} {taken : List (GIC numNodes C × Call)}
    (run : Recorded (Returns callbacks) (new numNodes state) taken final) :
    Recorded.Throughout (Returns callbacks) (new numNodes state) taken Conserving ↔
      ∀ entry ∈ taken, entry.1.RefillsOn entry.2 :=
  run.holds_iff new_conserving fun _ _ _ conserving returns => returns.conserving conserving

/-! ## Six interrupts at once -/

def serve (call : Call) (gic : GIC numNodes Unit) : Option (GIC numNodes Unit) :=
  (handle silent call gic).returned

theorem serve_returns (call : Call) (before after : GIC numNodes Unit)
    (serves : serve call before = some after) : Returns silent call before after := by
  obtain ⟨⟨⟩, run⟩ := Outcome.returned_eq_some.mp serves
  exact run

theorem silent_run (numNodes : Nat) (calls : List Call)
    (check : List (GIC numNodes Unit × Call) × GIC numNodes Unit → Bool)
    (evaluates : (Recorded.record serve calls (new numNodes ())).any check = true) :
    ∃ taken final, Recorded (Returns silent) (new numNodes ()) taken final ∧
      taken.map Prod.snd = calls ∧ check (taken, final) = true := by
  obtain ⟨⟨taken, final⟩, records, checked⟩ := (Option.any_eq_true _ _).mp evaluates
  exact ⟨taken, final, Recorded.ofRecord serve_returns .start records,
    Recorded.record_events records, checked⟩

/-- Interrupts 32 to 37 are enabled and become pending; the last two of them are queued. -/
def sixPending : List Call :=
  [.handleWrite 0 0x000 (.word 1), .handleWrite 0 0x104 (.word 0x3F),
    .handleWrite 0 0x204 (.word 0x3F)]

theorem run_conserving_sixPending : ∃ taken final,
    Recorded (Returns silent) (new 1 ()) taken final ∧
      taken.map Prod.snd = sixPending ++ [.handleMaintenance 0 0] ∧ final.Conserving := by
  obtain ⟨taken, final, run, calls, refills⟩ := silent_run 1
    (sixPending ++ [.handleMaintenance 0 0])
    (fun run => run.1.all fun entry => decide (entry.1.RefillsOn entry.2)) (by decide +kernel)
  have conserving := (run_conserving run).mpr fun entry member =>
    of_decide_eq_true (List.all_eq_true.mp refills entry member)
  exact ⟨taken, final, run, calls, conserving _ _ (List.prefix_refl _) run⟩

/-- Interrupt 36 is next, and is routed away before a slot is emptied: the slot stays empty, and
interrupt 37 stays in the queue. -/
theorem routed_away_not_conserving : ∃ taken final,
    Recorded (Returns silent) (new 1 ()) taken final ∧
      taken.map Prod.snd = sixPending ++
        [.handleWrite 0 0x824 (.word 0x01010100), .handleMaintenance 0 0] ∧
      ¬ final.Conserving := by
  obtain ⟨taken, final, run, calls, stuck⟩ := silent_run 1 (sixPending ++
      [.handleWrite 0 0x824 (.word 0x01010100), .handleMaintenance 0 0])
    (fun run => decide (run.2.overflow 0 = [37] ∧ run.2.slot 0 0 = none)) (by decide +kernel)
  obtain ⟨isQueue, isEmpty⟩ := of_decide_eq_true stuck
  exact ⟨taken, final, run, calls,
    fun conserving => conserving 0 (by simp [isQueue]) 0 (by decide) isEmpty⟩

end IceCap.Gic.GIC
