import IceCap.Gic.Again
import IceCap.Library.Erasure

/-!
# Slots that are not overwritten

The callbacks are watched: they know which list registers have been injected into
since they were last maintained, and an injection into one of these, or into one
past the end, is an error.  A GIC with watched callbacks does the same as the GIC
without, so that this error does not occur.
-/

set_option autoImplicit false

namespace IceCap.Gic

open IceCap.Library Exec

/-- The state of the callbacks, and the slots `(node, index)` injected into since they were last
maintained. -/
structure Watch (C : Type) where
  state : C
  busy : List (Nat × Nat)

inductive WatchError (ε : Type) where
  | callback (error : ε)
  | overwritten

namespace Watch

variable {ε C α : Type}

def start (state : C) : Watch C := ⟨state, []⟩

def onState (call : Exec ε C α) : Exec (WatchError ε) (Watch C) α :=
  focus Watch.state (fun state watch => { watch with state }) (mapErr .callback call)

def take (slot : Nat × Nat) (watch : Watch C) : Watch C :=
  { watch with busy := slot :: watch.busy }

def free (slot : Nat × Nat) (watch : Watch C) : Watch C :=
  { watch with busy := watch.busy.filter fun other => decide (other ≠ slot) }

/-- An injection takes the slot, which has to be free. -/
def callbacks (watched : GICCallbacks ε C) : GICCallbacks (WatchError ε) (Watch C) where
  ack callingNode irq := onState (watched.ack callingNode irq)
  vcpuInjectIrq callingNode targetNode index irq priority := do
    let watch ← get
    ensure (index < numLrs ∧ (targetNode, index) ∉ watch.busy) .overwritten
    modify (take (targetNode, index))
    onState (watched.vcpuInjectIrq callingNode targetNode index irq priority)

end Watch

namespace GIC

variable {numNodes : Nat} {ε C α : Type}

def unwatched (gic : GIC numNodes (Watch C)) : GIC numNodes C where
  callbacks := gic.callbacks.state
  dist := gic.dist
  lrs := gic.lrs

def watchedFailure : Failure ε → Failure (WatchError ε)
  | .irq error => .irq error
  | .callback error => .callback (.callback error)

/-- Maintenance frees its slot first. -/
def handleWatched (callbacks : GICCallbacks ε C) (call : Call) :
    Exec (Failure (WatchError ε)) (GIC numNodes (Watch C)) Unit := do
  match call with
  | .handleMaintenance node index =>
      modify fun gic => { gic with callbacks := gic.callbacks.free (node, index) }
  | _ => pure ()
  handle (Watch.callbacks callbacks) call

/-- The slots that have been injected into are taken, and no queue has an interrupt twice. -/
structure Tidy (gic : GIC numNodes (Watch C)) : Prop where
  isTaken : ∀ node index, (node, index) ∈ gic.callbacks.busy → gic.slot node index ≠ none
  nodup : ∀ node, (gic.overflow node).Nodup

/-- The next injection is into this slot. -/
def Ready (gic : GIC numNodes (Watch C)) (node index : Nat) : Prop :=
  gic.Tidy ∧ index < numLrs ∧ (node, index) ∉ gic.callbacks.busy

/-- Full and plain calls of the GIC. -/
abbrev Watches (before : GIC numNodes (Watch C) → Prop) (after : α → GIC numNodes (Watch C) → Prop)
    (full : Exec (Failure (WatchError ε)) (GIC numNodes (Watch C)) α)
    (plain : Exec (Failure ε) (GIC numNodes C) α) : Prop :=
  Erases unwatched watchedFailure Tidy before after full plain

section Parts
variable {callbacks : GICCallbacks ε C} {before : GIC numNodes (Watch C) → Prop} {node index : Nat}

theorem watches_onDist {call : Exec IrqError (Distributor numNodes) α}
    (holds : ∀ gic dist, before gic → before { gic with dist })
    (tidy : ∀ gic, before gic → gic.Tidy) :
    Watches before (fun _ => before) (onDist call : Exec (Failure (WatchError ε)) _ α)
      (onDist call) := by
  intro gic isBefore
  have sameDist : gic.unwatched.dist = gic.dist := rfl
  unfold onDist focus mapErr
  rw [sameDist]
  cases call gic.dist with
  | ok value dist => exact .ok (holds gic dist isBefore)
  | err error dist => exact .err (Failure.irq error) (tidy _ (holds gic dist isBefore))
  | panic => exact .panic

theorem watches_ack {callingNode : Nat} {irq : QualifiedIrq}
    (holds : ∀ gic state, before gic →
      before { gic with callbacks := { gic.callbacks with state } })
    (tidy : ∀ gic, before gic → gic.Tidy) :
    Watches before (fun _ => before) (onCallbacks ((Watch.callbacks callbacks).ack callingNode irq))
      (onCallbacks (callbacks.ack callingNode irq)) := by
  intro gic isBefore
  have sameState : gic.unwatched.callbacks = gic.callbacks.state := rfl
  unfold onCallbacks Watch.callbacks Watch.onState focus mapErr
  rw [sameState]
  dsimp only
  cases callbacks.ack callingNode irq gic.callbacks.state with
  | ok value state => exact .ok (holds gic state isBefore)
  | err error state => exact .err (Failure.callback error) (tidy _ (holds gic state isBefore))
  | panic => exact .panic

/-- An injection into a free slot, which has been taken in the mirror. -/
theorem watches_inject {callingNode irq priority : Nat} :
    Watches (fun gic : GIC numNodes _ => gic.Ready node index ∧ gic.slot node index = some irq)
      (fun _ => Tidy)
      (onCallbacks ((Watch.callbacks callbacks).vcpuInjectIrq callingNode node index irq priority))
      (onCallbacks (callbacks.vcpuInjectIrq callingNode node index irq priority)) := by
  rintro gic ⟨⟨tidy, isIndex, isFree⟩, inSlot⟩
  have sameState : gic.unwatched.callbacks = gic.callbacks.state := rfl
  have passes : (Watch.callbacks callbacks).vcpuInjectIrq callingNode node index irq priority
      gic.callbacks = Watch.onState (callbacks.vcpuInjectIrq callingNode node index irq priority)
        (gic.callbacks.take (node, index)) := by
    have checked : (ensure (index < numLrs ∧ (node, index) ∉ gic.callbacks.busy) .overwritten :
        Exec (WatchError ε) (Watch C) Unit) gic.callbacks = .ok () gic.callbacks :=
      ensure_eq_ok.mpr ⟨⟨isIndex, isFree⟩, rfl⟩
    exact bind_of_ok checked
  have tidyAfter : ∀ state : C, Tidy { gic with
      callbacks := { (gic.callbacks.take (node, index)) with state } } := by
    refine fun state => ⟨fun other place member => ?_, tidy.nodup⟩
    rcases List.mem_cons.mp member with same | earlier
    · obtain ⟨rfl, rfl⟩ := Prod.mk.inj same
      exact fun isEmpty => Option.some_ne_none irq (inSlot.symm.trans isEmpty)
    · exact tidy.isTaken other place earlier
  unfold onCallbacks focus mapErr
  rw [passes, sameState]
  unfold Watch.onState focus mapErr
  have takenState : (gic.callbacks.take (node, index)).state = gic.callbacks.state := rfl
  rw [takenState]
  cases callbacks.vcpuInjectIrq callingNode node index irq priority gic.callbacks.state with
  | ok value state => exact .ok (tidyAfter state)
  | err error state => exact .err (Failure.callback error) (tidyAfter state)
  | panic => exact .panic

/-- A change of the list registers of a node. -/
theorem watches_updateLr {change : Lr → Lr} {after : Unit → GIC numNodes (Watch C) → Prop}
    (holds : ∀ gic final, before gic →
      (updateLr node change : Exec (Failure (WatchError ε)) _ Unit) gic = .ok () final →
        after () final) :
    Watches before after (updateLr node change : Exec (Failure (WatchError ε)) _ Unit)
      (updateLr node change) := by
  apply Erases.returning
  · refine Erases.reads_bind (fun _ => rfl) fun lr => ?_
    exact Erases.modify (fun _ => rfl) fun _ _ => trivial
  · exact fun gic _ => holds gic

theorem watches_setMirror {held : Option Irq} {after : Unit → GIC numNodes (Watch C) → Prop}
    (holds : ∀ gic final, before gic →
      (setMirror node index held : Exec (Failure (WatchError ε)) _ Unit) gic = .ok () final →
        after () final) :
    Watches before after (setMirror node index held : Exec (Failure (WatchError ε)) _ Unit)
      (setMirror node index held) := by
  apply Erases.returning
  · have checked : Watches before (fun _ => before)
        (assert (index < numLrs) : Exec (Failure (WatchError ε)) _ Unit) (assert (index < numLrs)) :=
      Erases.assert fun _ isBefore _ => isBefore
    exact checked.bind fun _ => watches_updateLr fun _ _ _ _ => trivial
  · exact fun gic _ => holds gic

/-- The callbacks have no part in a change of the list registers. -/
theorem updateLr_callbacks {gic final : GIC numNodes C} {change : Lr → Lr}
    (run : (updateLr node change : Exec (Failure ε) _ Unit) gic = .ok () final) :
    final.callbacks = gic.callbacks := by
  obtain ⟨_, _, rfl⟩ := updateLr_eq_ok run
  rfl

theorem setMirror_callbacks {gic final : GIC numNodes C} {held : Option Irq}
    (run : (setMirror node index held : Exec (Failure ε) _ Unit) gic = .ok () final) :
    final.callbacks = gic.callbacks := by
  obtain ⟨_, _, asserted, updated⟩ := bind_eq_ok.mp run
  obtain ⟨_, rfl⟩ := assert_eq_ok.mp asserted
  exact updateLr_callbacks updated

end Parts

section Calls
variable {callbacks : GICCallbacks ε C} {callingNode node index irq : Nat}

theorem Ready.inDist {gic : GIC numNodes (Watch C)} (ready : gic.Ready node index)
    (dist : Distributor numNodes) : Ready { gic with dist } node index :=
  ⟨⟨ready.1.isTaken, ready.1.nodup⟩, ready.2⟩

theorem Tidy.inDist {gic : GIC numNodes (Watch C)} (tidy : gic.Tidy)
    (dist : Distributor numNodes) : Tidy { gic with dist } :=
  ⟨tidy.isTaken, tidy.nodup⟩

/-- A free slot is taken. -/
theorem Ready.place {gic final : GIC numNodes (Watch C)} (ready : gic.Ready node index)
    (placed : (setMirror node index (some irq) : Exec (Failure ε) _ Unit) gic = .ok () final) :
    final.Ready node index ∧ final.slot node index = some irq := by
  obtain ⟨_, sameOverflow, slots⟩ := setMirror_eq_ok placed
  have sameWatch := setMirror_callbacks placed
  obtain ⟨tidy, isIndex, isFree⟩ := ready
  refine ⟨⟨⟨fun other place busy => ?_, ?_⟩, isIndex, by rwa [sameWatch]⟩, ?_⟩
  · rw [sameWatch] at busy
    rw [slots]
    split
    · exact Option.some_ne_none irq
    · exact tidy.isTaken other place busy
  · rw [sameOverflow]
    exact tidy.nodup
  · rw [slots, if_pos ⟨rfl, rfl⟩]

theorem watches_injectIrq :
    Watches (fun gic : GIC numNodes (Watch C) => gic.Ready node index) (fun _ => Tidy)
      (injectIrq (Watch.callbacks callbacks) callingNode node index irq)
      (injectIrq callbacks callingNode node index irq) := by
  have onDist : ∀ {β : Type} (call : Exec IrqError (Distributor numNodes) β),
      Watches (fun gic : GIC numNodes (Watch C) => gic.Ready node index)
        (fun _ gic => gic.Ready node index)
        (onDist call : Exec (Failure (WatchError ε)) _ β) (onDist call) :=
    fun call => watches_onDist (fun gic dist ready => ready.inDist dist) fun gic ready => ready.1
  refine (onDist _).bind fun priority => (onDist _).bind fun _ => (onDist _).bind fun inject => ?_
  refine Erases.ite (fun _ => ?_) fun _ => Erases.pure fun gic ready => ready.1
  refine (onDist _).bind fun _ => ?_
  exact (watches_setMirror fun gic final ready placed => ready.place placed).bind fun _ =>
    watches_inject

theorem watches_forwardIrq :
    Watches (fun gic : GIC numNodes (Watch C) => gic.Tidy) (fun _ => Tidy)
      (forwardIrq (Watch.callbacks callbacks) callingNode node irq)
      (forwardIrq callbacks callingNode node irq) := by
  refine Erases.reads_bind (fun _ => rfl) fun lr => ?_
  cases isSlot : lr.emptySlot with
  | some index =>
      refine watches_injectIrq.mono (fun gic ⟨tidy, isLr⟩ => ?_) fun _ _ tidy => tidy
      obtain ⟨isIndex, isEmpty⟩ := emptySlot_eq_some isLr isSlot
      exact ⟨tidy, isIndex, fun busy => tidy.isTaken _ _ busy isEmpty⟩
  | none =>
      refine Erases.ite (fun _ => Erases.pure fun gic ⟨tidy, _⟩ => tidy) fun isNew => ?_
      refine watches_updateLr fun gic final ⟨tidy, isLr⟩ pushed => ?_
      obtain ⟨_, sameSlot, queues⟩ := updateOverflow_eq_ok (fun queue => queue ++ [irq]) pushed
      have isQueue : gic.overflow node = lr.overflow := by
        rw [overflow, isLr, Option.map_some, Option.getD_some]
      refine ⟨fun other place busy => ?_, fun other => ?_⟩
      · rw [updateLr_callbacks pushed] at busy
        rw [sameSlot]
        exact tidy.isTaken other place busy
      · rw [queues]
        split
        · next same =>
            rw [same, isQueue]
            refine List.nodup_append.mpr ⟨isQueue ▸ tidy.nodup node, List.pairwise_singleton _ irq, ?_⟩
            rintro queued member _ (⟨⟩ | ⟨_, ⟨⟩⟩) rfl
            exact isNew member
        · exact tidy.nodup other

theorem watches_handleIrq {qualified : QualifiedIrq} :
    Watches (fun gic : GIC numNodes (Watch C) => gic.Tidy) (fun _ => Tidy)
      (handleIrq (Watch.callbacks callbacks) callingNode qualified)
      (handleIrq callbacks callingNode qualified) := by
  have onDist : ∀ {β : Type} (call : Exec IrqError (Distributor numNodes) β),
      Watches (fun gic : GIC numNodes (Watch C) => gic.Tidy) (fun _ gic => gic.Tidy)
        (onDist call : Exec (Failure (WatchError ε)) _ β) (onDist call) :=
    fun call => watches_onDist (fun gic dist tidy => tidy.inDist dist) fun gic tidy => tidy
  cases qualified with
  | qualifiedPpi node irq => exact watches_forwardIrq
  | spi irq =>
      refine (onDist _).bind fun isTarget => ?_
      refine Erases.ite (fun _ => watches_forwardIrq) fun _ => ?_
      refine (onDist _).bind fun targets => ?_
      cases (biterate targets).head? with
      | some target => exact watches_forwardIrq
      | none => exact Erases.pure fun gic tidy => tidy

/-- The queue of the node gets shorter. -/
theorem watches_popOverflow :
    Watches (fun gic : GIC numNodes (Watch C) => gic.Ready node index)
      (fun _ gic => gic.Ready node index)
      (popOverflow node : Exec (Failure (WatchError ε)) _ _) (popOverflow node) := by
  refine Erases.reads_bind (fun _ => rfl) fun lr => ?_
  have pops : Watches (fun gic : GIC numNodes (Watch C) => gic.Ready node index)
      (fun _ gic => gic.Ready node index)
      (updateLr node fun lr => { lr with overflow := lr.overflow.tail } :
        Exec (Failure (WatchError ε)) _ Unit)
      (updateLr node fun lr => { lr with overflow := lr.overflow.tail }) := by
    refine watches_updateLr fun gic final ready popped => ?_
    obtain ⟨_, sameSlot, queues⟩ := updateOverflow_eq_ok List.tail popped
    have sameWatch := updateLr_callbacks popped
    refine ⟨⟨fun other place busy => ?_, fun other => ?_⟩, ready.2.1, ?_⟩
    · rw [sameWatch] at busy
      rw [sameSlot]
      exact ready.1.isTaken other place busy
    · rw [queues]
      split
      · exact (ready.1.nodup other).tail
      · exact ready.1.nodup other
    · rw [sameWatch]
      exact ready.2.2
  refine (pops.mono (fun gic both => both.1) fun _ _ ready => ready).bind fun _ => ?_
  exact Erases.pure fun gic ready => ready

/-- Maintenance of a slot that has been freed. -/
theorem watches_handleMaintenance :
    Watches (fun gic : GIC numNodes (Watch C) => gic.Tidy ∧ (node, index) ∉ gic.callbacks.busy)
      (fun _ => Tidy) (handleMaintenance (Watch.callbacks callbacks) node index)
      (handleMaintenance callbacks node index) := by
  refine Erases.reads_bind (fun _ => rfl) fun held => Erases.unwrap_bind fun irq isHeld => ?_
  have empties : Watches (fun gic : GIC numNodes (Watch C) =>
        (gic.Tidy ∧ (node, index) ∉ gic.callbacks.busy) ∧
          ((gic.lrs[node]?).bind fun lr => lr.mirror[index]?) = some held)
      (fun _ gic => gic.Ready node index)
      (setMirror node index none : Exec (Failure (WatchError ε)) _ Unit) (setMirror node index none) := by
    refine watches_setMirror fun gic final ⟨⟨tidy, isFree⟩, loaded⟩ emptied => ?_
    obtain ⟨_, sameOverflow, slots⟩ := setMirror_eq_ok emptied
    have sameWatch := setMirror_callbacks emptied
    have isIndex : index < numLrs := by
      have isSlot : gic.slot node index = some irq := by
        rw [slot, loaded, Option.join_some, isHeld]
      exact slot_isIndex isSlot
    refine ⟨⟨fun other place busy => ?_, ?_⟩, isIndex, by rwa [sameWatch]⟩
    · rw [sameWatch] at busy
      have isOther : ¬ (other = node ∧ place = index) := by
        rintro ⟨rfl, rfl⟩
        exact isFree busy
      rw [slots, if_neg isOther]
      exact tidy.isTaken other place busy
    · rw [sameOverflow]
      exact tidy.nodup
  have acks : Watches (fun gic : GIC numNodes (Watch C) => gic.Ready node index)
      (fun _ gic => gic.Ready node index)
      (onDist (Distributor.ack irq node) : Exec (Failure (WatchError ε)) _ Unit)
      (onDist (Distributor.ack irq node)) :=
    watches_onDist (fun gic dist ready => ready.inDist dist) fun gic ready => ready.1
  refine empties.bind fun _ => acks.bind fun _ => ?_
  refine Erases.bind (watches_ack (fun gic state ready => ?_) fun gic ready => ready.1) fun _ => ?_
  · exact ⟨⟨ready.1.isTaken, ready.1.nodup⟩, ready.2⟩
  refine watches_popOverflow.bind fun next => ?_
  cases next with
  | some irq => exact watches_injectIrq
  | none => exact Erases.pure fun gic ready => ready.1

theorem watches_handleWrite {offset : Nat} {data : FaultData} :
    Watches (fun gic : GIC numNodes (Watch C) => gic.Tidy) (fun _ => Tidy)
      (handleWrite (Watch.callbacks callbacks) callingNode offset data)
      (handleWrite callbacks callingNode offset data) := by
  have onDist : ∀ {β : Type} (call : Exec IrqError (Distributor numNodes) β),
      Watches (fun gic : GIC numNodes (Watch C) => gic.Tidy) (fun _ gic => gic.Tidy)
        (onDist call : Exec (Failure (WatchError ε)) _ β) (onDist call) :=
    fun call => watches_onDist (fun gic dist tidy => tidy.inDist dist) fun gic tidy => tidy
  rw [handleWrite_eq, handleWrite_eq]
  refine (onDist _).bind fun action => ?_
  refine (Erases.forEach fun pair => ?_).bind fun _ => Erases.forEach fun pair => watches_forwardIrq
  refine (onDist _).bind fun _ => ?_
  refine Erases.ite (fun _ => ?_) fun _ => Erases.pure fun gic tidy => tidy
  exact watches_ack (fun gic state tidy => ⟨tidy.isTaken, tidy.nodup⟩) fun gic tidy => tidy

/-- The watched GIC does the same as the GIC. -/
theorem watches_handle {call : Call} :
    Watches (fun gic : GIC numNodes (Watch C) => gic.Tidy) (fun _ => Tidy)
      (handleWatched callbacks call) (handle callbacks call) := by
  intro gic tidy
  cases call with
  | handleIrq callingNode irq => exact watches_handleIrq gic tidy
  | handleMaintenance node index =>
      refine watches_handleMaintenance
        { gic with callbacks := gic.callbacks.free (node, index) } ⟨⟨?_, tidy.nodup⟩, ?_⟩
      · exact fun other place busy => tidy.isTaken other place (List.mem_filter.mp busy).1
      · intro busy
        exact of_decide_eq_true (List.mem_filter.mp busy).2 rfl
  | handleWrite callingNode offset data => exact watches_handleWrite gic tidy

/-! ## Runs -/

def WatchedRuns (callbacks : GICCallbacks ε C) (call : Call)
    (before after : GIC numNodes (Watch C)) : Prop :=
  Ends (handleWatched callbacks call) before after

theorem new_tidy {state : C} : (new numNodes (Watch.start state)).Tidy where
  isTaken _ _ busy := absurd busy List.not_mem_nil
  nodup node := by
    rw [overflow_of_new rfl]
    exact List.nodup_nil

variable {state : C} {taken : List (GIC numNodes C × Call)} {final : GIC numNodes C}

/-- A run of the GIC is a run of the watched one. -/
theorem run_watched (run : Recorded (Runs callbacks) (new numNodes state) taken final) :
    ∃ watchedTaken watched,
      Recorded (WatchedRuns callbacks) (new numNodes (Watch.start state)) watchedTaken watched ∧
      watchedTaken.map Prod.snd = taken.map Prod.snd ∧ watched.unwatched = final ∧ watched.Tidy := by
  induction run with
  | start => exact ⟨[], _, .start, rfl, rfl, new_tidy⟩
  | @step taken call before after run runs ih =>
      obtain ⟨watchedTaken, watched, watchedRun, calls, rfl, tidy⟩ := ih
      obtain ⟨next, watchedRuns, isAfter, nextTidy⟩ := watches_handle.ends tidy runs
      refine ⟨watchedTaken ++ [(watched, call)], next, watchedRun.step watchedRuns, ?_, isAfter,
        nextTidy⟩
      rw [List.map_append, List.map_append, calls]
      rfl

/-- In every run, no injection is into a slot past the last one, or into one that was injected into
since it was last maintained, and no queue has an interrupt twice. -/
theorem run_overwrites_nothing
    (run : Recorded (Runs callbacks) (new numNodes state) taken final) :
    (∃ watchedTaken watched,
      Recorded (WatchedRuns callbacks) (new numNodes (Watch.start state)) watchedTaken watched ∧
      watchedTaken.map Prod.snd = taken.map Prod.snd ∧ watched.unwatched = final ∧
      ∀ call after, handleWatched callbacks call watched ≠ .err (.callback .overwritten) after) ∧
    ∀ node, (final.overflow node).Nodup := by
  obtain ⟨watchedTaken, watched, watchedRun, calls, rfl, tidy⟩ := run_watched run
  refine ⟨⟨watchedTaken, watched, watchedRun, calls, rfl, fun call after overwrites => ?_⟩, tidy.nodup⟩
  obtain ⟨error, isError⟩ := watches_handle.isLifted tidy overwrites
  cases error with
  | irq error => simp [watchedFailure] at isError
  | callback error => simp [watchedFailure] at isError

/-- An injection into a slot that has not been maintained. -/
example : (Watch.callbacks silent).vcpuInjectIrq 0 0 2 33 0 ⟨(), [(0, 2)]⟩ =
    .err .overwritten ⟨(), [(0, 2)]⟩ := rfl

/-- Two interrupts are injected, the first of them ends, and it is injected again. -/
def injectedTwice : List Call :=
  [.handleWrite 0 0x000 (.word 1), .handleWrite 0 0x104 (.word 3), .handleIrq 0 (.spi 32),
    .handleIrq 0 (.spi 33), .handleMaintenance 0 0, .handleIrq 0 (.spi 32)]

theorem run_overwrites_nothing_injectedTwice :
    ∃ taken final, Recorded (Runs silent) (new 1 ()) taken final ∧
      taken.map Prod.snd = injectedTwice ∧ final.slot 0 0 = some 32 ∧
      ∃ watchedTaken watched,
        Recorded (WatchedRuns silent) (new 1 (Watch.start ())) watchedTaken watched ∧
        watchedTaken.map Prod.snd = injectedTwice ∧ watched.unwatched = final ∧
        ∀ call after, handleWatched silent call watched ≠ .err (.callback .overwritten) after := by
  obtain ⟨taken, final, run, calls, inSlot⟩ := silent_run 1 injectedTwice
    (fun run => decide (run.2.slot 0 0 = some 32)) (by decide +kernel)
  have runs := run.mono fun _ _ _ returns => Returns.runs returns
  obtain ⟨⟨watchedTaken, watched, watchedRun, sameCalls, erased, never⟩, _⟩ :=
    run_overwrites_nothing runs
  exact ⟨taken, final, runs, calls, of_decide_eq_true inSlot, watchedTaken, watched, watchedRun,
    sameCalls.trans calls, erased, never⟩

end Calls

end GIC

end IceCap.Gic
