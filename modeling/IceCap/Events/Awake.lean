import IceCap.Events.Bitfield
import IceCap.Events.Borrows

/-!
# Host events across a yield

While the host has yielded its node to a realm, the resource server is
subscribed to the host's in-space of that node, and is to be notified of any
event of the host.  An in-space notifies its subscriber when a bit goes from
clear to set, and subscribing does not look at the bits.
-/

set_option autoImplicit false

namespace IceCap.Events

open IceCap.Library IceCap.Sel4 FiniteSet

variable {K : Type}

/-! ## Slots are emptied -/

section Slots
variable {store final : Store K} {inSpace : InSpaceId}

theorem slotOf_withSlot_self (subscriber : Option Subscriber) {found : InSpace}
    (isFound : store.inSpaces[inSpace]? = some found) :
    (store.withSlot inSpace subscriber).slotOf inSpace = subscriber := by
  simp [Store.withSlot, Store.slotOf, isFound]

theorem slotOf_withSlot_none (other : InSpaceId) (isEmpty : store.slotOf inSpace = none) :
    (store.withSlot other none).slotOf inSpace = none := by
  unfold Store.slotOf at isEmpty ⊢
  rw [Store.withSlot, List.getElem?_modify]
  split
  · cases store.inSpaces[inSpace]? with
    | none => rfl
    | some found => rfl
  · cases isFound : store.inSpaces[inSpace]? with
    | none => rfl
    | some found =>
        rw [isFound] at isEmpty
        exact isEmpty

theorem setBit_slotOf {address index : Nat} {wasClear : Bool}
    (run : setBit address index store = .ok wasClear final) : final.inSpaces = store.inSpaces := by
  obtain ⟨_, rfl⟩ := Outcome.ok.inj run
  rfl

/-- A slot that is empty is empty after a signal. -/
theorem signalWithin_slotOf {depth : Nat} {borrowed : List InSpaceId} {event : EventId}
    (run : Event.signalWithin depth borrowed event store = .ok () final)
    (isEmpty : store.slotOf inSpace = none) : final.slotOf inSpace = none := by
  induction depth generalizing borrowed event store with
  | zero => cases run
  | succ depth ih =>
      rcases signalWithin_cases run with
        ⟨_, rfl⟩ | ⟨place, found, wasClear, marked, _, _, bitRun, ⟨_, rfl⟩ | ⟨_, nfn, below, _, isDepth, rest⟩⟩
      · exact isEmpty
      · rwa [Store.slotOf, setBit_slotOf bitRun]
      · obtain rfl := Nat.succ_inj.mp isDepth
        have stillEmpty : marked.slotOf inSpace = none := by
          rwa [Store.slotOf, setBit_slotOf bitRun]
        have emptied : ((marked.notify nfn).withSlot place.inSpace none).slotOf inSpace = none :=
          slotOf_withSlot_none place.inSpace stillEmpty
        cases isSlot : found.subscriptionSlot with
        | none =>
            rw [isSlot] at rest
            obtain ⟨_, rfl⟩ := Exec.pure_eq_ok.mp rest
            exact emptied
        | some subscriber =>
            rw [isSlot] at rest
            cases subscriber with
            | event subscriber => exact ih rest emptied
            | notification notified =>
                obtain ⟨_, rfl⟩ := Outcome.ok.inj rest
                exact emptied

end Slots

/-! ## Bits -/

section Bits
variable {store final : Store K}

theorem setBit_wasClear {address index : Nat} {wasClear : Bool}
    (isClear : (store.bitfield address).isSet (index % 2 ^ 32) = false)
    (run : setBit address index store = .ok wasClear final) : wasClear = true := by
  have isCast : setBit address index store = setBit address (index % 2 ^ 32) store := by
    unfold setBit
    rw [Nat.mod_mod]
  rw [isCast, setBit_eq (Nat.mod_lt _ (by decide)), Bitfield.set_fst, isClear] at run
  exact (Outcome.ok.inj run).1.symm

/-- No bit of an entry of the in-space is set. -/
def Store.Quiet (store : Store K) (found : InSpace) : Prop :=
  ∀ bit < found.entries.length, (store.bitfield found.notification.bitfield).isSet bit = false

theorem Store.Quiet.of_words {found : InSpace} (quiet : store.Quiet found) {word : Nat}
    (isSwapped : final.words = store.words.insert word 0) : final.Quiet found := by
  intro bit isBit
  have isClear := quiet bit isBit
  unfold Bitfield.isSet Store.bitfield at isClear ⊢
  rw [isSwapped]
  dsimp only
  rw [Std.TreeMap.getElem?_insert]
  split
  · exact BitVec.getLsbD_zero
  · exact isClear

/-- The event of a signal that arrives finds its bit clear where all bits are clear, and the slot is
empty after it. -/
theorem signal_empties {event : EventId} {place : EventTarget} {found : InSpace}
    (arrives : Arrives store event place found)
    (run : (Event.signal event).Ends store final) :
    final.slotOf place.inSpace = none ∨
      final.inSpaces = store.inSpaces ∧ ¬ store.Quiet found := by
  obtain ⟨_, _, getRun, run⟩ := Exec.Infallible.get.ends_bind run
  obtain ⟨rfl, rfl⟩ := Exec.get_eq_ok.mp getRun
  obtain ⟨⟨⟩, returned⟩ := (signalWithin_infallible _ _ _).ends run
  rcases signalWithin_cases returned with ⟨noTarget, _⟩ |
    ⟨other, held, wasClear, marked, isThere, _, bitRun, ⟨wasSet, rfl⟩ | ⟨_, nfn, below, _, _, rest⟩⟩
  · exact absurd (arrives.isTarget.symm.trans noTarget) (Option.some_ne_none _)
  · obtain rfl := Option.some.inj (arrives.isTarget.symm.trans isThere.isTarget)
    obtain rfl := Option.some.inj (arrives.isFound.symm.trans isThere.isFound)
    right
    refine ⟨setBit_slotOf bitRun, fun quiet => ?_⟩
    obtain ⟨entry, isEntry⟩ := arrives.isEntry
    have isIndex := (List.getElem?_eq_some_iff.mp isEntry).1
    have isClear := quiet (place.index % 2 ^ 32) (lt_of_le_of_lt (Nat.mod_le _ _) isIndex)
    exact Bool.noConfusion (wasSet.symm.trans (setBit_wasClear isClear bitRun))
  · obtain rfl := Option.some.inj (arrives.isTarget.symm.trans isThere.isTarget)
    left
    obtain ⟨last, isLast⟩ : ∃ last : InSpace, (marked.notify nfn).inSpaces[place.inSpace]? = some last :=
      ⟨held, (congrArg (·[place.inSpace]?) (setBit_slotOf bitRun)).trans isThere.isFound⟩
    have emptied := slotOf_withSlot_self none isLast
    cases isSlot : held.subscriptionSlot with
    | none =>
        rw [isSlot] at rest
        obtain ⟨_, rfl⟩ := Exec.pure_eq_ok.mp rest
        exact emptied
    | some subscriber =>
        rw [isSlot] at rest
        cases subscriber with
        | event subscriber => exact signalWithin_slotOf rest emptied
        | notification notified =>
            obtain ⟨_, rfl⟩ := Outcome.ok.inj rest
            exact emptied

end Bits

/-! ## Turns -/

/-- What happens at a host node while the host has yielded it, or is about to. -/
inductive Turn where
  | signal (event : EventId)
  | clear (word : Nat)
  | subscribe (nid : Nat)
  | unsubscribe (nid : Nat)
  deriving DecidableEq, Repr

/-- The in-space of a host node. -/
def System.hostInSpace (hostNid : Nat) (inSpace : InSpaceId) (found : InSpace) (system : System K) :
    Prop :=
  system.server.host.inSpaces[hostNid]? = some inSpace ∧ system.store.inSpaces[inSpace]? = some found

/-- The signals are those that come to the in-space of the node. -/
def Turns (kernel : Kernel K) (hostNid : Nat) : Turn → System K → System K → Prop
  | .signal event, before, after => ∃ place found,
      before.hostInSpace hostNid place.inSpace found ∧ Arrives before.store event place found ∧
      (onStore (Event.signal event)).Ends before after
  | .clear word, before, after => after = before.swap word
  | .subscribe nid, before, after =>
      (handle kernel (.resourceServerSubscribe nid hostNid)).Ends before after
  | .unsubscribe nid, before, after =>
      (handle kernel (.resourceServerUnsubscribe nid hostNid)).Ends before after

/-- The slot holds a subscriber of the resource server. -/
def System.Subscribed (found : InSpace) (system : System K) : Prop :=
  ∃ entry ∈ system.server.resourceServerSubscriptions, found.subscriptionSlot = some entry.subscriber

/-- Where the resource server is subscribed to the node no bit is set. -/
def System.Awake (hostNid : Nat) (system : System K) : Prop :=
  ∀ inSpace found, system.hostInSpace hostNid inSpace found → system.Subscribed found →
    system.store.Quiet found

/-- A subscription is made where no bit is set. -/
def Turn.InTime (hostNid : Nat) (system : System K) : Turn → Prop
  | .subscribe _ => ∀ inSpace found, system.hostInSpace hostNid inSpace found →
      system.store.Quiet found
  | _ => True

section Turns
variable {kernel : Kernel K} {hostNid : Nat} {before after : System K}

theorem signal_awake {event : EventId} (awake : before.Awake hostNid)
    (turned : Turns kernel hostNid (.signal event) before after) : after.Awake hostNid := by
  obtain ⟨place, found, ⟨isHost, isFound⟩, arrives, run⟩ := turned
  obtain ⟨store, signalled, rfl⟩ := Exec.ends_focus.mp run
  intro inSpace last isLast subscribed
  obtain ⟨isHostStill, isLast⟩ := isLast
  obtain rfl := Option.some.inj (isHost.symm.trans isHostStill)
  cases signal_empties arrives signalled with
  | inl emptied =>
      obtain ⟨entry, _, isSlot⟩ := subscribed
      dsimp only at isLast
      rw [Store.slotOf, isLast] at emptied
      exact absurd (isSlot.symm.trans emptied) (Option.some_ne_none _)
  | inr unchanged =>
      obtain ⟨sameInSpaces, notQuiet⟩ := unchanged
      dsimp only at isLast
      rw [sameInSpaces] at isLast
      obtain rfl := Option.some.inj (isFound.symm.trans isLast)
      exact absurd (awake _ _ ⟨isHost, isFound⟩ subscribed) notQuiet

theorem clear_awake {word : Nat} (awake : before.Awake hostNid) :
    (before.swap word).Awake hostNid := by
  intro inSpace found isFound subscribed
  exact Store.Quiet.of_words (awake inSpace found isFound subscribed) rfl

theorem unsubscribe_awake {nid : Nat}
    (turned : Turns kernel hostNid (.unsubscribe nid) before after) : after.Awake hostNid := by
  obtain ⟨⟨⟩, returned⟩ := (EventServer.resourceServerUnsubscribe_infallible nid hostNid).ends turned
  simp only [EventServer.resourceServerUnsubscribe, onStore, modifyServer, Exec.bind_eq_ok,
    Exec.get_eq_ok, Exec.unwrap_eq_ok, Exec.focus_eq_ok, Exec.modify_eq_ok] at returned
  obtain ⟨_, _, ⟨rfl, rfl⟩, inSpace, _, ⟨isInSpace, rfl⟩, found, _, ⟨_, readRun, rfl⟩, ⟨⟩, _,
    ⟨_, slotRun, rfl⟩, entry, _, ⟨_, rfl⟩, rfl⟩ := returned
  obtain ⟨isFound, rfl⟩ := Exec.reads_eq_ok.mp readRun
  obtain ⟨_, rfl⟩ := Outcome.ok.inj slotRun
  intro other last isLast subscribed
  obtain ⟨isHost, isLast⟩ := isLast
  obtain rfl := Option.some.inj (isInSpace.symm.trans isHost)
  obtain ⟨held, _, isSlot⟩ := subscribed
  have emptied := slotOf_withSlot_self none isFound
  have isHeld : (before.store.withSlot inSpace none).inSpaces[inSpace]? = some last := isLast
  rw [Store.slotOf, isHeld] at emptied
  exact absurd (isSlot.symm.trans emptied) (Option.some_ne_none _)

theorem subscribe_awake_iff {nid : Nat}
    (turned : Turns kernel hostNid (.subscribe nid) before after) :
    after.Awake hostNid ↔ (Turn.subscribe nid).InTime hostNid before := by
  have subscribes : (Action.request (.resourceServerSubscribe nid hostNid)).Subscribes
      .resourceServer nid := ⟨rfl, rfl⟩
  obtain ⟨inSpace, found, asks, isFound⟩ := Asks.of_ends subscribes turned
  obtain ⟨entry, isEntry, handled⟩ := asks.handle_eq kernel isFound
  have isHost : before.server.host.inSpaces[hostNid]? = some inSpace := by
    cases asks with
    | resourceServer isInSpace _ => exact isInSpace
  split_ifs at handled with free
  · rw [turned.of_ok handled]
    have isHeld : (before.store.withSlot inSpace (some entry.subscriber)).inSpaces[inSpace]? =
        some { found with subscriptionSlot := some entry.subscriber } := by
      rw [Store.withSlot, List.getElem?_modify_eq, isFound]
      rfl
    have member := List.mem_of_getElem? (@hold_subscriptions .resourceServer nid inSpace
      before.server entry isEntry)
    constructor
    · intro awake other last isLast
      obtain ⟨isHostStill, isLast⟩ := isLast
      obtain rfl := Option.some.inj (isHost.symm.trans isHostStill)
      obtain rfl := Option.some.inj (isFound.symm.trans isLast)
      have quiet := awake inSpace _ ⟨isHost, isHeld⟩ ⟨_, member, rfl⟩
      exact quiet
    · intro inTime other last isLast subscribed
      obtain ⟨isHostStill, isLast⟩ := isLast
      obtain rfl := Option.some.inj (isHost.symm.trans isHostStill)
      obtain rfl := Option.some.inj (isHeld.symm.trans isLast)
      exact inTime inSpace found ⟨isHost, isFound⟩
  · exact absurd handled turned.ne_panic

theorem turn_awake_iff (turn : Turn) (awake : before.Awake hostNid)
    (turned : Turns kernel hostNid turn before after) :
    after.Awake hostNid ↔ turn.InTime hostNid before := by
  cases turn with
  | signal event => exact iff_of_true (signal_awake awake turned) trivial
  | clear word =>
      rw [turned]
      exact iff_of_true (clear_awake awake) trivial
  | subscribe nid => exact subscribe_awake_iff turned
  | unsubscribe nid => exact iff_of_true (unsubscribe_awake turned) trivial

end Turns

/-! ## Runs -/

/-- Nobody has subscribed at first. -/
theorem realize_awake {kernel : Kernel K} {numActiveCores : Nat} {config : EventServerConfig}
    {kernelState : K} {server : EventServer} {store : Store K} (hostNid : Nat)
    (realized : config.realize kernel numActiveCores (Store.empty kernelState) = .ok server store) :
    System.Awake hostNid ⟨server, store⟩ := by
  intro inSpace found isFound subscribed
  obtain ⟨entry, _, isSlot⟩ := subscribed
  have isHeld : store.slots[inSpace]? = some found.subscriptionSlot := by
    rw [Store.slots, List.getElem?_map, isFound.2]
    rfl
  rw [(realize_slots realized).2] at isHeld
  have isNone := List.eq_of_mem_replicate (List.mem_of_getElem? isHeld)
  exact absurd (isSlot.symm.trans isNone) (Option.some_ne_none _)

/-- No event of the host is missed in a run exactly if the resource server never subscribes to a node
that has a bit set. -/
theorem run_awake_iff {kernel : Kernel K} {numActiveCores : Nat} {config : EventServerConfig}
    {kernelState : K} {server : EventServer} {store : Store K} {hostNid : Nat} {system : System K}
    {taken : List (System K × Turn)}
    (realized : config.realize kernel numActiveCores (Store.empty kernelState) = .ok server store)
    (run : Recorded (Turns kernel hostNid) ⟨server, store⟩ taken system) :
    Recorded.Throughout (Turns kernel hostNid) ⟨server, store⟩ taken (System.Awake hostNid) ↔
      ∀ entry ∈ taken, entry.2.InTime hostNid entry.1 :=
  Recorded.holds_iff (realize_awake hostNid realized)
    (fun turn _ _ awake turned => turn_awake_iff turn awake turned) run

/-! ## An event that is missed -/

instance Store.decidableQuiet (store : Store K) (found : InSpace) : Decidable (store.Quiet found) :=
  inferInstanceAs (Decidable (∀ bit < found.entries.length,
    (store.bitfield found.notification.bitfield).isSet bit = false))

/-- The turn where it returns. -/
def Turn.perform (kernel : Kernel K) (hostNid : Nat) : Turn → System K → Option (System K)
  | .signal event, system =>
      (system.store.targetOf event).bind fun place =>
        (system.store.inSpaces[place.inSpace]?).bind fun found =>
          if system.server.host.inSpaces[hostNid]? = some place.inSpace ∧
              (found.entries[place.index]?).join ≠ none then
            (onStore (Event.signal event) system).returned
          else none
  | .clear word, system => some (system.swap word)
  | .subscribe nid, system => (handle kernel (.resourceServerSubscribe nid hostNid) system).returned
  | .unsubscribe nid, system => (handle kernel (.resourceServerUnsubscribe nid hostNid) system).returned

theorem perform_turns {kernel : Kernel K} {hostNid : Nat} (turn : Turn) (before after : System K)
    (performed : turn.perform kernel hostNid before = some after) :
    Turns kernel hostNid turn before after := by
  cases turn with
  | signal event =>
      obtain ⟨place, isTarget, performed⟩ := Option.bind_eq_some_iff.mp performed
      obtain ⟨found, isFound, performed⟩ := Option.bind_eq_some_iff.mp performed
      split_ifs at performed with comes
      obtain ⟨value, run⟩ := Outcome.returned_eq_some.mp performed
      obtain ⟨entry, isEntry⟩ := Option.ne_none_iff_exists'.mp comes.2
      have arrives : Arrives before.store event place found :=
        ⟨isTarget, isFound, entry, Option.join_eq_some_iff.mp isEntry⟩
      exact ⟨place, found, ⟨comes.1, isFound⟩, arrives, .inl ⟨value, run⟩⟩
  | clear word => exact (Option.some.inj performed).symm
  | subscribe nid =>
      obtain ⟨value, run⟩ := Outcome.returned_eq_some.mp performed
      exact .inl ⟨value, run⟩
  | unsubscribe nid =>
      obtain ⟨value, run⟩ := Outcome.returned_eq_some.mp performed
      exact .inl ⟨value, run⟩

theorem exampleSystem_turns (turns : List Turn)
    (check : List (System Unit × Turn) × System Unit → Bool)
    (evaluates : (exampleSystem.bind fun system =>
      Recorded.record (Turn.perform permissive 0) turns system).any check = true) :
    ∃ first taken system,
      exampleConfig.realize permissive 2 (Store.empty ()) = .ok first.server first.store ∧
      Recorded (Turns permissive 0) first taken system ∧ taken.map Prod.snd = turns ∧
      check (taken, system) = true := by
  obtain ⟨⟨taken, system⟩, isRun, checked⟩ := (Option.any_eq_true _ _).mp evaluates
  obtain ⟨first, isFirst, recorded⟩ := Option.bind_eq_some_iff.mp isRun
  exact ⟨first, taken, system, exampleSystem_realized isFirst,
    Recorded.ofRecord perform_turns .start recorded, Recorded.record_events recorded, checked⟩

/-- The resource server subscribes before an event comes. -/
theorem run_awake_iff_exampleConfig : ∃ first taken system,
    exampleConfig.realize permissive 2 (Store.empty ()) = .ok first.server first.store ∧
    Recorded (Turns permissive 0) first taken system ∧
    taken.map Prod.snd = [.subscribe 0, .signal 12] ∧
    Recorded.Throughout (Turns permissive 0) first taken (System.Awake 0) := by
  obtain ⟨first, taken, system, realized, run, isTaken, checked⟩ := exampleSystem_turns
    [.subscribe 0, .signal 12]
    (fun run => run.1.all fun entry => decide (entry.1.server.host.inSpaces = [0, 1]) &&
      (entry.1.store.inSpaces[0]?).all fun found => decide (entry.1.store.Quiet found))
    (by decide +kernel)
  refine ⟨first, taken, system, realized, run, isTaken, (run_awake_iff realized run).mpr ?_⟩
  intro entry member
  obtain ⟨isHost, quiet⟩ := Bool.and_eq_true_iff.mp (List.all_eq_true.mp checked entry member)
  cases entry.2 with
  | subscribe nid =>
      intro inSpace found isFound
      obtain ⟨isInSpace, isFound⟩ := isFound
      rw [of_decide_eq_true isHost] at isInSpace
      obtain rfl := Option.some.inj isInSpace
      rw [isFound] at quiet
      exact of_decide_eq_true quiet
  | signal event => trivial
  | clear word => trivial
  | unsubscribe nid => trivial

/-- An event comes and then the resource server subscribes: it is not notified. -/
theorem event_missed : ∃ first taken system,
    exampleConfig.realize permissive 2 (Store.empty ()) = .ok first.server first.store ∧
    Recorded (Turns permissive 0) first taken system ∧
    taken.map Prod.snd = [.signal 12, .subscribe 0] ∧ ¬ system.Awake 0 := by
  obtain ⟨first, taken, system, realized, run, isTaken, checked⟩ := exampleSystem_turns
    [.signal 12, .subscribe 0]
    (fun run => decide (run.2.server.host.inSpaces = [0, 1]) &&
      decide (run.2.server.resourceServerSubscriptions =
        [⟨.notification 5, some 0⟩, ⟨.notification 6, none⟩]) &&
      (run.2.store.inSpaces[0]?).any fun found : InSpace =>
        decide (found.subscriptionSlot = some (.notification 5) ∧ ¬ run.2.store.Quiet found))
    (by decide +kernel)
  obtain ⟨both, checked⟩ := Bool.and_eq_true_iff.mp checked
  obtain ⟨isHost, entries⟩ := Bool.and_eq_true_iff.mp both
  obtain ⟨found, isFound, checked⟩ := (Option.any_eq_true _ _).mp checked
  obtain ⟨isSlot, notQuiet⟩ := of_decide_eq_true checked
  refine ⟨first, taken, system, realized, run, isTaken, fun awake => notQuiet ?_⟩
  apply awake 0 found
  · refine ⟨?_, isFound⟩
    rw [of_decide_eq_true isHost]
    rfl
  · rw [System.Subscribed, of_decide_eq_true entries]
    exact ⟨_, List.mem_cons_self, isSlot⟩

end IceCap.Events
