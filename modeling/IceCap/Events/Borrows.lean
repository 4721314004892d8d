import IceCap.Events.Reentry

/-!
# No in-space is borrowed twice

What `realize` sets up is in two layers, and every request keeps it so.  The new
in-spaces of a realm are never the host's, and the events that are set aside for
a realm are none of those that subscribe for the host.
-/

set_option autoImplicit false

namespace IceCap.Events

open IceCap.Library IceCap.Sel4 FiniteSet

variable {K : Type}

/-- The subscribers of a party. -/
def System.subscribers (party : Party) (system : System K) : List Subscriber :=
  (system.server.subscriptions party).map SubscriptionEntry.subscriber

/-- What a party may have subscribe for it. -/
def Layers.MaySubscribeFor (layers : Layers) : Party → Subscriber → Prop
  | .host, subscriber => ∃ event ∈ layers.subscribers, subscriber = .event event
  | .resourceServer, subscriber => ∃ nfn, subscriber = .notification nfn

structure System.Layered (layers : Layers) (system : System K) : Prop where
  store : Events.Layered layers system.store
  bounded : ∀ inSpace ∈ layers.hostIn, inSpace < system.store.inSpaces.length
  inSpaces : ∀ client, ∀ inSpace ∈ system.server.layout.inSpacesOf client,
    inSpace ∈ layers.hostIn ↔ client = .host
  setAside : ∀ rid event, system.server.layout.inEntries rid event →
    event < layers.limit ∧ event ∉ layers.subscribers
  subscribers : ∀ party, ∀ subscriber ∈ system.subscribers party,
    layers.MaySubscribeFor party subscriber

section Requests
variable {layers : Layers} {kernel : Kernel K} {system final : System K}

theorem handle_spares_subscribers {party : Party} {request : Request} :
    Exec.Spares (System.subscribers party) (handle kernel request) := by
  have leaves : request.Leaves fun server =>
      (server.subscriptions party).map SubscriptionEntry.subscriber := by
    constructor
    · intro _ realms server
      cases party <;> rfl
    · intro nid _ _ _ slot server
      cases party with
      | host => exact map_modify_of_same fun _ => rfl
      | resourceServer => rfl
    · intro nid _ _ slot server
      cases party with
      | host => rfl
      | resourceServer => exact map_modify_of_same fun _ => rfl
  exact handle_spares_server leaves

/-- A client has no in-spaces but the host's, or none of them. -/
theorem System.Layered.oneSided {clientId : ClientId} {client : Client}
    (layered : system.Layered layers) (isClient : system.server.client clientId = some client) :
    layers.OneSided client := by
  have isOwner : ∀ inSpace ∈ client.inSpaces,
      inSpace ∈ system.server.layout.inSpacesOf clientId := by
    intro inSpace isOwn
    simpa [EventServer.layout, isClient] using isOwn
  intro first isFirst second isSecond isHosts
  apply (layered.inSpaces clientId second (isOwner second isSecond)).mpr
  exact (layered.inSpaces clientId first (isOwner first isFirst)).mp isHosts

/-- What subscribes to an in-space may do so. -/
theorem Asks.maySubscribe {party : Party} {nid : Nat} {inSpace : InSpaceId} {request : Request}
    {entry : SubscriptionEntry} (layered : system.Layered layers)
    (asks : Asks system party nid inSpace request)
    (isEntry : system.subscription party nid = some entry) :
    layers.MaySubscribe inSpace entry.subscriber := by
  have isSubscriber : entry.subscriber ∈ system.subscribers party :=
    List.mem_map_of_mem (List.mem_of_getElem? isEntry)
  have may := layered.subscribers party entry.subscriber isSubscriber
  cases asks with
  | @host _ rid _ realm _ _ isRealm isInSpace =>
      obtain ⟨event, isEvent, isSame⟩ := may
      rw [isSame]
      refine ⟨fun isHosts => ?_, isEvent⟩
      have isOwn : inSpace ∈ system.server.layout.inSpacesOf (.realm rid) := by
        simpa [EventServer.layout, EventServer.client, isRealm] using List.mem_of_getElem? isInSpace
      have isHost := (layered.inSpaces (.realm rid) inSpace isOwn).mp isHosts
      simp at isHost
  | resourceServer =>
      obtain ⟨nfn, isSame⟩ := may
      rw [isSame]
      trivial

theorem System.Layered.allows (layered : system.Layered layers) :
    layers.confines.Allows system where
  uniform clientId client isClient first isFirst event mayBe second isSecond := by
    have isHosts : event ∈ layers.subscribers → second ∈ layers.hostIn := fun isSubscriber =>
      layered.oneSided isClient first isFirst second isSecond (mayBe.2 isSubscriber)
    exact ⟨⟨mayBe.1, isHosts⟩, isHosts⟩
  subscribers := Asks.maySubscribe layered

theorem Act.layered_store {action : Action} (layered : system.Layered layers)
    (moved : Act kernel action system final) : Layered layers final.store := by
  have confined : Confined layers.confines final.store := by
    refine moved.confined (fun _ => layered.allows) ?_ layered.store.confined
    intro rid numNodes _ event isSetAside inSpace _
    obtain ⟨limited, isNone⟩ := layered.setAside rid event isSetAside
    exact ⟨⟨limited, fun isSubscriber => absurd isSubscriber isNone⟩,
      fun isSubscriber => absurd isSubscriber isNone⟩
  exact confined.layered (moved.numEvents ▸ layered.store.limited)

theorem Act.sameSubscribers {action : Action} (party : Party)
    (moved : Act kernel action system final) :
    final.subscribers party = system.subscribers party := by
  cases action with
  | swap word =>
      rw [moved]
      rfl
  | request request => exact handle_spares_subscribers _ _ moved

theorem Act.layered {action : Action} (layered : system.Layered layers)
    (moved : Act kernel action system final) : final.Layered layers := by
  have grown := moved.extends
  refine ⟨moved.layered_store layered, ?_, ?_, ?_, ?_⟩
  · intro inSpace isHosts
    exact Nat.lt_of_lt_of_le (layered.bounded inSpace isHosts) grown.grows
  · intro client inSpace isOwner
    rcases grown.inSpaces client with same | ⟨notHost, n, isNew, _⟩
    · rw [same] at isOwner
      exact layered.inSpaces client inSpace isOwner
    -- A new in-space is not one of the host's, which have all been there before.
    · refine iff_of_false (fun isHosts => ?_) notHost
      rw [isNew, List.mem_range'_1] at isOwner
      exact absurd (layered.bounded inSpace isHosts) (Nat.not_lt_of_le isOwner.1)
  · rw [grown.inEntries]
    exact layered.setAside
  · intro party
    rw [moved.sameSubscribers party]
    exact layered.subscribers party

end Requests

/-! ## The layers at first -/

/-- A part of the store that making and placing events leaves alone. -/
structure Unconnected {β : Type} (view : Store K → β) : Prop extends Unplaced view where
  made : ∀ irq, Exec.Spares view (newEvent irq)

section Realize
variable {kernel : Kernel K} {host : Client} {β : Type} {view : Store K → β}

theorem assignInEntry_spares {inactiveRealms : InactiveRealms} {realmId : RealmId} {input : RealmIn}
    {event : EventId} : Exec.Spares view (assignInEntry inactiveRealms realmId input event) :=
  .bind (.unwrap _) fun _ => .bind (.assert _) fun _ => .pure _

theorem connectHostOut_spares {inactiveRealms : InactiveRealms} {outIndex : Nat} {event : EventId} :
    Exec.Spares view (connectHostOut inactiveRealms outIndex event) := by
  refine .bind (.unwrap _) fun out => ?_
  obtain ⟨realmId, ringBufferId⟩ := out
  exact assignInEntry_spares

namespace Unconnected

variable (unconnected : Unconnected view)
include unconnected

theorem connectToHost {event : EventId} {input : HostIn} :
    Exec.Spares view (connectToHost host event input) :=
  .bind (.unwrap _) fun _ => unconnected.connect

theorem connectResourceServerOut {outIndex : Nat} {event : EventId} :
    Exec.Spares view (connectResourceServerOut host outIndex event) := by
  refine .bind (.unwrap _) fun out => ?_
  cases out with
  | hostRingBuffer => exact unconnected.connectToHost

theorem connectSerialServerOut {inactiveRealms : InactiveRealms} {outIndex : Nat}
    {event : EventId} :
    Exec.Spares view (connectSerialServerOut host inactiveRealms outIndex event) := by
  refine .bind (.unwrap _) fun out => ?_
  rcases out with ⟨_ | realmId⟩
  · exact .bind unconnected.connectToHost fun _ => .pure _
  · exact assignInEntry_spares

theorem connectRealmOut {realmId : RealmId} {outIndex : Nat} {event : EventId} :
    Exec.Spares view (connectRealmOut host realmId outIndex event) := by
  refine .bind (.unwrap _) fun out => ?_
  obtain ⟨ringBufferId⟩ := out
  exact .bind (.unwrap _) fun _ => unconnected.connectToHost

theorem mkOutSpace {n : Nat} : Exec.Spares view (mkOutSpace n) :=
  .mapEach fun _ => unconnected.made _

theorem newInactiveRealm {config : EventServerConfig} {realmId : RealmId} :
    Exec.Spares view (config.newInactiveRealm realmId) :=
  .bind unconnected.mkOutSpace fun _ => .bind (.unwrap _) fun _ => .pure _

theorem newHostSubscription {nodeIndex : Nat} :
    Exec.Spares view (newHostSubscription host nodeIndex) :=
  .bind (unconnected.made _) fun _ => .bind (.unwrap _) fun _ =>
    .bind unconnected.connect fun _ => .pure _

theorem newIrqEvent {irq : Nat} {handler : CPtr} {notifications : List CPtr} :
    Exec.Spares view (newIrqEvent kernel host irq handler notifications) :=
  .bind unconnected.onKernel fun _ => .bind (unconnected.made _) fun _ =>
    .bind unconnected.connectToHost fun _ => .pure _

/-- Of such a part, `realize` changes only what comes of the host's new in-spaces. -/
theorem realize {numActiveCores : Nat} {config : EventServerConfig} {kernelState : K}
    {server : EventServer} {store : Store K}
    (realized : config.realize kernel numActiveCores (Store.empty kernelState) = .ok server store) :
    ∃ first last, view first = view (Store.empty kernelState) ∧
      Exec.mapEach (List.range numActiveCores) (fun nodeIndex => do
        let notification ← Exec.unwrap config.hostNotifications[nodeIndex]?
        newInSpace ⟨List.replicate (Finite.cardinality HostIn) none, notification, none⟩) first =
          .ok server.host.inSpaces last ∧
      view store = view last := by
  simp only [EventServerConfig.realize, EventServerConfig.newHost, Exec.bind_eq_ok,
    Exec.pure_eq_ok] at realized
  obtain ⟨_, made, resourceServerRun, _, made', serialServerRun, host, made'', ⟨_, first, outRun,
    inSpaces, last, inRun, rfl, rfl⟩, _, opened, realmsRun, ⟨⟩, _, resourceServerLoop, _, _,
    serialServerLoop, _, _, hostLoop, ⟨⟩, _, realmsLoop, _, _, subscriptionsRun, _, _, irqsRun,
    rfl, rfl⟩ := realized
  have atFirst : view first = view (Store.empty kernelState) := by
    rw [unconnected.mkOutSpace.keeps _ _ _ outRun, unconnected.mkOutSpace.keeps _ _ _ serialServerRun,
      unconnected.mkOutSpace.keeps _ _ _ resourceServerRun]
  refine ⟨first, last, atFirst, inRun, ?_⟩
  have realms := Exec.Keeps.mapEach (fun _ => unconnected.newInactiveRealm.keeps) _ _ _ realmsRun
  have resourceServer := Exec.Keeps.forEach
    (fun _ => unconnected.connectResourceServerOut.keeps) _ _ _ resourceServerLoop
  have serialServer := Exec.Keeps.foldEach
    (fun _ _ => unconnected.connectSerialServerOut.keeps) _ _ _ serialServerLoop
  have hostOut : view _ = view _ :=
    Exec.Keeps.foldEach (fun _ _ => connectHostOut_spares.keeps) _ _ _ hostLoop
  have realmsOut := Exec.Keeps.forEach
    (fun _ => .forEach fun _ => unconnected.connectRealmOut.keeps) _ _ _ realmsLoop
  have subscriptions := Exec.Keeps.mapEach
    (fun _ => unconnected.newHostSubscription.keeps) _ _ _ subscriptionsRun
  have irqs := Exec.Keeps.mapEach (fun _ => unconnected.newIrqEvent.keeps) _ _ _ irqsRun
  rw [irqs, subscriptions, realmsOut, hostOut, serialServer, resourceServer, realms]

end Unconnected

theorem unconnected_slots : Unconnected (Store.slots (K := K)) where
  toUnplaced := unplaced_slots
  made _ store final run := by
    rw [run.of_ok rfl]
    rfl

/-- The host has all in-spaces, and nobody has subscribed. -/
theorem realize_slots {numActiveCores : Nat} {config : EventServerConfig} {kernelState : K}
    {server : EventServer} {store : Store K}
    (realized : config.realize kernel numActiveCores (Store.empty kernelState) = .ok server store) :
    server.host.inSpaces = List.range numActiveCores ∧
      store.slots = List.replicate numActiveCores none := by
  obtain ⟨first, last, noSlots, inRun, same⟩ := unconnected_slots.realize realized
  have noSlots : first.slots = [] := noSlots
  have noInSpaces : first.inSpaces.length = 0 := by
    simpa [Store.slots] using congrArg List.length noSlots
  have hostSlots := newInSpaces_slots _ inRun
  obtain ⟨areIds, _⟩ := newInSpaces_routes _ inRun
  rw [noSlots, List.nil_append, List.length_range] at hostSlots
  refine ⟨?_, same.trans hostSlots⟩
  rw [areIds, noInSpaces, List.length_range, List.range_eq_range']

/-- The layers of what `realize` sets up. -/
def realizedLayers (server : EventServer) (store : Store K) : Layers where
  hostIn := server.host.inSpaces
  subscribers := server.hostSubscriptions.filterMap fun entry =>
    match entry.subscriber with
    | .event event => some event
    | .notification _ => none
  limit := store.events.length

theorem mem_subscribers {server : EventServer} {store : Store K} {event : EventId} :
    event ∈ (realizedLayers server store).subscribers ↔
      ∃ entry ∈ server.hostSubscriptions, entry.subscriber = .event event := by
  simp only [realizedLayers, List.mem_filterMap]
  refine exists_congr fun entry => and_congr_right fun _ => ?_
  cases entry.subscriber <;> simp

theorem realize_layered {numActiveCores : Nat} {config : EventServerConfig} {kernelState : K}
    {server : EventServer} {store : Store K}
    (realized : config.realize kernel numActiveCores (Store.empty kernelState) = .ok server store) :
    System.Layered (realizedLayers server store) ⟨server, store⟩ := by
  obtain ⟨isHosts, noSlots⟩ := realize_slots realized
  obtain ⟨sameLayout, ⟨outOf, setup⟩, subscribe, notified, _⟩ := realize_setup realized
  have numInSpaces : store.inSpaces.length = numActiveCores := by
    simpa [Store.slots] using congrArg List.length noSlots
  refine ⟨⟨?_, ?_, ?_, Nat.le_refl _⟩, ?_, ?_, ?_, ?_⟩
  · intro place event isEvent
    have isThere : place.inSpace < store.inSpaces.length := by
      obtain ⟨found, isFound, _⟩ := Option.bind_eq_some_iff.mp isEvent
      exact (List.getElem?_eq_some_iff.mp isFound).1
    have isHosts : place.inSpace ∈ server.host.inSpaces := by
      rwa [isHosts, List.mem_range, ← numInSpaces]
    have isTarget := (setup.coherent.routed.agree event place ⟨.host, isHosts⟩).mpr isEvent
    obtain ⟨found, isFound, _⟩ := Option.bind_eq_some_iff.mp isTarget
    exact ⟨(List.getElem?_eq_some_iff.mp isFound).1, fun _ => isHosts⟩
  · intro event place _ isTarget
    obtain ⟨client, isClient⟩ := setup.coherent.targetsLive event place isTarget
    exact (mem_setupLayout.mp isClient).2
  · intro inSpace subscriber isSlot
    rw [slotOf_eq_slots, noSlots, List.getElem?_replicate] at isSlot
    split at isSlot <;> simp at isSlot
  · intro inSpace isHost
    simp only [realizedLayers, isHosts, List.mem_range] at isHost
    exact numInSpaces ▸ isHost
  · intro client inSpace isOwner
    rw [sameLayout, mem_setupLayout] at isOwner
    exact iff_of_true isOwner.2 isOwner.1
  · intro rid event isSetAside
    refine ⟨setup.known rid event (sameLayout ▸ isSetAside), fun isSubscriber => ?_⟩
    obtain ⟨entry, isEntry, isEvent⟩ := mem_subscribers.mp isSubscriber
    obtain ⟨other, isOther, free⟩ := subscribe entry isEntry
    obtain rfl := Subscriber.event.inj (isEvent.symm.trans isOther)
    exact free rid isSetAside
  · intro party subscriber isSubscriber
    obtain ⟨entry, isEntry, rfl⟩ := List.mem_map.mp isSubscriber
    cases party with
    | host =>
        obtain ⟨event, isEvent, _⟩ := subscribe entry isEntry
        exact ⟨event, mem_subscribers.mpr ⟨entry, isEntry, isEvent⟩, isEvent⟩
    | resourceServer =>
        rw [System.server, EventServer.subscriptions, notified] at isEntry
        obtain ⟨nfn, _, rfl⟩ := List.mem_map.mp isEntry
        exact ⟨nfn, rfl⟩

end Realize

/-! ## Signals in a run -/

section Runs
variable {kernel : Kernel K} {numActiveCores : Nat} {config : EventServerConfig} {kernelState : K}
  {server : EventServer} {store : Store K} {taken : List (System K × Action)} {system : System K}

theorem run_layered
    (realized : config.realize kernel numActiveCores (Store.empty kernelState) = .ok server store)
    (run : Recorded (Act kernel) ⟨server, store⟩ taken system) :
    system.Layered (realizedLayers server store) :=
  run.always (realize_layered realized) fun _ _ _ layered moved => moved.layered layered

/-- In no state of a run does a signal come to a third in-space, or to one that is borrowed; so the
watched signal is the signal itself. -/
theorem run_signal_reenters_none
    (realized : config.realize kernel numActiveCores (Store.empty kernelState) = .ok server store)
    (run : Recorded (Act kernel) ⟨server, store⟩ taken system) (event : EventId) :
    (∀ final, signalWatched 2 [] event system.store ≠ .err .reentered final) ∧
    (∀ final, signalWatched 2 [] event system.store ≠ .err .third final) ∧
    signalWatched 2 [] event system.store = ofServer (Event.signal event) system.store := by
  have layered : LayeredIn (realizedLayers server store) system.store.inSpaces.length system.store :=
    ⟨(run_layered realized run).store, rfl⟩
  refine ⟨fun final failed => ?_, fun final failed => ?_, ?_⟩
  · obtain ⟨failure, isSame⟩ := watched_event.isLifted layered failed
    simp at isSame
  · obtain ⟨failure, isSame⟩ := watched_event.isLifted layered failed
    simp at isSame
  · have isSignal : Event.signal event system.store =
        Event.signalWithin (system.store.inSpaces.length + 1) [] event system.store := rfl
    rw [watched_event.eq_mapErr layered, ofServer, Exec.mapErr, Exec.mapErr, isSignal]

end Runs

def goesThird (depth : Nat) (event : EventId) (store : Store Unit) : Bool :=
  match signalWatched depth [] event store with
  | .err .third _ => true
  | _ => false

/-- The host has subscribed to a realm that is then signalled: the signal comes to two in-spaces. -/
theorem run_signal_reenters_none_exampleConfig : ∃ first taken system,
    exampleConfig.realize permissive 2 (Store.empty ()) = .ok first.server first.store ∧
    Recorded (Act permissive) first taken system ∧
    taken.map Prod.snd = [.request (.createRealm 0 1), .request (.hostSubscribe 0 0 0)] ∧
    signalWatched 2 [] 4 system.store = ofServer (Event.signal 4) system.store ∧
    ∃ final, signalWatched 1 [] 4 system.store = .err .third final := by
  obtain ⟨first, taken, system, realized, run, isTaken, checked⟩ := exampleSystem_run
    [.request (.createRealm 0 1), .request (.hostSubscribe 0 0 0)]
    (fun run => goesThird 1 4 run.2.store) (by decide +kernel)
  refine ⟨first, taken, system, realized, run, isTaken,
    (run_signal_reenters_none realized run 4).2.2, ?_⟩
  unfold goesThird at checked
  split at checked
  · next final failed => exact ⟨final, failed⟩
  · simp at checked

end IceCap.Events
