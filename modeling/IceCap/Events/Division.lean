import IceCap.Events.Borrows

/-!
# Which client has what

The events that are set aside for a realm are found in its in-spaces only, and
the others in the host's, whatever moves there have been; and nothing but
notifications subscribes to the host's in-spaces.
-/

set_option autoImplicit false

namespace IceCap.Events

open IceCap.Library IceCap.Sel4 FiniteSet

variable {K : Type}

/-! ## Where the events of a layout may be -/

namespace Layout

/-- Events are with the client that may hold them, and to the host's in-spaces only certain
notifications subscribe. -/
def confines (layout : Layout) (notified : List CPtr) : Confines where
  mayBeAt inSpace event := ∀ client, inSpace ∈ layout.inSpacesOf client → layout.MayHold client event
  mayTarget event inSpace :=
    (∀ rid, ¬ layout.inEntries rid event) → inSpace ∈ layout.inSpacesOf .host
  maySubscribe inSpace subscriber :=
    inSpace ∈ layout.inSpacesOf .host → ∃ nfn ∈ notified, subscriber = .notification nfn

/-- No two clients have an in-space in common. -/
def Apart (layout : Layout) : Prop :=
  ∀ (first second : ClientId) (inSpace : InSpaceId), inSpace ∈ layout.inSpacesOf first →
    inSpace ∈ layout.inSpacesOf second → first = second

variable {layout : Layout} {rid first n : Nat}

theorem mayHold_renew {client : ClientId} {event : EventId} :
    (layout.renew rid first n).MayHold client event ↔ layout.MayHold client event := by
  cases client <;> rfl

theorem host_renew :
    (layout.renew rid first n).inSpacesOf .host = layout.inSpacesOf .host := by
  rcases renew_cases layout rid first n .host with old | ⟨isRealm, _⟩
  · exact old
  · simp at isRealm

theorem Apart.renew (apart : layout.Apart)
    (bounded : ∀ client, ∀ inSpace ∈ layout.inSpacesOf client, inSpace < first) :
    (layout.renew rid first n).Apart := by
  intro one two inSpace isOne isTwo
  rcases renew_cases layout rid first n one with old | ⟨rfl, new⟩
  · rcases renew_cases layout rid first n two with old' | ⟨rfl, new'⟩
    · exact apart one two inSpace (old ▸ isOne) (old' ▸ isTwo)
    · rw [new', List.mem_range'_1] at isTwo
      exact absurd (bounded one inSpace (old ▸ isOne)) (Nat.not_lt_of_le isTwo.1)
  · rcases renew_cases layout rid first n two with old' | ⟨rfl, new'⟩
    · rw [new, List.mem_range'_1] at isOne
      exact absurd (bounded two inSpace (old' ▸ isTwo)) (Nat.not_lt_of_le isOne.1)
    · rfl

end Layout

theorem isThere_of_eventAt {store : Store K} {place : EventTarget} {event : EventId}
    (isEvent : store.eventAt place = some event) : place.inSpace < store.inSpaces.length := by
  obtain ⟨found, isFound, _⟩ := Option.bind_eq_some_iff.mp isEvent
  exact (List.getElem?_eq_some_iff.mp isFound).1

/-- The new in-spaces of a realm hold nothing yet. -/
theorem Confined.renew {layout : Layout} {notified : List CPtr} {store : Store K} {rid n : Nat}
    (confined : Confined (layout.confines notified) store) :
    Confined ((layout.renew rid store.inSpaces.length n).confines notified) store where
  entries place event isEvent client isOwner := by
    rw [Layout.mayHold_renew]
    rcases layout.renew_cases rid store.inSpaces.length n client with old | ⟨_, new⟩
    · exact confined.entries place event isEvent client (old ▸ isOwner)
    · rw [new, List.mem_range'_1] at isOwner
      exact absurd (isThere_of_eventAt isEvent) (Nat.not_lt_of_le isOwner.1)
  targets event place isTarget isFree := by
    rw [Layout.host_renew]
    exact confined.targets event place isTarget isFree
  slots inSpace subscriber isSlot isHosts := by
    rw [Layout.host_renew] at isHosts
    exact confined.slots inSpace subscriber isSlot isHosts

/-! ## What `realize` allots -/

/-- What of an in-space never changes. -/
def InSpace.fixed (found : InSpace) : ClientNode × Nat := (found.notification, found.entries.length)

def Store.fixed (store : Store K) : List (ClientNode × Nat) := store.inSpaces.map InSpace.fixed

theorem unserved_fixed : Unserved (Store.fixed (K := K)) where
  words _ _ := rfl
  signals _ _ := rfl
  slots _ _ _ := map_modify_of_same fun _ => rfl
  entries _ _ _ := .modify fun _ => map_modify_of_same fun _ => by simp [InSpace.fixed]
  targets _ _ := .modify fun _ => rfl
  kernel _ _ := rfl

/-- The notifications of the realms are the configured ones. -/
def Notified (config : EventServerConfig) (inactiveRealms : InactiveRealms) : Prop :=
  ∀ (rid : RealmId) (inactive : InactiveRealm), inactiveRealms[rid]? = some inactive →
    inactive.inNotifications ∈ config.realmNotifications

/-- What is set aside for the realms. -/
structure EventServer.Allots (config : EventServerConfig) (server : EventServer) : Prop where
  exclusive : ∀ first second event, server.layout.inEntries first event →
    server.layout.inEntries second event → first = second
  noInSpaces : ∀ client, server.layout.inSpacesOf client ≠ [] →
    client = .host ∨ ∃ rid, client = .realm rid
  notifications : Notified config server.inactiveRealms
  outSpaces : ∀ (rid : RealmId) (inactive : InactiveRealm),
    server.inactiveRealms[rid]? = some inactive → ∀ event ∈ inactive.outSpace,
    ∀ other, ¬ server.layout.inEntries other event

/-- Which client has what. -/
structure System.Divided (config : EventServerConfig) (system : System K) : Prop where
  allots : system.server.Allots config
  confined : Confined (system.server.layout.confines config.resourceServerSubscriptions) system.store
  apart : system.server.layout.Apart
  bounded : system.Bounded
  outSpaces : ∀ (rid : RealmId) (client : Client), system.server.realms[rid]? = some client →
    ∃ inactive : InactiveRealm, system.server.inactiveRealms[rid]? = some inactive ∧
      client.outSpace = inactive.outSpace
  subscribers : ∀ subscriber ∈ system.subscribers .resourceServer,
    ∃ nfn ∈ config.resourceServerSubscriptions, subscriber = .notification nfn
  hostNodes : ∀ inSpace ∈ system.server.layout.inSpacesOf .host,
    ∃ node ∈ config.hostNotifications,
      system.store.fixed[inSpace]? = some (node, Finite.cardinality HostIn)

section Actions
variable {config : EventServerConfig} {kernel : Kernel K} {system final : System K}

theorem Act.allots {action : Action} (allots : system.server.Allots config)
    (moved : Act kernel action system final) : final.server.Allots config := by
  have sameEntries := moved.extends.inEntries
  have sameInactive := moved.sameInactive
  refine ⟨by rw [sameEntries]; exact allots.exclusive, fun client isSome => ?_,
    by rw [sameInactive]; exact allots.notifications,
    by rw [sameInactive, sameEntries]; exact allots.outSpaces⟩
  cases client with
  | host => exact .inl rfl
  | realm rid => exact .inr ⟨rid, rfl⟩
  | resourceServer =>
      have same := moved.sameServer (fun server => server.layout.inSpacesOf .resourceServer)
        (fun _ _ => rfl) (fun _ _ => rfl) fun _ _ => rfl
      exact allots.noInSpaces _ (same ▸ isSome)
  | serialServer =>
      have same := moved.sameServer (fun server => server.layout.inSpacesOf .serialServer)
        (fun _ _ => rfl) (fun _ _ => rfl) fun _ _ => rfl
      exact allots.noInSpaces _ (same ▸ isSome)

/-- A client's in-spaces are nobody else's, so that they may all have the same events. -/
theorem System.Divided.allows (divided : system.Divided config) :
    (system.server.layout.confines config.resourceServerSubscriptions).Allows system where
  uniform clientId client isClient first isFirst event mayBe second isSecond := by
    have isOwner : system.server.layout.inSpacesOf clientId = client.inSpaces := by
      simp [EventServer.layout, isClient]
    have mayHold := mayBe clientId (isOwner ▸ isFirst)
    refine ⟨fun owner isOther => ?_, fun isFree => ?_⟩
    · rw [divided.apart owner clientId second isOther (isOwner ▸ isSecond)]
      exact mayHold
    · have hasSome : system.server.layout.inSpacesOf clientId ≠ [] :=
        List.ne_nil_of_mem (isOwner ▸ isSecond)
      rcases divided.allots.noInSpaces clientId hasSome with rfl | ⟨rid, rfl⟩
      · exact isOwner ▸ isSecond
      · exact absurd mayHold (isFree rid)
  subscribers {party nid inSpace request entry} asks isEntry isHosts := by
    cases asks with
    | @host _ rid _ realm _ _ isRealm isInSpace =>
        have isOwn : inSpace ∈ system.server.layout.inSpacesOf (.realm rid) := by
          simpa [EventServer.layout, EventServer.client, isRealm] using
            List.mem_of_getElem? isInSpace
        have isSame := divided.apart _ _ inSpace isHosts isOwn
        simp at isSame
    | resourceServer =>
        exact divided.subscribers _ (List.mem_map_of_mem (List.mem_of_getElem? isEntry))

theorem createClient_outSpace {inactive : InactiveRealm} {numNodes : Nat} {client : Client}
    {store last : Store K} (run : inactive.createClient numNodes store = .ok client last) :
    client.outSpace = inactive.outSpace := by
  simp only [InactiveRealm.createClient, Exec.bind_eq_ok, Exec.assert_eq_ok, Exec.pure_eq_ok] at run
  obtain ⟨_, _, _, _, _, _, _, _, _, rfl, _⟩ := run
  rfl

/-- The client of a realm has the out-space that is set aside for it. -/
theorem Act.outSpaces {action : Action} (divided : system.Divided config)
    (moved : Act kernel action system final) {rid : RealmId} {client : Client}
    (isRealm : final.server.realms[rid]? = some client) :
    ∃ inactive : InactiveRealm, final.server.inactiveRealms[rid]? = some inactive ∧
      client.outSpace = inactive.outSpace := by
  rw [moved.sameInactive]
  cases action with
  | swap word =>
      rw [moved] at isRealm
      exact divided.outSpaces rid client isRealm
  | request request =>
      by_cases changes : request.ChangesRealms
      · cases request with
        | createRealm other numNodes =>
            obtain ⟨⟨⟩, run⟩ := (EventServer.createRealm_infallible other numNodes).ends moved
            obtain ⟨inactive, created, last, _, isInactive, createRun, rfl⟩ :=
              EventServer.createRealm_eq_ok run
            simp only [Std.TreeMap.getElem?_insert] at isRealm
            split at isRealm
            · next same =>
                obtain rfl : other = rid := by simpa using same
                obtain rfl := Option.some.inj isRealm
                exact ⟨inactive, isInactive, createClient_outSpace createRun⟩
            · exact divided.outSpaces rid client isRealm
        | destroyRealm other =>
            obtain ⟨⟨⟩, run⟩ := (EventServer.destroyRealm_infallible other).ends moved
            obtain ⟨inactive, last, _, destroyRun, rfl⟩ := EventServer.destroyRealm_eq_ok run
            simp only [Std.TreeMap.getElem?_erase] at isRealm
            split at isRealm
            · simp at isRealm
            · exact divided.outSpaces rid client isRealm
        | _ => exact changes.elim
      · have leaves : request.Leaves EventServer.realms :=
          ⟨fun isChange => absurd isChange changes, fun _ _ _ _ _ _ => rfl, fun _ _ _ _ _ => rfl⟩
        have same : final.server.realms = system.server.realms :=
          handle_spares_server leaves _ _ moved
        exact divided.outSpaces rid client (same ▸ isRealm)

theorem Act.fixed {action : Action} (moved : Act kernel action system final) :
    ∃ added, final.store.fixed = system.store.fixed ++ added := by
  cases action with
  | swap word => exact ⟨[], by rw [moved, List.append_nil]; rfl⟩
  | request request =>
      by_cases isCreate : ∃ rid numNodes, request = .createRealm rid numNodes
      · obtain ⟨rid, numNodes, rfl⟩ := isCreate
        obtain ⟨⟨⟩, run⟩ := (EventServer.createRealm_infallible rid numNodes).ends moved
        obtain ⟨inSpaces, same⟩ := createRealm_unplaced unserved_fixed.unplaced run
        exact ⟨inSpaces.map InSpace.fixed, same.trans (List.map_append ..)⟩
      · have same := unserved_fixed.handle
          (fun rid numNodes isSame => isCreate ⟨rid, numNodes, isSame⟩) _ _ moved
        exact ⟨[], by rw [List.append_nil]; exact same⟩

theorem Act.divided_confined {action : Action} (divided : system.Divided config)
    (moved : Act kernel action system final) :
    Confined (final.server.layout.confines config.resourceServerSubscriptions) final.store := by
  refine moved.confined (fun same => same ▸ divided.allows) ?_ ?_
  · rintro rid numNodes rfl event isSetAside inSpace isNew
    obtain ⟨⟨⟩, run⟩ := (EventServer.createRealm_infallible rid numNodes).ends moved
    rw [(createRealm_layout run).1]
    refine ⟨fun client isOwner => ?_, fun isFree => absurd isSetAside (isFree rid)⟩
    rw [Layout.mayHold_renew]
    rcases system.server.layout.renew_cases rid system.store.inSpaces.length numNodes client with
      old | ⟨rfl, _⟩
    · exact absurd (divided.bounded client inSpace (old ▸ isOwner)) (Nat.not_lt_of_le isNew)
    · exact isSetAside
  · rcases moved.layout_cases with ⟨same, _⟩ | ⟨rid, n, renewed, _⟩
    · rw [same]
      exact divided.confined
    · rw [renewed]
      exact divided.confined.renew

theorem Act.divided {action : Action} (divided : system.Divided config)
    (moved : Act kernel action system final) : final.Divided config where
  allots := moved.allots divided.allots
  confined := moved.divided_confined divided
  apart := by
    rcases moved.layout_cases with ⟨same, _⟩ | ⟨rid, n, renewed, _⟩
    · rw [same]
      exact divided.apart
    · rw [renewed]
      exact divided.apart.renew divided.bounded
  bounded := moved.bounded divided.bounded
  outSpaces _ _ isRealm := moved.outSpaces divided isRealm
  subscribers := by
    rw [moved.sameSubscribers .resourceServer]
    exact divided.subscribers
  hostNodes inSpace isHosts := by
    obtain ⟨added, areAdded⟩ := moved.fixed
    rcases moved.extends.inSpaces .host with same | ⟨notHost, _⟩
    · obtain ⟨node, isNode, isFixed⟩ := divided.hostNodes inSpace (same ▸ isHosts)
      refine ⟨node, isNode, ?_⟩
      rw [areAdded, List.getElem?_append_left (List.getElem?_eq_some_iff.mp isFixed).1]
      exact isFixed
    · exact absurd rfl notHost

end Actions

section Realize
variable {kernel : Kernel K} {numActiveCores : Nat} {config : EventServerConfig} {kernelState : K}
  {server : EventServer} {store : Store K} {host : Client}

theorem assignInEntry_notified {inactiveRealms assigned : InactiveRealms} {rid : RealmId}
    {input : RealmIn} {event : EventId} {final : Store K} (notified : Notified config inactiveRealms)
    (run : assignInEntry inactiveRealms rid input event store = .ok assigned final) :
    Notified config assigned := by
  simp only [assignInEntry, Exec.bind_eq_ok, Exec.unwrap_eq_ok, Exec.assert_eq_ok,
    Exec.pure_eq_ok] at run
  obtain ⟨realm, _, ⟨isRealm, rfl⟩, ⟨⟩, _, ⟨_, rfl⟩, rfl, rfl⟩ := run
  intro other inactive isInactive
  rw [Std.TreeMap.getElem?_insert] at isInactive
  split at isInactive
  · obtain rfl := Option.some.inj isInactive
    exact notified rid realm isRealm
  · exact notified other inactive isInactive

theorem connectSerialServerOut_notified {inactiveRealms assigned : InactiveRealms} {outIndex : Nat}
    {event : EventId} {final : Store K} (notified : Notified config inactiveRealms)
    (run : connectSerialServerOut host inactiveRealms outIndex event store = .ok assigned final) :
    Notified config assigned := by
  simp only [connectSerialServerOut, Exec.bind_eq_ok, Exec.unwrap_eq_ok] at run
  obtain ⟨⟨_ | realmId⟩, _, _, connectRun⟩ := run
  · simp only [Exec.bind_eq_ok, Exec.pure_eq_ok] at connectRun
    obtain ⟨_, _, _, rfl, _⟩ := connectRun
    exact notified
  · exact assignInEntry_notified notified connectRun

theorem connectHostOut_notified {inactiveRealms assigned : InactiveRealms} {outIndex : Nat}
    {event : EventId} {final : Store K} (notified : Notified config inactiveRealms)
    (run : connectHostOut inactiveRealms outIndex event store = .ok assigned final) :
    Notified config assigned := by
  simp only [connectHostOut, Exec.bind_eq_ok, Exec.unwrap_eq_ok] at run
  obtain ⟨⟨realmId, ringBufferId⟩, _, _, assignRun⟩ := run
  exact assignInEntry_notified notified assignRun

theorem newInactiveRealms_notified {realms : List (RealmId × InactiveRealm)} {final : Store K}
    (run : Exec.mapEach (List.range numRealms) config.newInactiveRealm store = .ok realms final) :
    Notified config (Std.TreeMap.ofList realms) := by
  have areNotified : ∀ realm ∈ realms, realm.2.inNotifications ∈ config.realmNotifications := by
    refine Exec.mapEach_yields (fun _ => True) _ (fun rid _ _ realm _ first => ?_) trivial run
    simp only [EventServerConfig.newInactiveRealm, Exec.bind_eq_ok, Exec.unwrap_eq_ok,
      Exec.pure_eq_ok] at first
    obtain ⟨_, _, _, nodes, _, ⟨areNodes, _⟩, rfl, _⟩ := first
    exact ⟨trivial, List.mem_of_getElem? areNodes⟩
  have isFirst : store.events.length = store.events.length + 0 * Finite.cardinality RealmOut := by
    simp
  rw [List.range_eq_range'] at run
  have keys := (newInactiveRealms_sameRoutes numRealms isFirst run).1
  rw [← List.range_eq_range'] at keys
  exact fun rid inactive isInactive => areNotified _ (mem_of_getElem?_ofList keys isInactive)

/-- No realm exists at first, and those that are set aside have the configured notifications. -/
theorem realize_realms
    (realized : config.realize kernel numActiveCores (Store.empty kernelState) = .ok server store) :
    server.realms = ∅ ∧ Notified config server.inactiveRealms := by
  simp only [EventServerConfig.realize, Exec.bind_eq_ok, Exec.pure_eq_ok] at realized
  obtain ⟨_, _, _, _, _, _, host, _, _, realms, opened, realmsRun, ⟨⟩, _, _, assigned, _,
    serialServerLoop, assigned', _, hostLoop, ⟨⟩, _, _, _, _, _, _, _, _, rfl, _⟩ := realized
  have notified := newInactiveRealms_notified realmsRun
  have notified' := Exec.foldEach_consumes (fun _ value _ => Notified config value)
    (fun _ _ _ _ _ _ holds run => connectSerialServerOut_notified holds run) notified
    serialServerLoop
  exact ⟨rfl, Exec.foldEach_consumes (fun _ value _ => Notified config value)
    (fun _ _ _ _ _ _ holds run => connectHostOut_notified holds run) notified' hostLoop⟩

theorem unconnected_fixed : Unconnected (Store.fixed (K := K)) where
  toUnplaced := unserved_fixed.unplaced
  made _ store final run := by
    rw [run.of_ok rfl]
    rfl

theorem realize_hostNodes
    (realized : config.realize kernel numActiveCores (Store.empty kernelState) = .ok server store) :
    ∀ inSpace < store.inSpaces.length, ∃ node ∈ config.hostNotifications,
      store.fixed[inSpace]? = some (node, Finite.cardinality HostIn) := by
  obtain ⟨first, last, noneYet, inRun, same⟩ := unconnected_fixed.realize realized
  obtain ⟨added, rfl, areAdded⟩ := newInSpaces_added _ inRun
  have noInSpaces : first.inSpaces = [] := List.map_eq_nil_iff.mp noneYet
  have isFixed : store.fixed = added.map InSpace.fixed := by
    rw [same, Store.fixed, noInSpaces, List.nil_append]
  intro inSpace isThere
  have sameLength : store.inSpaces.length = added.length := by
    simpa [Store.fixed] using congrArg List.length isFixed
  have isAdded : inSpace < added.length := sameLength ▸ isThere
  obtain ⟨isNode, length⟩ := areAdded _ (List.getElem_mem isAdded)
  refine ⟨_, isNode, ?_⟩
  rw [isFixed, List.getElem?_map, List.getElem?_eq_getElem isAdded, Option.map_some, InSpace.fixed,
    length]

theorem realize_divided
    (realized : config.realize kernel numActiveCores (Store.empty kernelState) = .ok server store) :
    System.Divided config ⟨server, store⟩ := by
  obtain ⟨sameLayout, ⟨outOf, setup⟩, _, notified, outFree⟩ := realize_setup realized
  obtain ⟨noRealms, areNotified⟩ := realize_realms realized
  have coherent : Coherent server.layout store := sameLayout ▸ setup.coherent
  have bounded := realize_bounded realized
  refine ⟨⟨coherent.routed.exclusive, ?_, areNotified, outFree⟩, ⟨?_, ?_, ?_⟩, coherent.routed.apart,
    bounded, ?_, ?_, fun inSpace isHosts => realize_hostNodes realized inSpace (bounded _ _ isHosts)⟩
  · intro client isSome
    obtain ⟨inSpace, isOwner⟩ := List.exists_mem_of_ne_nil _ isSome
    rw [sameLayout, mem_setupLayout] at isOwner
    exact .inl isOwner.1
  · intro place event isEvent client isOwner
    exact coherent.routed.owned client place event isOwner isEvent
  · intro event place isTarget _
    obtain ⟨client, isOwner⟩ := coherent.targetsLive event place isTarget
    rw [sameLayout, mem_setupLayout] at isOwner
    rw [System.server, sameLayout]
    exact isOwner.2
  · intro inSpace subscriber isSlot
    rw [slotOf_eq_slots, (realize_slots realized).2, List.getElem?_replicate] at isSlot
    split at isSlot <;> simp at isSlot
  · intro rid client isRealm
    simp [noRealms] at isRealm
  · intro subscriber isSubscriber
    rw [System.subscribers, EventServer.subscriptions, notified, List.map_map] at isSubscriber
    obtain ⟨nfn, isNfn, rfl⟩ := List.mem_map.mp isSubscriber
    exact ⟨nfn, isNfn, rfl⟩

end Realize

end IceCap.Events
