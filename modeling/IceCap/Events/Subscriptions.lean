import IceCap.Events.Actions

/-!
# Subscriptions

A subscription is recorded in two places: the slot of the in-space holds the
subscriber, and the entry of the party holds the slot.  A delivery empties the
slot and leaves the entry; the entry is cleared by
`resource_server_unsubscribe` and by nothing else.
-/

set_option autoImplicit false

namespace IceCap.Events

open IceCap.Library IceCap.Sel4 FiniteSet

variable {K : Type}

inductive Party where
  | host
  | resourceServer
  deriving DecidableEq, Repr

def EventServer.subscriptions (server : EventServer) : Party → List SubscriptionEntry
  | .host => server.hostSubscriptions
  | .resourceServer => server.resourceServerSubscriptions

def Action.Subscribes (party : Party) (nid : Nat) : Action → Prop
  | .request (.hostSubscribe other _ _) => party = .host ∧ other = nid
  | .request (.resourceServerSubscribe other _) => party = .resourceServer ∧ other = nid
  | _ => False

/-- The host has no request for this. -/
def Action.Unsubscribes (party : Party) (nid : Nat) : Action → Prop
  | .request (.resourceServerUnsubscribe other _) => party = .resourceServer ∧ other = nid
  | _ => False

/-! ## The entries of the parties -/

/-- The entry of a party for a node. -/
def System.subscription (party : Party) (nid : Nat) (system : System K) :
    Option SubscriptionEntry := (system.server.subscriptions party)[nid]?

section Entries
variable {party : Party} {nid : Nat}

theorem handle_spares_subscription {kernel : Kernel K} {request : Request}
    (notSubscribes : ¬ (Action.request request).Subscribes party nid)
    (notUnsubscribes : ¬ (Action.request request).Unsubscribes party nid) :
    Exec.Spares (System.subscription party nid) (handle kernel request) := by
  have leaves : request.Leaves fun server => (server.subscriptions party)[nid]? := by
    constructor
    · intro _ realms server
      cases party <;> rfl
    · rintro other rid realmNid rfl slot server
      cases party with
      | host => exact List.getElem?_modify_ne _ _ fun same => notSubscribes ⟨rfl, same⟩
      | resourceServer => rfl
    · intro other hostNid isRequest slot server
      cases party with
      | host => rfl
      | resourceServer =>
          refine List.getElem?_modify_ne _ _ fun same => ?_
          cases isRequest with
          | inl isSubscribe => exact notSubscribes (isSubscribe ▸ ⟨rfl, same⟩)
          | inr isUnsubscribe => exact notUnsubscribes (isUnsubscribe ▸ ⟨rfl, same⟩)
  exact handle_spares_server leaves

def Store.slotOf (store : Store K) (inSpace : InSpaceId) : Option Subscriber :=
  (store.inSpaces[inSpace]?).bind InSpace.subscriptionSlot

/-- The entry of a party for a node gets the slot of an in-space. -/
def EventServer.hold (party : Party) (nid : Nat) (inSpace : InSpaceId) (server : EventServer) :
    EventServer :=
  match party with
  | .host => { server with hostSubscriptions :=
      server.hostSubscriptions.modify nid fun entry => { entry with slot := some inSpace } }
  | .resourceServer => { server with resourceServerSubscriptions :=
      server.resourceServerSubscriptions.modify nid fun entry =>
        { entry with slot := some inSpace } }

/-- A request to subscribe that gets as far as the assertions: what it names is there. -/
inductive Asks (system : System K) : Party → Nat → InSpaceId → Request → Prop where
  | host {nid rid realmNid : Nat} {realm : Client} {inSpace : InSpaceId} {entry : SubscriptionEntry}
      (isRealm : system.server.realms[rid]? = some realm)
      (isInSpace : realm.inSpaces[realmNid]? = some inSpace)
      (isEntry : system.server.hostSubscriptions[nid]? = some entry) :
      Asks system .host nid inSpace (.hostSubscribe nid rid realmNid)
  | resourceServer {nid hostNid : Nat} {inSpace : InSpaceId} {entry : SubscriptionEntry}
      (isInSpace : system.server.host.inSpaces[hostNid]? = some inSpace)
      (isEntry : system.server.resourceServerSubscriptions[nid]? = some entry) :
      Asks system .resourceServer nid inSpace (.resourceServerSubscribe nid hostNid)

/-- The entry of a party holds a slot. -/
def System.Holds (party : Party) (nid : Nat) (system : System K) : Prop :=
  ∃ entry, system.subscription party nid = some entry ∧ entry.slot ≠ none

variable {kernel : Kernel K} {request : Request} {system : System K} {inSpace : InSpaceId}

theorem readInSpace_of_some {found : InSpace}
    (isFound : system.store.inSpaces[inSpace]? = some found) :
    onStore (readInSpace inSpace) system = .ok found system :=
  onStore_of_ok (Exec.reads_eq_ok.mpr ⟨isFound, rfl⟩)

/-- The two assertions, and what is done when they hold. -/
theorem asserts_eq {α : Type} {first second : Prop} [Decidable first] [Decidable second]
    {call : Exec Failure (System K) α} :
    (do Exec.assert first; Exec.assert second; call) system =
      if first ∧ second then call system else .panic := by
  by_cases isFirst : first
  · by_cases isSecond : second
    · rw [Exec.assert_bind isFirst, Exec.assert_bind isSecond, if_pos ⟨isFirst, isSecond⟩]
    · rw [Exec.assert_bind isFirst, if_neg (fun both => isSecond both.2)]
      simp [isSecond]
  · rw [if_neg (fun both => isFirst both.1)]
    simp [isFirst]

theorem setSlot_eq {subscriber : Option Subscriber} :
    onStore (setSlot inSpace subscriber) system =
      .ok () { system with store := system.store.withSlot inSpace subscriber } := rfl

theorem Asks.handle_eq (kernel : Kernel K) {found : InSpace} (asks : Asks system party nid inSpace request)
    (isFound : system.store.inSpaces[inSpace]? = some found) :
    ∃ entry, system.subscription party nid = some entry ∧
      handle kernel request system =
        if found.subscriptionSlot = none ∧ entry.slot = none then
          .ok () ⟨system.server.hold party nid inSpace,
            system.store.withSlot inSpace (some entry.subscriber)⟩
        else .panic := by
  cases asks with
  | @host _ _ _ _ _ entry isRealm isInSpace isEntry =>
      refine ⟨entry, isEntry, ?_⟩
      rw [handle, EventServer.hostSubscribe, Exec.bind_of_ok (Exec.get_eq_ok.mpr ⟨rfl, rfl⟩),
        Exec.unwrap_bind isRealm, Exec.unwrap_bind isInSpace, Exec.unwrap_bind isEntry,
        Exec.bind_of_ok (readInSpace_of_some isFound), Exec.bind_of_ok setSlot_eq, asserts_eq]
      rfl
  | @resourceServer _ _ _ entry isInSpace isEntry =>
      refine ⟨entry, isEntry, ?_⟩
      rw [handle, EventServer.resourceServerSubscribe,
        Exec.bind_of_ok (Exec.get_eq_ok.mpr ⟨rfl, rfl⟩), Exec.unwrap_bind isInSpace,
        Exec.unwrap_bind isEntry, Exec.bind_of_ok (readInSpace_of_some isFound),
        Exec.bind_of_ok setSlot_eq, asserts_eq]
      rfl

theorem Asks.panics_iff (asks : Asks system party nid inSpace request)
    (isThere : inSpace < system.store.inSpaces.length) :
    handle kernel request system = .panic ↔
      system.Holds party nid ∨ system.store.slotOf inSpace ≠ none := by
  have isFound := List.getElem?_eq_getElem isThere
  obtain ⟨entry, isEntry, run⟩ := asks.handle_eq kernel isFound
  rw [run]
  simp only [System.Holds, isEntry, Store.slotOf, isFound, Option.bind_some, Option.some.injEq]
  split_ifs with free
  · simp [free]
  · simp only [true_iff]
    grind

/-- A request to subscribe that returns has got past the assertions. -/
theorem Asks.of_ends {final : System K}
    (subscribes : (Action.request request).Subscribes party nid)
    (run : (handle kernel request).Ends system final) :
    ∃ inSpace found, Asks system party nid inSpace request ∧
      system.store.inSpaces[inSpace]? = some found := by
  cases request with
  | hostSubscribe other rid realmNid =>
      obtain ⟨rfl, rfl⟩ := subscribes
      obtain ⟨⟨⟩, returned⟩ := (EventServer.hostSubscribe_infallible other rid realmNid).ends run
      simp only [EventServer.hostSubscribe, onStore, readInSpace, Exec.bind_eq_ok, Exec.get_eq_ok,
        Exec.unwrap_eq_ok, Exec.focus_eq_ok, Exec.reads_eq_ok] at returned
      obtain ⟨_, _, ⟨rfl, rfl⟩, realm, _, ⟨isRealm, rfl⟩, inSpace, _, ⟨isInSpace, rfl⟩, entry, _,
        ⟨isEntry, rfl⟩, found, _, ⟨_, ⟨isFound, _⟩, _⟩, _⟩ := returned
      exact ⟨inSpace, found, .host isRealm isInSpace isEntry, isFound⟩
  | resourceServerSubscribe other hostNid =>
      obtain ⟨rfl, rfl⟩ := subscribes
      obtain ⟨⟨⟩, returned⟩ :=
        (EventServer.resourceServerSubscribe_infallible other hostNid).ends run
      simp only [EventServer.resourceServerSubscribe, onStore, readInSpace, Exec.bind_eq_ok,
        Exec.get_eq_ok, Exec.unwrap_eq_ok, Exec.focus_eq_ok, Exec.reads_eq_ok] at returned
      obtain ⟨_, _, ⟨rfl, rfl⟩, inSpace, _, ⟨isInSpace, rfl⟩, entry, _, ⟨isEntry, rfl⟩, found, _,
        ⟨_, ⟨isFound, _⟩, _⟩, _⟩ := returned
      exact ⟨inSpace, found, .resourceServer isInSpace isEntry, isFound⟩
  | _ => exact subscribes.elim

theorem hold_subscriptions {server : EventServer} {entry : SubscriptionEntry}
    (isEntry : (server.subscriptions party)[nid]? = some entry) :
    ((server.hold party nid inSpace).subscriptions party)[nid]? =
      some { entry with slot := some inSpace } := by
  cases party with
  | host =>
      have isEntry : server.hostSubscriptions[nid]? = some entry := isEntry
      simp [EventServer.hold, EventServer.subscriptions, isEntry]
  | resourceServer =>
      have isEntry : server.resourceServerSubscriptions[nid]? = some entry := isEntry
      simp [EventServer.hold, EventServer.subscriptions, isEntry]

theorem System.Holds.subscribe {final : System K}
    (subscribes : (Action.request request).Subscribes party nid)
    (run : (handle kernel request).Ends system final) : final.Holds party nid := by
  obtain ⟨inSpace, found, asks, isFound⟩ := Asks.of_ends subscribes run
  obtain ⟨entry, isEntry, handled⟩ := asks.handle_eq kernel isFound
  split_ifs at handled with free
  · rw [run.of_ok handled]
    exact ⟨_, hold_subscriptions isEntry, Option.some_ne_none _⟩
  · exact absurd handled run.ne_panic

theorem System.Holds.unsubscribe {final : System K}
    (unsubscribes : (Action.request request).Unsubscribes party nid)
    (run : (handle kernel request).Ends system final) : ¬ final.Holds party nid := by
  cases request with
  | resourceServerUnsubscribe other hostNid =>
      obtain ⟨rfl, rfl⟩ := unsubscribes
      obtain ⟨⟨⟩, returned⟩ :=
        (EventServer.resourceServerUnsubscribe_infallible other hostNid).ends run
      simp only [EventServer.resourceServerUnsubscribe, onStore, modifyServer, Exec.bind_eq_ok,
        Exec.get_eq_ok, Exec.unwrap_eq_ok, Exec.focus_eq_ok, Exec.modify_eq_ok] at returned
      obtain ⟨_, _, ⟨rfl, rfl⟩, inSpace, _, ⟨_, rfl⟩, found, _, ⟨_, _, rfl⟩, ⟨⟩, _, ⟨_, _, rfl⟩,
        entry, _, ⟨isEntry, rfl⟩, rfl⟩ := returned
      intro holds
      obtain ⟨held, isHeld, isSlot⟩ := holds
      simp only [System.subscription, EventServer.subscriptions, List.getElem?_modify_eq,
        isEntry] at isHeld
      exact isSlot (Option.some.inj isHeld ▸ rfl)
  | _ => exact unsubscribes.elim

end Entries

/-! ## Runs -/

section Runs
variable {kernel : Kernel K} {numActiveCores : Nat} {config : EventServerConfig} {kernelState : K}
  {server : EventServer} {store : Store K} {party : Party} {nid : Nat}

/-- Nothing is subscribed to at first. -/
theorem realize_holds_none
    (realized : config.realize kernel numActiveCores (Store.empty kernelState) = .ok server store) :
    ∀ entry ∈ server.subscriptions party, entry.slot = none := by
  simp only [EventServerConfig.realize, Exec.bind_eq_ok, Exec.pure_eq_ok] at realized
  obtain ⟨_, _, _, _, _, _, host, _, _, _, _, _, ⟨⟩, _, _, _, _, _, _, _, _, ⟨⟩, _, _,
    hostSubscriptions, _, subscriptionsRun, _, _, _, rfl, _⟩ := realized
  cases party with
  | host =>
      refine Exec.Yields.mapEach (fun nid => ?_) _ _ _ subscriptionsRun
      exact .bind fun _ => .bind fun _ => .bind fun _ => .pure rfl
  | resourceServer =>
      intro entry isEntry
      obtain ⟨notification, _, rfl⟩ := List.mem_map.mp isEntry
      rfl

variable {taken : List (System K × Action)} {system : System K}

/-- A party's entry for a node holds a slot from when it subscribes until it unsubscribes. -/
theorem run_holds
    (realized : config.realize kernel numActiveCores (Store.empty kernelState) = .ok server store)
    (run : Recorded (Act kernel) ⟨server, store⟩ taken system) :
    system.Holds party nid ↔
      Recorded.Since (Action.Subscribes party nid) (Action.Unsubscribes party nid) taken := by
  refine run.flag_iff_since ?_ ?_ ?_ ?_
  · intro ⟨entry, isEntry, held⟩
    exact held (realize_holds_none realized entry (List.mem_of_getElem? isEntry))
  · intro action before after moved subscribes
    cases action with
    | request request => exact System.Holds.subscribe subscribes moved
    | swap word => exact subscribes.elim
  · intro action before after moved _ unsubscribes
    cases action with
    | request request => exact System.Holds.unsubscribe unsubscribes moved
    | swap word => exact unsubscribes.elim
  · intro action before after moved notSubscribes notUnsubscribes
    cases action with
    | request request =>
        have same := handle_spares_subscription notSubscribes notUnsubscribes _ _ moved
        rw [System.Holds, System.Holds, same]
    | swap word =>
        rw [moved]
        rfl

/-- A request to subscribe fails its assertions exactly if the party has subscribed for the node
before and has not unsubscribed since, or the in-space has a subscriber still. -/
theorem run_subscribe_panics_iff
    (realized : config.realize kernel numActiveCores (Store.empty kernelState) = .ok server store)
    (run : Recorded (Act kernel) ⟨server, store⟩ taken system) {inSpace : InSpaceId}
    {request : Request} (asks : Asks system party nid inSpace request) :
    handle kernel request system = .panic ↔
      Recorded.Since (Action.Subscribes party nid) (Action.Unsubscribes party nid) taken ∨
        system.store.slotOf inSpace ≠ none := by
  have bounded : system.Bounded := run.always (realize_bounded realized)
    fun _ _ _ bounded moved => moved.bounded bounded
  have isThere : inSpace < system.store.inSpaces.length := by
    cases asks with
    | @host _ rid _ realm _ _ isRealm isInSpace isEntry =>
        refine bounded (.realm rid) inSpace ?_
        simpa [EventServer.layout, EventServer.client, isRealm] using List.mem_of_getElem? isInSpace
    | resourceServer isInSpace isEntry =>
        exact bounded .host inSpace (List.mem_of_getElem? isInSpace)
  rw [asks.panics_iff isThere, run_holds realized run]

end Runs

/-! ## A subscription that is delivered -/

/-- The resource server subscribes, unsubscribes, and may subscribe again. -/
theorem run_subscribe_panics_iff_exampleConfig : ∃ first taken system,
    exampleConfig.realize permissive 2 (Store.empty ()) = .ok first.server first.store ∧
    Recorded (Act permissive) first taken system ∧
    taken.map Prod.snd = [.request (.resourceServerSubscribe 0 0),
      .request (.resourceServerUnsubscribe 0 0)] ∧
    handle permissive (.resourceServerSubscribe 0 0) system ≠ .panic := by
  obtain ⟨first, taken, system, realized, run, isTaken, checked⟩ := exampleSystem_run
    [.request (.resourceServerSubscribe 0 0), .request (.resourceServerUnsubscribe 0 0)]
    (fun run => run.2.server.host.inSpaces = [0, 1] ∧
      run.2.server.resourceServerSubscriptions = [⟨.notification 5, none⟩, ⟨.notification 6, none⟩] ∧
      run.2.store.slotOf 0 = none) (by decide +kernel)
  obtain ⟨inSpaces, entries, isFree⟩ := of_decide_eq_true checked
  dsimp only at inSpaces entries isFree
  have asks : Asks system .resourceServer 0 0 (.resourceServerSubscribe 0 0) :=
    .resourceServer (by rw [inSpaces]; rfl) (by rw [entries]; rfl)
  have holdsNone : ¬ system.Holds .resourceServer 0 := by
    simp [System.Holds, System.subscription, EventServer.subscriptions, entries]
  refine ⟨first, taken, system, realized, run, isTaken, fun panics => ?_⟩
  cases (run_subscribe_panics_iff realized run asks).mp panics with
  | inl since => exact holdsNone ((run_holds realized run).mpr since)
  | inr occupied => exact occupied isFree

/-- The host's subscription is delivered, so that the slot is empty again, but subscribing for the
same node once more panics. -/
theorem delivered_not_reusable : ∃ first taken system,
    exampleConfig.realize permissive 2 (Store.empty ()) = .ok first.server first.store ∧
    Recorded (Act permissive) first taken system ∧
    taken.map Prod.snd = [.request (.createRealm 0 1), .request (.hostSubscribe 0 0 0),
      .request (.signal .host 0)] ∧
    (taken.map fun entry => entry.1.store.slotOf 2) = [none, none, some (.event 12)] ∧
    system.store.slotOf 2 = none ∧ Asks system .host 0 2 (.hostSubscribe 0 0 0) ∧
    handle permissive (.hostSubscribe 0 0 0) system = .panic := by
  obtain ⟨first, taken, system, realized, run, isTaken, checked⟩ := exampleSystem_run
    [.request (.createRealm 0 1), .request (.hostSubscribe 0 0 0), .request (.signal .host 0)]
    (fun run => (run.1.map fun entry => entry.1.store.slotOf 2) =
        [none, none, some (.event 12)] ∧ run.2.store.slotOf 2 = none ∧
      (run.2.server.realms[0]?.map Client.inSpaces) = some [2] ∧
      run.2.server.hostSubscriptions = [⟨.event 12, some 2⟩, ⟨.event 13, none⟩] ∧
      2 < run.2.store.inSpaces.length) (by decide +kernel)
  obtain ⟨slots, isEmpty, isRealm, entries, isThere⟩ := of_decide_eq_true checked
  dsimp only at slots isEmpty isRealm entries isThere
  obtain ⟨realm, isRealm, inSpaces⟩ := Option.map_eq_some_iff.mp isRealm
  have asks : Asks system .host 0 2 (.hostSubscribe 0 0 0) :=
    .host isRealm (by rw [inSpaces]; rfl) (by rw [entries]; rfl)
  refine ⟨first, taken, system, realized, run, isTaken, slots, isEmpty, asks, ?_⟩
  apply (asks.panics_iff isThere).mpr
  exact .inl ⟨⟨.event 12, some 2⟩, by simp [System.subscription, EventServer.subscriptions, entries],
    by simp⟩

end IceCap.Events
