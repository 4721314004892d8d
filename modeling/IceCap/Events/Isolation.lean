import IceCap.Events.Belongings
import IceCap.Events.Division

/-!
# Realms are isolated from each other

What a realm's requests come upon is its own or the host's.  So they change
nothing of what belongs to another realm, as long as the host has not been given
the same words or notifications.
-/

set_option autoImplicit false

namespace IceCap.Events

open IceCap.Library IceCap.Sel4 FiniteSet

variable {K : Type}

/-- What `event_server.py` gives to the event server: it maps every bitfield to a page of its own, and
allocates capabilities of its own for every notification. -/
structure EventServerConfig.Separate (config : EventServerConfig) : Prop where
  words : ∀ host ∈ config.hostNotifications, ∀ nodes ∈ config.realmNotifications, ∀ node ∈ nodes,
    ∀ word ∈ host.words (Finite.cardinality HostIn), word ∉ node.words (Finite.cardinality RealmIn)
  nfns : ∀ host ∈ config.hostNotifications, ∀ nodes ∈ config.realmNotifications, ∀ node ∈ nodes,
    ∀ nfn ∈ host.nfn, nfn ∉ node.nfn
  subscriptions : ∀ nfn ∈ config.resourceServerSubscriptions,
    ∀ nodes ∈ config.realmNotifications, ∀ node ∈ nodes, nfn ∉ node.nfn

/-! ## The requests of a realm -/

/-- A request with the badge of the client. -/
def Request.IsOf (client : ClientId) : Request → Prop
  | .signal other _ => other = client
  | .end_ other _ _ => other = client
  | .configure other _ _ _ => other = client
  | .move other _ _ _ _ => other = client
  | _ => False

section Requests
variable {config : EventServerConfig} {kernel : Kernel K} {system final : System K}
  {rid other : RealmId}

/-- What is set aside for a realm is listed with the inactive realm. -/
theorem mem_setAside {α : Type} (list : InactiveRealm → List α) {member : α}
    (isEmpty : list ⟨[], [], []⟩ = [])
    (isPart : member ∈ list (system.server.inactiveRealms[rid]?.getD ⟨[], [], []⟩)) :
    ∃ inactive : InactiveRealm, system.server.inactiveRealms[rid]? = some inactive ∧
      member ∈ list inactive := by
  cases isInactive : system.server.inactiveRealms[rid]? with
  | none => simp [isInactive, isEmpty] at isPart
  | some inactive => exact ⟨inactive, rfl, by simpa [isInactive] using isPart⟩

theorem mem_parts_events {event : EventId} (isPart : event ∈ (system.server.parts rid).events) :
    ∃ inactive : InactiveRealm, system.server.inactiveRealms[rid]? = some inactive ∧
      (some event ∈ inactive.inEntries ∨ event ∈ inactive.outSpace) := by
  obtain ⟨inactive, isInactive, member⟩ :=
    mem_setAside (fun inactive => inactive.inEntries.filterMap id ++ inactive.outSpace) rfl isPart
  exact ⟨inactive, isInactive, by simpa using member⟩

theorem mem_parts_words {word : Nat} (isPart : word ∈ (system.server.parts rid).words) :
    ∃ inactive : InactiveRealm, system.server.inactiveRealms[rid]? = some inactive ∧
      ∃ node ∈ inactive.inNotifications, word ∈ node.words (Finite.cardinality RealmIn) := by
  obtain ⟨inactive, isInactive, member⟩ := mem_setAside
    (fun inactive => inactive.inNotifications.flatMap (ClientNode.words _)) rfl isPart
  exact ⟨inactive, isInactive, List.mem_flatMap.mp member⟩

theorem mem_parts_nfns {nfn : CPtr} (isPart : nfn ∈ (system.server.parts rid).nfns) :
    ∃ inactive : InactiveRealm, system.server.inactiveRealms[rid]? = some inactive ∧
      ∃ node ∈ inactive.inNotifications, nfn ∈ node.nfn := by
  obtain ⟨inactive, isInactive, member⟩ := mem_setAside
    (fun inactive => inactive.inNotifications.flatMap ClientNode.nfn) rfl isPart
  exact ⟨inactive, isInactive, List.mem_flatMap.mp member⟩

variable (divided : system.Divided config)
include divided

/-- An event that is set aside for a realm is not another realm's. -/
theorem System.Divided.not_mem_events {event : EventId} (different : other ≠ rid)
    (isSetAside : system.server.layout.inEntries rid event) :
    event ∉ (system.server.parts other).events := by
  intro isPart
  obtain ⟨inactive, isInactive, isIn | isOut⟩ := mem_parts_events isPart
  · have isOthers : system.server.layout.inEntries other event := ⟨inactive, isInactive, isIn⟩
    exact different (divided.allots.exclusive other rid event isOthers isSetAside)
  · exact divided.allots.outSpaces other inactive isInactive event isOut rid isSetAside

/-- What a signal to the host comes upon is apart from what the realms have. -/
theorem System.Divided.host_apart (separate : config.Separate) {inSpace : InSpaceId}
    {found : InSpace} (isHosts : inSpace ∈ system.server.layout.inSpacesOf .host)
    (isFound : system.store.inSpaces[inSpace]? = some found) :
    inSpace ∉ (system.server.parts other).inSpaces ∧ found.Apart (system.server.parts other) := by
  obtain ⟨node, isNode, isFixed⟩ := divided.hostNodes inSpace isHosts
  rw [Store.fixed, List.getElem?_map, isFound, Option.map_some] at isFixed
  obtain ⟨rfl, length⟩ := Prod.mk.inj (Option.some.inj isFixed)
  refine ⟨fun isPart => ?_, fun word isWord isPart => ?_, fun nfn isNfn isPart => ?_,
    fun subscriber isSlot => ?_⟩
  · have isSame := divided.apart .host (.realm other) inSpace isHosts isPart
    simp at isSame
  · obtain ⟨inactive, isInactive, realmNode, isRealmNode, isRealmWord⟩ := mem_parts_words isPart
    rw [length] at isWord
    exact separate.words _ isNode _ (divided.allots.notifications other inactive isInactive)
      realmNode isRealmNode word isWord isRealmWord
  · obtain ⟨inactive, isInactive, realmNode, isRealmNode, isRealmNfn⟩ := mem_parts_nfns isPart
    exact separate.nfns _ isNode _ (divided.allots.notifications other inactive isInactive)
      realmNode isRealmNode nfn isNfn isRealmNfn
  · obtain ⟨nfn, isNotified, rfl⟩ := divided.confined.slots inSpace subscriber
      (by simp [Store.slotOf, isFound, isSlot]) isHosts
    refine ⟨nfn, rfl, fun isPart => ?_⟩
    obtain ⟨inactive, isInactive, realmNode, isRealmNode, isRealmNfn⟩ := mem_parts_nfns isPart
    exact separate.subscriptions nfn isNotified _
      (divided.allots.notifications other inactive isInactive) realmNode isRealmNode isRealmNfn

/-- The out-space of a realm leads to the host. -/
theorem System.Divided.signal_belongings (separate : config.Separate) {client : Client}
    {index : Nat} {store : Store K} (isRealm : system.server.realms[rid]? = some client)
    (run : (client.signal index).Ends system.store store) :
    store.belongings (system.server.parts other) =
      system.store.belongings (system.server.parts other) := by
  obtain ⟨event, _, unwraps, run⟩ := (Exec.Infallible.unwrap _).ends_bind run
  obtain ⟨isEvent, rfl⟩ := Exec.unwrap_eq_ok.mp unwraps
  obtain ⟨inactive, isInactive, isOut⟩ := divided.outSpaces rid client isRealm
  have isFree := divided.allots.outSpaces rid inactive isInactive event
    (isOut ▸ List.mem_of_getElem? isEvent)
  refine Events.signal_belongings (fun place found arrives => ?_) run
  have isHosts := divided.confined.targets event place arrives.isTarget isFree
  exact divided.host_apart separate isHosts arrives.isFound

/-- In its own in-spaces a realm writes what is its own. -/
theorem System.Divided.tends {client : Client} (different : other ≠ rid)
    (isRealm : system.server.realms[rid]? = some client) (shown : Belongings) :
    client.Tends
      (fun event => ∃ inSpace ∈ client.inSpaces, (system.server.layout.confines
        config.resourceServerSubscriptions).mayBeAt inSpace event)
      (fun store : Store K =>
        Confined (system.server.layout.confines config.resourceServerSubscriptions) store ∧
          store.belongings (system.server.parts other) = shown) := by
  have isOwner : system.server.layout.inSpacesOf (.realm rid) = client.inSpaces := by
    simp [EventServer.layout, EventServer.client, isRealm]
  have isClient : system.server.client (.realm rid) = some client := isRealm
  refine (divided.allows.tends isClient).and ?_ ?_ ?_
  · intro inSpace isOwn index entry
    refine Exec.spares_iff_maintains.mp (writeEntry_belongings fun isPart => ?_) shown
    have isSame := divided.apart _ _ inSpace isPart (isOwner ▸ isOwn)
    exact different (ClientId.realm.inj isSame)
  · rintro event target ⟨inSpace, isOwn, mayBe⟩
    have isSetAside := mayBe (.realm rid) (isOwner ▸ isOwn)
    exact Exec.spares_iff_maintains.mp
      (setTarget_belongings (divided.not_mem_events different isSetAside)) shown
  · exact fun _ => Exec.spares_iff_maintains.mp onKernel_belongings shown

theorem System.Divided.handle_isolated (separate : config.Separate) {request : Request}
    (isRealms : request.IsOf (.realm rid)) (different : other ≠ rid)
    (handled : (handle kernel request).Ends system final) :
    final.server = system.server ∧ final.belongings other = system.belongings other := by
  cases request with
  | signal client index =>
      obtain rfl := isRealms
      obtain ⟨found, store, isRealm, ends, rfl⟩ := withClient_ends handled
      exact ⟨rfl, divided.signal_belongings separate isRealm ends⟩
  | end_ client nid index =>
      obtain rfl := isRealms
      obtain ⟨found, store, isRealm, ends, rfl⟩ := withClient_ends handled
      have tends := divided.tends different isRealm (system.belongings other)
      exact ⟨rfl, (tends.end_ _ _ ends ⟨divided.confined, rfl⟩).2⟩
  | configure client nid index action =>
      obtain rfl := isRealms
      obtain ⟨found, store, isRealm, ends, rfl⟩ := withClient_ends handled
      have tends := divided.tends different isRealm (system.belongings other)
      exact ⟨rfl, (tends.configure _ _ ends ⟨divided.confined, rfl⟩).2⟩
  | move client srcNid srcIndex dstNid dstIndex =>
      obtain rfl := isRealms
      obtain ⟨found, store, isRealm, ends, rfl⟩ := withClient_ends handled
      have tends := divided.tends different isRealm (system.belongings other)
      exact ⟨rfl, (tends.move _ _ ends ⟨divided.confined, rfl⟩).2⟩
  | _ => exact isRealms.elim

end Requests

/-! ## Runs -/

/-- What is done without the realm: requests of other realms, and readers that take the bits of
words that are not the realm's. -/
def Action.IsWithout (rid : RealmId) (parts : Parts) : Action → Prop
  | .request asked => ∃ other, rid ≠ other ∧ asked.IsOf (.realm other)
  | .swap word => word ∉ parts.words

theorem Act.isolated {config : EventServerConfig} {kernel : Kernel K} {rid : RealmId}
    {action : Action} {before after : System K} (separate : config.Separate)
    (divided : before.Divided config)
    (isWithout : action.IsWithout rid (before.server.parts rid))
    (moved : Act kernel action before after) :
    after.server = before.server ∧ after.belongings rid = before.belongings rid := by
  cases action with
  | request request =>
      obtain ⟨other, different, isOthers⟩ := isWithout
      exact divided.handle_isolated separate isOthers different moved
  | swap word =>
      rw [moved]
      exact ⟨rfl, belongings_insert isWithout⟩

/-- Whatever has happened before, and however many requests the other realms then make, in any
order: nothing that belongs to the realm has changed, and no client. -/
theorem run_isolated {config : EventServerConfig} {kernel : Kernel K} {numActiveCores : Nat}
    {kernelState : K} {server : EventServer} {store : Store K}
    {taken later : List (System K × Action)} {system final : System K} {rid : RealmId}
    (separate : config.Separate)
    (realized : config.realize kernel numActiveCores (Store.empty kernelState) = .ok server store)
    (run : Recorded (Act kernel) ⟨server, store⟩ taken system)
    (rest : Recorded (Act kernel) system later final)
    (areWithout : ∀ entry ∈ later, entry.2.IsWithout rid (system.server.parts rid)) :
    final.server = system.server ∧ final.belongings rid = system.belongings rid := by
  have divided : system.Divided config :=
    run.always (realize_divided realized) fun _ _ _ divided moved => moved.divided divided
  have isolated : final.Divided config ∧
      final.server = system.server ∧ final.belongings rid = system.belongings rid := by
    refine @Recorded.invariant _ _ (Act kernel) _ _ _ (fun found => found.Divided config ∧
      found.server = system.server ∧ found.belongings rid = system.belongings rid)
      (fun _ action => action.IsWithout rid (system.server.parts rid)) ⟨divided, rfl, rfl⟩ ?_ rest
      areWithout
    intro action before after ⟨divided, sameServer, same⟩ moved isWithout
    rw [← sameServer] at isWithout
    have step := moved.isolated separate divided isWithout
    exact ⟨moved.divided divided, step.1.trans sameServer, step.2.trans same⟩
  exact isolated.2

theorem exampleConfig_separate : exampleConfig.Separate where
  words := by decide +kernel
  nfns := by simp [exampleConfig]
  subscriptions := by simp [exampleConfig]

/-- The first realm signals the host, which has moved the event, and turns off one of its own
events, while there is another realm. -/
theorem run_isolated_exampleConfig : ∃ first taken system later final,
    exampleConfig.realize permissive 2 (Store.empty ()) = .ok first.server first.store ∧
    Recorded (Act permissive) first taken system ∧
    taken.map Prod.snd = [.request (.createRealm 0 1), .request (.createRealm 1 1),
      .request (.move .host 0 991 0 1)] ∧
    Recorded (Act permissive) system later final ∧
    later.map Prod.snd = [.request (.signal (.realm 0) 0),
      .request (.configure (.realm 0) 0 0 (.setEnabled false))] ∧
    final.store.signals = [1] ∧ final.belongings 1 = system.belongings 1 := by
  obtain ⟨first, taken, system, realized, run, isTaken, checked⟩ := exampleSystem_run
    [.request (.createRealm 0 1), .request (.createRealm 1 1), .request (.move .host 0 991 0 1)]
    (fun run => ((Recorded.record (Action.perform permissive) [.request (.signal (.realm 0) 0),
      .request (.configure (.realm 0) 0 0 (.setEnabled false))] run.2).map fun rest =>
        rest.2.store.signals) = some [1]) (by decide +kernel)
  obtain ⟨⟨later, final⟩, recorded, isSignalled⟩ :=
    Option.map_eq_some_iff.mp (of_decide_eq_true checked)
  have rest := Recorded.ofRecord perform_act .start recorded
  have areLater := Recorded.record_events recorded
  have areWithout : ∀ entry ∈ later, entry.2.IsWithout 1 (system.server.parts 1) := by
    intro entry member
    have isEvent : entry.2 ∈ later.map Prod.snd := List.mem_map_of_mem member
    rw [areLater] at isEvent
    have isOthers : entry.2 = .request (.signal (.realm 0) 0) ∨
        entry.2 = .request (.configure (.realm 0) 0 0 (.setEnabled false)) := by simpa using isEvent
    rcases isOthers with same | same <;> rw [same] <;> exact ⟨0, by decide, rfl⟩
  have isolated := run_isolated exampleConfig_separate realized run rest areWithout
  exact ⟨first, taken, system, later, final, realized, run, isTaken, rest, areLater, isSignalled,
    isolated.2⟩

end IceCap.Events
