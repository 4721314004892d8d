import Mathlib.Data.List.Nodup
import IceCap.Events.Coherence

/-!
# A freshly realized event server is coherent

`realize` first makes all the out-spaces and in-spaces, then goes through the
events one by one and either connects an event to the host or sets it aside for
a realm.  `Setup` is the invariant of this: the events in `pending` have been
given to nobody yet.
-/

set_option autoImplicit false

namespace IceCap.Events

open IceCap.Library IceCap.Sel4 FiniteSet

variable {K : Type}

/-- The layout while no realm exists. -/
def setupLayout (hostInSpaces : List InSpaceId) (inactiveRealms : InactiveRealms) : Layout where
  inSpacesOf
    | .host => hostInSpaces
    | _ => []
  inEntries rid event := ∃ inactive, inactiveRealms[rid]? = some inactive ∧
    some event ∈ inactive.inEntries

theorem layout_eq_setupLayout {server : EventServer} (resourceServerIn : server.resourceServer.inSpaces = [])
    (serialServerIn : server.serialServer.inSpaces = []) (noRealms : server.realms = ∅) :
    server.layout = setupLayout server.host.inSpaces server.inactiveRealms := by
  refine Layout.mk.injEq _ _ _ _ |>.mpr ⟨?_, rfl⟩
  funext client
  cases client with
  | resourceServer => simp [EventServer.client, resourceServerIn]
  | serialServer => simp [EventServer.client, serialServerIn]
  | host => simp [EventServer.client]
  | realm rid => simp [EventServer.client, noRealms]

/-- Only the host has in-spaces yet. -/
theorem mem_setupLayout {hostInSpaces : List InSpaceId} {inactiveRealms : InactiveRealms}
    {client : ClientId} {inSpace : InSpaceId} :
    inSpace ∈ (setupLayout hostInSpaces inactiveRealms).inSpacesOf client ↔
      client = .host ∧ inSpace ∈ hostInSpaces := by
  cases client <;> simp [setupLayout]

structure Setup (host : Client) (outOf : RealmId → List EventId) (inactiveRealms : InactiveRealms)
    (pending : List EventId) (store : Store K) : Prop where
  coherent : Coherent (setupLayout host.inSpaces inactiveRealms) store
  known : ∀ (rid event : Nat), (setupLayout host.inSpaces inactiveRealms).inEntries rid event →
    event < store.events.length
  distinct : pending.Nodup
  pristine : ∀ event ∈ pending, event < store.events.length ∧ store.targetOf event = none ∧
    ∀ rid, ¬ (setupLayout host.inSpaces inactiveRealms).inEntries rid event
  outSpaces : ∀ (rid : Nat) (realm : InactiveRealm), inactiveRealms[rid]? = some realm →
    rid < numRealms ∧ realm.outSpace = outOf rid

theorem newEvent_sameRoutes {irq : Option EventIRQ} {event : EventId} {store final : Store K}
    (run : newEvent irq store = .ok event final) :
    event = store.events.length ∧ store.SameRoutes final ∧
      final.events.length = store.events.length + 1 := by
  simp only [newEvent, Outcome.ok.injEq] at run
  obtain ⟨rfl, rfl⟩ := run
  refine ⟨rfl, ⟨?_, rfl, rfl⟩, by simp⟩
  funext other
  simp only [Store.targetOf, List.getElem?_append]
  split
  · rfl
  · next outside =>
      rw [List.getElem?_eq_none (Nat.le_of_not_lt outside)]
      cases other - store.events.length <;> simp

section Setup
variable {host : Client} {outOf : RealmId → List EventId} {inactiveRealms : InactiveRealms}
variable {pending : List EventId} {store final : Store K}

theorem Setup.weaken {fewer : List EventId} (setup : Setup host outOf inactiveRealms pending store)
    (distinct : fewer.Nodup) (sublist : fewer ⊆ pending) :
    Setup host outOf inactiveRealms fewer store :=
  { setup with
    distinct := distinct
    pristine := fun event member => setup.pristine event (sublist member) }

/-- An event nobody has is connected to the host. -/
theorem Setup.connect {event : EventId} {nid index : Nat} {inSpace : InSpaceId}
    (setup : Setup host outOf inactiveRealms (event :: pending) store)
    (isHost : host.inSpaces[nid]? = some inSpace)
    (run : Event.connect event inSpace index store = .ok () final) :
    Setup host outOf inactiveRealms pending final := by
  obtain ⟨notPending, distinct⟩ := List.nodup_cons.mp setup.distinct
  obtain ⟨_, _, unassigned⟩ := setup.pristine event (by simp)
  obtain ⟨coherent, targets, numEvents⟩ := setup.coherent.connect .host
    (List.mem_of_getElem? isHost) unassigned run
  refine ⟨coherent, ?_, distinct, ?_, setup.outSpaces⟩
  · rw [numEvents]
    exact setup.known
  · intro other member
    obtain ⟨inBounds, noTarget, free⟩ := setup.pristine other (by simp [member])
    have different : other ≠ event := fun same => notPending (same ▸ member)
    refine ⟨by rw [numEvents]; exact inBounds, ?_, free⟩
    rw [targets, Function.update_of_ne different]
    exact noTarget

theorem Setup.connectToHost {event : EventId} {input : HostIn}
    (setup : Setup host outOf inactiveRealms (event :: pending) store)
    (run : connectToHost host event input store = .ok () final) :
    Setup host outOf inactiveRealms pending final := by
  simp only [Events.connectToHost, Exec.bind_eq_ok, Exec.unwrap_eq_ok] at run
  obtain ⟨inSpace, _, ⟨isHost, rfl⟩, connectRun⟩ := run
  exact setup.connect isHost connectRun

/-- An event nobody has is set aside for a realm. -/
theorem Setup.assign {event : EventId} {rid : RealmId} {input : RealmIn}
    {assigned : InactiveRealms}
    (setup : Setup host outOf inactiveRealms (event :: pending) store)
    (run : assignInEntry inactiveRealms rid input event store = .ok assigned final) :
    Setup host outOf assigned pending final := by
  simp only [assignInEntry, Exec.bind_eq_ok, Exec.unwrap_eq_ok, Exec.assert_eq_ok,
    Exec.pure_eq_ok] at run
  obtain ⟨realm, _, ⟨isRealm, rfl⟩, ⟨⟩, _, ⟨inBounds, rfl⟩, isAssigned, rfl⟩ := run
  obtain ⟨notPending, distinct⟩ := List.nodup_cons.mp setup.distinct
  obtain ⟨bound, noTarget, free⟩ := setup.pristine event (by simp)
  -- What is set aside afterwards was set aside before, or is the event.
  have cases : ∀ {other : EventId} {found : RealmId},
      (setupLayout host.inSpaces assigned).inEntries found other →
      (setupLayout host.inSpaces inactiveRealms).inEntries found other ∨
        (other = event ∧ found = rid) := by
    rintro other found ⟨inactive, isInactive, member⟩
    subst isAssigned
    rw [Std.TreeMap.getElem?_insert] at isInactive
    split at isInactive
    · next same =>
        obtain rfl : rid = found := by simpa using same
        obtain rfl := Option.some.inj isInactive
        rcases List.mem_or_eq_of_mem_set member with old | new
        · exact .inl ⟨realm, isRealm, old⟩
        · exact .inr ⟨Option.some.inj new, rfl⟩
    · exact .inl ⟨inactive, isInactive, member⟩
  have routed := setup.coherent.routed
  -- The event is in no in-space, for it has no target.
  have unheld : ∀ place, (setupLayout host.inSpaces inactiveRealms).Live place →
      store.eventAt place ≠ some event := by
    intro place isLive held
    rw [← routed.agree event place isLive, noTarget] at held
    simp at held
  refine ⟨⟨⟨routed.agree, ?_, ?_, routed.apart, routed.nodup, routed.bounded,
    routed.targetsBounded⟩, setup.coherent.targetsLive⟩, ?_, distinct, ?_, ?_⟩
  · intro client place other isOwner held
    obtain ⟨rfl, _⟩ := mem_setupLayout.mp isOwner
    intro found isSetAside
    rcases cases isSetAside with old | ⟨rfl, _⟩
    · exact routed.owned .host place other isOwner held found old
    · exact unheld place ⟨.host, isOwner⟩ held
  · intro first second other isFirst isSecond
    rcases cases isFirst with old | ⟨rfl, rfl⟩
    · rcases cases isSecond with old' | ⟨rfl, rfl⟩
      · exact routed.exclusive first second other old old'
      · exact absurd old (free first)
    · rcases cases isSecond with old' | ⟨_, rfl⟩
      · exact absurd old' (free second)
      · rfl
  · intro found other isSetAside
    rcases cases isSetAside with old | ⟨rfl, _⟩
    · exact setup.known found other old
    · exact bound
  · intro other member
    obtain ⟨otherBound, noTarget', free'⟩ := setup.pristine other (by simp [member])
    refine ⟨otherBound, noTarget', fun found isSetAside => ?_⟩
    rcases cases isSetAside with old | ⟨rfl, _⟩
    · exact free' found old
    · exact notPending member
  · intro found other isOther
    subst isAssigned
    rw [Std.TreeMap.getElem?_insert] at isOther
    split at isOther
    · next same =>
        obtain rfl : rid = found := by simpa using same
        obtain rfl := Option.some.inj isOther
        exact setup.outSpaces rid realm isRealm
    · exact setup.outSpaces found other isOther

theorem connectResourceServerOut_setup {outIndex : Nat} {event : EventId}
    (setup : Setup host outOf inactiveRealms (event :: pending) store)
    (run : connectResourceServerOut host outIndex event store = .ok () final) :
    Setup host outOf inactiveRealms pending final := by
  simp only [connectResourceServerOut, Exec.bind_eq_ok, Exec.unwrap_eq_ok] at run
  obtain ⟨out, _, ⟨_, rfl⟩, connectRun⟩ := run
  exact setup.connectToHost connectRun

theorem connectSerialServerOut_setup {outIndex : Nat} {event : EventId}
    {assigned : InactiveRealms}
    (setup : Setup host outOf inactiveRealms (event :: pending) store)
    (run : connectSerialServerOut host inactiveRealms outIndex event store = .ok assigned final) :
    Setup host outOf assigned pending final := by
  simp only [connectSerialServerOut, Exec.bind_eq_ok, Exec.unwrap_eq_ok] at run
  obtain ⟨⟨_ | realmId⟩, _, ⟨_, rfl⟩, connectRun⟩ := run
  · simp only [Exec.bind_eq_ok, Exec.pure_eq_ok] at connectRun
    obtain ⟨⟨⟩, _, connectRun, rfl, rfl⟩ := connectRun
    exact setup.connectToHost connectRun
  · exact setup.assign connectRun

theorem connectHostOut_setup {outIndex : Nat} {event : EventId} {assigned : InactiveRealms}
    (setup : Setup host outOf inactiveRealms (event :: pending) store)
    (run : connectHostOut inactiveRealms outIndex event store = .ok assigned final) :
    Setup host outOf assigned pending final := by
  simp only [connectHostOut, Exec.bind_eq_ok, Exec.unwrap_eq_ok] at run
  obtain ⟨⟨realmId, ringBufferId⟩, _, ⟨_, rfl⟩, assignRun⟩ := run
  exact setup.assign assignRun

theorem connectRealmOut_setup {rid : RealmId} {outIndex : Nat} {event : EventId}
    (setup : Setup host outOf inactiveRealms (event :: pending) store)
    (run : connectRealmOut host rid outIndex event store = .ok () final) :
    Setup host outOf inactiveRealms pending final := by
  simp only [connectRealmOut, Exec.bind_eq_ok, Exec.unwrap_eq_ok] at run
  obtain ⟨⟨ringBufferId⟩, _, ⟨_, rfl⟩, realmName, _, ⟨_, rfl⟩, connectRun⟩ := run
  exact setup.connectToHost connectRun

/-- An event that has just been created is nobody's. -/
theorem Setup.newEvent {irq : Option EventIRQ} {event : EventId}
    (setup : Setup host outOf inactiveRealms [] store)
    (run : newEvent irq store = .ok event final) :
    Setup host outOf inactiveRealms [event] final := by
  obtain ⟨isEvent, same, numEvents⟩ := newEvent_sameRoutes run
  refine ⟨setup.coherent.sameRoutes same, ?_, by simp, ?_, setup.outSpaces⟩
  · intro rid other isSetAside
    rw [numEvents]
    exact Nat.lt_succ_of_lt (setup.known rid other isSetAside)
  · intro other member
    obtain rfl := List.mem_singleton.mp member
    subst isEvent
    refine ⟨by rw [numEvents]; exact Nat.lt_succ_self _, ?_, fun rid isSetAside => ?_⟩
    · rw [same.targets]
      simp [Store.targetOf]
    · exact absurd (setup.known rid _ isSetAside) (Nat.lt_irrefl _)

/-- The event that subscribes for the host is the host's. -/
theorem newHostSubscription_setup {nodeIndex : Nat} {subscription : SubscriptionEntry}
    (setup : Setup host outOf inactiveRealms [] store)
    (run : newHostSubscription host nodeIndex store = .ok subscription final) :
    Setup host outOf inactiveRealms [] final ∧ ∃ event, subscription.subscriber = .event event ∧
      ∀ rid, ¬ (setupLayout host.inSpaces inactiveRealms).inEntries rid event := by
  simp only [newHostSubscription, Exec.bind_eq_ok, Exec.unwrap_eq_ok, Exec.pure_eq_ok] at run
  obtain ⟨event, _, newRun, inSpace, _, ⟨isHost, rfl⟩, ⟨⟩, _, connectRun, rfl, rfl⟩ := run
  have pending := setup.newEvent newRun
  obtain ⟨_, _, free⟩ := pending.pristine event List.mem_cons_self
  exact ⟨pending.connect isHost connectRun, event, rfl, free⟩

theorem newIrqEvent_setup {kernel : Kernel K} {irq : Nat} {handler : CPtr}
    {notifications : List CPtr} {entry : Nat × EventId}
    (setup : Setup host outOf inactiveRealms [] store)
    (run : newIrqEvent kernel host irq handler notifications store = .ok entry final) :
    Setup host outOf inactiveRealms [] final := by
  simp only [newIrqEvent, Exec.bind_eq_ok, Exec.pure_eq_ok] at run
  obtain ⟨⟨⟩, acked, ackRun, event, _, newRun, ⟨⟩, _, connectRun, _, rfl⟩ := run
  have afterAck : Setup host outOf inactiveRealms [] acked := by
    obtain ⟨inner, _, rfl⟩ := Exec.focus_eq_ok.mp ackRun
    exact ⟨setup.coherent.sameRoutes ⟨rfl, rfl, rfl⟩, setup.known, setup.distinct, by simp,
      setup.outSpaces⟩
  exact (afterAck.newEvent newRun).connectToHost connectRun

end Setup

/-! ## The spaces as they are created -/

section Create
variable {store final : Store K}

/-- The events of an out-space are consecutive new ones. -/
theorem mkOutSpaces_sameRoutes (items : List Nat) :
    ∀ {store final : Store K} {ids : List EventId},
      Exec.mapEach items (fun _ => newEvent none) store = .ok ids final →
      ids = List.range' store.events.length items.length ∧ store.SameRoutes final ∧
        final.events.length = store.events.length + items.length := by
  induction items with
  | nil =>
      intro store final ids run
      obtain ⟨rfl, rfl⟩ := Exec.pure_eq_ok.mp run
      exact ⟨rfl, .refl store, rfl⟩
  | cons item items ih =>
      intro store final ids run
      simp only [Exec.mapEach_cons, Exec.bind_eq_ok, Exec.pure_eq_ok] at run
      obtain ⟨id, middle, newRun, rest, _, restRun, rfl, rfl⟩ := run
      obtain ⟨rfl, same, numEvents⟩ := newEvent_sameRoutes newRun
      obtain ⟨rfl, same', numEvents'⟩ := ih restRun
      refine ⟨?_, same.trans same', ?_⟩
      · rw [List.length_cons, List.range'_succ, numEvents]
      · rw [numEvents', numEvents, List.length_cons]
        omega

theorem mkOutSpace_sameRoutes {n : Nat} {ids : List EventId}
    (run : mkOutSpace n store = .ok ids final) :
    ids = List.range' store.events.length n ∧ store.SameRoutes final ∧
      final.events.length = store.events.length + n := by
  simpa using mkOutSpaces_sameRoutes (List.range n) run

theorem newHost_routes {config : EventServerConfig} {numActiveCores : Nat} {host : Client}
    (run : config.newHost numActiveCores store = .ok host final) :
    host.outSpace = List.range' store.events.length (Finite.cardinality HostOut) ∧
      host.inSpaces = List.range' store.inSpaces.length numActiveCores ∧
      final.targetOf = store.targetOf ∧ final.eventAt = store.eventAt ∧
      final.inSpaces.length = store.inSpaces.length + numActiveCores ∧
      final.events.length = store.events.length + Finite.cardinality HostOut := by
  simp only [EventServerConfig.newHost, Exec.bind_eq_ok, Exec.pure_eq_ok] at run
  obtain ⟨outSpace, middle, outRun, inSpaces, _, inRun, rfl, rfl⟩ := run
  obtain ⟨rfl, same, numEvents⟩ := mkOutSpace_sameRoutes outRun
  obtain ⟨rfl, targets, entries, numInSpaces, events⟩ := newInSpaces_routes _ inRun
  rw [List.length_range, same.numInSpaces] at numInSpaces
  refine ⟨rfl, ?_, targets.trans same.targets, entries.trans same.events, numInSpaces, ?_⟩
  · rw [List.length_range, same.numInSpaces]
  · rw [events, numEvents]

/-- The out-space of a realm, when the first realm's begins at `base`. -/
def realmOut (base : Nat) (rid : RealmId) : List EventId :=
  List.range' (base + rid * Finite.cardinality RealmOut) (Finite.cardinality RealmOut)

theorem mem_realmOut {base rid event : Nat} :
    event ∈ realmOut base rid ↔ base + rid * Finite.cardinality RealmOut ≤ event ∧
      event < base + (rid + 1) * Finite.cardinality RealmOut := by
  rw [realmOut, List.mem_range'_1, Nat.succ_mul, Nat.add_assoc]

theorem realmOut_disjoint {base first second event : Nat} (isFirst : event ∈ realmOut base first)
    (isSecond : event ∈ realmOut base second) : first = second := by
  rw [mem_realmOut] at isFirst isSecond
  have ordered : ∀ {low high : Nat}, low < high →
      (low + 1) * Finite.cardinality RealmOut ≤ high * Finite.cardinality RealmOut :=
    fun less => Nat.mul_le_mul_right _ less
  rcases Nat.lt_trichotomy first second with less | same | less
  · have := ordered less
    omega
  · exact same
  · have := ordered less
    omega

theorem newInactiveRealms_sameRoutes {config : EventServerConfig} {base : Nat} (n : Nat) :
    ∀ {first : Nat} {store final : Store K} {realms : List (RealmId × InactiveRealm)},
      store.events.length = base + first * Finite.cardinality RealmOut →
      Exec.mapEach (List.range' first n) config.newInactiveRealm store = .ok realms final →
      realms.map Prod.fst = List.range' first n ∧ store.SameRoutes final ∧
        (∀ realm ∈ realms, realm.2.outSpace = realmOut base realm.1 ∧
          ∀ event, some event ∉ realm.2.inEntries) ∧
        final.events.length = base + (first + n) * Finite.cardinality RealmOut := by
  induction n with
  | zero =>
      intro first store final realms length run
      obtain ⟨rfl, rfl⟩ := Exec.pure_eq_ok.mp run
      exact ⟨rfl, .refl store, by simp, length⟩
  | succ n ih =>
      intro first store final realms length run
      simp only [List.range'_succ, Exec.mapEach_cons, EventServerConfig.newInactiveRealm,
        Exec.bind_eq_ok, Exec.unwrap_eq_ok, Exec.pure_eq_ok] at run
      obtain ⟨_, _, ⟨outSpace, afterOut, outRun, notifications, _, ⟨_, rfl⟩, rfl, rfl⟩, rest, _,
        restRun, rfl, rfl⟩ := run
      obtain ⟨rfl, same, numEvents⟩ := mkOutSpace_sameRoutes outRun
      have next : afterOut.events.length = base + (first + 1) * Finite.cardinality RealmOut := by
        rw [numEvents, length, Nat.succ_mul, Nat.add_assoc]
      obtain ⟨keys, same', fresh, numEvents'⟩ := ih next restRun
      refine ⟨by rw [List.map_cons, keys, List.range'_succ], same.trans same', ?_, ?_⟩
      · intro realm member
        rcases List.mem_cons.mp member with rfl | later
        · refine ⟨by rw [length, realmOut], fun event isSetAside => ?_⟩
          simp at isSetAside
        · exact fresh realm later
      · rw [numEvents', Nat.add_right_comm, Nat.add_assoc first]

theorem distinct_keys {realms : List (Nat × InactiveRealm)}
    (keys : realms.map Prod.fst = List.range numRealms) :
    realms.Pairwise fun one other => ¬ compare one.1 other.1 = .eq := by
  have nodup : (realms.map Prod.fst).Nodup := keys ▸ List.nodup_range
  rw [List.Nodup, List.pairwise_map] at nodup
  exact nodup.imp fun different => by simpa using different

/-- A realm that is found is one of those that were created. -/
theorem mem_of_getElem?_ofList {realms : List (Nat × InactiveRealm)} {rid : Nat}
    {realm : InactiveRealm} (keys : realms.map Prod.fst = List.range numRealms)
    (isRealm : (Std.TreeMap.ofList realms)[rid]? = some realm) : (rid, realm) ∈ realms := by
  have isKey : rid ∈ realms.map Prod.fst := by
    have isMember : rid ∈ Std.TreeMap.ofList realms := by
      rw [Std.TreeMap.mem_iff_isSome_getElem?, isRealm]
      rfl
    simpa [Std.TreeMap.mem_ofList] using isMember
  obtain ⟨⟨key, value⟩, member, rfl⟩ := List.mem_map.mp isKey
  rw [Std.TreeMap.getElem?_ofList_of_mem Std.ReflCmp.compare_self (distinct_keys keys) member]
    at isRealm
  exact Option.some.inj isRealm ▸ member

/-- Before any event is connected, they are all pending. -/
theorem Setup.start {base : Nat} {host : Client} {realms : List (RealmId × InactiveRealm)}
    (noTargets : ∀ event, store.targetOf event = none)
    (noEntries : ∀ place, store.eventAt place = none)
    (hostNodup : host.inSpaces.Nodup)
    (hostBounded : ∀ inSpace ∈ host.inSpaces, inSpace < store.inSpaces.length)
    (keys : realms.map Prod.fst = List.range numRealms)
    (fresh : ∀ realm ∈ realms, realm.2.outSpace = realmOut base realm.1 ∧
      ∀ event, some event ∉ realm.2.inEntries) :
    Setup host (realmOut base) (Std.TreeMap.ofList realms) (List.range store.events.length)
      store := by
  have unassigned : ∀ (rid event : Nat),
      ¬ (setupLayout host.inSpaces (Std.TreeMap.ofList realms)).inEntries rid event := by
    rintro rid event ⟨realm, isRealm, member⟩
    exact (fresh _ (mem_of_getElem?_ofList keys isRealm)).2 event member
  refine ⟨⟨⟨?_, ?_, ?_, ?_, ?_, ?_, ?_⟩, ?_⟩, ?_, List.nodup_range, ?_, ?_⟩
  · intro event place _
    simp [noTargets, noEntries]
  · intro client place event _ held
    simp [noEntries] at held
  · intro first second event isFirst
    exact absurd isFirst (unassigned first event)
  · intro first second inSpace isFirst isSecond
    cases first <;> cases second <;> simp [setupLayout] at isFirst isSecond ⊢
  · intro client
    cases client <;> simp [setupLayout, hostNodup]
  · intro client inSpace isOwner
    cases client <;> simp only [setupLayout, List.not_mem_nil] at isOwner
    exact hostBounded inSpace isOwner
  · intro event place isTarget
    simp [noTargets] at isTarget
  · intro event place isTarget
    simp [noTargets] at isTarget
  · intro rid event isSetAside
    exact absurd isSetAside (unassigned rid event)
  · intro event member
    exact ⟨List.mem_range.mp member, noTargets event, fun rid => unassigned rid event⟩
  · intro rid realm isRealm
    have member := mem_of_getElem?_ofList keys isRealm
    refine ⟨?_, (fresh _ member).1⟩
    have isKey : rid ∈ realms.map Prod.fst := List.mem_map_of_mem member
    rwa [keys, List.mem_range] at isKey

end Create

/-! ## The whole setup -/

section Loops
variable {host : Client} {outOf : RealmId → List EventId} {inactiveRealms : InactiveRealms}
variable {pending : List EventId} {store final : Store K}

/-- A loop over an out-space gives its events away. -/
theorem setup_forEach {body : EventId × Nat → Exec Failure (Store K) Unit} {outSpace : List EventId}
    (step : ∀ (out : EventId × Nat) (pending : List EventId) (store final : Store K),
      Setup host outOf inactiveRealms (out.1 :: pending) store → body out store = .ok () final →
      Setup host outOf inactiveRealms pending final)
    (setup : Setup host outOf inactiveRealms (outSpace ++ pending) store)
    (run : Exec.forEach outSpace.zipIdx body store = .ok () final) :
    Setup host outOf inactiveRealms pending final := by
  refine Exec.forEach_consumes
    (fun rest store => Setup host outOf inactiveRealms (rest.map Prod.fst ++ pending) store)
    (fun out rest before after setup first => ?_) ?_ run
  · exact step out _ before after setup first
  · rwa [List.zipIdx_map_fst]

theorem setup_foldEach {body : InactiveRealms → EventId × Nat → Exec Failure (Store K) InactiveRealms}
    {outSpace : List EventId} {assigned : InactiveRealms}
    (step : ∀ (out : EventId × Nat) (pending : List EventId) (value next : InactiveRealms)
      (store final : Store K), Setup host outOf value (out.1 :: pending) store →
      body value out store = .ok next final → Setup host outOf next pending final)
    (setup : Setup host outOf inactiveRealms (outSpace ++ pending) store)
    (run : Exec.foldEach outSpace.zipIdx inactiveRealms body store = .ok assigned final) :
    Setup host outOf assigned pending final := by
  refine Exec.foldEach_consumes
    (fun rest value store => Setup host outOf value (rest.map Prod.fst ++ pending) store)
    (fun out rest value next before after setup first => ?_) ?_ run
  · exact step out _ value next before after setup first
  · rwa [List.zipIdx_map_fst]

/-- The events of the realms' out-spaces are the host's, one realm after the other. -/
theorem connectRealms_setup (realms : List (RealmId × InactiveRealm))
    (outSpaces : ∀ realm ∈ realms, realm.2.outSpace = outOf realm.1)
    (setup : Setup host outOf inactiveRealms (realms.flatMap fun realm => outOf realm.1) store)
    (run : Exec.forEach realms (fun realm =>
      Exec.forEach realm.2.outSpace.zipIdx fun out => connectRealmOut host realm.1 out.2 out.1)
      store = .ok () final) :
    Setup host outOf inactiveRealms [] final := by
  have step : ∀ (realm : RealmId × InactiveRealm) (rest : List (RealmId × InactiveRealm))
      (before after : Store K), (realm :: rest ⊆ realms ∧
        Setup host outOf inactiveRealms ((realm :: rest).flatMap fun realm => outOf realm.1)
          before) →
      Exec.forEach realm.2.outSpace.zipIdx
        (fun out => connectRealmOut host realm.1 out.2 out.1) before = .ok () after →
      rest ⊆ realms ∧
        Setup host outOf inactiveRealms (rest.flatMap fun realm => outOf realm.1) after := by
    rintro realm rest before after ⟨subset, setup⟩ first
    obtain ⟨isRealm, subset⟩ := List.cons_subset.mp subset
    refine ⟨subset, ?_⟩
    rw [List.flatMap_cons, ← outSpaces realm isRealm] at setup
    exact setup_forEach (fun out pending store final setup run => connectRealmOut_setup setup run)
      setup first
  exact (Exec.forEach_consumes (fun rest store => rest ⊆ realms ∧
      Setup host outOf inactiveRealms (rest.flatMap fun realm => outOf realm.1) store)
    step ⟨List.Subset.refl realms, setup⟩ run).2

end Loops

theorem realmOuts_nodup {base : Nat} {rids : List RealmId} (distinct : rids.Nodup) :
    (rids.flatMap (realmOut base)).Nodup := by
  refine List.nodup_flatMap.mpr ⟨fun rid _ => List.nodup_range', ?_⟩
  refine distinct.imp fun {first second} different event isFirst isSecond => ?_
  exact different (realmOut_disjoint isFirst isSecond)

theorem realmOuts_subset {base : Nat} {rids : List Nat}
    (bounded : ∀ rid ∈ rids, rid < numRealms) :
    rids.flatMap (realmOut base) ⊆
      List.range' base (numRealms * Finite.cardinality RealmOut) := by
  intro event member
  obtain ⟨rid, isRid, isEvent⟩ := List.mem_flatMap.mp member
  rw [mem_realmOut] at isEvent
  have inside : (rid + 1) * Finite.cardinality RealmOut ≤
      numRealms * Finite.cardinality RealmOut :=
    Nat.mul_le_mul_right _ (bounded rid isRid)
  rw [List.mem_range'_1]
  exact ⟨Nat.le_trans (Nat.le_add_right _ _) isEvent.1,
    Nat.lt_of_lt_of_le isEvent.2 (Nat.add_le_add_left inside _)⟩

/-- The spaces are created, with no event connected yet. -/
theorem create_setup {config : EventServerConfig} {numActiveCores : Nat} {kernelState : K}
    {resourceServerOut serialServerOut : List EventId} {host : Client}
    {realms : List (RealmId × InactiveRealm)} {made made' made'' opened : Store K}
    (resourceServerRun : mkOutSpace (Finite.cardinality ResourceServerOut)
      (Store.empty kernelState) = .ok resourceServerOut made)
    (serialServerRun : mkOutSpace (Finite.cardinality SerialServerOut) made =
      .ok serialServerOut made')
    (hostRun : config.newHost numActiveCores made' = .ok host made'')
    (realmsRun : Exec.mapEach (List.range numRealms) config.newInactiveRealm made'' =
      .ok realms opened) :
    Setup host (realmOut made''.events.length) (Std.TreeMap.ofList realms)
        (resourceServerOut ++ (serialServerOut ++ (host.outSpace ++
          List.range' made''.events.length (numRealms * Finite.cardinality RealmOut)))) opened ∧
      realms.map Prod.fst = List.range numRealms := by
  obtain ⟨rfl, same, length⟩ := mkOutSpace_sameRoutes resourceServerRun
  obtain ⟨rfl, same', length'⟩ := mkOutSpace_sameRoutes serialServerRun
  obtain ⟨hostOut, hostIn, targets, entries, numInSpaces, length''⟩ := newHost_routes hostRun
  rw [List.range_eq_range'] at realmsRun
  have firstOut : made''.events.length =
      made''.events.length + 0 * Finite.cardinality RealmOut := by simp
  obtain ⟨keys, opens, fresh, total⟩ := newInactiveRealms_sameRoutes numRealms firstOut realmsRun
  rw [← List.range_eq_range'] at keys
  have start : Setup host (realmOut made''.events.length) (Std.TreeMap.ofList realms)
      (List.range opened.events.length) opened := by
    refine Setup.start ?_ ?_ ?_ ?_ keys fresh
    · rw [opens.targets, targets, same'.targets, same.targets]
      simp [Store.targetOf, Store.empty]
    · rw [opens.events, entries, same'.events, same.events]
      simp [Store.eventAt, Store.empty]
    · rw [hostIn]
      exact List.nodup_range'
    · intro inSpace member
      rw [hostIn, List.mem_range'_1] at member
      rw [opens.numInSpaces, numInSpaces]
      exact member.2
  have inOrder : List.range opened.events.length =
      List.range' (Store.empty kernelState).events.length (Finite.cardinality ResourceServerOut) ++
        (List.range' made.events.length (Finite.cardinality SerialServerOut) ++
          (host.outSpace ++
            List.range' made''.events.length (numRealms * Finite.cardinality RealmOut))) := by
    have noEvents : (Store.empty kernelState).events.length = 0 := rfl
    rw [hostOut, List.range_eq_range', total, length'', length', length, noEvents,
      List.range'_append_1, List.range'_append_1, List.range'_append_1, Nat.zero_add]
    simp only [Nat.add_assoc, Nat.zero_add]
  exact ⟨inOrder ▸ start, keys⟩

/-- What is left for the host are the out-spaces of the realms, in the order of the realms. -/
theorem Setup.byRealm {host : Client} {base : Nat} {inactiveRealms : InactiveRealms}
    {store : Store K} (setup : Setup host (realmOut base) inactiveRealms
      (List.range' base (numRealms * Finite.cardinality RealmOut)) store) :
    (∀ realm ∈ inactiveRealms.toList, realm.1 < numRealms ∧
      realm.2.outSpace = realmOut base realm.1) ∧
    Setup host (realmOut base) inactiveRealms
      (inactiveRealms.toList.flatMap fun realm => realmOut base realm.1) store := by
  have isRealm : ∀ realm ∈ inactiveRealms.toList, realm.1 < numRealms ∧
      realm.2.outSpace = realmOut base realm.1 := by
    intro realm member
    exact setup.outSpaces realm.1 realm.2 (Std.TreeMap.mem_toList_iff_getElem?_eq_some.mp member)
  refine ⟨isRealm, setup.weaken ?_ ?_⟩
  · rw [← List.flatMap_map]
    apply realmOuts_nodup
    rw [List.Nodup, List.pairwise_map]
    exact inactiveRealms.distinct_keys_toList.imp fun different => by simpa using different
  · rw [← List.flatMap_map]
    apply realmOuts_subset
    intro rid member
    obtain ⟨realm, isMember, rfl⟩ := List.mem_map.mp member
    exact (isRealm realm isMember).1

/-- The server as `realize` leaves it. -/
theorem realize_setup {kernel : Kernel K} {numActiveCores : Nat} {config : EventServerConfig}
    {kernelState : K} {server : EventServer} {store : Store K}
    (run : config.realize kernel numActiveCores (Store.empty kernelState) = .ok server store) :
    server.layout = setupLayout server.host.inSpaces server.inactiveRealms ∧
      (∃ outOf, Setup server.host outOf server.inactiveRealms [] store) ∧
      (∀ entry ∈ server.hostSubscriptions, ∃ event, entry.subscriber = .event event ∧
        ∀ rid, ¬ server.layout.inEntries rid event) ∧
      server.resourceServerSubscriptions = config.resourceServerSubscriptions.map
        (fun notification => ⟨.notification notification, none⟩) ∧
      ∀ (rid : Nat) (inactive : InactiveRealm), server.inactiveRealms[rid]? = some inactive →
        ∀ event ∈ inactive.outSpace, ∀ other, ¬ server.layout.inEntries other event := by
  simp only [EventServerConfig.realize, Exec.bind_eq_ok, Exec.pure_eq_ok] at run
  obtain ⟨resourceServerOut, made, resourceServerRun, serialServerOut, made', serialServerRun,
    host, made'', hostRun, realms, opened, realmsRun, ⟨⟩, afterResourceServer, resourceServerLoop,
    assigned, afterSerialServer, serialServerLoop, assigned', afterHost, hostLoop, ⟨⟩, afterRealms,
    realmsLoop, hostSubscriptions, subscribed, subscriptionsRun, irqEvents, final, irqsRun, rfl,
    rfl⟩ := run
  have start := (create_setup resourceServerRun serialServerRun hostRun realmsRun).1
  -- Every event is given to the host or to a realm.
  have setup := setup_forEach (fun out pending store final setup run =>
    connectResourceServerOut_setup setup run) start resourceServerLoop
  have setup' := setup_foldEach (fun out pending value next store final setup run =>
    connectSerialServerOut_setup setup run) setup serialServerLoop
  have setup'' := setup_foldEach (fun out pending value next store final setup run =>
    connectHostOut_setup setup run) setup' hostLoop
  obtain ⟨isRealm, byRealm⟩ := setup''.byRealm
  have connected := connectRealms_setup assigned'.toList (fun realm member =>
    (isRealm realm member).2) byRealm realmsLoop
  have subscribedSetup := Exec.mapEach_preserves
    (Setup host (realmOut made''.events.length) assigned' [])
    (fun _ _ before after _ setup run => (newHostSubscription_setup setup run).1) connected
    subscriptionsRun
  have areHosts := Exec.mapEach_yields
    (Setup host (realmOut made''.events.length) assigned' []) _
    (fun _ before after _ setup run => newHostSubscription_setup setup run) connected
    subscriptionsRun
  have finished := Exec.mapEach_preserves
    (Setup host (realmOut made''.events.length) assigned' [])
    (fun _ _ before after _ setup run => newIrqEvent_setup setup run) subscribedSetup irqsRun
  refine ⟨layout_eq_setupLayout rfl rfl rfl, ⟨_, finished⟩, areHosts, rfl, ?_⟩
  intro rid inactive isInactive event isOut other isSetAside
  have member := Std.TreeMap.mem_toList_iff_getElem?_eq_some.mpr isInactive
  rw [(isRealm _ member).2] at isOut
  exact (byRealm.pristine event (List.mem_flatMap.mpr ⟨_, member, isOut⟩)).2.2 other isSetAside

theorem realize_coherent {kernel : Kernel K} {numActiveCores : Nat} {config : EventServerConfig}
    {kernelState : K} {server : EventServer} {store : Store K}
    (run : config.realize kernel numActiveCores (Store.empty kernelState) = .ok server store) :
    System.Coherent ⟨server, store⟩ := by
  obtain ⟨sameLayout, ⟨outOf, setup⟩, _⟩ := realize_setup run
  rw [System.Coherent, sameLayout]
  exact setup.coherent

end IceCap.Events
