import Mathlib.Logic.Relation
import IceCap.Events.Routing

/-!
# The routes over whole runs

`Coherent` holds after `EventServerConfig::realize` and is kept by every
request, except for a move onto an occupied entry: `move_` exchanges the two
entries but sets the target of the moved event only, so the event it displaces
keeps a target that now belongs to the other one.
-/

set_option autoImplicit false

namespace IceCap.Events

open IceCap.Library IceCap.Sel4 FiniteSet

variable {K : Type}

/-- Every target is in an in-space that some client has. -/
def TargetsLive (layout : Layout) (store : Store K) : Prop :=
  ∀ (event : EventId) (place : EventTarget), store.targetOf event = some place → layout.Live place

structure Coherent (layout : Layout) (store : Store K) : Prop where
  routed : Routed layout store
  targetsLive : TargetsLive layout store

namespace Coherent

variable {layout : Layout} {store final : Store K}

theorem sameRoutes (coherent : Coherent layout store) (same : store.SameRoutes final) :
    Coherent layout final :=
  ⟨coherent.routed.sameRoutes same, by
    intro event place isTarget
    rw [same.targets] at isTarget
    exact coherent.targetsLive event place isTarget⟩

theorem connect {event : EventId} {inSpace : InSpaceId} {index : Nat}
    (coherent : Coherent layout store) (client : ClientId) (isClient : inSpace ∈ layout.inSpacesOf client)
    (mayHold : layout.MayHold client event)
    (run : Event.connect event inSpace index store = .ok () final) :
    Coherent layout final ∧ final.targetOf = Function.update store.targetOf event
        (some ⟨inSpace, index⟩) ∧ final.events.length = store.events.length := by
  obtain ⟨routed, targets, numEvents⟩ := coherent.routed.connect client isClient mayHold run
  refine ⟨⟨routed, ?_⟩, targets, numEvents⟩
  intro other place isTarget
  rw [targets] at isTarget
  by_cases same : other = event
  · subst same
    rw [Function.update_self] at isTarget
    obtain rfl := Option.some.inj isTarget
    exact ⟨client, isClient⟩
  · rw [Function.update_of_ne same] at isTarget
    exact coherent.targetsLive other place isTarget

end Coherent

/-! ## New in-spaces -/

section NewInSpaces
variable {layout : Layout} {store final : Store K}

/-- An in-space with no entries in use changes no routes. -/
theorem newInSpace_routes {inSpace : InSpace} {id : InSpaceId}
    (unused : ∀ index, inSpace.eventAt index = none)
    (run : newInSpace inSpace store = .ok id final) :
    id = store.inSpaces.length ∧ final.targetOf = store.targetOf ∧
      final.eventAt = store.eventAt ∧ final.inSpaces.length = store.inSpaces.length + 1 ∧
      final.events = store.events := by
  simp only [newInSpace, Outcome.ok.injEq] at run
  obtain ⟨rfl, rfl⟩ := run
  refine ⟨rfl, rfl, ?_, by simp, rfl⟩
  funext place
  simp only [Store.eventAt, List.getElem?_append]
  split
  · rfl
  · next outside =>
      rw [List.getElem?_eq_none (Nat.le_of_not_lt outside)]
      cases place.inSpace - store.inSpaces.length with
      | zero => simp [unused]
      | succ n => simp

theorem eventAt_replicate (n : Nat) (notification : ClientNode) (index : Nat) :
    InSpace.eventAt ⟨List.replicate n none, notification, none⟩ index = none := by
  unfold InSpace.eventAt
  rw [List.getElem?_replicate]
  split <;> rfl

theorem newInSpaces_routes {entries : Nat} {notifications : List ClientNode} (nids : List Nat) :
    ∀ {store final : Store K} {ids : List InSpaceId},
      Exec.mapEach nids (fun nid => do
        let notification ← Exec.unwrap notifications[nid]?
        newInSpace ⟨List.replicate entries none, notification, none⟩) store = .ok ids final →
      ids = List.range' store.inSpaces.length nids.length ∧ final.targetOf = store.targetOf ∧
        final.eventAt = store.eventAt ∧
        final.inSpaces.length = store.inSpaces.length + nids.length ∧
        final.events = store.events := by
  induction nids with
  | nil =>
      intro store final ids run
      simp only [Exec.mapEach_nil, Exec.pure_eq_ok] at run
      obtain ⟨rfl, rfl⟩ := run
      exact ⟨rfl, rfl, rfl, rfl, rfl⟩
  | cons nid nids ih =>
      intro store final ids run
      simp only [Exec.mapEach_cons, Exec.bind_eq_ok, Exec.unwrap_eq_ok, Exec.pure_eq_ok] at run
      obtain ⟨id, middle, ⟨notification, _, ⟨_, rfl⟩, newRun⟩, rest, last, restRun, rfl, rfl⟩ := run
      obtain ⟨rfl, targets, events, length, sameEvents⟩ :=
        newInSpace_routes (eventAt_replicate entries notification) newRun
      obtain ⟨rfl, targets', events', length', sameEvents'⟩ := ih restRun
      refine ⟨?_, targets'.trans targets, events'.trans events, ?_, sameEvents'.trans sameEvents⟩
      · rw [List.length_cons, List.range'_succ, length]
      · rw [length', length, List.length_cons]
        omega

/-- The subscription slots. -/
def Store.slots (store : Store K) : List (Option Subscriber) :=
  store.inSpaces.map InSpace.subscriptionSlot

theorem newInSpaces_slots {entries : Nat} {notifications : List ClientNode} (nids : List Nat) :
    ∀ {store final : Store K} {ids : List InSpaceId},
      Exec.mapEach nids (fun nid => do
        let notification ← Exec.unwrap notifications[nid]?
        newInSpace ⟨List.replicate entries none, notification, none⟩) store = .ok ids final →
      final.slots = store.slots ++ List.replicate nids.length none := by
  induction nids with
  | nil =>
      intro store final ids run
      obtain ⟨_, rfl⟩ := Exec.pure_eq_ok.mp run
      exact (List.append_nil _).symm
  | cons nid nids ih =>
      intro store final ids run
      simp only [Exec.mapEach_cons, Exec.bind_eq_ok, Exec.unwrap_eq_ok, Exec.pure_eq_ok] at run
      obtain ⟨id, middle, ⟨notification, _, ⟨_, rfl⟩, newRun⟩, rest, _, restRun, _, rfl⟩ := run
      obtain ⟨_, rfl⟩ := Outcome.ok.inj newRun
      rw [ih restRun, List.length_cons, List.replicate_succ]
      simp [Store.slots]

/-- A client that had no in-spaces is given new ones. -/
theorem Coherent.addClient {client : ClientId} {n : Nat} (coherent : Coherent layout store)
    (hadNone : layout.inSpacesOf client = []) (targets : final.targetOf = store.targetOf)
    (events : final.eventAt = store.eventAt)
    (length : final.inSpaces.length = store.inSpaces.length + n) :
    Coherent ⟨Function.update layout.inSpacesOf client
      (List.range' store.inSpaces.length n), layout.inEntries⟩ final := by
  have old : ∀ {owner : ClientId} {inSpace : Nat}, owner ≠ client →
      inSpace ∈ Function.update layout.inSpacesOf client
        (List.range' store.inSpaces.length n) owner → inSpace ∈ layout.inSpacesOf owner := by
    intro owner inSpace different member
    rwa [Function.update_of_ne different] at member
  have new : ∀ {inSpace : Nat}, inSpace ∈ Function.update layout.inSpacesOf client
        (List.range' store.inSpaces.length n) client →
      store.inSpaces.length ≤ inSpace ∧ inSpace < store.inSpaces.length + n := by
    intro inSpace member
    rw [Function.update_self] at member
    simpa [List.mem_range'_1] using member
  have unused : ∀ place : EventTarget, store.inSpaces.length ≤ place.inSpace →
      store.eventAt place = none := by
    intro place outside
    simp [Store.eventAt, List.getElem?_eq_none outside]
  have grows : ∀ place, layout.Live place → Layout.Live ⟨Function.update layout.inSpacesOf client
      (List.range' store.inSpaces.length n), layout.inEntries⟩ place := by
    rintro place ⟨owner, isOwner⟩
    refine ⟨owner, ?_⟩
    have different : owner ≠ client := by
      rintro rfl
      rw [hadNone] at isOwner
      simp at isOwner
    simpa [Function.update_of_ne different] using isOwner
  have bounded := coherent.routed.bounded
  constructor
  · refine ⟨?_, ?_, coherent.routed.exclusive, ?_, ?_, ?_, ?_⟩
    · rw [targets, events]
      refine coherent.routed.agree.grow ?_
      rintro place ⟨owner, isOwner⟩ notLive
      by_cases same : owner = client
      · subst same
        have isNew := new isOwner
        refine ⟨unused place isNew.1, fun event isTarget => ?_⟩
        have inBounds := coherent.routed.targetsBounded event place isTarget
        omega
      · exact absurd ⟨owner, old same isOwner⟩ notLive
    · intro owner place event isOwner isEvent
      rw [events] at isEvent
      by_cases same : owner = client
      · subst same
        rw [unused place (new isOwner).1] at isEvent
        simp at isEvent
      · have held := coherent.routed.owned owner place event (old same isOwner) isEvent
        cases owner <;> exact held
    · intro first second inSpace isFirst isSecond
      by_cases sameFirst : first = client
      · subst sameFirst
        by_cases sameSecond : second = first
        · exact sameSecond.symm
        · have below := bounded second inSpace (old sameSecond isSecond)
          have above := new isFirst
          omega
      · by_cases sameSecond : second = client
        · subst sameSecond
          have below := bounded first inSpace (old sameFirst isFirst)
          have above := new isSecond
          omega
        · exact coherent.routed.apart first second inSpace (old sameFirst isFirst)
            (old sameSecond isSecond)
    · intro owner
      by_cases same : owner = client
      · subst same
        simp only [Function.update_self]
        exact List.nodup_range'
      · simp only [Function.update_of_ne same]
        exact coherent.routed.nodup owner
    · intro owner inSpace isOwner
      by_cases same : owner = client
      · subst same
        have isNew := new isOwner
        omega
      · have inBounds := bounded owner inSpace (old same isOwner)
        omega
    · intro event place isTarget
      rw [targets] at isTarget
      have inBounds := coherent.routed.targetsBounded event place isTarget
      omega
  · intro event place isTarget
    rw [targets] at isTarget
    exact grows place (coherent.targetsLive event place isTarget)

end NewInSpaces

/-! ## Realms come and go -/

def EventServer.layout (server : EventServer) : Layout where
  inSpacesOf client := ((server.client client).map Client.inSpaces).getD []
  inEntries rid event := ∃ inactive, server.inactiveRealms[rid]? = some inactive ∧
    some event ∈ inactive.inEntries

theorem layout_insert (server : EventServer) (rid : RealmId) (client : Client) :
    EventServer.layout { server with realms := server.realms.insert rid client } =
      ⟨Function.update server.layout.inSpacesOf (.realm rid) client.inSpaces,
        server.layout.inEntries⟩ := by
  refine Layout.mk.injEq _ _ _ _ |>.mpr ⟨?_, rfl⟩
  funext owner
  cases owner with
  | realm other =>
      by_cases same : rid = other
      · subst same
        simp [EventServer.client]
      · have different : (ClientId.realm other) ≠ .realm rid := by simp [Ne.symm same]
        simp [Function.update_of_ne different, EventServer.layout, EventServer.client,
          Std.TreeMap.getElem?_insert, same]
  | resourceServer => rfl
  | serialServer => rfl
  | host => rfl

theorem layout_erase (server : EventServer) (rid : RealmId) :
    EventServer.layout { server with realms := server.realms.erase rid } =
      ⟨Function.update server.layout.inSpacesOf (.realm rid) [], server.layout.inEntries⟩ := by
  refine Layout.mk.injEq _ _ _ _ |>.mpr ⟨?_, rfl⟩
  funext owner
  cases owner with
  | realm other =>
      by_cases same : rid = other
      · subst same
        simp [EventServer.client]
      · have different : (ClientId.realm other) ≠ .realm rid := by simp [Ne.symm same]
        simp [Function.update_of_ne different, EventServer.layout, EventServer.client,
          Std.TreeMap.getElem?_erase, same]
  | resourceServer => rfl
  | serialServer => rfl
  | host => rfl

section Realms
variable {store final : Store K} {layout : Layout}

/-- The events set aside for a realm are connected to its first in-space. -/
theorem connectEntries_coherent (rid : RealmId) {inSpaces : List InSpaceId}
    (isClient : layout.inSpacesOf (.realm rid) = inSpaces) {entries : List (Option EventId × Nat)}
    (setAside : ∀ event index, (some event, index) ∈ entries → layout.inEntries rid event)
    (coherent : Coherent layout store) {result : Unit}
    (run : Exec.forEach entries (fun entry =>
      match entry.1 with
      | none => pure ()
      | some event => do
          let inSpace ← Exec.unwrap inSpaces[0]?
          Event.connect event inSpace entry.2) store = .ok result final) :
    Coherent layout final := by
  refine Exec.forEach_preserves (Coherent layout) ?_ coherent run
  rintro ⟨entry, index⟩ member before after result holds step
  cases entry with
  | none =>
      obtain rfl := (Exec.pure_eq_ok.mp step).2
      exact holds
  | some event =>
      simp only [Exec.bind_eq_ok, Exec.unwrap_eq_ok] at step
      obtain ⟨inSpace, _, ⟨isInSpace, rfl⟩, step⟩ := step
      have isOwned : inSpace ∈ layout.inSpacesOf (.realm rid) :=
        isClient ▸ List.mem_of_getElem? isInSpace
      exact (holds.connect (.realm rid) isOwned (setAside event index member) step).1

/-- The events set aside for a realm that is gone are disconnected, and then no target is left in
its in-spaces. -/
theorem destroyEntries_coherent (rid : RealmId) (gone : layout.inSpacesOf (.realm rid) = [])
    (entries : List (Option EventId)) :
    ∀ {store final : Store K} {result : Unit},
      (∀ event, some event ∈ entries → layout.inEntries rid event) → Routed layout store →
      (∀ event place, store.targetOf event = some place →
        layout.Live place ∨ some event ∈ entries) →
      Exec.forEach entries (fun entry =>
        match entry with
        | none => pure ()
        | some event => Event.disconnect event) store = .ok result final →
      Coherent layout final := by
  induction entries with
  | nil =>
      intro store final result _ routed targets run
      obtain rfl := (Exec.pure_eq_ok.mp run).2
      exact ⟨routed, fun event place isTarget => by simpa using targets event place isTarget⟩
  | cons entry entries ih =>
      intro store final result setAside routed targets run
      simp only [Exec.forEach_cons, Exec.bind_eq_ok] at run
      obtain ⟨⟨⟩, middle, first, rest⟩ := run
      have fewer : ∀ event, some event ∈ entries → layout.inEntries rid event :=
        fun event member => setAside event (List.mem_cons_of_mem _ member)
      cases entry with
      | none =>
          obtain rfl := (Exec.pure_eq_ok.mp first).2
          exact ih fewer routed (fun event place isTarget => by
            simpa using targets event place isTarget) rest
      | some event =>
          -- No live in-space holds the event: it belongs to the realm that is gone.
          have unused : ∀ place, layout.Live place → store.eventAt place ≠ some event := by
            rintro place ⟨owner, isOwner⟩ held
            have mayHold := routed.owned owner place event isOwner held
            have isSetAside := setAside event (by simp)
            cases owner with
            | realm other =>
                obtain rfl := routed.exclusive other rid event mayHold isSetAside
                rw [gone] at isOwner
                simp at isOwner
            | resourceServer => exact mayHold rid isSetAside
            | serialServer => exact mayHold rid isSetAside
            | host => exact mayHold rid isSetAside
          refine ih fewer (routed.disconnect unused first) ?_ rest
          intro other place isTarget
          simp only [Event.disconnect, Exec.bind_eq_ok, readEvent, Exec.reads_eq_ok] at first
          obtain ⟨found, _, ⟨isEvent, rfl⟩, setRun⟩ := first
          have newTargets :=
            (setTarget_routes (List.getElem?_eq_some_iff.mp isEvent).1 setRun).1
          rw [newTargets] at isTarget
          by_cases same : other = event
          · subst same
            simp at isTarget
          · rw [Function.update_of_ne same] at isTarget
            simpa [same] using targets other place isTarget

end Realms

/-- The in-spaces of a new client are new ones, and then the events set aside for it are connected
to the first. -/
theorem createClient_eq_ok {inactive : InactiveRealm} {numNodes : Nat} {client : Client}
    {store final : Store K} (run : inactive.createClient numNodes store = .ok client final) :
    ∃ middle, client.inSpaces = List.range' store.inSpaces.length numNodes ∧
      middle.targetOf = store.targetOf ∧ middle.eventAt = store.eventAt ∧
      middle.inSpaces.length = store.inSpaces.length + numNodes ∧ middle.events = store.events ∧
      middle.slots = store.slots ++ List.replicate numNodes none ∧
      Exec.forEach inactive.inEntries.zipIdx (fun entry =>
        match entry.1 with
        | none => pure ()
        | some event => do
            let inSpace ← Exec.unwrap client.inSpaces[0]?
            Event.connect event inSpace entry.2) middle = .ok () final := by
  simp only [InactiveRealm.createClient, Exec.bind_eq_ok, Exec.assert_eq_ok, Exec.pure_eq_ok] at run
  obtain ⟨⟨⟩, _, ⟨_, rfl⟩, inSpaces, middle, newRun, ⟨⟩, _, connectRun, rfl, rfl⟩ := run
  obtain ⟨isIds, targets, events, length, sameEvents⟩ := newInSpaces_routes _ newRun
  have slots := newInSpaces_slots _ newRun
  rw [List.length_range] at isIds length slots
  exact ⟨middle, isIds, targets, events, length, sameEvents, slots, connectRun⟩

/-- The invariant of the whole event server. -/
def System.Coherent (system : System K) : Prop :=
  Events.Coherent system.server.layout system.store

namespace EventServer

variable {system final : System K}

/-- A realm that has been created has a client with new in-spaces. -/
theorem createRealm_eq_ok {rid : RealmId} {numNodes : Nat}
    (run : createRealm rid numNodes system = .ok () final) :
    ∃ inactive client store, system.server.realms[rid]? = none ∧
      system.server.inactiveRealms[rid]? = some inactive ∧
      inactive.createClient numNodes system.store = .ok client store ∧
      final = ⟨{ system.server with realms := system.server.realms.insert rid client }, store⟩ := by
  simp only [createRealm, onStore, modifyServer, Exec.bind_eq_ok, Exec.get_eq_ok,
    Exec.assert_eq_ok, Exec.unwrap_eq_ok, Exec.focus_eq_ok, Exec.modify_eq_ok] at run
  obtain ⟨_, _, ⟨rfl, rfl⟩, ⟨⟩, _, ⟨isNew, rfl⟩, inactive, _, ⟨isInactive, rfl⟩, client, _,
    ⟨store, createRun, rfl⟩, rfl⟩ := run
  exact ⟨inactive, client, store, isNew, isInactive, createRun, rfl⟩

theorem destroyRealm_eq_ok {rid : RealmId} (run : destroyRealm rid system = .ok () final) :
    ∃ inactive store, system.server.inactiveRealms[rid]? = some inactive ∧
      inactive.destroy system.store = .ok () store ∧
      final = ⟨{ system.server with realms := system.server.realms.erase rid }, store⟩ := by
  simp only [destroyRealm, onStore, modifyServer, Exec.bind_eq_ok, Exec.get_eq_ok,
    Exec.assert_eq_ok, Exec.unwrap_eq_ok, Exec.focus_eq_ok, Exec.modify_eq_ok] at run
  obtain ⟨_, _, ⟨rfl, rfl⟩, ⟨⟩, _, ⟨_, rfl⟩, ⟨⟩, _, rfl, inactive, _, ⟨isInactive, rfl⟩, store,
    destroyRun, rfl⟩ := run
  exact ⟨inactive, store, isInactive, destroyRun, rfl⟩

theorem createRealm_coherent {rid : RealmId} {numNodes : Nat} (coherent : system.Coherent)
    (run : createRealm rid numNodes system = .ok () final) : final.Coherent := by
  obtain ⟨inactive, client, last, isNew, isInactive, createRun, rfl⟩ := createRealm_eq_ok run
  obtain ⟨middle, isIds, targets, events, length, _, _, connectRun⟩ := createClient_eq_ok createRun
  have hadNone : system.server.layout.inSpacesOf (.realm rid) = [] := by
    simp [EventServer.layout, EventServer.client, isNew]
  have added := Coherent.addClient coherent hadNone targets events length
  rw [← isIds] at added
  unfold System.Coherent
  rw [layout_insert]
  refine connectEntries_coherent rid (by simp) ?_ added connectRun
  intro event index member
  exact ⟨inactive, isInactive, (List.fst_mem_of_mem_zipIdx member)⟩

theorem destroyRealm_coherent {rid : RealmId} (coherent : system.Coherent)
    (run : destroyRealm rid system = .ok () final) : final.Coherent := by
  obtain ⟨inactive, last, isInactive, destroyRun, rfl⟩ := destroyRealm_eq_ok run
  unfold System.Coherent
  rw [layout_erase]
  have fewer : ∀ {owner : ClientId} {inSpace : InSpaceId},
      inSpace ∈ Function.update system.server.layout.inSpacesOf (.realm rid) [] owner →
      owner ≠ .realm rid ∧ inSpace ∈ system.server.layout.inSpacesOf owner := by
    intro owner inSpace member
    by_cases same : owner = .realm rid
    · subst same
      simp at member
    · exact ⟨same, by rwa [Function.update_of_ne same] at member⟩
  have routed := coherent.routed
  refine destroyEntries_coherent rid (by simp) inactive.inEntries ?_ ?_ ?_ destroyRun
  · intro event member
    exact ⟨inactive, isInactive, member⟩
  · refine ⟨?_, ?_, routed.exclusive, ?_, ?_, ?_, routed.targetsBounded⟩
    · refine routed.agree.mono ?_
      rintro place ⟨owner, isOwner⟩
      exact ⟨owner, (fewer isOwner).2⟩
    · intro owner place event isOwner held
      have mayHold := routed.owned owner place event (fewer isOwner).2 held
      cases owner <;> exact mayHold
    · intro first second inSpace isFirst isSecond
      exact routed.apart first second inSpace (fewer isFirst).2 (fewer isSecond).2
    · intro owner
      by_cases same : owner = .realm rid
      · subst same
        simp
      · simpa [Function.update_of_ne same] using routed.nodup owner
    · intro owner inSpace isOwner
      exact routed.bounded owner inSpace (fewer isOwner).2
  · intro event place isTarget
    obtain ⟨owner, isOwner⟩ := coherent.targetsLive event place isTarget
    by_cases same : owner = .realm rid
    · subst same
      have held := (routed.agree event place ⟨_, isOwner⟩).mp isTarget
      obtain ⟨inactive', isInactive', member⟩ := routed.owned _ place event isOwner held
      obtain rfl := Option.some.inj (isInactive.symm.trans isInactive')
      exact .inr member
    · refine .inl ⟨owner, ?_⟩
      simpa [Function.update_of_ne same] using isOwner

theorem createRealm_infallible (rid : RealmId) (numNodes : Nat) :
    Exec.Infallible (createRealm (K := K) rid numNodes) := by
  refine Exec.Infallible.get.bind fun _ => (Exec.Infallible.assert _).bind fun _ =>
    (Exec.Infallible.unwrap _).bind fun inactive => Exec.Infallible.bind (.focus ?_) fun _ =>
      .modify _
  refine (Exec.Infallible.assert _).bind fun _ => Exec.Infallible.bind (.mapEach ?_) fun inSpaces =>
    Exec.Infallible.bind (.forEach ?_) fun _ => .pure _
  · intro nid
    refine (Exec.Infallible.unwrap _).bind fun notification => ?_
    intro store error final failed
    simp [newInSpace] at failed
  · rintro ⟨entry, index⟩
    cases entry with
    | none => exact .pure _
    | some event =>
        refine (Exec.Infallible.unwrap _).bind fun inSpace => ?_
        exact (readEntry_infallible _ _).bind fun _ => (Exec.Infallible.assert _).bind fun _ =>
          (Exec.Infallible.reads _).bind fun _ => (Exec.Infallible.assert _).bind fun _ =>
            (Exec.Infallible.modify _).bind fun _ => .modify _

theorem destroyRealm_infallible (rid : RealmId) :
    Exec.Infallible (destroyRealm (K := K) rid) := by
  refine Exec.Infallible.get.bind fun _ => (Exec.Infallible.assert _).bind fun _ =>
    (Exec.Infallible.modify _).bind fun _ => (Exec.Infallible.unwrap _).bind fun inactive =>
      .focus (.forEach ?_)
  intro entry
  cases entry with
  | none => exact .pure _
  | some event => exact (Exec.Infallible.reads _).bind fun _ => .modify _

theorem hostSubscribe_infallible (nid : Nat) (rid : RealmId) (realmNid : Nat) :
    Exec.Infallible (hostSubscribe (K := K) nid rid realmNid) :=
  Exec.Infallible.get.bind fun _ => (Exec.Infallible.unwrap _).bind fun _ =>
    (Exec.Infallible.unwrap _).bind fun _ => (Exec.Infallible.unwrap _).bind fun _ =>
      (Exec.Infallible.focus (.reads _)).bind fun _ =>
        (Exec.Infallible.focus (.modify _)).bind fun _ => (Exec.Infallible.assert _).bind fun _ =>
          (Exec.Infallible.assert _).bind fun _ => .modify _

theorem resourceServerSubscribe_infallible (nid hostNid : Nat) :
    Exec.Infallible (resourceServerSubscribe (K := K) nid hostNid) :=
  Exec.Infallible.get.bind fun _ => (Exec.Infallible.unwrap _).bind fun _ =>
    (Exec.Infallible.unwrap _).bind fun _ => (Exec.Infallible.focus (.reads _)).bind fun _ =>
      (Exec.Infallible.focus (.modify _)).bind fun _ => (Exec.Infallible.assert _).bind fun _ =>
        (Exec.Infallible.assert _).bind fun _ => .modify _

theorem resourceServerUnsubscribe_infallible (nid hostNid : Nat) :
    Exec.Infallible (resourceServerUnsubscribe (K := K) nid hostNid) :=
  Exec.Infallible.get.bind fun _ => (Exec.Infallible.unwrap _).bind fun _ =>
    (Exec.Infallible.focus (.reads _)).bind fun _ =>
      (Exec.Infallible.focus (.modify _)).bind fun _ => (Exec.Infallible.unwrap _).bind fun _ =>
        .modify _

/-- Subscribing and unsubscribing change slots only. -/
theorem hostSubscribe_coherent {nid : Nat} {rid : RealmId} {realmNid : Nat}
    (coherent : system.Coherent) (run : (hostSubscribe nid rid realmNid).Ends system final) :
    final.Coherent := by
  obtain ⟨⟨⟩, returned⟩ := (hostSubscribe_infallible nid rid realmNid).ends run
  simp only [hostSubscribe, onStore, modifyServer, readInSpace, Exec.bind_eq_ok, Exec.get_eq_ok,
    Exec.assert_eq_ok, Exec.unwrap_eq_ok, Exec.focus_eq_ok, Exec.reads_eq_ok, Exec.modify_eq_ok]
    at returned
  obtain ⟨_, _, ⟨rfl, rfl⟩, realm, _, ⟨_, rfl⟩, inSpace, _, ⟨_, rfl⟩, subscription, _, ⟨_, rfl⟩,
    found, _, ⟨_, ⟨_, rfl⟩, rfl⟩, ⟨⟩, _, ⟨last, slotRun, rfl⟩, ⟨⟩, _, ⟨_, rfl⟩, ⟨⟩, _, ⟨_, rfl⟩,
    rfl⟩ := returned
  exact Coherent.sameRoutes coherent (setSlot_sameRoutes slotRun)

theorem resourceServerSubscribe_coherent {nid hostNid : Nat} (coherent : system.Coherent)
    (run : (resourceServerSubscribe nid hostNid).Ends system final) : final.Coherent := by
  obtain ⟨⟨⟩, returned⟩ := (resourceServerSubscribe_infallible nid hostNid).ends run
  simp only [resourceServerSubscribe, onStore, modifyServer, readInSpace, Exec.bind_eq_ok,
    Exec.get_eq_ok, Exec.assert_eq_ok, Exec.unwrap_eq_ok, Exec.focus_eq_ok, Exec.reads_eq_ok,
    Exec.modify_eq_ok] at returned
  obtain ⟨_, _, ⟨rfl, rfl⟩, inSpace, _, ⟨_, rfl⟩, subscription, _, ⟨_, rfl⟩, found, _,
    ⟨_, ⟨_, rfl⟩, rfl⟩, ⟨⟩, _, ⟨last, slotRun, rfl⟩, ⟨⟩, _, ⟨_, rfl⟩, ⟨⟩, _, ⟨_, rfl⟩, rfl⟩ := returned
  exact Coherent.sameRoutes coherent (setSlot_sameRoutes slotRun)

theorem resourceServerUnsubscribe_coherent {nid hostNid : Nat} (coherent : system.Coherent)
    (run : (resourceServerUnsubscribe nid hostNid).Ends system final) : final.Coherent := by
  obtain ⟨⟨⟩, returned⟩ := (resourceServerUnsubscribe_infallible nid hostNid).ends run
  simp only [resourceServerUnsubscribe, onStore, modifyServer, readInSpace, Exec.bind_eq_ok,
    Exec.get_eq_ok, Exec.unwrap_eq_ok, Exec.focus_eq_ok, Exec.reads_eq_ok,
    Exec.modify_eq_ok] at returned
  obtain ⟨_, _, ⟨rfl, rfl⟩, inSpace, _, ⟨_, rfl⟩, found, _, ⟨_, ⟨_, rfl⟩, rfl⟩, ⟨⟩, _,
    ⟨last, slotRun, rfl⟩, subscription, _, ⟨_, rfl⟩, rfl⟩ := returned
  exact Coherent.sameRoutes coherent (setSlot_sameRoutes slotRun)

end EventServer

/-! ## Runs -/

inductive Request where
  | createRealm (rid : RealmId) (numNodes : Nat)
  | destroyRealm (rid : RealmId)
  | signal (client : ClientId) (index : Nat)
  | end_ (client : ClientId) (nid index : Nat)
  | configure (client : ClientId) (nid index : Nat) (action : ConfigureAction)
  | move (client : ClientId) (srcNid srcIndex dstNid dstIndex : Nat)
  | hostSubscribe (nid : Nat) (rid : RealmId) (realmNid : Nat)
  | resourceServerSubscribe (nid hostNid : Nat)
  | resourceServerUnsubscribe (nid hostNid : Nat)
  | irq (irq : Nat)
  deriving DecidableEq, Repr

def handle (kernel : Kernel K) : Request → Exec Failure (System K) Unit
  | .createRealm rid numNodes => EventServer.createRealm rid numNodes
  | .destroyRealm rid => EventServer.destroyRealm rid
  | .signal client index => withClient client fun found => found.signal index
  | .end_ client nid index => withClient client fun found => found.end_ kernel nid index
  | .configure client nid index action =>
      withClient client fun found => found.configure nid index action
  | .move client srcNid srcIndex dstNid dstIndex =>
      withClient client fun found => found.move kernel srcNid srcIndex dstNid dstIndex
  | .hostSubscribe nid rid realmNid => EventServer.hostSubscribe nid rid realmNid
  | .resourceServerSubscribe nid hostNid => EventServer.resourceServerSubscribe nid hostNid
  | .resourceServerUnsubscribe nid hostNid => EventServer.resourceServerUnsubscribe nid hostNid
  | .irq irq => signalIrq irq

/-- A move that moves at all goes to an entry that is not in use. -/
def Request.MovesToFree (system : System K) : Request → Prop
  | .move client srcNid srcIndex dstNid dstIndex => (srcNid, srcIndex) ≠ (dstNid, dstIndex) →
      ∀ found dst, system.server.client client = some found → found.inSpaces[dstNid]? = some dst →
        system.store.eventAt ⟨dst, dstIndex⟩ = none
  | _ => True

/-- A request that returns, with a value or with an error. -/
def Step (kernel : Kernel K) (before after : System K) : Prop :=
  ∃ request : Request, request.MovesToFree before ∧ (handle kernel request).Ends before after

theorem withClient_ends {clientId : ClientId} {request : Client → Exec Failure (Store K) Unit}
    {system final : System K} (run : (withClient clientId request).Ends system final) :
    ∃ client store, system.server.client clientId = some client ∧
      (request client).Ends system.store store ∧ final = { system with store := store } := by
  obtain ⟨_, _, getRun, rest⟩ := Exec.Infallible.get.ends_bind run
  obtain ⟨rfl, rfl⟩ := Exec.get_eq_ok.mp getRun
  obtain ⟨client, _, clientRun, requestRun⟩ := (Exec.Infallible.unwrap _).ends_bind rest
  obtain ⟨isClient, rfl⟩ := Exec.unwrap_eq_ok.mp clientRun
  obtain ⟨store, ends, isFinal⟩ := Exec.ends_focus.mp requestRun
  exact ⟨client, store, isClient, ends, isFinal.symm⟩

theorem signalIrq_ends {irq : Nat} {system final : System K}
    (run : (signalIrq irq).Ends system final) :
    ∃ event store, system.server.irqEvents[irq]? = some event ∧
      (Event.signal event).Ends system.store store ∧ final = { system with store := store } := by
  obtain ⟨_, _, getRun, rest⟩ := Exec.Infallible.get.ends_bind run
  obtain ⟨rfl, rfl⟩ := Exec.get_eq_ok.mp getRun
  obtain ⟨event, _, eventRun, signalRun⟩ := (Exec.Infallible.unwrap _).ends_bind rest
  obtain ⟨isEvent, rfl⟩ := Exec.unwrap_eq_ok.mp eventRun
  obtain ⟨store, ends, isFinal⟩ := Exec.ends_focus.mp signalRun
  exact ⟨event, store, isEvent, ends, isFinal.symm⟩

theorem Step.coherent {kernel : Kernel K} {before after : System K} (coherent : before.Coherent)
    (step : Step kernel before after) : after.Coherent := by
  obtain ⟨request, free, run⟩ := step
  cases request with
  | createRealm rid numNodes =>
      obtain ⟨⟨⟩, returned⟩ := (EventServer.createRealm_infallible rid numNodes).ends run
      exact EventServer.createRealm_coherent coherent returned
  | destroyRealm rid =>
      obtain ⟨⟨⟩, returned⟩ := (EventServer.destroyRealm_infallible rid).ends run
      exact EventServer.destroyRealm_coherent coherent returned
  | signal client index =>
      obtain ⟨found, store, _, ends, rfl⟩ := withClient_ends run
      exact Coherent.sameRoutes coherent (client_signal_sameRoutes ends)
  | end_ client nid index =>
      obtain ⟨found, store, _, ends, rfl⟩ := withClient_ends run
      exact Coherent.sameRoutes coherent (end_sameRoutes ends)
  | configure client nid index action =>
      obtain ⟨found, store, _, ends, rfl⟩ := withClient_ends run
      exact Coherent.sameRoutes coherent (configure_sameRoutes ends)
  | move client srcNid srcIndex dstNid dstIndex =>
      obtain ⟨found, store, isClient, ends, rfl⟩ := withClient_ends run
      have isOwner : found.inSpaces = before.server.layout.inSpacesOf client := by
        simp [EventServer.layout, isClient]
      obtain ⟨routed, targets⟩ := move_routed coherent.routed isOwner
        (fun different dst isDst => free different found dst isClient isDst) ends
      refine ⟨routed, fun event place isTarget => ?_⟩
      rcases targets event place isTarget with old | new
      · exact coherent.targetsLive event place old
      · exact ⟨client, new⟩
  | hostSubscribe nid rid realmNid => exact EventServer.hostSubscribe_coherent coherent run
  | resourceServerSubscribe nid hostNid =>
      exact EventServer.resourceServerSubscribe_coherent coherent run
  | resourceServerUnsubscribe nid hostNid =>
      exact EventServer.resourceServerUnsubscribe_coherent coherent run
  | irq irq =>
      obtain ⟨event, store, _, ends, rfl⟩ := signalIrq_ends run
      exact Coherent.sameRoutes coherent (signal_sameRoutes ends)

end IceCap.Events
