import IceCap.Events.Subscriptions

/-!
# What may be where

Events are in entries, have places as their targets and subscribe to slots.
`Confines` says what of this may be, and `Confined` that a store keeps to it.
Every request keeps to it where all in-spaces of a client may have the same
events.
-/

set_option autoImplicit false

namespace IceCap.Events

open IceCap.Library IceCap.Sel4 FiniteSet

variable {K : Type}

structure Confines where
  mayBeAt : InSpaceId → EventId → Prop
  mayTarget : EventId → InSpaceId → Prop
  maySubscribe : InSpaceId → Subscriber → Prop

structure Confined (confines : Confines) (store : Store K) : Prop where
  entries : ∀ place event, store.eventAt place = some event →
    confines.mayBeAt place.inSpace event
  targets : ∀ event place, store.targetOf event = some place →
    confines.mayTarget event place.inSpace
  slots : ∀ inSpace subscriber, store.slotOf inSpace = some subscriber →
    confines.maySubscribe inSpace subscriber

theorem slotOf_eq_slots (store : Store K) (inSpace : InSpaceId) :
    store.slotOf inSpace = (store.slots[inSpace]?).join := by
  rw [Store.slotOf, Store.slots, List.getElem?_map]
  cases store.inSpaces[inSpace]? with
  | none => rfl
  | some found => rfl

/-- Placing an event leaves the slots alone. -/
theorem unplaced_slots : Unplaced (Store.slots (K := K)) where
  entries _ _ _ := .modify fun _ => map_modify_of_same fun _ => rfl
  targets _ _ := .modify fun _ => rfl
  kernel _ _ := rfl

/-! ## Cells -/

section Cells
variable {confines : Confines} {store final : Store K} {inSpace : InSpaceId} {event : EventId}

theorem Confined.withSlot {subscriber : Option Subscriber} (confined : Confined confines store)
    (may : ∀ found, subscriber = some found → confines.maySubscribe inSpace found) :
    Confined confines (store.withSlot inSpace subscriber) := by
  have same : store.SameRoutes (store.withSlot inSpace subscriber) :=
    @setSlot_sameRoutes _ _ _ inSpace subscriber rfl
  refine ⟨same.events ▸ confined.entries, same.targets ▸ confined.targets, ?_⟩
  intro other found isSlot
  rw [Store.slotOf, Store.withSlot, List.getElem?_modify] at isSlot
  split at isSlot
  · next here =>
      subst here
      cases isFound : store.inSpaces[inSpace]? with
      | none => simp [isFound] at isSlot
      | some held =>
          rw [isFound] at isSlot
          exact may found isSlot
  · refine confined.slots other found ?_
    rw [Store.slotOf]
    simpa using isSlot

/-- New in-spaces with empty slots and no entries. -/
theorem Confined.grow {n : Nat} (confined : Confined confines store)
    (targets : final.targetOf = store.targetOf) (events : final.eventAt = store.eventAt)
    (slots : final.slots = store.slots ++ List.replicate n none) : Confined confines final where
  entries := events ▸ confined.entries
  targets := targets ▸ confined.targets
  slots inSpace subscriber isSlot := by
    rw [slotOf_eq_slots, slots, List.getElem?_append] at isSlot
    split at isSlot
    · rw [← slotOf_eq_slots] at isSlot
      exact confined.slots inSpace subscriber isSlot
    · rw [List.getElem?_replicate] at isSlot
      split at isSlot <;> simp at isSlot

def Store.withEntry (inSpace : InSpaceId) (index : Nat) (entry : Option InSpaceEntry)
    (store : Store K) : Store K :=
  { store with inSpaces := store.inSpaces.modify inSpace fun found =>
      { found with entries := found.entries.set index entry } }

/-- An entry is the one that was written, or it was there before. -/
theorem eventAt_withEntry {index : Nat} {entry : Option InSpaceEntry} {place : EventTarget}
    (isEvent : (store.withEntry inSpace index entry).eventAt place = some event) :
    place.inSpace = inSpace ∧ entry.map InSpaceEntry.event = some event ∨
      store.eventAt place = some event := by
  rw [Store.eventAt, Store.withEntry, List.getElem?_modify] at isEvent
  cases isFound : store.inSpaces[place.inSpace]? with
  | none => simp [isFound] at isEvent
  | some found =>
      rw [Store.eventAt, isFound, Option.bind_some]
      split at isEvent
      · next here =>
          simp only [isFound, Option.map_eq_map, Option.map_some, Option.bind_some,
            InSpace.eventAt] at isEvent
          by_cases same : index = place.index
          · subst same
            by_cases inBounds : place.index < found.entries.length
            · left
              simpa [inBounds, here] using isEvent
            · simp [inBounds] at isEvent
          · right
            rwa [List.getElem?_set_ne same] at isEvent
      · right
        simpa [isFound] using isEvent

theorem writeEntry_confined {index : Nat} {entry : Option InSpaceEntry}
    (may : ∀ found, entry = some found → confines.mayBeAt inSpace found.event) :
    Exec.Maintains (Confined confines) (writeEntry (K := K) inSpace index entry) := by
  intro store final run confined
  have sameSlots := unplaced_slots.entries inSpace index entry store final run
  have isFinal : final = store.withEntry inSpace index entry := run.of_ok rfl
  subst isFinal
  refine ⟨fun place event isEvent => ?_, confined.targets, fun other found isSlot => ?_⟩
  · rcases eventAt_withEntry isEvent with ⟨here, isNew⟩ | old
    · obtain ⟨found, isFound, rfl⟩ := Option.map_eq_some_iff.mp isNew
      rw [here]
      exact may found isFound
    · exact confined.entries place event old
  · rw [slotOf_eq_slots, sameSlots, ← slotOf_eq_slots] at isSlot
    exact confined.slots other found isSlot

theorem setTarget_confined {target : Option EventTarget}
    (may : ∀ place, target = some place → confines.mayTarget event place.inSpace) :
    Exec.Maintains (Confined confines) (setTarget (K := K) event target) := by
  apply Exec.Maintains.modify
  intro store confined
  refine ⟨confined.entries, fun other place isTarget => ?_, confined.slots⟩
  rw [Store.targetOf, List.getElem?_modify] at isTarget
  split at isTarget
  · next same =>
      subst same
      cases isFound : store.events[event]? with
      | none => simp [isFound] at isTarget
      | some found =>
          rw [isFound] at isTarget
          exact may place isTarget
  · exact confined.targets other place (by simpa [Store.targetOf] using isTarget)

theorem connect_confined {index : Nat} (mayBe : confines.mayBeAt inSpace event)
    (mayTarget : confines.mayTarget event inSpace) :
    Exec.Maintains (Confined confines) (Event.connect (K := K) event inSpace index) := by
  refine .bind (.of_spares readEntry_spares) fun _ => .bind (.of_spares (.assert _)) fun _ =>
    .bind (.of_spares (.reads _)) fun _ => .bind (.of_spares (.assert _)) fun _ =>
    .bind (writeEntry_confined fun found isNew => ?_) fun _ =>
      setTarget_confined fun place isNew => ?_
  · obtain rfl := Option.some.inj isNew
    exact mayBe
  · obtain rfl := Option.some.inj isNew
    exact mayTarget

theorem destroy_confined {inactive : InactiveRealm} :
    Exec.Maintains (Confined confines) (inactive.destroy (K := K)) := by
  apply Exec.Maintains.forEach
  intro entry _
  cases entry with
  | none => exact .of_spares (.pure _)
  | some event =>
      refine .bind (.of_spares (.reads _)) fun _ => setTarget_confined fun place isNew => ?_
      exact absurd isNew (Option.some_ne_none place).symm

theorem onKernel_confined {call : Exec Failure K Unit} :
    Exec.Maintains (Confined confines) (onKernel call) := by
  intro store final run confined
  obtain ⟨inner, _, rfl⟩ := Exec.ends_focus.mp run
  exact ⟨confined.entries, confined.targets, confined.slots⟩

/-- An empty slot is confined to nothing. -/
theorem emptySlot_confined : Exec.Maintains (Confined confines) (setSlot (K := K) inSpace none) := by
  apply Exec.Maintains.modify
  intro store confined
  exact confined.withSlot fun found isSome => by simp at isSome

theorem signal_confined : Exec.Maintains (Confined confines) (Event.signal (K := K) event) := by
  refine .bind (.of_spares .get) fun _ => signalWithin_maintains ?_ ?_ ?_ _ _ _
  · intro address index store final run confined
    rw [run.of_ok rfl]
    exact ⟨confined.entries, confined.targets, confined.slots⟩
  · exact fun _ => .modify fun _ confined => ⟨confined.entries, confined.targets, confined.slots⟩
  · exact fun _ => emptySlot_confined

end Cells

/-! ## What a client does in its own in-spaces -/

/-- The invariant holds of what a client puts into its in-spaces, when it finds there only such
events as `may` allows. -/
structure Client.Tends (client : Client) (may : EventId → Prop) (invariant : Store K → Prop) :
    Prop where
  finds : ∀ store, invariant store → ∀ inSpace ∈ client.inSpaces, ∀ index event,
    store.eventAt ⟨inSpace, index⟩ = some event → may event
  entries : ∀ inSpace ∈ client.inSpaces, ∀ index entry,
    (∀ found, entry = some found → may found.event) →
    Exec.Maintains invariant (writeEntry inSpace index entry)
  targets : ∀ inSpace ∈ client.inSpaces, ∀ index event, may event →
    Exec.Maintains invariant (setTarget event (some ⟨inSpace, index⟩))
  kernel : ∀ call, Exec.Maintains invariant (onKernel call)

namespace Client.Tends

variable {client : Client} {may : EventId → Prop} {invariant : Store K → Prop}
  (tends : client.Tends may invariant)
include tends

theorem readEntry {inSpace : InSpaceId} {index : Nat} {entry : Option InSpaceEntry}
    {store final : Store K} (isOwn : inSpace ∈ client.inSpaces) (holds : invariant store)
    (run : readEntry inSpace index store = .ok entry final) :
    ∀ found, entry = some found → may found.event := by
  rintro found rfl
  obtain ⟨rfl, isEvent, _⟩ := eventAt_of_readEntry run
  exact tends.finds _ holds inSpace isOwn index found.event isEvent

theorem swapEntry {nid index : Nat} {tmp : Option InSpaceEntry}
    (mayTmp : ∀ found, tmp = some found → may found.event) :
    Exec.Maintains invariant (client.swapEntry nid index tmp) := by
  intro store final run
  obtain ⟨inSpace, _, unwraps, run⟩ := (Exec.Infallible.unwrap _).ends_bind run
  obtain ⟨isInSpace, rfl⟩ := Exec.unwrap_eq_ok.mp unwraps
  have writes := tends.entries inSpace (List.mem_of_getElem? isInSpace) index tmp mayTmp
  exact (Exec.Maintains.bind (.of_spares readEntry_spares) fun _ => writes.bind fun _ =>
    .of_spares (.pure _)) _ _ run

theorem swapped {nid index : Nat} {tmp entry : Option InSpaceEntry} {store final : Store K}
    (holds : invariant store) (run : client.swapEntry nid index tmp store = .ok entry final) :
    ∀ found, entry = some found → may found.event := by
  simp only [Client.swapEntry, Exec.bind_eq_ok, Exec.unwrap_eq_ok, Exec.pure_eq_ok] at run
  obtain ⟨inSpace, _, ⟨isInSpace, rfl⟩, read, _, readRun, ⟨⟩, _, _, rfl, rfl⟩ := run
  exact tends.readEntry (List.mem_of_getElem? isInSpace) holds readRun

theorem move {kernel : Kernel K} {srcNid srcIndex dstNid dstIndex : Nat} :
    Exec.Maintains invariant (client.move kernel srcNid srcIndex dstNid dstIndex) := by
  refine .ite ?_ (.of_spares (.pure _))
  refine .bindWhere (tends.swapEntry fun _ isSome => by simp at isSome)
    (fun _ _ _ holds => tends.swapped holds) fun first mayFirst => ?_
  refine .bindWhere (tends.swapEntry mayFirst) (fun _ _ _ holds => tends.swapped holds)
    fun second maySecond => ?_
  refine .bind (tends.swapEntry maySecond) fun _ => ?_
  refine .bindWhere (.of_spares (.unwrap _)) (fun _ _ _ _ run => (Exec.unwrap_eq_ok.mp run).1)
    fun dst isDst => ?_
  have isOwn := List.mem_of_getElem? isDst
  refine .bindWhere (.of_spares readEntry_spares) (fun _ _ _ holds => tends.readEntry isOwn holds)
    fun moved mayMove => ?_
  cases moved with
  | none => exact .of_spares (.pure _)
  | some entry =>
      refine .bind (tends.targets dst isOwn dstIndex entry.event (mayMove entry rfl)) fun _ => ?_
      refine .bind (.of_spares (.reads _)) fun event => ?_
      cases event.irq with
      | none => exact .of_spares (.pure _)
      | some irq => exact .bind (.of_spares (.unwrap _)) fun _ => tends.kernel _

theorem end_ {kernel : Kernel K} {nid index : Nat} :
    Exec.Maintains invariant (client.end_ kernel nid index) :=
  .bind (.of_spares (.unwrap _)) fun _ => .bind (.of_spares readEntry_spares) fun _ =>
    .bind (.of_spares (.unwrap _)) fun _ => .bind (.of_spares (.reads _)) fun _ =>
    .bind (.of_spares (.unwrap _)) fun _ => tends.kernel _

theorem configure {nid index : Nat} {action : ConfigureAction} :
    Exec.Maintains invariant (client.configure nid index action) := by
  refine .bindWhere (.of_spares (.unwrap _)) (fun _ _ _ _ run => (Exec.unwrap_eq_ok.mp run).1)
    fun inSpace isInSpace => ?_
  have isOwn := List.mem_of_getElem? isInSpace
  refine .bindWhere (.of_spares readEntry_spares) (fun _ _ _ holds => tends.readEntry isOwn holds)
    fun entry mayEntry => ?_
  refine .bindWhere (.of_spares (.unwrap _)) (fun _ _ _ _ run => (Exec.unwrap_eq_ok.mp run).1)
    fun found isFound => ?_
  cases action with
  | setPriority priority => exact .of_spares .panic
  | setEnabled enabled =>
      refine tends.entries inSpace isOwn index _ fun changed isNew => ?_
      obtain rfl := Option.some.inj isNew
      exact mayEntry found isFound

end Client.Tends

/-! ## Requests -/

/-- All in-spaces of a client may have the same events, and what subscribes may do so. -/
structure Confines.Allows (confines : Confines) (system : System K) : Prop where
  uniform : ∀ clientId client, system.server.client clientId = some client →
    ∀ first ∈ client.inSpaces, ∀ event, confines.mayBeAt first event →
    ∀ second ∈ client.inSpaces, confines.mayBeAt second event ∧ confines.mayTarget event second
  subscribers : ∀ {party : Party} {nid : Nat} {inSpace : InSpaceId} {request : Request}
    {entry : SubscriptionEntry}, Asks system party nid inSpace request →
    system.subscription party nid = some entry → confines.maySubscribe inSpace entry.subscriber

section Requests
variable {confines : Confines} {kernel : Kernel K} {system final : System K}

theorem Confines.Allows.tends {clientId : ClientId} {client : Client}
    (allows : confines.Allows system) (isClient : system.server.client clientId = some client) :
    client.Tends (fun event => ∃ inSpace ∈ client.inSpaces, confines.mayBeAt inSpace event)
      (Confined (K := K) confines) := by
  have uniform := allows.uniform clientId client isClient
  refine ⟨?_, ?_, ?_, fun _ => onKernel_confined⟩
  · intro store confined inSpace isOwn index event isEvent
    exact ⟨inSpace, isOwn, confined.entries _ event isEvent⟩
  · intro inSpace isOwn index entry may
    refine writeEntry_confined fun found isNew => ?_
    obtain ⟨first, isFirst, mayBe⟩ := may found isNew
    exact (uniform first isFirst found.event mayBe inSpace isOwn).1
  · intro inSpace isOwn index event may
    obtain ⟨first, isFirst, mayBe⟩ := may
    refine setTarget_confined fun place isNew => ?_
    obtain rfl := Option.some.inj isNew
    exact (uniform first isFirst event mayBe inSpace isOwn).2

theorem subscribe_confined {party : Party} {nid : Nat} {request : Request}
    (allows : confines.Allows system) (confined : Confined confines system.store)
    (subscribes : (Action.request request).Subscribes party nid)
    (run : (handle kernel request).Ends system final) : Confined confines final.store := by
  obtain ⟨inSpace, found, asks, isFound⟩ := Asks.of_ends subscribes run
  obtain ⟨entry, isEntry, handled⟩ := asks.handle_eq kernel isFound
  split_ifs at handled with free
  · rw [run.of_ok handled]
    refine confined.withSlot fun subscriber isSubscriber => ?_
    obtain rfl := Option.some.inj isSubscriber
    exact allows.subscribers asks isEntry
  · exact absurd handled run.ne_panic

theorem unsubscribe_confined {nid hostNid : Nat} :
    Exec.Maintains (fun system : System K => Confined confines system.store)
      (EventServer.resourceServerUnsubscribe nid hostNid) :=
  .bind (.of_spares .get) fun _ => .bind (.of_spares (.unwrap _)) fun _ =>
    .bind (.inside (.of_spares (.reads _)) fun _ _ => rfl) fun _ =>
    .bind (.inside emptySlot_confined fun _ _ => rfl) fun _ => .bind (.of_spares (.unwrap _)) fun _ =>
    .modify fun _ confined => confined

theorem handle_confined {request : Request} (allows : confines.Allows system)
    (confined : Confined confines system.store) (changesNone : ¬ request.ChangesRealms)
    (run : (handle kernel request).Ends system final) : Confined confines final.store := by
  cases request with
  | createRealm rid numNodes => exact absurd trivial changesNone
  | destroyRealm rid => exact absurd trivial changesNone
  | signal client index =>
      obtain ⟨found, store, _, ends, rfl⟩ := withClient_ends run
      exact Exec.Maintains.bind (.of_spares (.unwrap _)) (fun _ => signal_confined) _ _ ends confined
  | end_ client nid index =>
      obtain ⟨found, store, isClient, ends, rfl⟩ := withClient_ends run
      exact (allows.tends isClient).end_ _ _ ends confined
  | configure client nid index action =>
      obtain ⟨found, store, isClient, ends, rfl⟩ := withClient_ends run
      exact (allows.tends isClient).configure _ _ ends confined
  | move client srcNid srcIndex dstNid dstIndex =>
      obtain ⟨found, store, isClient, ends, rfl⟩ := withClient_ends run
      exact (allows.tends isClient).move _ _ ends confined
  | hostSubscribe nid rid realmNid =>
      have subscribes : (Action.request (.hostSubscribe nid rid realmNid)).Subscribes .host nid :=
        ⟨rfl, rfl⟩
      exact subscribe_confined allows confined subscribes run
  | resourceServerSubscribe nid hostNid =>
      have subscribes : (Action.request (.resourceServerSubscribe nid hostNid)).Subscribes
          .resourceServer nid := ⟨rfl, rfl⟩
      exact subscribe_confined allows confined subscribes run
  | resourceServerUnsubscribe nid hostNid => exact unsubscribe_confined _ _ run confined
  | irq irq =>
      obtain ⟨event, store, _, ends, rfl⟩ := signalIrq_ends run
      exact signal_confined _ _ ends confined

theorem createRealm_confined {rid numNodes : Nat} (confined : Confined confines system.store)
    (may : ∀ event, system.server.layout.inEntries rid event → ∀ inSpace,
      system.store.inSpaces.length ≤ inSpace →
      confines.mayBeAt inSpace event ∧ confines.mayTarget event inSpace)
    (run : EventServer.createRealm rid numNodes system = .ok () final) :
    Confined confines final.store := by
  obtain ⟨inactive, client, last, _, isInactive, createRun, rfl⟩ := EventServer.createRealm_eq_ok run
  obtain ⟨middle, areNew, targets, events, _, _, slots, connectRun⟩ := createClient_eq_ok createRun
  refine Exec.Maintains.forEach ?_ _ _ (.inl ⟨(), connectRun⟩)
    (confined.grow targets events slots)
  rintro ⟨_ | event, index⟩ isEntry
  · exact .of_spares (.pure _)
  · refine .bindWhere (.of_spares (.unwrap _)) (fun _ _ _ _ run => (Exec.unwrap_eq_ok.mp run).1)
      fun inSpace isFirst => ?_
    have isSetAside : some event ∈ inactive.inEntries := List.fst_mem_of_mem_zipIdx isEntry
    have isNew := List.mem_of_getElem? isFirst
    rw [areNew, List.mem_range'_1] at isNew
    obtain ⟨mayBe, mayTarget⟩ := may event ⟨inactive, isInactive, isSetAside⟩ inSpace isNew.1
    exact connect_confined mayBe mayTarget

theorem destroyRealm_confined {rid : Nat} (confined : Confined confines system.store)
    (run : EventServer.destroyRealm rid system = .ok () final) : Confined confines final.store := by
  obtain ⟨inactive, last, _, destroyRun, rfl⟩ := EventServer.destroyRealm_eq_ok run
  exact destroy_confined _ _ (.inl ⟨(), destroyRun⟩) confined

/-- The events that are set aside for a realm must be allowed in its new in-spaces. -/
theorem Act.confined {action : Action}
    (allows : final.server.layout = system.server.layout → confines.Allows system)
    (mayCreate : ∀ rid numNodes, action = .request (.createRealm rid numNodes) → ∀ event,
      system.server.layout.inEntries rid event → ∀ inSpace,
      system.store.inSpaces.length ≤ inSpace →
      confines.mayBeAt inSpace event ∧ confines.mayTarget event inSpace)
    (confined : Confined confines system.store) (moved : Act kernel action system final) :
    Confined confines final.store := by
  cases action with
  | swap word =>
      rw [moved]
      exact ⟨confined.entries, confined.targets, confined.slots⟩
  | request request =>
      by_cases changes : request.ChangesRealms
      · cases request with
        | createRealm rid numNodes =>
            obtain ⟨⟨⟩, run⟩ := (EventServer.createRealm_infallible rid numNodes).ends moved
            exact createRealm_confined confined (mayCreate rid numNodes rfl) run
        | destroyRealm rid =>
            obtain ⟨⟨⟩, run⟩ := (EventServer.destroyRealm_infallible rid).ends moved
            exact destroyRealm_confined confined run
        | _ => exact changes.elim
      · have sameLayout := handle_spares_layout changes _ _ moved
        exact handle_confined (allows sameLayout) confined changes moved

end Requests

end IceCap.Events
