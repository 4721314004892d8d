import IceCap.Library.Recorded
import IceCap.Events.Runs

/-!
# What happens to the event server

The requests, and what the clients do without a request: they share the words
of their bitfields with the event server, and take them.

Most calls leave most of the store alone.  `Unsignalled` is what signals leave
alone, and `Unserved` what the requests of the clients do.
-/

set_option autoImplicit false

namespace IceCap.Events

open IceCap.Library IceCap.Sel4 FiniteSet

variable {K : Type}

/-- A client takes a word of a bitfield and leaves it clear. -/
def System.swap (word : Nat) (system : System K) : System K :=
  { system with store := { system.store with words := system.store.words.insert word 0 } }

inductive Action where
  | request (request : Request)
  | swap (word : Nat)
  deriving DecidableEq, Repr

def Act (kernel : Kernel K) : Action → System K → System K → Prop
  | .request request, before, after => (handle kernel request).Ends before after
  | .swap word, before, after => after = before.swap word

/-- The action where it returns. -/
def Action.perform (kernel : Kernel K) : Action → System K → Option (System K)
  | .request asked, system => (handle kernel asked system).returned
  | .swap address, system => some (system.swap address)

theorem perform_act {kernel : Kernel K} (action : Action) (before after : System K)
    (performed : action.perform kernel before = some after) : Act kernel action before after := by
  cases action with
  | request request =>
      obtain ⟨value, run⟩ := Outcome.returned_eq_some.mp performed
      exact .inl ⟨value, run⟩
  | swap word => exact (Option.some.inj performed).symm

/-! ## What a call leaves alone -/

/-- What a change to one element leaves alone of every element. -/
theorem map_modify_of_same {α β : Type} {items : List α} {index : Nat} {update : α → α}
    {view : α → β} (same : ∀ item, view (update item) = view item) :
    (items.modify index update).map view = items.map view := by
  apply List.ext_getElem?
  intro i
  rw [List.getElem?_map, List.getElem?_map, List.getElem?_modify]
  cases items[i]? with
  | none => rfl
  | some item =>
      split
      · exact congrArg some (same item)
      · rfl

theorem onStore_spares {α β : Type} {view : System K → β} {call : Exec Failure (Store K) α}
    (apart : ∀ store system, view { system with store := store } = view system) :
    Exec.Spares view (onStore call) := .focus apart

theorem withClient_spares {β : Type} {view : System K → β} {client : ClientId}
    {request : Client → Exec Failure (Store K) Unit}
    (apart : ∀ store system, view { system with store := store } = view system) :
    Exec.Spares view (withClient client request) :=
  .bind .get fun _ => .bind (.unwrap _) fun _ => onStore_spares apart

def Store.withSlot (inSpace : InSpaceId) (subscriber : Option Subscriber) (store : Store K) :
    Store K :=
  { store with inSpaces := store.inSpaces.modify inSpace fun found =>
      { found with subscriptionSlot := subscriber } }

def Store.notify (nfn : CPtr) (store : Store K) : Store K :=
  { store with signals := nfn :: store.signals }

/-- `InSpace::notify_subscriber` after the slot has been emptied. -/
def Event.notifyWithin (depth : Nat) (borrowed : List InSpaceId) :
    Option Subscriber → Exec Failure (Store K) Unit
  | none => pure ()
  | some (.event subscriber) => Event.signalWithin depth borrowed subscriber
  | some (.notification nfn) => signalNotification nfn

/-- What a signal comes to: the in-space that the event has as its target, with an entry there. -/
structure Arrives (store : Store K) (event : EventId) (place : EventTarget) (found : InSpace) :
    Prop where
  isTarget : store.targetOf event = some place
  isFound : store.inSpaces[place.inSpace]? = some found
  isEntry : ∃ entry, found.entries[place.index]? = some (some entry)

/-- A signal that returns: there is no target, the bit was set, or it was clear and the subscriber
has been notified. -/
theorem signalWithin_cases {depth : Nat} {borrowed : List InSpaceId} {event : EventId}
    {store final : Store K} (run : Event.signalWithin depth borrowed event store = .ok () final) :
    (store.targetOf event = none ∧ final = store) ∨
    ∃ place found wasClear marked, Arrives store event place found ∧ place.inSpace ∉ borrowed ∧
      setBit found.notification.bitfield place.index store = .ok wasClear marked ∧
      (wasClear = false ∧ final = marked ∨ wasClear = true ∧
        ∃ nfn below, found.notification.nfn[place.index / 64]? = some nfn ∧ depth = below + 1 ∧
          Event.notifyWithin below (place.inSpace :: borrowed) found.subscriptionSlot
            ((marked.notify nfn).withSlot place.inSpace none) = .ok () final) := by
  cases depth with
  | zero => simp [Event.signalWithin] at run
  | succ depth =>
      simp only [Event.signalWithin, readEvent, Exec.bind_eq_ok, Exec.reads_eq_ok] at run
      obtain ⟨held, _, ⟨isHeld, rfl⟩, run⟩ := run
      cases heldTarget : held.target with
      | none =>
          left
          rw [heldTarget] at run
          exact ⟨by simp [Store.targetOf, isHeld, heldTarget], (Exec.pure_eq_ok.mp run).2.symm⟩
      | some place =>
          right
          simp only [heldTarget, readInSpace, Exec.bind_eq_ok, Exec.assert_eq_ok, Exec.reads_eq_ok,
            Exec.unwrap_eq_ok] at run
          obtain ⟨⟨⟩, _, ⟨notBorrowed, rfl⟩, found, _, ⟨isFound, rfl⟩, _, _, ⟨isEntry, rfl⟩, entry, _,
            ⟨rfl, rfl⟩, wasClear, marked, bitRun, run⟩ := run
          have arrives : Arrives store event place found :=
            ⟨by simp [Store.targetOf, isHeld, heldTarget], isFound, entry, isEntry⟩
          refine ⟨place, found, wasClear, marked, arrives, notBorrowed, bitRun, ?_⟩
          cases wasClear with
          | false => exact .inl ⟨rfl, (Exec.pure_eq_ok.mp run).2.symm⟩
          | true =>
              simp only [if_true, Exec.bind_eq_ok, Exec.unwrap_eq_ok] at run
              obtain ⟨nfn, _, ⟨isNfn, rfl⟩, ⟨⟩, _, signalRun, ⟨⟩, _, slotRun, run⟩ := run
              obtain ⟨_, rfl⟩ := Outcome.ok.inj signalRun
              obtain ⟨_, rfl⟩ := Outcome.ok.inj slotRun
              refine .inr ⟨rfl, nfn, depth, isNfn, rfl, ?_⟩
              rcases slot : found.subscriptionSlot with _ | subscriber | nfn
              · rw [slot] at run
                exact run
              · rw [slot] at run
                exact run
              · rw [slot] at run
                exact run

/-- What setting bits, notifying and emptying slots keep, a signal keeps. -/
theorem signalWithin_maintains {invariant : Store K → Prop}
    (setsBit : ∀ address index, Exec.Maintains invariant (setBit address index))
    (notifies : ∀ nfn, Exec.Maintains invariant (signalNotification nfn))
    (empties : ∀ inSpace, Exec.Maintains invariant (setSlot inSpace none)) (depth : Nat) :
    ∀ (borrowed : List InSpaceId) (event : EventId),
      Exec.Maintains invariant (Event.signalWithin depth borrowed event) := by
  induction depth with
  | zero => exact fun _ _ => .of_spares .panic
  | succ depth ih =>
      intro borrowed event
      refine .bind (.of_spares (.reads _)) fun found => ?_
      cases found.target with
      | none => exact .of_spares (.pure _)
      | some target =>
          refine .bind (.of_spares (.assert _)) fun _ => .bind (.of_spares (.reads _)) fun inSpace =>
            .bind (.of_spares (.unwrap _)) fun _ => .bind (.of_spares (.unwrap _)) fun _ =>
            .bind (setsBit _ _) fun _ => .ite ?_ (.of_spares (.pure _))
          refine .bind (.of_spares (.unwrap _)) fun _ => .bind (notifies _) fun _ =>
            .bind (empties _) fun _ => ?_
          cases inSpace.subscriptionSlot with
          | none => exact .of_spares (.pure _)
          | some subscriber =>
              cases subscriber with
              | event subscriber => exact ih _ _
              | notification nfn => exact notifies nfn

section Store
variable {β : Type} {view : Store K → β}

/-- A part of the store that signals leave alone. -/
structure Unsignalled (view : Store K → β) : Prop where
  words : ∀ words store, view { store with words := words } = view store
  signals : ∀ signals store, view { store with signals := signals } = view store
  slots : ∀ inSpace subscriber store, view (store.withSlot inSpace subscriber) = view store

theorem Unsignalled.setBit (unsignalled : Unsignalled view) {address index : Nat} :
    Exec.Spares view (setBit address index) := by
  intro store final run
  rw [run.of_ok rfl]
  exact unsignalled.words _ _

theorem Unsignalled.signalWithin (unsignalled : Unsignalled view) (depth : Nat)
    (borrowed : List InSpaceId) (event : EventId) :
    Exec.Spares view (Event.signalWithin depth borrowed event) := by
  refine Exec.spares_iff_maintains.mpr fun shown =>
    signalWithin_maintains ?_ ?_ ?_ depth borrowed event
  · exact fun _ _ => Exec.spares_iff_maintains.mp unsignalled.setBit shown
  · exact fun _ => .modify fun _ isShown => (unsignalled.signals _ _).trans isShown
  · exact fun _ => .modify fun _ isShown => (unsignalled.slots _ _ _).trans isShown

theorem Unsignalled.signal (unsignalled : Unsignalled view) {event : EventId} :
    Exec.Spares view (Event.signal event) :=
  .bind .get fun _ => unsignalled.signalWithin _ _ _

/-- A part of the store that placing an event leaves alone. -/
structure Unplaced (view : Store K → β) : Prop where
  entries : ∀ inSpace index entry, Exec.Spares view (writeEntry inSpace index entry)
  targets : ∀ event target, Exec.Spares view (setTarget event target)
  kernel : ∀ kernelState store, view { store with kernel := kernelState } = view store

/-- A part of the store that the requests of a client leave alone. -/
structure Unserved (view : Store K → β) : Prop extends Unsignalled view where
  entries : ∀ inSpace index entry, Exec.Spares view (writeEntry inSpace index entry)
  targets : ∀ event target, Exec.Spares view (setTarget event target)
  kernel : ∀ kernelState store, view { store with kernel := kernelState } = view store

theorem readEntry_spares {inSpace : InSpaceId} {index : Nat} :
    Exec.Spares view (readEntry inSpace index) := .bind (.reads _) fun _ => .unwrap _

theorem Unserved.unplaced (unserved : Unserved view) : Unplaced view :=
  ⟨unserved.entries, unserved.targets, unserved.kernel⟩

namespace Unplaced

variable (unplaced : Unplaced view)
include unplaced

theorem onKernel {call : Exec Failure K Unit} : Exec.Spares view (onKernel call) :=
  .focus fun _ _ => unplaced.kernel _ _

theorem swapEntry {client : Client} {nid index : Nat} {tmp : Option InSpaceEntry} :
    Exec.Spares view (client.swapEntry nid index tmp) :=
  .bind (.unwrap _) fun _ => .bind readEntry_spares fun _ => .bind (unplaced.entries _ _ _)
    fun _ => .pure _

theorem move {kernel : Kernel K} {client : Client} {srcNid srcIndex dstNid dstIndex : Nat} :
    Exec.Spares view (client.move kernel srcNid srcIndex dstNid dstIndex) := by
  refine .ite ?_ (.pure _)
  refine .bind unplaced.swapEntry fun _ => .bind unplaced.swapEntry fun _ =>
    .bind unplaced.swapEntry fun _ => .bind (.unwrap _) fun _ =>
    .bind readEntry_spares fun moved => ?_
  cases moved with
  | none => exact .pure _
  | some entry =>
      refine .bind (unplaced.targets _ _) fun _ => .bind (.reads _) fun event => ?_
      cases event.irq with
      | none => exact .pure _
      | some irq => exact .bind (.unwrap _) fun _ => unplaced.onKernel

theorem end_ {kernel : Kernel K} {client : Client} {nid index : Nat} :
    Exec.Spares view (client.end_ kernel nid index) :=
  .bind (.unwrap _) fun _ => .bind readEntry_spares fun _ => .bind (.unwrap _) fun _ =>
    .bind (.reads _) fun _ => .bind (.unwrap _) fun _ => unplaced.onKernel

theorem configure {client : Client} {nid index : Nat} {action : ConfigureAction} :
    Exec.Spares view (client.configure nid index action) := by
  refine .bind (.unwrap _) fun _ => .bind readEntry_spares fun _ => .bind (.unwrap _) fun _ => ?_
  cases action with
  | setEnabled enabled => exact unplaced.entries _ _ _
  | setPriority priority => exact .panic

theorem destroy {inactive : InactiveRealm} : Exec.Spares view inactive.destroy := by
  apply Exec.Spares.forEach
  intro entry
  cases entry with
  | none => exact .pure _
  | some event => exact .bind (.reads _) fun _ => unplaced.targets _ _

theorem connect {event : EventId} {inSpace : InSpaceId} {index : Nat} :
    Exec.Spares view (Event.connect event inSpace index) :=
  .bind readEntry_spares fun _ => .bind (.assert _) fun _ => .bind (.reads _) fun _ =>
    .bind (.assert _) fun _ => .bind (unplaced.entries _ _ _) fun _ => unplaced.targets _ _

end Unplaced

theorem Unserved.client_signal (unserved : Unserved view) {client : Client} {index : Nat} :
    Exec.Spares view (client.signal index) := .bind (.unwrap _) fun _ => unserved.signal

theorem unserved_numInSpaces : Unserved fun store : Store K => store.inSpaces.length where
  words _ _ := rfl
  signals _ _ := rfl
  slots _ _ _ := List.length_modify ..
  entries _ _ _ := .modify fun _ => List.length_modify ..
  targets _ _ := .modify fun _ => rfl
  kernel _ _ := rfl

end Store

/-! ## The in-spaces stay where they are -/

/-- Every in-space of a client is in the store. -/
def System.Bounded (system : System K) : Prop :=
  ∀ client, ∀ inSpace ∈ system.server.layout.inSpacesOf client,
    inSpace < system.store.inSpaces.length

/-- The requests that create and destroy realms. -/
def Request.ChangesRealms : Request → Prop
  | .createRealm _ _ => True
  | .destroyRealm _ => True
  | _ => False

section Bounded
variable {kernel : Kernel K} {system final : System K}

theorem onStore_of_ok {α : Type} {call : Exec Failure (Store K) α} {value : α} {store : Store K}
    (run : call system.store = .ok value store) :
    onStore call system = .ok value { system with store := store } :=
  Exec.focus_eq_ok.mpr ⟨store, run, rfl⟩

theorem onStore_inside {α β : Type} {view : Store K → β} {call : Exec Failure (Store K) α}
    (spares : Exec.Spares view call) :
    Exec.Spares (fun system : System K => view system.store) (onStore call) :=
  .inside spares fun _ _ => rfl

theorem withClient_inside {β : Type} {view : Store K → β} {client : ClientId}
    {request : Client → Exec Failure (Store K) Unit}
    (spares : ∀ found, Exec.Spares view (request found)) :
    Exec.Spares (fun system : System K => view system.store) (withClient client request) :=
  .bind .get fun _ => .bind (.unwrap _) fun _ => onStore_inside (spares _)

/-- What the requests of the clients leave alone, the others do as well, but for the new
in-spaces of a realm. -/
theorem Unserved.handle {β : Type} {view : Store K → β} (unserved : Unserved view)
    {request : Request} (notCreate : ∀ rid numNodes, request ≠ .createRealm rid numNodes) :
    Exec.Spares (fun system : System K => view system.store) (handle kernel request) := by
  have setsSlot : ∀ inSpace subscriber, Exec.Spares view (setSlot inSpace subscriber) :=
    fun _ _ => .modify fun _ => unserved.slots _ _ _
  cases request with
  | createRealm rid numNodes => exact absurd rfl (notCreate rid numNodes)
  | destroyRealm rid =>
      exact .bind .get fun _ => .bind (.assert _) fun _ => .bind (.modify fun _ => rfl) fun _ =>
        .bind (.unwrap _) fun _ => onStore_inside unserved.unplaced.destroy
  | signal client index => exact withClient_inside fun _ => unserved.client_signal
  | end_ client nid index => exact withClient_inside fun _ => unserved.unplaced.end_
  | configure client nid index action => exact withClient_inside fun _ => unserved.unplaced.configure
  | move client srcNid srcIndex dstNid dstIndex => exact withClient_inside fun _ => unserved.unplaced.move
  | hostSubscribe nid rid realmNid =>
      exact .bind .get fun _ => .bind (.unwrap _) fun _ => .bind (.unwrap _) fun _ =>
        .bind (.unwrap _) fun _ => .bind (onStore_inside (.reads _)) fun _ =>
        .bind (onStore_inside (setsSlot _ _)) fun _ => .bind (.assert _) fun _ =>
        .bind (.assert _) fun _ => .modify fun _ => rfl
  | resourceServerSubscribe nid hostNid =>
      exact .bind .get fun _ => .bind (.unwrap _) fun _ => .bind (.unwrap _) fun _ =>
        .bind (onStore_inside (.reads _)) fun _ => .bind (onStore_inside (setsSlot _ _)) fun _ =>
        .bind (.assert _) fun _ => .bind (.assert _) fun _ => .modify fun _ => rfl
  | resourceServerUnsubscribe nid hostNid =>
      exact .bind .get fun _ => .bind (.unwrap _) fun _ => .bind (onStore_inside (.reads _)) fun _ =>
        .bind (onStore_inside (setsSlot _ _)) fun _ => .bind (.unwrap _) fun _ =>
        .modify fun _ => rfl
  | irq irq => exact .bind .get fun _ => .bind (.unwrap _) fun _ => onStore_inside unserved.signal

/-- A part of the server that a request leaves alone. -/
structure Request.Leaves {β : Type} (request : Request) (view : EventServer → β) : Prop where
  realms : request.ChangesRealms →
    ∀ realms server, view { server with realms := realms } = view server
  host : ∀ nid rid realmNid, request = .hostSubscribe nid rid realmNid → ∀ slot server,
    view { server with hostSubscriptions :=
      server.hostSubscriptions.modify nid fun entry => { entry with slot := slot } } = view server
  resourceServer : ∀ nid hostNid, request = .resourceServerSubscribe nid hostNid ∨
      request = .resourceServerUnsubscribe nid hostNid → ∀ slot server,
    view { server with resourceServerSubscriptions :=
      server.resourceServerSubscriptions.modify nid fun entry => { entry with slot := slot } } =
      view server

theorem handle_spares_server {β : Type} {view : EventServer → β} {request : Request}
    (leaves : request.Leaves view) :
    Exec.Spares (fun system : System K => view system.server) (handle kernel request) := by
  have apart : ∀ (store : Store K) (system : System K),
      view (System.server { system with store := store }) = view system.server := fun _ _ => rfl
  cases request with
  | createRealm rid numNodes =>
      exact .bind .get fun _ => .bind (.assert _) fun _ => .bind (.unwrap _) fun _ =>
        .bind (onStore_spares apart) fun _ => .modify fun _ => leaves.realms trivial _ _
  | destroyRealm rid =>
      exact .bind .get fun _ => .bind (.assert _) fun _ =>
        .bind (.modify fun _ => leaves.realms trivial _ _) fun _ => .bind (.unwrap _) fun _ =>
        onStore_spares apart
  | signal client index => exact withClient_spares apart
  | end_ client nid index => exact withClient_spares apart
  | configure client nid index action => exact withClient_spares apart
  | move client srcNid srcIndex dstNid dstIndex => exact withClient_spares apart
  | hostSubscribe nid rid realmNid =>
      exact .bind .get fun _ => .bind (.unwrap _) fun _ => .bind (.unwrap _) fun _ =>
        .bind (.unwrap _) fun _ => .bind (onStore_spares apart) fun _ =>
        .bind (onStore_spares apart) fun _ => .bind (.assert _) fun _ => .bind (.assert _) fun _ =>
        .modify fun _ => leaves.host nid rid realmNid rfl _ _
  | resourceServerSubscribe nid hostNid =>
      exact .bind .get fun _ => .bind (.unwrap _) fun _ => .bind (.unwrap _) fun _ =>
        .bind (onStore_spares apart) fun _ => .bind (onStore_spares apart) fun _ =>
        .bind (.assert _) fun _ => .bind (.assert _) fun _ =>
        .modify fun _ => leaves.resourceServer nid hostNid (.inl rfl) _ _
  | resourceServerUnsubscribe nid hostNid =>
      exact .bind .get fun _ => .bind (.unwrap _) fun _ => .bind (onStore_spares apart) fun _ =>
        .bind (onStore_spares apart) fun _ => .bind (.unwrap _) fun _ =>
        .modify fun _ => leaves.resourceServer nid hostNid (.inr rfl) _ _
  | irq irq => exact .bind .get fun _ => .bind (.unwrap _) fun _ => onStore_spares apart

theorem handle_spares_layout {request : Request} (changesNone : ¬ request.ChangesRealms) :
    Exec.Spares (fun system : System K => system.server.layout) (handle kernel request) := by
  have sameLayout : ∀ (server : EventServer) (host resourceServer : List SubscriptionEntry),
      EventServer.layout { server with
        hostSubscriptions := host, resourceServerSubscriptions := resourceServer } =
        server.layout := by
    intro server host resourceServer
    refine Layout.mk.injEq _ _ _ _ |>.mpr ⟨?_, rfl⟩
    funext client
    cases client <;> rfl
  apply handle_spares_server
  constructor
  · intro changes
    exact absurd changes changesNone
  · intro _ _ _ _ _ server
    exact sameLayout server _ _
  · intro _ _ _ _ server
    exact sameLayout server _ _

/-- What is not about the realms that exist or about subscriptions, no action changes. -/
theorem Act.sameServer {β : Type} (view : EventServer → β) {action : Action}
    (realms : ∀ realms server, view { server with realms := realms } = view server)
    (host : ∀ entries server, view { server with hostSubscriptions := entries } = view server)
    (resourceServer : ∀ entries server,
      view { server with resourceServerSubscriptions := entries } = view server)
    (moved : Act kernel action system final) : view final.server = view system.server := by
  cases action with
  | swap word => rw [moved]; rfl
  | request request =>
      have leaves : request.Leaves view :=
        ⟨fun _ => realms, fun _ _ _ _ _ _ => host _ _, fun _ _ _ _ _ => resourceServer _ _⟩
      exact handle_spares_server leaves _ _ moved

theorem Act.sameInactive {action : Action} {before after : System K}
    (moved : Act kernel action before after) :
    after.server.inactiveRealms = before.server.inactiveRealms :=
  moved.sameServer EventServer.inactiveRealms (fun _ _ => rfl) (fun _ _ => rfl) fun _ _ => rfl

theorem createClient_numInSpaces {inactive : InactiveRealm} {numNodes : Nat} {client : Client}
    {store last : Store K} (run : inactive.createClient numNodes store = .ok client last) :
    last.inSpaces.length = store.inSpaces.length + numNodes := by
  obtain ⟨middle, _, _, _, length, _, _, connectRun⟩ := createClient_eq_ok run
  rw [← length]
  refine @Exec.Keeps.forEach _ _ _ _ (fun store : Store K => store.inSpaces.length) _ _ ?_ _ _ _
    connectRun
  intro entry
  cases entry.1 with
  | none => exact .pure _
  | some event => exact .bind (.unwrap _) fun _ => unserved_numInSpaces.unplaced.connect.keeps

/-- The new in-spaces are put behind those that are there. -/
theorem newInSpaces_added {entries : Nat} {notifications : List ClientNode} (nids : List Nat) :
    ∀ {store last : Store K} {ids : List InSpaceId},
      Exec.mapEach nids (fun nid => do
        let notification ← Exec.unwrap notifications[nid]?
        newInSpace ⟨List.replicate entries none, notification, none⟩) store = .ok ids last →
      ∃ added, last = { store with inSpaces := store.inSpaces ++ added } ∧
        ∀ found ∈ added, found.notification ∈ notifications ∧ found.entries.length = entries := by
  induction nids with
  | nil =>
      intro store last ids run
      obtain ⟨_, rfl⟩ := Exec.pure_eq_ok.mp run
      exact ⟨[], by rw [List.append_nil], by simp⟩
  | cons nid nids ih =>
      intro store last ids run
      simp only [Exec.mapEach_cons, Exec.bind_eq_ok, Exec.unwrap_eq_ok, Exec.pure_eq_ok] at run
      obtain ⟨id, middle, ⟨notification, _, ⟨isNode, rfl⟩, newRun⟩, rest, _, restRun, _, rfl⟩ := run
      obtain ⟨_, rfl⟩ := Outcome.ok.inj newRun
      obtain ⟨added, rfl, areAdded⟩ := ih restRun
      refine ⟨_ :: added, by rw [List.append_assoc, List.singleton_append], ?_⟩
      refine List.forall_mem_cons.mpr ⟨⟨List.mem_of_getElem? isNode, ?_⟩, areAdded⟩
      exact List.length_replicate

/-- Creating a realm puts in-spaces behind those that are there, and then places events. -/
theorem createRealm_unplaced {β : Type} {view : Store K → β} (unplaced : Unplaced view)
    {rid numNodes : Nat} (run : EventServer.createRealm rid numNodes system = .ok () final) :
    ∃ added, view final.store =
      view { system.store with inSpaces := system.store.inSpaces ++ added } := by
  obtain ⟨inactive, client, last, _, _, createRun, rfl⟩ := EventServer.createRealm_eq_ok run
  simp only [InactiveRealm.createClient, Exec.bind_eq_ok, Exec.assert_eq_ok, Exec.pure_eq_ok]
    at createRun
  obtain ⟨⟨⟩, _, ⟨_, rfl⟩, inSpaces, middle, newRun, ⟨⟩, _, connectRun, _, rfl⟩ := createRun
  obtain ⟨added, rfl, _⟩ := newInSpaces_added _ newRun
  refine ⟨added, @Exec.Keeps.forEach _ _ _ _ view _ _ ?_ _ _ _ connectRun⟩
  intro entry
  cases entry.1 with
  | none => exact .pure _
  | some event => exact .bind (.unwrap _) fun _ => unplaced.connect.keeps

/-- The realm's client has so many new in-spaces. -/
def Layout.renew (layout : Layout) (rid : RealmId) (first n : Nat) : Layout :=
  ⟨Function.update layout.inSpacesOf (.realm rid) (List.range' first n), layout.inEntries⟩

theorem Layout.renew_cases (layout : Layout) (rid first n : Nat) (client : ClientId) :
    (layout.renew rid first n).inSpacesOf client = layout.inSpacesOf client ∨
      client = .realm rid ∧ (layout.renew rid first n).inSpacesOf client = List.range' first n := by
  by_cases same : client = .realm rid
  · subst same
    right
    exact ⟨rfl, Function.update_self ..⟩
  · left
    exact Function.update_of_ne same ..

theorem createRealm_layout {rid numNodes : Nat}
    (run : EventServer.createRealm rid numNodes system = .ok () final) :
    final.server.layout = system.server.layout.renew rid system.store.inSpaces.length numNodes ∧
      final.store.inSpaces.length = system.store.inSpaces.length + numNodes := by
  obtain ⟨_, created, _, _, _, createRun, rfl⟩ := EventServer.createRealm_eq_ok run
  obtain ⟨_, areIds, _⟩ := createClient_eq_ok createRun
  refine ⟨?_, createClient_numInSpaces createRun⟩
  rw [layout_insert, areIds]
  rfl

theorem destroyRealm_layout {rid : Nat}
    (run : EventServer.destroyRealm rid system = .ok () final) :
    final.server.layout = system.server.layout.renew rid system.store.inSpaces.length 0 := by
  obtain ⟨_, _, _, _, rfl⟩ := EventServer.destroyRealm_eq_ok run
  exact layout_erase system.server rid

/-- The layout changes for one realm at most, which then has new in-spaces or none. -/
theorem Act.layout_cases {action : Action} (moved : Act kernel action system final) :
    final.server.layout = system.server.layout ∧
      final.store.inSpaces.length = system.store.inSpaces.length ∨
    ∃ rid n, final.server.layout = system.server.layout.renew rid system.store.inSpaces.length n ∧
      final.store.inSpaces.length = system.store.inSpaces.length + n := by
  cases action with
  | swap word =>
      rw [moved]
      exact .inl ⟨rfl, rfl⟩
  | request request =>
      by_cases changes : request.ChangesRealms
      · right
        cases request with
        | createRealm rid numNodes =>
            obtain ⟨⟨⟩, run⟩ := (EventServer.createRealm_infallible rid numNodes).ends moved
            exact ⟨rid, numNodes, createRealm_layout run⟩
        | destroyRealm rid =>
            have sameLength := unserved_numInSpaces.handle (by simp) _ _ moved
            obtain ⟨⟨⟩, run⟩ := (EventServer.destroyRealm_infallible rid).ends moved
            exact ⟨rid, 0, destroyRealm_layout run, sameLength⟩
        | _ => exact changes.elim
      · left
        refine ⟨handle_spares_layout changes _ _ moved, unserved_numInSpaces.handle ?_ _ _ moved⟩
        intro rid numNodes isCreate
        exact changes (isCreate ▸ trivial)

/-- The in-spaces of a client change only with its realm, and then they are new ones or none. -/
structure Extends (before after : System K) : Prop where
  grows : before.store.inSpaces.length ≤ after.store.inSpaces.length
  inSpaces : ∀ client, after.server.layout.inSpacesOf client = before.server.layout.inSpacesOf client ∨
    client ≠ .host ∧ ∃ n, after.server.layout.inSpacesOf client =
      List.range' before.store.inSpaces.length n ∧
      before.store.inSpaces.length + n ≤ after.store.inSpaces.length
  inEntries : after.server.layout.inEntries = before.server.layout.inEntries

theorem Act.extends {action : Action} (moved : Act kernel action system final) :
    Extends system final := by
  rcases moved.layout_cases with ⟨same, sameLength⟩ | ⟨rid, n, renewed, length⟩
  · exact ⟨Nat.le_of_eq sameLength.symm, fun _ => .inl (by rw [same]), by rw [same]⟩
  · refine ⟨Nat.le.intro length.symm, fun client => ?_, by rw [renewed]; rfl⟩
    rw [renewed]
    rcases Layout.renew_cases _ rid _ n client with old | ⟨rfl, isNew⟩
    · exact .inl old
    · exact .inr ⟨by simp, n, isNew, Nat.le_of_eq length.symm⟩

/-- What new in-spaces leave alone as well, no action changes. -/
theorem Unserved.act {β : Type} {view : Store K → β} (unserved : Unserved view)
    (added : ∀ inSpaces store, view { store with inSpaces := store.inSpaces ++ inSpaces } = view store)
    {action : Action} (moved : Act kernel action system final) :
    view final.store = view system.store := by
  cases action with
  | swap word => rw [moved]; exact unserved.words _ _
  | request request =>
      by_cases isCreate : ∃ rid numNodes, request = .createRealm rid numNodes
      · obtain ⟨rid, numNodes, rfl⟩ := isCreate
        obtain ⟨⟨⟩, run⟩ := (EventServer.createRealm_infallible rid numNodes).ends moved
        obtain ⟨inSpaces, same⟩ := createRealm_unplaced unserved.unplaced run
        exact same.trans (added inSpaces _)
      · exact unserved.handle (fun rid numNodes same => isCreate ⟨rid, numNodes, same⟩) _ _ moved

theorem Act.numEvents {action : Action} (moved : Act kernel action system final) :
    final.store.events.length = system.store.events.length := by
  have unserved : Unserved fun store : Store K => store.events.length := by
    refine ⟨⟨fun _ _ => rfl, fun _ _ => rfl, fun _ _ _ => rfl⟩, fun _ _ _ => ?_, fun _ _ => ?_, ?_⟩
    · exact .modify fun _ => rfl
    · exact .modify fun _ => List.length_modify ..
    · exact fun _ _ => rfl
  exact unserved.act (fun _ _ => rfl) moved

theorem Act.bounded {action : Action} (bounded : system.Bounded)
    (moved : Act kernel action system final) : final.Bounded := by
  have grown := moved.extends
  intro client inSpace isInSpace
  rcases grown.inSpaces client with same | ⟨_, n, isNew, inBounds⟩
  · rw [same] at isInSpace
    exact Nat.lt_of_lt_of_le (bounded client inSpace isInSpace) grown.grows
  · rw [isNew, List.mem_range'_1] at isInSpace
    exact Nat.lt_of_lt_of_le isInSpace.2 inBounds

theorem realize_bounded {numActiveCores : Nat} {config : EventServerConfig} {kernelState : K}
    {server : EventServer} {store : Store K}
    (realized : config.realize kernel numActiveCores (Store.empty kernelState) = .ok server store) :
    System.Bounded ⟨server, store⟩ := (realize_coherent realized).routed.bounded

end Bounded

/-! ## Runs of the example -/

theorem exampleSystem_run (actions : List Action)
    (check : List (System Unit × Action) × System Unit → Bool)
    (evaluates : (exampleSystem.bind fun system =>
      Recorded.record (Action.perform permissive) actions system).any check = true) :
    ∃ first taken system,
      exampleConfig.realize permissive 2 (Store.empty ()) = .ok first.server first.store ∧
      Recorded (Act permissive) first taken system ∧ taken.map Prod.snd = actions ∧
      check (taken, system) = true := by
  obtain ⟨⟨taken, system⟩, isRun, checked⟩ := (Option.any_eq_true _ _).mp evaluates
  obtain ⟨first, isFirst, recorded⟩ := Option.bind_eq_some_iff.mp isRun
  exact ⟨first, taken, system, exampleSystem_realized isFirst,
    Recorded.ofRecord perform_act .start recorded,
    Recorded.record_events recorded, checked⟩

end IceCap.Events
