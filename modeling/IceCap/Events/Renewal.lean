import IceCap.Events.Awake
import IceCap.Events.Numbering

/-!
# Realms that are created again

`destroy_realm` disconnects the events of a realm and drops its client, and
`create_realm` makes a new one.  The words of the bitfields are not the event
server's and stay as they are, so a bit that the first client has not taken is
still set when the second one comes.
-/

set_option autoImplicit false

namespace IceCap.Events

open IceCap.Library IceCap.Sel4 FiniteSet

variable {K : Type}

/-! ## Entries in their places -/

/-- The entries of an in-space of a size, with the events at their indices. -/
def placed (events : List (Option EventId)) (size : Nat) : List (Option InSpaceEntry) :=
  (List.range size).map fun index => (events[index]?).join.map fun event => ⟨event, true⟩

section Placed
variable {events : List (Option EventId)} {event : EventId} {size index : Nat}

theorem length_placed : (placed events size).length = size := by
  rw [placed, List.length_map, List.length_range]

end Placed

/-! ## Creating -/

/-- What `create_client` asserts of a realm that has not changed since. -/
structure InactiveRealm.Fits (inactive : InactiveRealm) (numNodes : Nat) : Prop where
  notified : numNodes ≤ inactive.inNotifications.length
  distinct : (inactive.inEntries.filterMap id).Nodup
  inside : ∀ index event, inactive.inEntries[index]? = some (some event) →
    0 < numNodes ∧ index < Finite.cardinality RealmIn

/-- The events can be connected. -/
def Store.Free (events : List (Option EventId)) (store : Store K) : Prop :=
  ∀ event, some event ∈ events → event < store.events.length ∧ store.targetOf event = none

/-- An event is connected. -/
def Store.connected (event : EventId) (inSpace : InSpaceId) (index : Nat) (store : Store K) : Store K :=
  { store with
    inSpaces := store.inSpaces.modify inSpace fun found =>
      { found with entries := found.entries.set index (some ⟨event, true⟩) }
    events := store.events.modify event fun found => { found with target := some ⟨inSpace, index⟩ } }

section Connect
variable {store final : Store K} {inSpaces : List InSpaceId} {base : InSpaceId}

end Connect

/-- A realm as it is on a fresh server once it has been created, as far as the event server goes. -/
structure InactiveRealm.Placed (inactive : InactiveRealm) (numNodes : Nat) (client : Client)
    (store : Store K) : Prop where
  outSpace : client.outSpace = inactive.outSpace
  numInSpaces : client.inSpaces.length = numNodes
  inSpaces : ∀ nid inSpace, client.inSpaces[nid]? = some inSpace →
    ∃ notification, inactive.inNotifications[nid]? = some notification ∧
      store.inSpaces[inSpace]? = some (InSpace.mk
        (if nid = 0 then placed inactive.inEntries (Finite.cardinality RealmIn)
          else List.replicate (Finite.cardinality RealmIn) none)
        notification none)
  targets : ∀ index event, inactive.inEntries[index]? = some (some event) →
    ∃ inSpace, client.inSpaces[0]? = some inSpace ∧ store.targetOf event = some ⟨inSpace, index⟩

section Create
variable {inactive : InactiveRealm} {numNodes : Nat} {client : Client} {store final : Store K}

end Create

/-! ## Destroying -/

section Destroy
variable {store final : Store K}

end Destroy

/-! ## The first signal -/

/-- No bit of an in-space is set, whichever node it is of. -/
def InactiveRealm.Consumed (inactive : InactiveRealm) (numNodes : Nat) (store : Store K) : Prop :=
  ∀ nid < numNodes, ∀ notification, inactive.inNotifications[nid]? = some notification →
    ∀ index < Finite.cardinality RealmIn,
      (store.bitfield notification.bitfield).isSet index = false

theorem consumed_congr {inactive : InactiveRealm} {numNodes : Nat} {store final : Store K}
    (same : final.words = store.words) :
    inactive.Consumed numNodes final ↔ inactive.Consumed numNodes store := by
  unfold InactiveRealm.Consumed Store.bitfield
  rw [same]

/-- Nothing is signalled, and nobody subscribes. -/
def Action.Quiet : Action → Prop
  | .request (.signal _ _) => False
  | .request (.irq _) => False
  | .request (.hostSubscribe _ _ _) => False
  | .request (.resourceServerSubscribe _ _) => False
  | .request (.resourceServerUnsubscribe _ _) => False
  | _ => True

def QuietAct (kernel : Kernel K) (action : Action) (before after : System K) : Prop :=
  action.Quiet ∧ Act kernel action before after

/-- What there is in an in-space besides its entries. -/
def Store.bare (inSpace : InSpaceId) (store : Store K) : Option (ClientNode × Option Subscriber × Nat) :=
  (store.inSpaces[inSpace]?).map fun found =>
    (found.notification, found.subscriptionSlot, found.entries.length)

theorem unplaced_bare (inSpace : InSpaceId) : Unplaced (Store.bare (K := K) inSpace) where
  entries other index entry := .modify fun store => by
    unfold Store.bare
    rw [List.getElem?_modify]
    cases store.inSpaces[inSpace]? with
    | none => rfl
    | some found =>
        split
        · simp
        · rfl
  targets _ _ := .modify fun _ => rfl
  kernel _ _ := rfl

theorem unplaced_words : Unplaced fun store : Store K => store.words where
  entries _ _ _ := .modify fun _ => rfl
  targets _ _ := .modify fun _ => rfl
  kernel _ _ := rfl

/-- New in-spaces aside, a request that is no signal and no subscription changes no more than
entries and targets. -/
theorem Unplaced.quiet {β : Type} {view : Store K → β} (unplaced : Unplaced view)
    {kernel : Kernel K} {request : Request} {before after : System K}
    (quiet : (Action.request request).Quiet) (moved : (handle kernel request).Ends before after) :
    ∃ added, view after.store = view { before.store with inSpaces := before.store.inSpaces ++ added } := by
  have same : ∀ {call : Exec Failure (System K) Unit},
      Exec.Spares (fun system : System K => view system.store) call → call.Ends before after →
      ∃ added, view after.store =
        view { before.store with inSpaces := before.store.inSpaces ++ added } := by
    intro call spares ends
    refine ⟨[], ?_⟩
    rw [List.append_nil]
    exact spares _ _ ends
  cases request with
  | createRealm rid numNodes =>
      obtain ⟨⟨⟩, run⟩ := (EventServer.createRealm_infallible rid numNodes).ends moved
      exact createRealm_unplaced unplaced run
  | destroyRealm rid =>
      refine same ?_ moved
      exact .bind .get fun _ => .bind (.assert _) fun _ => .bind (.modify fun _ => rfl) fun _ =>
        .bind (.unwrap _) fun _ => onStore_inside unplaced.destroy
  | end_ client nid index => exact same (withClient_inside fun _ => unplaced.end_) moved
  | configure client nid index action =>
      exact same (withClient_inside fun _ => unplaced.configure) moved
  | move client srcNid srcIndex dstNid dstIndex =>
      exact same (withClient_inside fun _ => unplaced.move) moved
  | signal client index => exact quiet.elim
  | irq irq => exact quiet.elim
  | hostSubscribe nid rid realmNid => exact quiet.elim
  | resourceServerSubscribe nid hostNid => exact quiet.elim
  | resourceServerUnsubscribe nid hostNid => exact quiet.elim

/-- Nothing is pending in the realm's in-spaces and nobody has subscribed to them. -/
structure InactiveRealm.Awaits (inactive : InactiveRealm) (numNodes : Nat) (client : Client)
    (store : Store K) : Prop where
  consumed : inactive.Consumed numNodes store
  bare : ∀ nid inSpace, client.inSpaces[nid]? = some inSpace → nid < numNodes ∧
    ∃ notification, inactive.inNotifications[nid]? = some notification ∧
      store.bare inSpace = some (notification, none, Finite.cardinality RealmIn)

section Awaits
variable {inactive : InactiveRealm} {numNodes : Nat} {client : Client}

theorem InactiveRealm.Placed.awaits {store : Store K}
    (isPlaced : inactive.Placed numNodes client store) (consumed : inactive.Consumed numNodes store) :
    inactive.Awaits numNodes client store := by
  refine ⟨consumed, ?_⟩
  intro nid inSpace isInSpace
  obtain ⟨notification, isNotification, isFound⟩ := isPlaced.inSpaces nid inSpace isInSpace
  have less := (List.getElem?_eq_some_iff.mp isInSpace).1
  refine ⟨lt_of_lt_of_eq less isPlaced.numInSpaces, notification, isNotification, ?_⟩
  rw [Store.bare, isFound]
  split
  · exact congrArg (fun size => some (notification, none, size)) length_placed
  · exact congrArg (fun size => some (notification, none, size)) List.length_replicate

theorem bare_added {inSpace : InSpaceId} {store : Store K} {added : List InSpace}
    {content : ClientNode × Option Subscriber × Nat} (isBare : store.bare inSpace = some content) :
    Store.bare inSpace { store with inSpaces := store.inSpaces ++ added } = some content := by
  obtain ⟨found, isFound, rfl⟩ := Option.map_eq_some_iff.mp isBare
  have less := (List.getElem?_eq_some_iff.mp isFound).1
  rw [Store.bare, List.getElem?_append_left less, isFound]
  rfl

/-- A word that is taken has no bits. -/
theorem isSet_swap_store {address index word : Nat} {system : System K}
    (isClear : (system.store.bitfield address).isSet index = false) :
    ((system.swap word).store.bitfield address).isSet index = false := by
  unfold Bitfield.isSet Store.bitfield System.swap at *
  dsimp only at *
  rw [Std.TreeMap.getElem?_insert]
  split
  · exact BitVec.getLsbD_zero
  · exact isClear

theorem InactiveRealm.Awaits.act {kernel : Kernel K} {action : Action} {before after : System K}
    (awaits : inactive.Awaits numNodes client before.store)
    (moved : QuietAct kernel action before after) :
    inactive.Awaits numNodes client after.store := by
  obtain ⟨quiet, moved⟩ := moved
  cases action with
  | swap word =>
      obtain rfl := moved
      refine ⟨?_, awaits.bare⟩
      intro nid less notification isNotification index inside
      exact isSet_swap_store (awaits.consumed nid less notification isNotification index inside)
  | request request =>
      constructor
      · obtain ⟨_, same⟩ := unplaced_words.quiet quiet moved
        exact (consumed_congr same).mpr awaits.consumed
      · intro nid inSpace isInSpace
        obtain ⟨less, notification, isNotification, isBare⟩ := awaits.bare nid inSpace isInSpace
        refine ⟨less, notification, isNotification, ?_⟩
        obtain ⟨_, same⟩ := (unplaced_bare inSpace).quiet quiet moved
        exact same.trans (bare_added isBare)

end Awaits

section Signal
variable {store : Store K}

end Signal

/-! ## Runs -/

section Runs
variable {kernel : Kernel K} {rid numNodes : Nat} {inactive : InactiveRealm}

variable {before created system gone : System K} {taken : List (System K × Action)}

end Runs

end IceCap.Events
