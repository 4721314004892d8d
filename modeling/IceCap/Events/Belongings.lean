import IceCap.Events.Confined

/-!
# What belongs to a realm

Its in-spaces, the targets of its events, the words of its bitfields, and how
often its notifications have been signalled.  A change elsewhere is no change to
these, and a signal changes what it comes upon and nothing else.
-/

set_option autoImplicit false

namespace IceCap.Events

open IceCap.Library IceCap.Sel4 FiniteSet

variable {K : Type}

/-- The addresses of the words of a bitfield with so many bits. -/
def ClientNode.words (numBits : Nat) (node : ClientNode) : List Nat :=
  (List.range ((numBits + 63) / 64)).map fun group => (node.bitfield + 8 * group) % 2 ^ 64

/-- Where in the store the parts of a realm are. -/
structure Parts where
  inSpaces : List InSpaceId
  events : List EventId
  words : List Nat
  nfns : List CPtr

structure Belongings where
  inSpaces : List (Option InSpace)
  targets : List (Option EventTarget)
  words : List (Option UInt64)
  signals : List Nat
  deriving DecidableEq

def Store.belongings (parts : Parts) (store : Store K) : Belongings where
  inSpaces := parts.inSpaces.map fun inSpace => store.inSpaces[inSpace]?
  targets := parts.events.map store.targetOf
  words := parts.words.map fun word => store.words[word]?
  signals := parts.nfns.map fun nfn => store.signals.count nfn

/-- The in-spaces are those of the realm's client; the rest is set aside for the realm whether it
exists or not. -/
def EventServer.parts (rid : RealmId) (server : EventServer) : Parts :=
  let inactive := server.inactiveRealms[rid]?.getD ⟨[], [], []⟩
  { inSpaces := server.layout.inSpacesOf (.realm rid)
    events := inactive.inEntries.filterMap id ++ inactive.outSpace
    words := inactive.inNotifications.flatMap (ClientNode.words (Finite.cardinality RealmIn))
    nfns := inactive.inNotifications.flatMap ClientNode.nfn }

def System.belongings (rid : RealmId) (system : System K) : Belongings :=
  system.store.belongings (system.server.parts rid)

/-! ## Changes elsewhere -/

section Elsewhere
variable {parts : Parts} {store : Store K}

theorem belongings_insert {word : Nat} {value : UInt64} (isOther : word ∉ parts.words) :
    Store.belongings parts { store with words := store.words.insert word value } =
      store.belongings parts := by
  have same : ∀ other ∈ parts.words,
      (store.words.insert word value)[other]? = store.words[other]? := by
    intro other isPart
    have differs : word ≠ other := fun here => isOther (here ▸ isPart)
    simp [Std.TreeMap.getElem?_insert, differs]
  simp only [Store.belongings, List.map_congr_left same]
  rfl

theorem belongings_notify {nfn : CPtr} (isOther : nfn ∉ parts.nfns) :
    (store.notify nfn).belongings parts = store.belongings parts := by
  have same : ∀ other ∈ parts.nfns,
      (nfn :: store.signals).count other = store.signals.count other := by
    intro other isPart
    have differs : nfn ≠ other := fun here => isOther (here ▸ isPart)
    exact List.count_cons_of_ne differs
  simp only [Store.belongings, Store.notify, List.map_congr_left same]
  rfl

theorem belongings_modify {inSpace : InSpaceId} {update : InSpace → InSpace}
    (isOther : inSpace ∉ parts.inSpaces) :
    Store.belongings parts { store with inSpaces := store.inSpaces.modify inSpace update } =
      store.belongings parts := by
  have same : ∀ other ∈ parts.inSpaces,
      (store.inSpaces.modify inSpace update)[other]? = store.inSpaces[other]? := by
    intro other isPart
    exact List.getElem?_modify_ne _ _ fun here => isOther (here ▸ isPart)
  simp only [Store.belongings, List.map_congr_left same]
  rfl

theorem setTarget_belongings {event : EventId} {target : Option EventTarget}
    (isOther : event ∉ parts.events) :
    Exec.Spares (Store.belongings (K := K) parts) (setTarget event target) := by
  apply Exec.Spares.modify
  intro store
  have same : ∀ other ∈ parts.events, Store.targetOf { store with
      events := store.events.modify event fun found => { found with target := target } } other =
        store.targetOf other := by
    intro other isPart
    have differs : event ≠ other := fun here => isOther (here ▸ isPart)
    rw [Store.targetOf, List.getElem?_modify_ne _ _ differs]
    rfl
  simp only [Store.belongings, List.map_congr_left same]

theorem writeEntry_belongings {inSpace : InSpaceId} {index : Nat} {entry : Option InSpaceEntry}
    (isOther : inSpace ∉ parts.inSpaces) :
    Exec.Spares (Store.belongings (K := K) parts) (writeEntry inSpace index entry) :=
  .modify fun _ => belongings_modify isOther

theorem onKernel_belongings {call : Exec Failure K Unit} :
    Exec.Spares (Store.belongings parts) (onKernel call) :=
  .focus fun _ _ => rfl

/-- Nothing that a signal changes by way of the in-space is among the parts. -/
structure InSpace.Apart (parts : Parts) (found : InSpace) : Prop where
  words : ∀ word ∈ found.notification.words found.entries.length, word ∉ parts.words
  nfns : ∀ nfn ∈ found.notification.nfn, nfn ∉ parts.nfns
  subscriber : ∀ subscriber, found.subscriptionSlot = some subscriber →
    ∃ nfn, subscriber = .notification nfn ∧ nfn ∉ parts.nfns

theorem setBit_belongings {node : ClientNode} {numBits index : Nat} {wasClear : Bool}
    {final : Store K} (isBit : index < numBits)
    (isOther : ∀ word ∈ node.words numBits, word ∉ parts.words)
    (run : setBit node.bitfield index store = .ok wasClear final) :
    final.belongings parts = store.belongings parts := by
  obtain ⟨_, rfl⟩ := Outcome.ok.inj run
  have isCast : index % 2 ^ 32 ≤ index := Nat.mod_le ..
  have isGroup : index % 2 ^ 32 / 64 < (numBits + 63) / 64 := by omega
  exact belongings_insert (isOther _ (List.mem_map.mpr ⟨_, List.mem_range.mpr isGroup, rfl⟩))

/-- A signal that comes to an in-space elsewhere, where a notification subscribes at most. -/
theorem signal_belongings {event : EventId} {final : Store K}
    (apart : ∀ place found, Arrives store event place found →
      place.inSpace ∉ parts.inSpaces ∧ found.Apart parts)
    (run : (Event.signal event).Ends store final) :
    final.belongings parts = store.belongings parts := by
  obtain ⟨_, _, isStore, run⟩ := Exec.Infallible.get.ends_bind run
  obtain ⟨rfl, rfl⟩ := Exec.get_eq_ok.mp isStore
  obtain ⟨⟨⟩, run⟩ := (signalWithin_infallible _ _ _).ends run
  rcases signalWithin_cases run with ⟨_, rfl⟩ | ⟨place, found, wasClear, marked, arrives, _, bitRun,
    rest⟩
  · rfl
  obtain ⟨isOther, isApart⟩ := apart place found arrives
  obtain ⟨entry, isEntry⟩ := arrives.isEntry
  have isBit := (List.getElem?_eq_some_iff.mp isEntry).1
  have isMarked := setBit_belongings isBit isApart.words bitRun
  rcases rest with ⟨_, rfl⟩ | ⟨_, nfn, below, isNfn, _, notified⟩
  · exact isMarked
  have emptied : ((marked.notify nfn).withSlot place.inSpace none).belongings parts =
      store.belongings parts := by
    rw [Store.withSlot, belongings_modify isOther,
      belongings_notify (isApart.nfns nfn (List.mem_of_getElem? isNfn)), isMarked]
  cases slot : found.subscriptionSlot with
  | none =>
      rw [slot] at notified
      obtain ⟨_, rfl⟩ := Exec.pure_eq_ok.mp notified
      exact emptied
  | some subscriber =>
      obtain ⟨subscribed, rfl, isOtherNfn⟩ := isApart.subscriber subscriber slot
      rw [slot] at notified
      obtain ⟨_, rfl⟩ := Outcome.ok.inj notified
      exact (belongings_notify isOtherNfn).trans emptied

end Elsewhere

/-! ## What a client does in its own in-spaces -/

/-- What else the invariant is, a client keeps it if it keeps it with every entry and every target
that it may write. -/
theorem Client.Tends.and {client : Client} {may : EventId → Prop} {invariant other : Store K → Prop}
    (tends : client.Tends may invariant)
    (entries : ∀ inSpace ∈ client.inSpaces, ∀ index entry,
      Exec.Maintains other (writeEntry inSpace index entry))
    (targets : ∀ event target, may event → Exec.Maintains other (setTarget event target))
    (kernel : ∀ call, Exec.Maintains other (onKernel call)) :
    client.Tends may fun store => invariant store ∧ other store where
  finds store holds := tends.finds store holds.1
  entries inSpace isOwn index entry mayEntry :=
    (tends.entries inSpace isOwn index entry mayEntry).and (entries inSpace isOwn index entry)
  targets inSpace isOwn index event mayEvent :=
    (tends.targets inSpace isOwn index event mayEvent).and (targets event _ mayEvent)
  kernel call := (tends.kernel call).and (kernel call)

end IceCap.Events
