import Mathlib.Data.List.Basic
import IceCap.Sel4
import IceCap.Events.Names

/-!
# The event server

`EventServer` and its parts.  Events and in-spaces are shared through reference
counted cells in the source; here they live in a `Store` and are referred to by
their position, which never changes because nothing is ever taken out of it.
The subscription slot of an in-space is created with it, so the slot is
referred to by the in-space.

Bitfields are words of memory shared with the clients.  The store keeps the
words the event server has set, by address, and the notifications it has
signalled, the last one first.
-/

set_option autoImplicit false

namespace IceCap.Events

open IceCap.Library IceCap.Sel4 FiniteSet

abbrev EventId := Nat

abbrev InSpaceId := Nat

abbrev RealmId := Nat

structure ClientNode where
  nfn : List CPtr
  bitfield : Nat
  deriving DecidableEq, Repr

structure InSpaceEntry where
  event : EventId
  enabled : Bool
  deriving DecidableEq, Repr

inductive Subscriber where
  | event (event : EventId)
  | notification (nfn : CPtr)
  deriving DecidableEq, Repr

structure InSpace where
  entries : List (Option InSpaceEntry)
  notification : ClientNode
  subscriptionSlot : Option Subscriber
  deriving DecidableEq, Repr

structure EventTarget where
  inSpace : Nat
  index : Nat
  deriving DecidableEq, Repr

structure EventIRQ where
  handler : CPtr
  notifications : List CPtr
  deriving DecidableEq, Repr

structure Event where
  target : Option EventTarget
  irq : Option EventIRQ
  deriving DecidableEq, Repr

structure Client where
  outSpace : List EventId
  inSpaces : List InSpaceId
  deriving DecidableEq, Repr

structure SubscriptionEntry where
  subscriber : Subscriber
  slot : Option InSpaceId
  deriving DecidableEq, Repr

structure InactiveRealm where
  outSpace : List EventId
  inNotifications : List ClientNode
  inEntries : List (Option EventId)
  deriving DecidableEq, Repr

structure Store (K : Type) where
  events : List Event
  inSpaces : List InSpace
  words : Std.TreeMap Nat UInt64
  signals : List CPtr
  kernel : K

structure EventServer where
  resourceServer : Client
  serialServer : Client
  host : Client
  realms : Std.TreeMap RealmId Client
  inactiveRealms : Std.TreeMap RealmId InactiveRealm
  resourceServerSubscriptions : List SubscriptionEntry
  hostSubscriptions : List SubscriptionEntry
  irqEvents : Std.TreeMap Nat EventId

/-- The event server with everything it refers to. -/
structure System (K : Type) where
  server : EventServer
  store : Store K

variable {K : Type}

/-! ## Cells -/

def readEvent (event : EventId) : Exec Failure (Store K) Event :=
  Exec.reads fun store => store.events[event]?

def setTarget (event : EventId) (target : Option EventTarget) : Exec Failure (Store K) Unit :=
  Exec.modify fun store => { store with
    events := store.events.modify event fun found => { found with target := target } }

def newEvent (irq : Option EventIRQ) : Exec Failure (Store K) EventId := fun store =>
  .ok store.events.length { store with events := store.events ++ [⟨none, irq⟩] }

def readInSpace (inSpace : InSpaceId) : Exec Failure (Store K) InSpace :=
  Exec.reads fun store => store.inSpaces[inSpace]?

def modifyInSpace (inSpace : InSpaceId) (update : InSpace → InSpace) :
    Exec Failure (Store K) Unit :=
  Exec.modify fun store => { store with inSpaces := store.inSpaces.modify inSpace update }

def newInSpace (inSpace : InSpace) : Exec Failure (Store K) InSpaceId := fun store =>
  .ok store.inSpaces.length { store with inSpaces := store.inSpaces ++ [inSpace] }

/-- `in_space.entries[index]`, which panics out of bounds. -/
def readEntry (inSpace : InSpaceId) (index : Nat) :
    Exec Failure (Store K) (Option InSpaceEntry) := do
  let found ← readInSpace inSpace
  Exec.unwrap found.entries[index]?

def writeEntry (inSpace : InSpaceId) (index : Nat) (entry : Option InSpaceEntry) :
    Exec Failure (Store K) Unit :=
  modifyInSpace inSpace fun found => { found with entries := found.entries.set index entry }

def setSlot (inSpace : InSpaceId) (subscriber : Option Subscriber) :
    Exec Failure (Store K) Unit :=
  modifyInSpace inSpace fun found => { found with subscriptionSlot := subscriber }

/-- `nfn.signal()`. -/
def signalNotification (nfn : CPtr) : Exec Failure (Store K) Unit :=
  Exec.modify fun store => { store with signals := nfn :: store.signals }

def onKernel (call : Exec Failure K Unit) : Exec Failure (Store K) Unit :=
  Exec.focus Store.kernel (fun inner store => { store with kernel := inner }) call

/-- `Bitfield::set`: set the bit and tell whether it was clear.  The bit is cast to `u32`. -/
def setBit (address index : Nat) : Exec Failure (Store K) Bool := fun store =>
  let bit := index % 2 ^ 32
  let word := (address + 8 * (bit / 64)) % 2 ^ 64
  let member : UInt64 := 1 <<< UInt64.ofNat (bit % 64)
  let old := store.words[word]?.getD 0
  .ok (old &&& member == 0) { store with words := store.words.insert word (old ||| member) }

/-! ## Events and in-spaces -/

namespace Event

def connect (event : EventId) (inSpace : InSpaceId) (inIndex : Nat) :
    Exec Failure (Store K) Unit := do
  let entry ← readEntry inSpace inIndex
  Exec.assert (entry = none)
  let found ← readEvent event
  Exec.assert (found.target = none)
  writeEntry inSpace inIndex (some ⟨event, true⟩)
  setTarget event (some ⟨inSpace, inIndex⟩)

def disconnect (event : EventId) : Exec Failure (Store K) Unit := do
  let _ ← readEvent event
  setTarget event none

/-- `Event::signal`, and through it `InSpace::signal`, `InSpace::notify_subscriber` and
`Subscriber::signal`.  The in-spaces in `borrowed` are mutably borrowed by the callers, and
borrowing one of them again panics; so the recursion is no deeper than there are in-spaces. -/
def signalWithin : Nat → List InSpaceId → EventId → Exec Failure (Store K) Unit
  | 0, _, _ => Exec.panic
  | depth + 1, borrowed, event => do
      let found ← readEvent event
      match found.target with
      | none => pure ()
      | some target => do
          Exec.assert (target.inSpace ∉ borrowed)
          let inSpace ← readInSpace target.inSpace
          let entry ← Exec.unwrap inSpace.entries[target.index]?
          let _ ← Exec.unwrap entry
          let wasClear ← setBit inSpace.notification.bitfield target.index
          if wasClear then do
            let nfn ← Exec.unwrap inSpace.notification.nfn[target.index / 64]?
            signalNotification nfn
            setSlot target.inSpace none
            match inSpace.subscriptionSlot with
            | none => pure ()
            | some (.event subscriber) =>
                signalWithin depth (target.inSpace :: borrowed) subscriber
            | some (.notification nfn) => signalNotification nfn
          else pure ()

def signal (event : EventId) : Exec Failure (Store K) Unit := do
  let store ← Exec.get
  signalWithin (store.inSpaces.length + 1) [] event

end Event

namespace InSpace

def end_ (kernel : Kernel K) (inSpace : InSpaceId) (index : Nat) :
    Exec Failure (Store K) Unit := do
  let entry ← readEntry inSpace index
  let found ← Exec.unwrap entry
  let event ← readEvent found.event
  let irq ← Exec.unwrap event.irq
  onKernel (kernel.call (.irqAck irq.handler))

end InSpace

inductive ConfigureAction where
  | setEnabled (enabled : Bool)
  | setPriority (priority : Nat)
  deriving DecidableEq, Repr

def InSpace.configure (inSpace : InSpaceId) (index : Nat) (action : ConfigureAction) :
    Exec Failure (Store K) Unit := do
  let entry ← readEntry inSpace index
  let found ← Exec.unwrap entry
  match action with
  | .setPriority _ => Exec.panic
  | .setEnabled enabled => writeEntry inSpace index (some { found with enabled := enabled })

/-! ## Clients -/

namespace Client

def signal (client : Client) (index : Nat) : Exec Failure (Store K) Unit := do
  let event ← Exec.unwrap client.outSpace[index]?
  Event.signal event

def end_ (kernel : Kernel K) (client : Client) (nid index : Nat) :
    Exec Failure (Store K) Unit := do
  let inSpace ← Exec.unwrap client.inSpaces[nid]?
  InSpace.end_ kernel inSpace index

def configure (client : Client) (nid index : Nat) (action : ConfigureAction) :
    Exec Failure (Store K) Unit := do
  let inSpace ← Exec.unwrap client.inSpaces[nid]?
  InSpace.configure inSpace index action

/-- `core::mem::swap(&mut tmp, &mut self.in_spaces[nid].borrow_mut().entries[index])`. -/
def swapEntry (client : Client) (nid index : Nat) (tmp : Option InSpaceEntry) :
    Exec Failure (Store K) (Option InSpaceEntry) := do
  let inSpace ← Exec.unwrap client.inSpaces[nid]?
  let entry ← readEntry inSpace index
  writeEntry inSpace index tmp
  pure entry

def move (kernel : Kernel K) (client : Client) (srcNid srcIndex dstNid dstIndex : Nat) :
    Exec Failure (Store K) Unit :=
  if (srcNid, srcIndex) ≠ (dstNid, dstIndex) then do
    let tmp ← client.swapEntry srcNid srcIndex none
    let tmp ← client.swapEntry dstNid dstIndex tmp
    let _ ← client.swapEntry srcNid srcIndex tmp
    let dst ← Exec.unwrap client.inSpaces[dstNid]?
    let moved ← readEntry dst dstIndex
    match moved with
    | none => pure ()
    | some entry => do
        setTarget entry.event (some ⟨dst, dstIndex⟩)
        let event ← readEvent entry.event
        match event.irq with
        | none => pure ()
        | some irq => do
            let nfn ← Exec.unwrap irq.notifications[dstIndex]?
            onKernel (kernel.call (.irqSetNotification irq.handler nfn))
  else pure ()

end Client

namespace InactiveRealm

def createClient (inactive : InactiveRealm) (numNodes : Nat) :
    Exec Failure (Store K) Client := do
  Exec.assert (numNodes ≤ inactive.inNotifications.length)
  let inSpaces ← Exec.mapEach (List.range numNodes) fun nid => do
    let notification ← Exec.unwrap inactive.inNotifications[nid]?
    newInSpace ⟨List.replicate (Finite.cardinality RealmIn) none, notification, none⟩
  Exec.forEach inactive.inEntries.zipIdx fun entry =>
    match entry.1 with
    | none => pure ()
    | some event => do
        let inSpace ← Exec.unwrap inSpaces[0]?
        Event.connect event inSpace entry.2
  pure ⟨inactive.outSpace, inSpaces⟩

def destroy (inactive : InactiveRealm) : Exec Failure (Store K) Unit :=
  Exec.forEach inactive.inEntries fun entry =>
    match entry with
    | none => pure ()
    | some event => Event.disconnect event

end InactiveRealm

/-! ## Requests -/

def onStore {α : Type} (call : Exec Failure (Store K) α) : Exec Failure (System K) α :=
  Exec.focus System.store (fun inner system => { system with store := inner }) call

def modifyServer (update : EventServer → EventServer) : Exec Failure (System K) Unit :=
  Exec.modify fun system => { system with server := update system.server }

namespace EventServer

def createRealm (rid : RealmId) (numNodes : Nat) : Exec Failure (System K) Unit := do
  let system ← Exec.get
  Exec.assert (system.server.realms[rid]? = none)
  let inactive ← Exec.unwrap system.server.inactiveRealms[rid]?
  let client ← onStore (inactive.createClient numNodes)
  modifyServer fun server => { server with realms := server.realms.insert rid client }

def destroyRealm (rid : RealmId) : Exec Failure (System K) Unit := do
  let system ← Exec.get
  Exec.assert (system.server.realms[rid]? ≠ none)
  modifyServer fun server => { server with realms := server.realms.erase rid }
  let inactive ← Exec.unwrap system.server.inactiveRealms[rid]?
  onStore inactive.destroy

def hostSubscribe (nid : Nat) (rid : RealmId) (realmNid : Nat) :
    Exec Failure (System K) Unit := do
  let system ← Exec.get
  let realm ← Exec.unwrap system.server.realms[rid]?
  let inSpace ← Exec.unwrap realm.inSpaces[realmNid]?
  let subscription ← Exec.unwrap system.server.hostSubscriptions[nid]?
  let found ← onStore (readInSpace inSpace)
  onStore (setSlot inSpace (some subscription.subscriber))
  Exec.assert (found.subscriptionSlot = none)
  Exec.assert (subscription.slot = none)
  modifyServer fun server => { server with
    hostSubscriptions := server.hostSubscriptions.modify nid
      fun entry => { entry with slot := some inSpace } }

def resourceServerSubscribe (nid hostNid : Nat) : Exec Failure (System K) Unit := do
  let system ← Exec.get
  let inSpace ← Exec.unwrap system.server.host.inSpaces[hostNid]?
  let subscription ← Exec.unwrap system.server.resourceServerSubscriptions[nid]?
  let found ← onStore (readInSpace inSpace)
  onStore (setSlot inSpace (some subscription.subscriber))
  Exec.assert (found.subscriptionSlot = none)
  Exec.assert (subscription.slot = none)
  modifyServer fun server => { server with
    resourceServerSubscriptions := server.resourceServerSubscriptions.modify nid
      fun entry => { entry with slot := some inSpace } }

def resourceServerUnsubscribe (nid hostNid : Nat) : Exec Failure (System K) Unit := do
  let system ← Exec.get
  let inSpace ← Exec.unwrap system.server.host.inSpaces[hostNid]?
  let _ ← onStore (readInSpace inSpace)
  onStore (setSlot inSpace none)
  let _ ← Exec.unwrap system.server.resourceServerSubscriptions[nid]?
  modifyServer fun server => { server with
    resourceServerSubscriptions := server.resourceServerSubscriptions.modify nid
      fun entry => { entry with slot := none } }

end EventServer

inductive ClientId where
  | resourceServer
  | serialServer
  | host
  | realm (rid : RealmId)
  deriving DecidableEq, Repr

/-- The client a badge stands for. -/
def EventServer.client (server : EventServer) : ClientId → Option Client
  | .resourceServer => some server.resourceServer
  | .serialServer => some server.serialServer
  | .host => some server.host
  | .realm rid => server.realms[rid]?

/-- A request of a client. -/
def withClient (clientId : ClientId) (request : Client → Exec Failure (Store K) Unit) :
    Exec Failure (System K) Unit := do
  let system ← Exec.get
  let client ← Exec.unwrap (system.server.client clientId)
  onStore (request client)

/-- `server.irq_events[&irq].borrow().signal()` of an IRQ thread. -/
def signalIrq (irq : Nat) : Exec Failure (System K) Unit := do
  let system ← Exec.get
  let event ← Exec.unwrap system.server.irqEvents[irq]?
  onStore (Event.signal event)

end IceCap.Events
