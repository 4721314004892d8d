import IceCap.Events.Server

/-!
# Setting up the event server

`EventServerConfig::realize`.  The number of active cores comes from the
platform's generated constants and is a parameter.
-/

set_option autoImplicit false

namespace IceCap.Events

open IceCap.Library IceCap.Sel4 FiniteSet

structure EventServerConfig where
  hostNotifications : List ClientNode
  realmNotifications : List (List ClientNode)
  resourceServerSubscriptions : List CPtr
  irqs : Std.TreeMap Nat (CPtr × List CPtr)

def primaryHostNode : Nat := 0

variable {K : Type}

def mkOutSpace (n : Nat) : Exec Failure (Store K) (List EventId) :=
  Exec.mapEach (List.range n) fun _ => newEvent none

/-- Connect an event to an entry of the host's primary node. -/
def connectToHost (host : Client) (event : EventId) (input : HostIn) :
    Exec Failure (Store K) Unit := do
  let inSpace ← Exec.unwrap host.inSpaces[primaryHostNode]?
  Event.connect event inSpace (Finite.toNat input)

abbrev InactiveRealms := Std.TreeMap RealmId InactiveRealm

/-- `inactive_realms.get_mut(&realm_id).unwrap().in_entries[index] = Some(event)`. -/
def assignInEntry (inactiveRealms : InactiveRealms) (realmId : RealmId) (input : RealmIn)
    (event : EventId) : Exec Failure (Store K) InactiveRealms := do
  let realm ← Exec.unwrap inactiveRealms[realmId]?
  Exec.assert (Finite.toNat input < realm.inEntries.length)
  pure (inactiveRealms.insert realmId
    { realm with inEntries := realm.inEntries.set (Finite.toNat input) (some event) })

def connectResourceServerOut (host : Client) (outIndex : Nat) (event : EventId) :
    Exec Failure (Store K) Unit := do
  let out ← Exec.unwrap (Finite.fromNat outIndex)
  match out with
  | ResourceServerOut.hostRingBuffer => connectToHost host event (.ringBuffer .resourceServer)

def connectSerialServerOut (host : Client) (inactiveRealms : InactiveRealms) (outIndex : Nat)
    (event : EventId) : Exec Failure (Store K) InactiveRealms := do
  let out ← Exec.unwrap (Finite.fromNat outIndex)
  match out with
  | SerialServerOut.ringBuffer .host => do
      connectToHost host event (.ringBuffer .serialServer)
      pure inactiveRealms
  | SerialServerOut.ringBuffer (.realm realmId) =>
      assignInEntry inactiveRealms realmId.id (.ringBuffer .serialServer) event

def connectHostOut (inactiveRealms : InactiveRealms) (outIndex : Nat) (event : EventId) :
    Exec Failure (Store K) InactiveRealms := do
  let out ← Exec.unwrap (Finite.fromNat outIndex)
  match out with
  | HostOut.ringBuffer (.realm realmId ringBufferId) =>
      assignInEntry inactiveRealms realmId.id (.ringBuffer (.host ringBufferId)) event

def connectRealmOut (host : Client) (realmId : RealmId) (outIndex : Nat) (event : EventId) :
    Exec Failure (Store K) Unit := do
  let out ← Exec.unwrap (Finite.fromNat outIndex)
  match out with
  | RealmOut.ringBuffer (.host ringBufferId) => do
      let realmName ← Exec.unwrap (Finite.fromNat realmId)
      connectToHost host event (.ringBuffer (.realm realmName ringBufferId))

def newHostSubscription (host : Client) (nodeIndex : Nat) :
    Exec Failure (Store K) SubscriptionEntry := do
  let event ← newEvent none
  let inSpace ← Exec.unwrap host.inSpaces[nodeIndex]?
  Event.connect event inSpace (Finite.toNat HostIn.realmEvent)
  pure ⟨.event event, none⟩

def newIrqEvent (kernel : Kernel K) (host : Client) (irq : Nat) (handler : CPtr)
    (notifications : List CPtr) : Exec Failure (Store K) (Nat × EventId) := do
  onKernel (kernel.callUnwrap (.irqAck handler))
  let event ← newEvent (some ⟨handler, notifications⟩)
  connectToHost host event (.spi ⟨irq⟩)
  pure (irq, event)

namespace EventServerConfig

def newHost (config : EventServerConfig) (numActiveCores : Nat) :
    Exec Failure (Store K) Client := do
  let outSpace ← mkOutSpace (Finite.cardinality HostOut)
  let inSpaces ← Exec.mapEach (List.range numActiveCores) fun nodeIndex => do
    let notification ← Exec.unwrap config.hostNotifications[nodeIndex]?
    newInSpace ⟨List.replicate (Finite.cardinality HostIn) none, notification, none⟩
  pure ⟨outSpace, inSpaces⟩

def newInactiveRealm (config : EventServerConfig) (realmId : RealmId) :
    Exec Failure (Store K) (RealmId × InactiveRealm) := do
  let outSpace ← mkOutSpace (Finite.cardinality RealmOut)
  let inNotifications ← Exec.unwrap config.realmNotifications[realmId]?
  pure (realmId, ⟨outSpace, inNotifications, List.replicate (Finite.cardinality RealmIn) none⟩)

def realize (kernel : Kernel K) (numActiveCores : Nat) (config : EventServerConfig) :
    Exec Failure (Store K) EventServer := do
  let resourceServer : Client := ⟨← mkOutSpace (Finite.cardinality ResourceServerOut), []⟩
  let serialServer : Client := ⟨← mkOutSpace (Finite.cardinality SerialServerOut), []⟩
  let host ← config.newHost numActiveCores
  let realms ← Exec.mapEach (List.range numRealms) config.newInactiveRealm
  Exec.forEach resourceServer.outSpace.zipIdx fun out => connectResourceServerOut host out.2 out.1
  let inactiveRealms ← Exec.foldEach serialServer.outSpace.zipIdx (Std.TreeMap.ofList realms)
    fun inactiveRealms out => connectSerialServerOut host inactiveRealms out.2 out.1
  let inactiveRealms ← Exec.foldEach host.outSpace.zipIdx inactiveRealms
    fun inactiveRealms out => connectHostOut inactiveRealms out.2 out.1
  Exec.forEach inactiveRealms.toList fun realm =>
    Exec.forEach realm.2.outSpace.zipIdx fun out => connectRealmOut host realm.1 out.2 out.1
  let hostSubscriptions ← Exec.mapEach (List.range numActiveCores) (newHostSubscription host)
  let irqEvents ← Exec.mapEach config.irqs.toList fun irq =>
    newIrqEvent kernel host irq.1 irq.2.1 irq.2.2
  pure {
    resourceServer, serialServer, host
    realms := ∅
    inactiveRealms
    resourceServerSubscriptions := config.resourceServerSubscriptions.map
      fun notification => ⟨.notification notification, none⟩
    hostSubscriptions
    irqEvents := Std.TreeMap.ofList irqEvents }

end EventServerConfig

def Store.empty (kernelState : K) : Store K := ⟨[], [], ∅, [], kernelState⟩

end IceCap.Events
