import IceCap.Dyndl.Realizer

/-!
# The resource server

`ResourceServer` of `resource-server/core` and the dispatch loop of its `main`.
It realizes the realms the host declares and lends the host's physical nodes to
them: `yield_to` keeps the host's call unanswered until the slice ends.

The timer server and the event server are other parties that answer calls, or
do not; they share the state of the kernel, and the event server's own state
stands next to that of the resource server.  `resumed` has the replies sent to
the host, the last one first.
-/

set_option autoImplicit false

namespace IceCap.Resources

open IceCap.Library IceCap.Sel4 IceCap.Dyndl

abbrev RealmId := Nat

abbrev PhysicalNodeIndex := Nat

abbrev VirtualNodeIndex := Nat

abbrev Nanoseconds := Nat

inductive TimerRequest where
  | oneshotRelative (tid : Nat) (ns : Nanoseconds)
  | stop (tid : Nat)
  deriving DecidableEq, Repr

inductive EventServerRequest where
  | createRealm (realmId : RealmId) (numNodes : Nat)
  | destroyRealm (realmId : RealmId)
  | subscribe (nid hostNid : Nat)
  | unsubscribe (nid hostNid : Nat)
  deriving DecidableEq, Repr

structure YieldBackCondition where
  wfeTimeout : Nanoseconds
  deriving DecidableEq, Repr

inductive ResumeHostCondition where
  | timeout
  | hostEvent
  | realmYieldedBack (condition : YieldBackCondition)
  deriving DecidableEq, Repr

/-- What the server is run against.  The clients it calls belong to a node.  `timer` tells whether
the call was answered with success; `eventServer` is `none` for a call that is never answered. -/
structure Services (K E : Type) where
  platform : Platform K
  resources : SubsystemObjectInitializationResources
  decodeModel : List UInt8 → Option Model
  timer : Nat → TimerRequest → K → Bool × K
  eventServer : Nat → EventServerRequest → E → K → Option (E × K)
  numActiveCores : Nat

structure NodeLocal where
  replySlot : CPtr
  deriving DecidableEq, Repr

structure VirtualNode where
  tcbs : List CPtr
  physicalNode : Option PhysicalNodeIndex
  deriving DecidableEq, Repr

structure Realm where
  virtualNodes : List VirtualNode
  subsystem : Subsystem

def Realm.setPhysicalNode (realm : Realm) (virtualNode : VirtualNodeIndex)
    (physicalNode : Option PhysicalNodeIndex) : Realm := { realm with
  virtualNodes := realm.virtualNodes.modify virtualNode fun node => { node with physicalNode } }

structure ResourceServer (K E : Type) where
  realizer : Realizer K
  realms : Std.TreeMap RealmId Realm
  partialSpecs : Std.TreeMap RealmId (List UInt8)
  partialRealms : Std.TreeMap RealmId PartialSubsystem
  physicalNodes : List (Option (RealmId × VirtualNodeIndex))
  cnode : CPtr
  nodeLocal : List NodeLocal
  resumed : List (PhysicalNodeIndex × ResumeHostCondition)
  eventServer : E

namespace ResourceServer

variable {K E : Type} (services : Services K E)

def new (realizer : Realizer K) (cnode : CPtr) (nodeLocal : List NodeLocal) (eventServer : E) :
    ResourceServer K E where
  realizer := realizer
  realms := ∅
  partialSpecs := ∅
  partialRealms := ∅
  physicalNodes := List.replicate services.numActiveCores none
  cnode := cnode
  nodeLocal := nodeLocal
  resumed := []
  eventServer := eventServer

/-! ## Calls on other parties -/

def onRealizer {α : Type} (call : Exec Failure (Realizer K) α) :
    Exec Failure (ResourceServer K E) α :=
  Exec.focus ResourceServer.realizer (fun inner server => { server with realizer := inner }) call

def onKernel (invocation : Invocation) : Exec Failure (ResourceServer K E) Unit :=
  onRealizer (Realizer.onKernel services.platform invocation)

/-- `self.node_local[node]`. -/
def local_ (node : Nat) : Exec Failure (ResourceServer K E) NodeLocal :=
  Exec.reads fun server => server.nodeLocal[node]?

def withKernel (kernel : K) (server : ResourceServer K E) : ResourceServer K E :=
  { server with realizer :=
    { server.realizer with machine := { server.realizer.machine with kernel := kernel } } }

/-- A call of the timer server under `unwrap()`. -/
def callTimer (node : Nat) (request : TimerRequest) : Exec Failure (ResourceServer K E) Unit := do
  let _ ← local_ node
  Exec.runs fun server =>
    match services.timer node request server.realizer.machine.kernel with
    | (true, kernel) => some ((), withKernel kernel server)
    | (false, _) => none

def callEventServer (node : Nat) (request : EventServerRequest) :
    Exec Failure (ResourceServer K E) Unit := do
  let _ ← local_ node
  Exec.runs fun server =>
    (services.eventServer node request server.eventServer server.realizer.machine.kernel).map
      fun answer => ((), { withKernel answer.2 server with eventServer := answer.1 })

def schedule (tcb : CPtr) (node : Option Nat) : Exec Failure (ResourceServer K E) Unit :=
  onKernel services (.tcbSetAffinity tcb (UInt64.ofNat (node.getD services.numActiveCores)))

def setTimeout (physicalNode : PhysicalNodeIndex) (ns : Nanoseconds) :
    Exec Failure (ResourceServer K E) Unit :=
  callTimer services physicalNode (.oneshotRelative 0 ns)

def cancelTimeout (physicalNode : PhysicalNodeIndex) : Exec Failure (ResourceServer K E) Unit :=
  callTimer services physicalNode (.stop 0)

def setNotifyHostEvent (physicalNode : PhysicalNodeIndex) : Exec Failure (ResourceServer K E) Unit :=
  callEventServer services physicalNode (.subscribe physicalNode physicalNode)

def cancelNotifyHostEvent (physicalNode : PhysicalNodeIndex) :
    Exec Failure (ResourceServer K E) Unit :=
  callEventServer services physicalNode (.unsubscribe physicalNode physicalNode)

/-- The encoding of `RealmYieldedBack` is a `todo!()`, which panics. -/
def resumeHost (physicalNode : PhysicalNodeIndex) (condition : ResumeHostCondition) :
    Exec Failure (ResourceServer K E) Unit := do
  let _ ← local_ physicalNode
  match condition with
  | .realmYieldedBack _ => Exec.panic
  | sent => Exec.modify fun server =>
      { server with resumed := (physicalNode, sent) :: server.resumed }

/-! ## Kernel object resources -/

def declare (realmId : RealmId) (specSize : Nat) : Exec Failure (ResourceServer K E) Unit := do
  let server ← Exec.get
  Exec.assert (realmId ∉ server.partialSpecs)
  Exec.assert (realmId ∉ server.realms)
  Exec.modify fun server =>
    { server with partialSpecs := server.partialSpecs.insert realmId (List.replicate specSize 0) }

def incorporateSpecChunk (realmId : RealmId) (offset : Nat) (chunk : List UInt8) :
    Exec Failure (ResourceServer K E) Unit := do
  let server ← Exec.get
  let spec ← Exec.unwrap server.partialSpecs[realmId]?
  Exec.assert (offset + chunk.length ≤ spec.length)
  let written := spec.take offset ++ chunk ++ spec.drop (offset + chunk.length)
  Exec.modify fun server =>
    { server with partialSpecs := server.partialSpecs.insert realmId written }

def realizeStart (realmId : RealmId) : Exec Failure (ResourceServer K E) Unit := do
  let server ← Exec.get
  let raw ← Exec.unwrap server.partialSpecs[realmId]?
  Exec.modify fun server => { server with partialSpecs := server.partialSpecs.erase realmId }
  let model ← Exec.unwrap (services.decodeModel raw)
  let partialSubsystem ← onRealizer (Realizer.realizeStart services.platform model)
  Exec.modify fun server =>
    { server with partialRealms := server.partialRealms.insert realmId partialSubsystem }

def realizeContinue (realmId : RealmId) (objectIndex fillEntryIndex : Nat) (content : List UInt8) :
    Exec Failure (ResourceServer K E) Unit := do
  let server ← Exec.get
  let partialSubsystem ← Exec.unwrap server.partialRealms[realmId]?
  onRealizer (Realizer.realizeContinue services.platform services.resources partialSubsystem
    objectIndex fillEntryIndex content)

def resumeIf (resume : Bool) (tcb : CPtr) : Exec Failure (ResourceServer K E) Unit :=
  if resume then onKernel services (.tcbResume tcb) else pure ()

def virtualNodeOf (virtualCore : VirtualCore) : Exec Failure (ResourceServer K E) VirtualNode := do
  let tcbs ← Exec.mapEach virtualCore.tcbs fun virtualCoreTcb => do
    schedule services virtualCoreTcb.cap none
    resumeIf services virtualCoreTcb.resume virtualCoreTcb.cap
    pure virtualCoreTcb.cap
  pure ⟨tcbs, none⟩

def realizeFinish (nodeIndex : Nat) (realmId : RealmId) : Exec Failure (ResourceServer K E) Unit := do
  let server ← Exec.get
  let partialSubsystem ← Exec.unwrap server.partialRealms[realmId]?
  Exec.modify fun server => { server with partialRealms := server.partialRealms.erase realmId }
  let subsystem ← onRealizer
    (Realizer.realizeFinish services.platform services.resources partialSubsystem)
  let virtualNodes ← Exec.mapEach subsystem.virtualCores (virtualNodeOf services)
  Exec.modify fun server =>
    { server with realms := server.realms.insert realmId ⟨virtualNodes, subsystem⟩ }
  callEventServer services nodeIndex (.createRealm realmId 1)

/-- The threads of all virtual nodes are descheduled once for each virtual node. -/
def descheduleAll (virtualNodes : List VirtualNode) : Exec Failure (ResourceServer K E) Unit :=
  Exec.forEach virtualNodes fun virtualNode => do
    Exec.assert (virtualNode.physicalNode = none)
    Exec.forEach virtualNodes fun virtualNode =>
      Exec.forEach virtualNode.tcbs fun tcb => schedule services tcb none

/-- The realm of an id that is not realized is ignored. -/
def destroy (nodeIndex : Nat) (realmId : RealmId) : Exec Failure (ResourceServer K E) Unit := do
  let server ← Exec.get
  match server.realms[realmId]? with
  | none => pure ()
  | some realm => do
      Exec.modify fun server => { server with realms := server.realms.erase realmId }
      descheduleAll services realm.virtualNodes
      onRealizer (Realizer.destroy services.platform realm.subsystem)
      callEventServer services nodeIndex (.destroyRealm realmId)

/-! ## CPU resources -/

/-- `self.realms.get_mut(&realm_id).unwrap().virtual_nodes[virtual_node]`. -/
def getVirtualNode (realmId : RealmId) (virtualNode : VirtualNodeIndex) :
    Exec Failure (ResourceServer K E) VirtualNode :=
  Exec.reads fun server => (server.realms[realmId]?).bind fun realm =>
    realm.virtualNodes[virtualNode]?

def setPhysicalNode (realmId : RealmId) (virtualNode : VirtualNodeIndex)
    (physicalNode : Option PhysicalNodeIndex) : Exec Failure (ResourceServer K E) Unit :=
  Exec.modify fun server => { server with
    realms := server.realms.modify realmId fun realm =>
      realm.setPhysicalNode virtualNode physicalNode }

def setSlice (physicalNode : PhysicalNodeIndex) (slice : Option (RealmId × VirtualNodeIndex)) :
    Exec Failure (ResourceServer K E) Unit :=
  Exec.modify fun server =>
    { server with physicalNodes := server.physicalNodes.set physicalNode slice }

def scheduleAll (tcbs : List CPtr) (node : Option Nat) : Exec Failure (ResourceServer K E) Unit :=
  Exec.forEach tcbs fun tcb => schedule services tcb node

def setTimeoutIf (physicalNode : PhysicalNodeIndex) :
    Option Nanoseconds → Exec Failure (ResourceServer K E) Unit
  | none => pure ()
  | some ns => setTimeout services physicalNode ns

def yieldTo (physicalNode : PhysicalNodeIndex) (realmId : RealmId)
    (virtualNode : VirtualNodeIndex) (timeout : Option Nanoseconds) :
    Exec Failure (ResourceServer K E) Unit := do
  let nodeLocal ← local_ physicalNode
  let server ← Exec.get
  onKernel services (.saveCaller server.cnode nodeLocal.replySlot)
  let slice ← Exec.unwrap server.physicalNodes[physicalNode]?
  Exec.assert (slice = none)
  setSlice physicalNode (some (realmId, virtualNode))
  let node ← getVirtualNode realmId virtualNode
  Exec.assert (node.physicalNode = none)
  setPhysicalNode realmId virtualNode (some physicalNode)
  scheduleAll services node.tcbs (some physicalNode)
  setNotifyHostEvent services physicalNode
  setTimeoutIf services physicalNode timeout

def yieldBack (realmId : RealmId) (virtualNode : VirtualNodeIndex)
    (condition : YieldBackCondition) : Exec Failure (ResourceServer K E) Unit := do
  let node ← getVirtualNode realmId virtualNode
  setPhysicalNode realmId virtualNode none
  let physicalNode ← Exec.unwrap node.physicalNode
  scheduleAll services node.tcbs none
  cancelNotifyHostEvent services physicalNode
  cancelTimeout services physicalNode
  resumeHost physicalNode (.realmYieldedBack condition)

/-- The virtual node of a slice that ends is descheduled. -/
def suspend (slice : RealmId × VirtualNodeIndex) : Exec Failure (ResourceServer K E) Unit := do
  let node ← getVirtualNode slice.1 slice.2
  setPhysicalNode slice.1 slice.2 none
  scheduleAll services node.tcbs none

def hostEvent (physicalNode : PhysicalNodeIndex) : Exec Failure (ResourceServer K E) Unit := do
  let server ← Exec.get
  let slice ← Exec.unwrap server.physicalNodes[physicalNode]?
  setSlice physicalNode none
  match slice with
  | none => pure ()
  | some slice => do
      suspend services slice
      cancelNotifyHostEvent services physicalNode
      cancelTimeout services physicalNode
      resumeHost physicalNode .hostEvent

def timeout (physicalNode : PhysicalNodeIndex) : Exec Failure (ResourceServer K E) Unit := do
  let server ← Exec.get
  let slice ← Exec.unwrap server.physicalNodes[physicalNode]?
  setSlice physicalNode none
  match slice with
  | none => pure ()
  | some slice => do
      suspend services slice
      cancelNotifyHostEvent services physicalNode
      resumeHost physicalNode .timeout

def hackRun (realmId : RealmId) : Exec Failure (ResourceServer K E) Unit := do
  let server ← Exec.get
  let realm ← Exec.unwrap server.realms[realmId]?
  Exec.forEach realm.virtualNodes.zipIdx fun node =>
    scheduleAll services node.1.tcbs (some node.2)

end ResourceServer

/-! ## The dispatch loop -/

/-- A chunk of fill content with its header. -/
structure FillChunk where
  objectIndex : Nat
  fillEntryIndex : Nat
  content : List UInt8
  deriving DecidableEq, Repr

/-- A message to the server.  The chunks are what the host has put into the bulk region; the
events of a node go to that node's thread. -/
inductive Request where
  | declare (realmId : RealmId) (specSize : Nat)
  | specChunk (realmId : RealmId) (offset : Nat) (content : List UInt8)
  | fillChunks (realmId : RealmId) (chunks : List FillChunk)
  | realizeStart (realmId : RealmId)
  | realizeFinish (realmId : RealmId)
  | destroy (realmId : RealmId)
  | hackRun (realmId : RealmId)
  | yieldTo (physicalNode : PhysicalNodeIndex) (realmId : RealmId) (virtualNode : VirtualNodeIndex)
      (timeout : Option Nanoseconds)
  | hostEvent
  | timeout
  deriving DecidableEq, Repr

namespace ResourceServer

variable {K E : Type} (services : Services K E)

/-- One round of `run` on the thread of a node. -/
def dispatch (nodeIndex : Nat) : Request → Exec Failure (ResourceServer K E) Unit
  | .declare realmId specSize => declare realmId specSize
  | .specChunk realmId offset content => incorporateSpecChunk realmId offset content
  | .fillChunks realmId chunks => Exec.forEach chunks fun chunk =>
      realizeContinue services realmId chunk.objectIndex chunk.fillEntryIndex chunk.content
  | .realizeStart realmId => realizeStart services realmId
  | .realizeFinish realmId => realizeFinish services nodeIndex realmId
  | .destroy realmId => destroy services nodeIndex realmId
  | .hackRun realmId => hackRun services realmId
  | .yieldTo physicalNode realmId virtualNode timeout =>
      yieldTo services physicalNode realmId virtualNode timeout
  | .hostEvent => hostEvent services nodeIndex
  | .timeout => timeout services nodeIndex

/-! ## What the other parties cannot change -/

variable {β : Type} {services : Services K E} {part : ResourceServer K E → β}

theorem onKernel_ends {invocation : Invocation} {server final : ResourceServer K E}
    (run : Exec.Ends (onKernel services invocation) server final) :
    ∃ kernel, final = withKernel kernel server := by
  simp only [onKernel, onRealizer, Realizer.onKernel, Realizer.onMachine, Allocator.onKernel,
    Exec.ends_focus] at run
  obtain ⟨_, ⟨_, ⟨kernel, _, rfl⟩, rfl⟩, rfl⟩ := run
  exact ⟨kernel, rfl⟩

theorem callTimer_eq_ok {node : Nat} {request : TimerRequest} {server final : ResourceServer K E}
    (run : callTimer services node request server = .ok () final) :
    ∃ kernel, final = withKernel kernel server := by
  simp only [callTimer, local_, Exec.bind_eq_ok, Exec.reads_eq_ok, Exec.runs_eq_ok] at run
  obtain ⟨_, _, ⟨_, rfl⟩, run⟩ := run
  split at run
  · next kernel _ => exact ⟨kernel, (Prod.mk.inj (Option.some.inj run)).2.symm⟩
  · simp at run

/-- The other servers answer, or the call panics or does not return. -/
theorem callTimer_infallible {node : Nat} {request : TimerRequest} :
    Exec.Infallible (callTimer services node request) := .bind (.reads _) fun _ => .runs _

theorem callEventServer_infallible {node : Nat} {request : EventServerRequest} :
    Exec.Infallible (callEventServer services node request) := .bind (.reads _) fun _ => .runs _

theorem callEventServer_eq_ok {node : Nat} {request : EventServerRequest}
    {server final : ResourceServer K E}
    (run : callEventServer services node request server = .ok () final) :
    ∃ eventServer kernel,
      services.eventServer node request server.eventServer server.realizer.machine.kernel =
        some (eventServer, kernel) ∧
      final = { withKernel kernel server with eventServer := eventServer } := by
  simp only [callEventServer, local_, Exec.bind_eq_ok, Exec.reads_eq_ok, Exec.runs_eq_ok] at run
  obtain ⟨_, _, ⟨_, rfl⟩, run⟩ := run
  obtain ⟨⟨eventServer, kernel⟩, answered, isFinal⟩ := Option.map_eq_some_iff.mp run
  exact ⟨eventServer, kernel, answered, (Prod.mk.inj isFinal).2.symm⟩

/-- A part of the server that the calls on other parties leave alone even when the kernel refuses
them, those apart that create and destroy realms in the event server. -/
structure Unshared (services : Services K E) (part : ResourceServer K E → β) : Prop where
  kernel : ∀ invocation, Exec.Spares part (onKernel services invocation)
  timer : ∀ node request, Exec.Spares part (callTimer services node request)
  subscribe : ∀ physicalNode, Exec.Spares part (setNotifyHostEvent services physicalNode)
  unsubscribe : ∀ physicalNode, Exec.Spares part (cancelNotifyHostEvent services physicalNode)

/-- A part that is neither the kernel nor the event server. -/
def Local (part : ResourceServer K E → β) : Prop :=
  ∀ kernel eventServer server,
    part { withKernel kernel server with eventServer := eventServer } = part server

theorem Local.callEventServer (isLocal : Local part) {node : Nat} {request : EventServerRequest} :
    Exec.Spares part (callEventServer services node request) := by
  refine Exec.Keeps.spares (fun server value final run => ?_) callEventServer_infallible
  obtain ⟨eventServer, kernel, _, rfl⟩ := callEventServer_eq_ok run
  exact isLocal kernel eventServer server

theorem Local.unshared (isLocal : Local part) : Unshared services part where
  kernel _ := by
    intro server final run
    obtain ⟨kernel, rfl⟩ := onKernel_ends run
    exact isLocal kernel server.eventServer server
  timer _ _ := by
    refine Exec.Keeps.spares (fun server value final run => ?_) callTimer_infallible
    obtain ⟨kernel, rfl⟩ := callTimer_eq_ok run
    exact isLocal kernel server.eventServer server
  subscribe _ := isLocal.callEventServer
  unsubscribe _ := isLocal.callEventServer

namespace Unshared

variable (unshared : Unshared services part)
include unshared

theorem scheduleAll {tcbs : List CPtr} {node : Option Nat} :
    Exec.Spares part (scheduleAll services tcbs node) := .forEach fun _ => unshared.kernel _

theorem setTimeoutIf {physicalNode : PhysicalNodeIndex} {ns : Option Nanoseconds} :
    Exec.Spares part (setTimeoutIf services physicalNode ns) := by
  cases ns with
  | none => exact .pure _
  | some ns => exact unshared.timer _ _

theorem resumeIf {resume : Bool} {tcb : CPtr} : Exec.Spares part (resumeIf services resume tcb) :=
  .ite (unshared.kernel _) (.pure _)

theorem virtualNodeOf {virtualCore : VirtualCore} :
    Exec.Spares part (virtualNodeOf services virtualCore) :=
  .bind (.mapEach fun _ => .bind (unshared.kernel _) fun _ => .bind unshared.resumeIf fun _ =>
    .pure _) fun _ => .pure _

theorem hackRun {realmId : RealmId} : Exec.Spares part (hackRun services realmId) :=
  .bind .get fun _ => .bind (.unwrap _) fun _ => .forEach fun _ => unshared.scheduleAll

end Unshared

/-- A part that lending physical nodes leaves alone, too. -/
structure Unscheduled (services : Services K E) (part : ResourceServer K E → β) : Prop
    extends Unshared services part where
  setPhysicalNode : ∀ realmId virtualNode physicalNode,
    Exec.Spares part (setPhysicalNode realmId virtualNode physicalNode)
  setSlice : ∀ physicalNode slice, Exec.Spares part (setSlice physicalNode slice)
  resumed : ∀ server resumed, part { server with resumed := resumed } = part server

namespace Unscheduled

variable (unscheduled : Unscheduled services part)
include unscheduled

theorem resumeHost {physicalNode : PhysicalNodeIndex} {condition : ResumeHostCondition} :
    Exec.Spares part (resumeHost physicalNode condition) := by
  refine .bind (.reads _) fun _ => ?_
  cases condition with
  | timeout => exact .modify fun _ => unscheduled.resumed _ _
  | hostEvent => exact .modify fun _ => unscheduled.resumed _ _
  | realmYieldedBack condition => exact .panic

theorem suspend {slice : RealmId × VirtualNodeIndex} : Exec.Spares part (suspend services slice) :=
  .bind (.reads _) fun _ => .bind (unscheduled.setPhysicalNode _ _ _) fun _ =>
    unscheduled.scheduleAll

theorem yieldTo {physicalNode : PhysicalNodeIndex} {realmId : RealmId}
    {virtualNode : VirtualNodeIndex} {ns : Option Nanoseconds} :
    Exec.Spares part (yieldTo services physicalNode realmId virtualNode ns) :=
  .bind (.reads _) fun _ => .bind .get fun _ => .bind (unscheduled.kernel _) fun _ =>
    .bind (.unwrap _) fun _ => .bind (.assert _) fun _ => .bind (unscheduled.setSlice _ _) fun _ =>
    .bind (.reads _) fun _ => .bind (.assert _) fun _ =>
    .bind (unscheduled.setPhysicalNode _ _ _) fun _ => .bind unscheduled.scheduleAll fun _ =>
    .bind (unscheduled.subscribe _) fun _ => unscheduled.setTimeoutIf

theorem hostEvent {physicalNode : PhysicalNodeIndex} :
    Exec.Spares part (hostEvent services physicalNode) := by
  refine .bind .get fun _ => .bind (.unwrap _) fun slice =>
    .bind (unscheduled.setSlice _ _) fun _ => ?_
  cases slice with
  | none => exact .pure _
  | some slice =>
      exact .bind unscheduled.suspend fun _ => .bind (unscheduled.unsubscribe _) fun _ =>
        .bind (unscheduled.timer _ _) fun _ => unscheduled.resumeHost

theorem timeout {physicalNode : PhysicalNodeIndex} :
    Exec.Spares part (timeout services physicalNode) := by
  refine .bind .get fun _ => .bind (.unwrap _) fun slice =>
    .bind (unscheduled.setSlice _ _) fun _ => ?_
  cases slice with
  | none => exact .pure _
  | some slice =>
      exact .bind unscheduled.suspend fun _ => .bind (unscheduled.unsubscribe _) fun _ =>
        unscheduled.resumeHost

end Unscheduled

end ResourceServer

end IceCap.Resources
