import IceCap.Library.Recorded
import IceCap.Dyndl.RealizerSlots
import IceCap.Resources.Server

/-!
# Lending physical nodes

What each message to the resource server does to the slices, to the virtual
nodes of the realms and to the replies to the host.  From this follow the two
results: every `yield_to` that is accepted is answered exactly once, when its
slice ends; and the slices and the virtual nodes agree, unless a realm that is
running is replaced by another one of the same id.
-/

set_option autoImplicit false

namespace IceCap.Resources

open IceCap.Library IceCap.Sel4 IceCap.Dyndl

variable {K E : Type} {services : Services K E}

/-- What scheduling is about. -/
structure Placement where
  physicalNodes : List (Option (RealmId × VirtualNodeIndex))
  realms : Std.TreeMap RealmId Realm
  resumed : List (PhysicalNodeIndex × ResumeHostCondition)

namespace ResourceServer

def placement (server : ResourceServer K E) : Placement :=
  ⟨server.physicalNodes, server.realms, server.resumed⟩

variable {server final : ResourceServer K E}

/-! ## Calls that leave the placement alone -/

theorem onRealizer_keeps {α : Type} {call : Exec Failure (Realizer K) α} :
    Exec.Keeps (placement : ResourceServer K E → Placement) (onRealizer call) := .focus fun _ _ => rfl

theorem placement_local : Local (placement : ResourceServer K E → Placement) := fun _ _ _ => rfl

theorem placement_unshared : Unshared services placement := placement_local.unshared

theorem declare_keeps {realmId : RealmId} {specSize : Nat} :
    Exec.Keeps placement (declare realmId specSize : Exec Failure (ResourceServer K E) Unit) :=
  .bind .get fun _ => .bind (.assert _) fun _ => .bind (.assert _) fun _ => .modify fun _ => rfl

theorem incorporateSpecChunk_keeps {realmId : RealmId} {offset : Nat} {chunk : List UInt8} :
    Exec.Keeps placement
      (incorporateSpecChunk realmId offset chunk : Exec Failure (ResourceServer K E) Unit) :=
  .bind .get fun _ => .bind (.unwrap _) fun _ => .bind (.assert _) fun _ => .modify fun _ => rfl

theorem realizeStart_keeps {realmId : RealmId} :
    Exec.Keeps placement (realizeStart services realmId) :=
  .bind .get fun _ => .bind (.unwrap _) fun _ => .bind (.modify fun _ => rfl) fun _ =>
    .bind (.unwrap _) fun _ => .bind onRealizer_keeps fun _ => .modify fun _ => rfl

theorem realizeContinue_keeps {realmId : RealmId} {objectIndex fillEntryIndex : Nat}
    {content : List UInt8} :
    Exec.Keeps placement
      (realizeContinue services realmId objectIndex fillEntryIndex content) :=
  .bind .get fun _ => .bind (.unwrap _) fun _ => onRealizer_keeps

/-! ## Calls that change it -/

theorem virtualNodes_idle {virtualCores : List VirtualCore} {virtualNodes : List VirtualNode}
    (run : Exec.mapEach virtualCores (virtualNodeOf services) server = .ok virtualNodes final) :
    ∀ node ∈ virtualNodes, node.physicalNode = none := by
  induction virtualCores generalizing server virtualNodes with
  | nil =>
      simp only [Exec.mapEach_nil, Exec.pure_eq_ok] at run
      obtain ⟨rfl, -⟩ := run
      simp
  | cons virtualCore virtualCores ih =>
      simp only [Exec.mapEach_cons, Exec.bind_eq_ok, Exec.pure_eq_ok] at run
      obtain ⟨node, middle, nodeRun, rest, last, restRun, rfl, rfl⟩ := run
      simp only [virtualNodeOf, Exec.bind_eq_ok, Exec.pure_eq_ok] at nodeRun
      obtain ⟨_, _, _, rfl, _⟩ := nodeRun
      intro other member
      rcases List.mem_cons.mp member with rfl | member
      · rfl
      · exact ih restRun other member

theorem realizeFinish_placement {nodeIndex : Nat} {realmId : RealmId}
    (run : realizeFinish services nodeIndex realmId server = .ok () final) :
    ∃ realm : Realm, (∀ node ∈ realm.virtualNodes, node.physicalNode = none) ∧
      final.placement =
        { server.placement with realms := server.realms.insert realmId realm } := by
  simp only [realizeFinish, Exec.bind_eq_ok, Exec.get_eq_ok, Exec.unwrap_eq_ok,
    Exec.modify_eq_ok] at run
  obtain ⟨_, _, ⟨rfl, rfl⟩, partialSubsystem, _, ⟨_, rfl⟩, ⟨⟩, _, rfl, subsystem, second, finishRun,
    virtualNodes, third, nodesRun, ⟨⟩, _, rfl, eventRun⟩ := run
  have first := onRealizer_keeps _ _ _ finishRun
  have nodes := (Exec.Spares.mapEach fun _ => placement_unshared.virtualNodeOf).keeps _ _ _ nodesRun
  refine ⟨⟨virtualNodes, subsystem⟩, virtualNodes_idle nodesRun, ?_⟩
  rw [placement_local.callEventServer.keeps _ _ _ eventRun]
  have same := nodes.trans first
  simp only [placement, Placement.mk.injEq] at same ⊢
  simp [same]

/-- The outer loop checks every virtual node. -/
theorem descheduleEach_idle {all virtualNodes : List VirtualNode}
    (run : (Exec.forEach virtualNodes fun virtualNode => do
      Exec.assert (virtualNode.physicalNode = none)
      Exec.forEach all fun virtualNode =>
        Exec.forEach virtualNode.tcbs fun tcb => schedule services tcb none) server =
      .ok () final) :
    final.placement = server.placement ∧ ∀ node ∈ virtualNodes, node.physicalNode = none := by
  induction virtualNodes generalizing server with
  | nil =>
      simp only [Exec.forEach_nil, Exec.pure_eq_ok] at run
      obtain ⟨-, rfl⟩ := run
      simp
  | cons virtualNode virtualNodes ih =>
      simp only [Exec.forEach_cons, Exec.bind_eq_ok, Exec.assert_eq_ok] at run
      obtain ⟨⟨⟩, middle, ⟨_, _, ⟨isIdle, rfl⟩, first⟩, rest⟩ := run
      obtain ⟨same, idle⟩ := ih rest
      have kept : middle.placement = server.placement :=
        (Exec.Spares.forEach fun _ => .forEach fun _ => placement_unshared.kernel _).keeps _ _ _ first
      exact ⟨same.trans kept, List.forall_mem_cons.mpr ⟨isIdle, idle⟩⟩

theorem destroy_placement {nodeIndex : Nat} {realmId : RealmId}
    (run : destroy services nodeIndex realmId server = .ok () final) :
    (server.realms[realmId]? = none ∧ final = server) ∨
      ∃ realm, server.realms[realmId]? = some realm ∧
        (∀ node ∈ realm.virtualNodes, node.physicalNode = none) ∧
        final.placement = { server.placement with realms := server.realms.erase realmId } := by
  simp only [destroy, Exec.bind_eq_ok, Exec.get_eq_ok] at run
  obtain ⟨_, _, ⟨rfl, rfl⟩, run⟩ := run
  cases found : server.realms[realmId]? with
  | none =>
      simp only [found, Exec.pure_eq_ok] at run
      exact .inl ⟨rfl, run.2.symm⟩
  | some realm =>
      simp only [found, Exec.bind_eq_ok, Exec.modify_eq_ok] at run
      obtain ⟨⟨⟩, _, rfl, ⟨⟩, first, descheduled, ⟨⟩, second, destroyed, eventRun⟩ := run
      obtain ⟨same, idle⟩ := descheduleEach_idle descheduled
      refine .inr ⟨realm, rfl, idle, ?_⟩
      rw [placement_local.callEventServer.keeps _ _ _ eventRun, onRealizer_keeps _ _ _ destroyed,
        same]
      rfl

theorem yieldTo_placement {physicalNode : PhysicalNodeIndex} {realmId : RealmId}
    {virtualNode : VirtualNodeIndex} {ns : Option Nanoseconds}
    (run : yieldTo services physicalNode realmId virtualNode ns server = .ok () final) :
    ∃ realm node, server.physicalNodes[physicalNode]? = some none ∧
      server.realms[realmId]? = some realm ∧ realm.virtualNodes[virtualNode]? = some node ∧
      node.physicalNode = none ∧
      final.placement = ⟨server.physicalNodes.set physicalNode (some (realmId, virtualNode)),
        server.realms.modify realmId fun realm =>
          realm.setPhysicalNode virtualNode (some physicalNode), server.resumed⟩ := by
  simp only [yieldTo, Exec.bind_eq_ok, Exec.get_eq_ok, Exec.unwrap_eq_ok, Exec.assert_eq_ok,
    local_, getVirtualNode, Exec.reads_eq_ok, setSlice, setPhysicalNode, Exec.modify_eq_ok] at run
  obtain ⟨_, _, ⟨_, rfl⟩, _, _, ⟨rfl, rfl⟩, ⟨⟩, saved, saveRun, slice, _, ⟨isSlice, rfl⟩, ⟨⟩, _,
    ⟨rfl, rfl⟩, ⟨⟩, _, rfl, node, _, ⟨isNode, rfl⟩, ⟨⟩, _, ⟨isIdle, rfl⟩, ⟨⟩, _, rfl, ⟨⟩, first,
    scheduled, ⟨⟩, second, notified, timed⟩ := run
  obtain ⟨realm, isRealm, isNode⟩ := Option.bind_eq_some_iff.mp isNode
  have same := (placement_unshared.kernel _).keeps _ _ _ saveRun
  simp only [placement, Placement.mk.injEq] at same
  obtain ⟨sameNodes, sameRealms, sameResumed⟩ := same
  refine ⟨realm, node, isSlice, sameRealms ▸ isRealm, isNode, isIdle, ?_⟩
  rw [placement_unshared.setTimeoutIf.keeps _ _ _ timed,
    (placement_unshared.subscribe _).keeps _ _ _ notified,
    placement_unshared.scheduleAll.keeps _ _ _ scheduled]
  simp [placement, sameNodes, sameRealms, sameResumed]

theorem suspend_placement {slice : RealmId × VirtualNodeIndex}
    (run : suspend services slice server = .ok () final) :
    final.placement = { server.placement with
      realms := server.realms.modify slice.1 fun realm => realm.setPhysicalNode slice.2 none } := by
  simp only [suspend, Exec.bind_eq_ok, getVirtualNode, Exec.reads_eq_ok, setPhysicalNode,
    Exec.modify_eq_ok] at run
  obtain ⟨node, _, ⟨_, rfl⟩, ⟨⟩, _, rfl, scheduled⟩ := run
  rw [placement_unshared.scheduleAll.keeps _ _ _ scheduled]
  rfl

theorem resumeHost_placement {physicalNode : PhysicalNodeIndex} {condition : ResumeHostCondition}
    (run : resumeHost physicalNode condition server = .ok () final) :
    final.placement =
      { server.placement with resumed := (physicalNode, condition) :: server.resumed } := by
  simp only [resumeHost, Exec.bind_eq_ok, local_, Exec.reads_eq_ok] at run
  obtain ⟨_, _, ⟨_, rfl⟩, run⟩ := run
  split at run
  · simp at run
  · simp only [Exec.modify_eq_ok] at run
    rw [← run]
    rfl

theorem set_same {α : Type} {entries : List α} {index : Nat} {entry : α}
    (isEntry : entries[index]? = some entry) : entries.set index entry = entries := by
  obtain ⟨inRange, rfl⟩ := List.getElem?_eq_some_iff.mp isEntry
  exact List.set_getElem_self inRange

/-- What the end of a slice does, for whichever reason it ends. -/
def ended (placement : Placement) (physicalNode : PhysicalNodeIndex)
    (slice : RealmId × VirtualNodeIndex) (condition : ResumeHostCondition) : Placement :=
  ⟨placement.physicalNodes.set physicalNode none,
    placement.realms.modify slice.1 fun realm => realm.setPhysicalNode slice.2 none,
    (physicalNode, condition) :: placement.resumed⟩

theorem hostEvent_placement {physicalNode : PhysicalNodeIndex}
    (run : hostEvent services physicalNode server = .ok () final) :
    (server.physicalNodes[physicalNode]? = some none ∧ final.placement = server.placement) ∨
      ∃ slice, server.physicalNodes[physicalNode]? = some (some slice) ∧
        final.placement = ended server.placement physicalNode slice .hostEvent := by
  simp only [hostEvent, Exec.bind_eq_ok, Exec.get_eq_ok, Exec.unwrap_eq_ok, setSlice,
    Exec.modify_eq_ok] at run
  obtain ⟨_, _, ⟨rfl, rfl⟩, slice, _, ⟨isSlice, rfl⟩, ⟨⟩, _, rfl, run⟩ := run
  cases slice with
  | none =>
      obtain ⟨-, rfl⟩ := Exec.pure_eq_ok.mp run
      refine .inl ⟨isSlice, ?_⟩
      simp [placement, set_same isSlice]
  | some slice =>
      simp only [Exec.bind_eq_ok] at run
      obtain ⟨⟨⟩, first, suspended, ⟨⟩, second, notified, ⟨⟩, third, timed, resumed⟩ := run
      have before := ((placement_unshared.timer _ _).keeps _ _ _ timed).trans
        (((placement_unshared.unsubscribe _).keeps _ _ _ notified).trans
          (suspend_placement suspended))
      refine .inr ⟨slice, isSlice, ?_⟩
      rw [resumeHost_placement resumed]
      simp only [placement, Placement.mk.injEq] at before
      simp [placement, ended, before]

theorem timeout_placement {physicalNode : PhysicalNodeIndex}
    (run : timeout services physicalNode server = .ok () final) :
    (server.physicalNodes[physicalNode]? = some none ∧ final.placement = server.placement) ∨
      ∃ slice, server.physicalNodes[physicalNode]? = some (some slice) ∧
        final.placement = ended server.placement physicalNode slice .timeout := by
  simp only [timeout, Exec.bind_eq_ok, Exec.get_eq_ok, Exec.unwrap_eq_ok, setSlice,
    Exec.modify_eq_ok] at run
  obtain ⟨_, _, ⟨rfl, rfl⟩, slice, _, ⟨isSlice, rfl⟩, ⟨⟩, _, rfl, run⟩ := run
  cases slice with
  | none =>
      obtain ⟨-, rfl⟩ := Exec.pure_eq_ok.mp run
      refine .inl ⟨isSlice, ?_⟩
      simp [placement, set_same isSlice]
  | some slice =>
      simp only [Exec.bind_eq_ok] at run
      obtain ⟨⟨⟩, first, suspended, ⟨⟩, second, notified, resumed⟩ := run
      have before := ((placement_unshared.unsubscribe _).keeps _ _ _ notified).trans
        (suspend_placement suspended)
      refine .inr ⟨slice, isSlice, ?_⟩
      rw [resumeHost_placement resumed]
      simp only [placement, Placement.mk.injEq] at before
      simp [placement, ended, before]

/-- The reply of `yield_back` has no encoding, so it never returns. -/
theorem yieldBack_ne_ok {realmId : RealmId} {virtualNode : VirtualNodeIndex}
    {condition : YieldBackCondition} :
    yieldBack services realmId virtualNode condition server ≠ .ok () final := by
  intro run
  simp only [yieldBack, Exec.bind_eq_ok, resumeHost, Exec.panic_ne_ok] at run
  obtain ⟨_, _, _, _, _, _, _, _, _, _, _, _, _, _, _, _, _, _, _, _, _, never⟩ := run
  exact never

end ResourceServer

/-! ## Steps -/

inductive Event where
  | request (nodeIndex : Nat) (request : Request)
  | yieldBack (realmId : RealmId) (virtualNode : VirtualNodeIndex) (condition : YieldBackCondition)
  deriving DecidableEq, Repr

def Event.yieldsTo (physicalNode : PhysicalNodeIndex) : Event → Bool
  | .request _ (.yieldTo other _ _ _) => other == physicalNode
  | _ => false

/-- A call that returns `Ok`. -/
inductive Step (services : Services K E) : Event → ResourceServer K E → ResourceServer K E → Prop where
  | dispatch {nodeIndex : Nat} {request : Request} {before after : ResourceServer K E}
      (run : ResourceServer.dispatch services nodeIndex request before = .ok () after) :
      Step services (.request nodeIndex request) before after
  | yieldBack {realmId : RealmId} {virtualNode : VirtualNodeIndex} {condition : YieldBackCondition}
      {before after : ResourceServer K E}
      (run : ResourceServer.yieldBack services realmId virtualNode condition before =
        .ok () after) :
      Step services (.yieldBack realmId virtualNode condition) before after

/-- The step of an event, where there is one. -/
def Event.serve (services : Services K E) : Event → ResourceServer K E → Option (ResourceServer K E)
  | .request nodeIndex message, server =>
      (ResourceServer.dispatch services nodeIndex message server).returned
  | .yieldBack realmId virtualNode condition, server =>
      (ResourceServer.yieldBack services realmId virtualNode condition server).returned

theorem Event.serve_step (event : Event) (before after : ResourceServer K E)
    (serves : event.serve services before = some after) : Step services event before after := by
  cases event with
  | request nodeIndex request =>
      obtain ⟨⟨⟩, run⟩ := Outcome.returned_eq_some.mp serves
      exact .dispatch run
  | yieldBack realmId virtualNode condition =>
      obtain ⟨⟨⟩, run⟩ := Outcome.returned_eq_some.mp serves
      exact .yieldBack run

namespace Placement

/-- The physical node of a virtual node. -/
def assigned (placement : Placement) (realmId : RealmId) (virtualNode : VirtualNodeIndex) :
    Option PhysicalNodeIndex :=
  (placement.realms[realmId]?).bind fun realm =>
    (realm.virtualNodes[virtualNode]?).bind VirtualNode.physicalNode

/-- What a step can do to the placement. -/
inductive Change : Event → Placement → Placement → Prop where
  | same {event : Event} {placement : Placement}
      (quiet : ∀ physicalNode, event.yieldsTo physicalNode = false)
      (unrelated : ∀ nodeIndex realmId, event ≠ .request nodeIndex (.realizeFinish realmId)) :
      Change event placement placement
  | realized {nodeIndex : Nat} {realmId : RealmId} {placement : Placement} {realm : Realm}
      (idle : ∀ node ∈ realm.virtualNodes, node.physicalNode = none) :
      Change (.request nodeIndex (.realizeFinish realmId)) placement
        { placement with realms := placement.realms.insert realmId realm }
  | destroyed {nodeIndex : Nat} {realmId : RealmId} {placement : Placement} {realm : Realm}
      (isRealm : placement.realms[realmId]? = some realm)
      (idle : ∀ node ∈ realm.virtualNodes, node.physicalNode = none) :
      Change (.request nodeIndex (.destroy realmId)) placement
        { placement with realms := placement.realms.erase realmId }
  | yielded {nodeIndex : Nat} {physicalNode : PhysicalNodeIndex} {realmId : RealmId}
      {virtualNode : VirtualNodeIndex} {ns : Option Nanoseconds} {placement : Placement}
      {realm : Realm} {node : VirtualNode}
      (isFree : placement.physicalNodes[physicalNode]? = some none)
      (isRealm : placement.realms[realmId]? = some realm)
      (isNode : realm.virtualNodes[virtualNode]? = some node) (isIdle : node.physicalNode = none) :
      Change (.request nodeIndex (.yieldTo physicalNode realmId virtualNode ns)) placement
        { placement with
          physicalNodes := placement.physicalNodes.set physicalNode (some (realmId, virtualNode))
          realms := placement.realms.modify realmId fun realm =>
            realm.setPhysicalNode virtualNode (some physicalNode) }
  | ended {event : Event} {physicalNode : PhysicalNodeIndex} {condition : ResumeHostCondition}
      {slice : RealmId × VirtualNodeIndex} {placement : Placement}
      (quiet : ∀ physicalNode, event.yieldsTo physicalNode = false)
      (unrelated : ∀ nodeIndex realmId, event ≠ .request nodeIndex (.realizeFinish realmId))
      (isSlice : placement.physicalNodes[physicalNode]? = some (some slice)) :
      Change event placement (ResourceServer.ended placement physicalNode slice condition)

end Placement

theorem Step.change {event : Event} {before after : ResourceServer K E}
    (step : Step services event before after) :
    Placement.Change event before.placement after.placement := by
  cases step with
  | yieldBack run => exact absurd run ResourceServer.yieldBack_ne_ok
  | @dispatch nodeIndex request _ _ run =>
      cases request with
      | declare realmId specSize =>
          rw [ResourceServer.declare_keeps _ _ _ run]
          exact .same (fun _ => rfl) (by simp)
      | specChunk realmId offset content =>
          rw [ResourceServer.incorporateSpecChunk_keeps _ _ _ run]
          exact .same (fun _ => rfl) (by simp)
      | fillChunks realmId chunks =>
          rw [(Exec.Keeps.forEach fun _ => ResourceServer.realizeContinue_keeps) _ _ _ run]
          exact .same (fun _ => rfl) (by simp)
      | realizeStart realmId =>
          rw [ResourceServer.realizeStart_keeps _ _ _ run]
          exact .same (fun _ => rfl) (by simp)
      | hackRun realmId =>
          rw [ResourceServer.placement_unshared.hackRun.keeps _ _ _ run]
          exact .same (fun _ => rfl) (by simp)
      | realizeFinish realmId =>
          obtain ⟨realm, idle, isAfter⟩ := ResourceServer.realizeFinish_placement run
          rw [isAfter]
          exact .realized idle
      | destroy realmId =>
          rcases ResourceServer.destroy_placement run with
            ⟨_, rfl⟩ | ⟨realm, isRealm, idle, isAfter⟩
          · exact .same (fun _ => rfl) (by simp)
          · rw [isAfter]
            exact .destroyed isRealm idle
      | yieldTo physicalNode realmId virtualNode ns =>
          obtain ⟨realm, node, isFree, isRealm, isNode, isIdle, isAfter⟩ :=
            ResourceServer.yieldTo_placement run
          rw [isAfter]
          exact .yielded isFree isRealm isNode isIdle
      | hostEvent =>
          rcases ResourceServer.hostEvent_placement run with ⟨_, isAfter⟩ | ⟨slice, isSlice, isAfter⟩
          · rw [isAfter]
            exact .same (fun _ => rfl) (by simp)
          · rw [isAfter]
            exact .ended (fun _ => rfl) (by simp) isSlice
      | timeout =>
          rcases ResourceServer.timeout_placement run with ⟨_, isAfter⟩ | ⟨slice, isSlice, isAfter⟩
          · rw [isAfter]
            exact .same (fun _ => rfl) (by simp)
          · rw [isAfter]
            exact .ended (fun _ => rfl) (by simp) isSlice

/-! ## One reply for each yield -/

namespace Placement

/-- The replies to the host on a physical node, -/
def replies (placement : Placement) (physicalNode : PhysicalNodeIndex) : Nat :=
  placement.resumed.countP fun sent => sent.1 == physicalNode

/-- and whether one is still owed. -/
def lent (placement : Placement) (physicalNode : PhysicalNodeIndex) : Bool :=
  (placement.physicalNodes[physicalNode]?).join.isSome

variable {event : Event} {before after : Placement}

theorem Change.replies (change : Change event before after) (physicalNode : PhysicalNodeIndex) :
    after.replies physicalNode + (after.lent physicalNode).toNat =
      before.replies physicalNode + (before.lent physicalNode).toNat +
        (event.yieldsTo physicalNode).toNat := by
  cases change with
  | same quiet => simp [quiet]
  | realized idle => simp [Placement.replies, lent, Event.yieldsTo]
  | destroyed isRealm idle => simp [Placement.replies, lent, Event.yieldsTo]
  | @yielded _ other realmId virtualNode _ _ _ _ isFree =>
      obtain ⟨inRange, found⟩ := List.getElem?_eq_some_iff.mp isFree
      by_cases same : other = physicalNode
      · subst same
        simp [Placement.replies, lent, Event.yieldsTo, inRange, found]
      · simp [Placement.replies, lent, Event.yieldsTo, same]
  | @ended _ other _ slice _ quiet _ isSlice =>
      obtain ⟨inRange, found⟩ := List.getElem?_eq_some_iff.mp isSlice
      by_cases same : other = physicalNode
      · subst same
        simp [Placement.replies, lent, ResourceServer.ended, quiet, inRange, found]
      · simp [Placement.replies, lent, ResourceServer.ended, quiet, same]

end Placement

variable {realizer : Realizer K} {cnode : CPtr} {nodeLocal : List NodeLocal}
  {eventServer : E}
  {taken : List (ResourceServer K E × Event)} {server : ResourceServer K E}

theorem new_lent (physicalNode : PhysicalNodeIndex) :
    (ResourceServer.new services realizer cnode nodeLocal eventServer).placement.lent physicalNode = false := by
  simp only [Placement.lent, ResourceServer.placement, ResourceServer.new, List.getElem?_replicate]
  split <;> rfl

/-- For every physical node, the host has been answered once for each `yield_to` that was accepted,
except for the one whose slice has not ended. -/
theorem run_replies (run : Recorded (Step services)
      (ResourceServer.new services realizer cnode nodeLocal eventServer) taken server)
    (physicalNode : PhysicalNodeIndex) :
    server.placement.replies physicalNode + (server.placement.lent physicalNode).toNat =
      taken.countP fun entry => entry.2.yieldsTo physicalNode := by
  induction run with
  | start =>
      rw [new_lent]
      rfl
  | @step taken event before after run moved ih =>
      have change := moved.change.replies physicalNode
      rw [List.countP_append, List.countP_singleton, ← ih, change]
      cases event.yieldsTo physicalNode <;> simp

/-! ## Slices and virtual nodes -/

namespace Placement

/-- A physical node has the slice of a virtual node exactly if the virtual node is on it. -/
def Coherent (placement : Placement) : Prop :=
  ∀ physicalNode realmId virtualNode,
    placement.physicalNodes[physicalNode]? = some (some (realmId, virtualNode)) ↔
      placement.assigned realmId virtualNode = some physicalNode

/-- A virtual node of the realm is on a physical node. -/
def Running (placement : Placement) (realmId : RealmId) : Prop :=
  ∃ realm, placement.realms[realmId]? = some realm ∧
    ∃ node ∈ realm.virtualNodes, node.physicalNode ≠ none

/-- The step finishes a realm whose id is that of a realm which is running. -/
def Replaces (placement : Placement) : Event → Prop
  | .request _ (.realizeFinish realmId) => placement.Running realmId
  | _ => False

variable {placement : Placement} {realmId other : RealmId}
  {virtualNode otherNode : VirtualNodeIndex} {physicalNode : PhysicalNodeIndex}

theorem assigned_insert {realm : Realm} (idle : ∀ node ∈ realm.virtualNodes,
    node.physicalNode = none) :
    assigned { placement with realms := placement.realms.insert realmId realm } other virtualNode =
      if other = realmId then none else placement.assigned other virtualNode := by
  simp only [assigned, Std.TreeMap.getElem?_insert, Std.LawfulEqCmp.compare_eq_iff_eq]
  by_cases same : realmId = other
  · rw [if_pos same, if_pos same.symm, Option.bind_some]
    cases found : realm.virtualNodes[virtualNode]? with
    | none => rfl
    | some node => exact idle node (List.mem_of_getElem? found)
  · rw [if_neg same, if_neg (Ne.symm same)]

theorem assigned_erase :
    assigned { placement with realms := placement.realms.erase realmId } other virtualNode =
      if other = realmId then none else placement.assigned other virtualNode := by
  simp only [assigned, Std.TreeMap.getElem?_erase, Std.LawfulEqCmp.compare_eq_iff_eq]
  by_cases same : realmId = other
  · rw [if_pos same, if_pos same.symm]
    rfl
  · rw [if_neg same, if_neg (Ne.symm same)]

theorem assigned_idle {realm : Realm} (isRealm : placement.realms[realmId]? = some realm)
    (idle : ∀ node ∈ realm.virtualNodes, node.physicalNode = none) :
    placement.assigned realmId virtualNode = none := by
  rw [assigned, isRealm, Option.bind_some]
  cases found : realm.virtualNodes[virtualNode]? with
  | none => rfl
  | some node => exact idle node (List.mem_of_getElem? found)

theorem assigned_modify {moved : Option PhysicalNodeIndex} {physicalNodes} {resumed}
    {realm : Realm} {node : VirtualNode} (isRealm : placement.realms[realmId]? = some realm)
    (isNode : realm.virtualNodes[virtualNode]? = some node) :
    assigned ⟨physicalNodes, placement.realms.modify realmId fun realm =>
        realm.setPhysicalNode virtualNode moved, resumed⟩ other otherNode =
      if other = realmId ∧ otherNode = virtualNode then moved
      else placement.assigned other otherNode := by
  simp only [assigned, Std.TreeMap.getElem?_modify, Std.LawfulEqCmp.compare_eq_iff_eq]
  by_cases sameRealm : realmId = other
  · subst sameRealm
    simp only [if_true, true_and, isRealm, Option.map_some, Option.bind_some,
      Realm.setPhysicalNode, List.getElem?_modify]
    by_cases sameNode : virtualNode = otherNode
    · subst sameNode
      simp [isNode]
    · simp [sameNode, Ne.symm sameNode]
  · simp [sameRealm, Ne.symm sameRealm]

/-- The virtual node that is on a physical node is there. -/
theorem exists_node (isAssigned : placement.assigned realmId virtualNode = some physicalNode) :
    ∃ realm node, placement.realms[realmId]? = some realm ∧
      realm.virtualNodes[virtualNode]? = some node ∧ node.physicalNode = some physicalNode := by
  obtain ⟨realm, isRealm, isAssigned⟩ := Option.bind_eq_some_iff.mp isAssigned
  obtain ⟨node, isNode, isAssigned⟩ := Option.bind_eq_some_iff.mp isAssigned
  exact ⟨realm, node, isRealm, isNode, isAssigned⟩

variable {event : Event} {before after : Placement}

theorem yielded_coherent {realm : Realm} {node : VirtualNode} (coherent : before.Coherent)
    (isFree : before.physicalNodes[physicalNode]? = some none)
    (isRealm : before.realms[realmId]? = some realm)
    (isNode : realm.virtualNodes[virtualNode]? = some node) (isIdle : node.physicalNode = none) :
    Coherent ⟨before.physicalNodes.set physicalNode (some (realmId, virtualNode)),
      before.realms.modify realmId fun realm =>
        realm.setPhysicalNode virtualNode (some physicalNode), before.resumed⟩ := by
  obtain ⟨inRange, _⟩ := List.getElem?_eq_some_iff.mp isFree
  have wasIdle : before.assigned realmId virtualNode = none := by
    rw [assigned, isRealm, Option.bind_some, isNode, Option.bind_some, isIdle]
  intro otherPhysical other otherNode
  rw [assigned_modify isRealm isNode, List.getElem?_set]
  have was := coherent otherPhysical other otherNode
  by_cases samePhysical : physicalNode = otherPhysical
  · subst samePhysical
    rw [isFree] at was
    by_cases sameNode : other = realmId ∧ otherNode = virtualNode
    · obtain ⟨rfl, rfl⟩ := sameNode
      simp [inRange]
    · rw [if_neg sameNode]
      simp [inRange, ← was]
      intro sameRealm
      exact Ne.symm fun same => sameNode ⟨sameRealm.symm, same⟩
  · rw [if_neg samePhysical]
    by_cases sameNode : other = realmId ∧ otherNode = virtualNode
    · obtain ⟨rfl, rfl⟩ := sameNode
      rw [was, wasIdle, if_pos ⟨rfl, rfl⟩]
      simp [samePhysical]
    · rw [if_neg sameNode, was]

theorem ended_coherent {slice : RealmId × VirtualNodeIndex} {condition : ResumeHostCondition}
    (coherent : before.Coherent)
    (isSlice : before.physicalNodes[physicalNode]? = some (some slice)) :
    (ResourceServer.ended before physicalNode slice condition).Coherent := by
  obtain ⟨inRange, _⟩ := List.getElem?_eq_some_iff.mp isSlice
  obtain ⟨realmId, virtualNode⟩ := slice
  have wasAssigned := (coherent physicalNode realmId virtualNode).mp isSlice
  obtain ⟨realm, node, isRealm, isNode, _⟩ := exists_node wasAssigned
  intro otherPhysical other otherNode
  rw [ResourceServer.ended, assigned_modify isRealm isNode, List.getElem?_set]
  have was := coherent otherPhysical other otherNode
  by_cases samePhysical : physicalNode = otherPhysical
  · subst samePhysical
    rw [isSlice] at was
    by_cases sameNode : other = realmId ∧ otherNode = virtualNode
    · simp [sameNode, inRange]
    · rw [if_neg sameNode, ← was]
      simp [inRange]
      exact fun sameRealm same => sameNode ⟨sameRealm.symm, same.symm⟩
  · rw [if_neg samePhysical]
    by_cases sameNode : other = realmId ∧ otherNode = virtualNode
    · obtain ⟨rfl, rfl⟩ := sameNode
      rw [was, wasAssigned, if_pos ⟨rfl, rfl⟩]
      simp [samePhysical]
    · rw [if_neg sameNode, was]

theorem realized_coherent {nodeIndex : Nat} {realm : Realm}
    (idle : ∀ node ∈ realm.virtualNodes, node.physicalNode = none) (coherent : before.Coherent) :
    Coherent { before with realms := before.realms.insert realmId realm } ↔
      ¬ before.Replaces (.request nodeIndex (.realizeFinish realmId)) := by
  constructor
  · intro holds ⟨old, isOld, node, member, isRunning⟩
    obtain ⟨physicalNode, isAt⟩ := Option.ne_none_iff_exists'.mp isRunning
    obtain ⟨virtualNode, isNode⟩ := List.getElem?_of_mem member
    have isAssigned : before.assigned realmId virtualNode = some physicalNode := by
      rw [assigned, isOld, Option.bind_some, isNode, Option.bind_some, isAt]
    have isSlice := (coherent physicalNode realmId virtualNode).mpr isAssigned
    have stillAssigned := (holds physicalNode realmId virtualNode).mp isSlice
    rw [assigned_insert idle, if_pos rfl] at stillAssigned
    simp at stillAssigned
  · intro notReplaced physicalNode other virtualNode
    rw [assigned_insert idle, coherent physicalNode other virtualNode]
    by_cases same : other = realmId
    · subst same
      rw [if_pos rfl]
      refine ⟨fun isAssigned => ?_, fun impossible => by simp at impossible⟩
      obtain ⟨old, node, isOld, isNode, isAt⟩ := exists_node isAssigned
      exact absurd ⟨old, isOld, node, List.mem_of_getElem? isNode, by simp [isAt]⟩ notReplaced
    · rw [if_neg same]

theorem destroyed_coherent {realm : Realm} (isRealm : before.realms[realmId]? = some realm)
    (idle : ∀ node ∈ realm.virtualNodes, node.physicalNode = none) (coherent : before.Coherent) :
    Coherent { before with realms := before.realms.erase realmId } := by
  intro physicalNode other virtualNode
  rw [assigned_erase, coherent physicalNode other virtualNode]
  by_cases same : other = realmId
  · subst same
    rw [if_pos rfl, assigned_idle isRealm idle]
  · rw [if_neg same]

/-- A step keeps slices and virtual nodes in agreement unless it replaces a running realm. -/
theorem Change.coherent (change : Change event before after) (coherent : before.Coherent) :
    after.Coherent ↔ ¬ before.Replaces event := by
  cases change with
  | same quiet unrelated =>
      refine iff_of_true coherent fun replaces => ?_
      unfold Replaces at replaces
      split at replaces
      · exact unrelated _ _ rfl
      · exact replaces
  | realized idle => exact realized_coherent idle coherent
  | destroyed isRealm idle => exact iff_of_true (destroyed_coherent isRealm idle coherent) id
  | yielded isFree isRealm isNode isIdle =>
      exact iff_of_true (yielded_coherent coherent isFree isRealm isNode isIdle) id
  | ended quiet unrelated isSlice =>
      refine iff_of_true (ended_coherent coherent isSlice) fun replaces => ?_
      unfold Replaces at replaces
      split at replaces
      · exact unrelated _ _ rfl
      · exact replaces

end Placement

theorem new_coherent :
    (ResourceServer.new services realizer cnode nodeLocal eventServer).placement.Coherent := by
  intro physicalNode realmId virtualNode
  have notLent := @new_lent K E services realizer cnode nodeLocal eventServer physicalNode
  simp only [Placement.lent] at notLent
  constructor
  · intro isSlice
    rw [isSlice] at notLent
    simp at notLent
  · intro isAssigned
    simp [Placement.assigned, ResourceServer.placement, ResourceServer.new] at isAssigned

/-! ## A realm with one virtual node -/

/-- The untypeds of the example, with enough slots for two realms. -/
def exampleServerBuilder : AllocatorBuilder :=
  { exampleBuilder with
    cregion := ⟨⟨1, ⟨2, 40⟩⟩, 0, 2, 5,
      ⟨Std.TreeMap.ofList ((List.range 32).map fun slot => (slot, false))⟩⟩ }

/-- Every spec is that of a realm with some memory, and the other parties always answer. -/
def exampleServices : Services Unit Unit where
  platform := Realms.examplePlatform
  resources := Realms.exampleResources
  decodeModel := fun _ => some ⟨1, [⟨.localObj (.untyped 11), "ram"⟩]⟩
  timer := fun _ _ _ => (true, ())
  eventServer := fun _ _ _ _ => some ((), ())
  numActiveCores := 2

def exampleServer (allocator : Allocator) : ResourceServer Unit Unit :=
  ResourceServer.new exampleServices ⟨⟨allocator, ()⟩, ∅, fun _ _ => 0⟩ 5 [⟨6⟩, ⟨7⟩] ()

/-- A run that was computed, from a server on the allocator of the example. -/
theorem serves_run {Kind : Type}
    {step : Kind → ResourceServer Unit Unit → ResourceServer Unit Unit → Prop}
    {serve : Kind → ResourceServer Unit Unit → Option (ResourceServer Unit Unit)}
    (agrees : ∀ event before after, serve event before = some after → step event before after)
    {first : Allocator → ResourceServer Unit Unit} (events : List Kind)
    (check : List (ResourceServer Unit Unit × Kind) × ResourceServer Unit Unit → Bool)
    (evaluates : (exampleServerBuilder.build.bind fun allocator =>
      Recorded.record serve events (first allocator)).any check = true) :
    ∃ allocator taken server, exampleServerBuilder.build = some allocator ∧
      Recorded step (first allocator) taken server ∧
      taken.map Prod.snd = events ∧ check (taken, server) = true := by
  obtain ⟨⟨taken, server⟩, isRun, checked⟩ := (Option.any_eq_true _ _).mp evaluates
  obtain ⟨allocator, isBuilt, evaluates⟩ := Option.bind_eq_some_iff.mp isRun
  exact ⟨allocator, taken, server, isBuilt, Recorded.ofRecord agrees .start evaluates,
    Recorded.record_events evaluates, checked⟩

theorem exampleServer_run (events : List Event)
    (check : List (ResourceServer Unit Unit × Event) × ResourceServer Unit Unit → Bool)
    (evaluates : (exampleServerBuilder.build.bind fun allocator =>
      Recorded.record (Event.serve exampleServices) events (exampleServer allocator)).any check =
        true) :
    ∃ allocator taken server, exampleServerBuilder.build = some allocator ∧
      Recorded (Step exampleServices) (exampleServer allocator) taken server ∧
      taken.map Prod.snd = events ∧ check (taken, server) = true :=
  serves_run Event.serve_step events check evaluates

/-- A slice that ends with a timeout. -/
def exampleSlice : List Event :=
  [.request 0 (.declare 0 0), .request 0 (.realizeStart 0), .request 0 (.realizeFinish 0),
    .request 0 (.yieldTo 1 0 0 none), .request 1 .timeout]

theorem run_replies_exampleSlice : ∃ allocator taken server,
    exampleServerBuilder.build = some allocator ∧
      Recorded (Step exampleServices) (exampleServer allocator) taken server ∧
      taken.map Prod.snd = exampleSlice ∧ server.placement.replies 1 = 1 := by
  obtain ⟨allocator, taken, server, isBuilt, run, isSlice, notLent⟩ := exampleServer_run
    exampleSlice (fun run => !run.2.placement.lent 1) (by decide +kernel)
  have counted := run_replies run 1
  have accepted : (taken.countP fun entry => entry.2.yieldsTo 1) = 1 := by
    change taken.countP (Event.yieldsTo 1 ∘ Prod.snd) = 1
    rw [← List.countP_map, isSlice]
    decide
  have ended : server.placement.lent 1 = false := by simpa using notLent
  rw [accepted, ended] at counted
  exact ⟨allocator, taken, server, isBuilt, run, isSlice, counted⟩

end IceCap.Resources
