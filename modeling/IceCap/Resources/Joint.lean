import IceCap.Events.Runs
import IceCap.Resources.LifeCycle

/-!
# The resource server and the event server

The resource server does not check whether the realm it finishes replaces one
of the same id.  The event server does: it answers `create_realm` only if it
has no realm of that id, and the resource server waits for its answer.  So in a
run of the two together, with the requests of the event server's other clients
in between, no realm is replaced, and slices and virtual nodes always agree.
-/

set_option autoImplicit false

namespace IceCap.Resources

open IceCap.Library IceCap.Sel4 IceCap.Dyndl

variable {K : Type}

/-- The request on the resource server's badge of the event server. -/
def EventServerRequest.toEvents : EventServerRequest → Events.Request
  | .createRealm realmId numNodes => .createRealm realmId numNodes
  | .destroyRealm realmId => .destroyRealm realmId
  | .subscribe nid hostNid => .resourceServerSubscribe nid hostNid
  | .unsubscribe nid hostNid => .resourceServerUnsubscribe nid hostNid

def withState (kernel : K) (system : Events.System K) : Events.System K :=
  { system with store := { system.store with kernel := kernel } }

/-- The services of a resource server whose calls are answered by the event server. -/
def Services.joint {E : Type} (services : Services K E) : Services K (Events.System K) where
  platform := services.platform
  resources := services.resources
  decodeModel := services.decodeModel
  timer := services.timer
  eventServer _ request system kernel :=
    ((Events.handle services.platform.kernel request.toEvents)
      (withState kernel system)).returned.map fun answered => (answered, answered.store.kernel)
  numActiveCores := services.numActiveCores

inductive JointEvent where
  | resource (event : Event)
  | client (request : Events.Request)
  deriving DecidableEq, Repr

/-- The request is not one that only the resource server can make. -/
def ofOthers : Events.Request → Bool
  | .createRealm _ _ => false
  | .destroyRealm _ => false
  | .resourceServerSubscribe _ _ => false
  | .resourceServerUnsubscribe _ _ => false
  | _ => true

namespace ResourceServer

/-- The event server on the present state of the kernel. -/
def events (server : ResourceServer K (Events.System K)) : Events.System K :=
  withState server.realizer.machine.kernel server.eventServer

def withEvents (system : Events.System K) (server : ResourceServer K (Events.System K)) :
    ResourceServer K (Events.System K) :=
  { withKernel system.store.kernel server with eventServer := system }

/-- The realms the event server has. -/
def known (server : ResourceServer K (Events.System K)) :
    Std.TreeMap Events.RealmId Events.Client :=
  server.eventServer.server.realms

end ResourceServer

/-- A call on the resource server that returns `Ok`, or a request of another client of the event
server that returns. -/
inductive JointStep {E : Type} (services : Services K E) : JointEvent →
    ResourceServer K (Events.System K) → ResourceServer K (Events.System K) → Prop where
  | resource {event : Event} {before after : ResourceServer K (Events.System K)}
      (step : Step services.joint event before after) : JointStep services (.resource event) before after
  | client {request : Events.Request} {before : ResourceServer K (Events.System K)}
      {system : Events.System K} (isOther : ofOthers request = true)
      (ends : (Events.handle services.platform.kernel request).Ends before.events system) :
      JointStep services (.client request) before (before.withEvents system)

/-! ## The realms of the event server -/

theorem hostSubscribe_keeps {nid : Nat} {rid : Events.RealmId} {realmNid : Nat} :
    Exec.Keeps (fun system : Events.System K => system.server.realms)
      (Events.EventServer.hostSubscribe nid rid realmNid) :=
  .bind .get fun _ => .bind (.unwrap _) fun _ => .bind (.unwrap _) fun _ => .bind (.unwrap _)
    fun _ => .bind (.focus fun _ _ => rfl) fun _ => .bind (.focus fun _ _ => rfl) fun _ =>
    .bind (.assert _) fun _ => .bind (.assert _) fun _ => .modify fun _ => rfl

theorem subscribe_keeps {nid hostNid : Nat} :
    Exec.Keeps (fun system : Events.System K => system.server.realms)
      (Events.EventServer.resourceServerSubscribe nid hostNid) :=
  .bind .get fun _ => .bind (.unwrap _) fun _ => .bind (.unwrap _) fun _ =>
    .bind (.focus fun _ _ => rfl) fun _ => .bind (.focus fun _ _ => rfl) fun _ =>
    .bind (.assert _) fun _ => .bind (.assert _) fun _ => .modify fun _ => rfl

theorem unsubscribe_keeps {nid hostNid : Nat} :
    Exec.Keeps (fun system : Events.System K => system.server.realms)
      (Events.EventServer.resourceServerUnsubscribe nid hostNid) :=
  .bind .get fun _ => .bind (.unwrap _) fun _ => .bind (.focus fun _ _ => rfl) fun _ =>
    .bind (.focus fun _ _ => rfl) fun _ => .bind (.unwrap _) fun _ => .modify fun _ => rfl

theorem handle_other {kernel : Kernel K} {request : Events.Request} {system final : Events.System K}
    (isOther : ofOthers request = true) (ends : (Events.handle kernel request).Ends system final) :
    final.server.realms = system.server.realms := by
  cases request with
  | createRealm rid numNodes => simp [ofOthers] at isOther
  | destroyRealm rid => simp [ofOthers] at isOther
  | resourceServerSubscribe nid hostNid => simp [ofOthers] at isOther
  | resourceServerUnsubscribe nid hostNid => simp [ofOthers] at isOther
  | signal client index =>
      obtain ⟨_, _, _, _, rfl⟩ := Events.withClient_ends ends
      rfl
  | end_ client nid index =>
      obtain ⟨_, _, _, _, rfl⟩ := Events.withClient_ends ends
      rfl
  | configure client nid index action =>
      obtain ⟨_, _, _, _, rfl⟩ := Events.withClient_ends ends
      rfl
  | move client srcNid srcIndex dstNid dstIndex =>
      obtain ⟨_, _, _, _, rfl⟩ := Events.withClient_ends ends
      rfl
  | hostSubscribe nid rid realmNid =>
      obtain ⟨⟨⟩, run⟩ := (Events.EventServer.hostSubscribe_infallible nid rid realmNid).ends ends
      exact hostSubscribe_keeps _ _ _ run
  | irq irq =>
      obtain ⟨_, _, _, _, rfl⟩ := Events.signalIrq_ends ends
      rfl

theorem createRealm_known {system final : Events.System K} {rid : Events.RealmId} {numNodes : Nat}
    (run : Events.EventServer.createRealm rid numNodes system = .ok () final) :
    system.server.realms[rid]? = none ∧
      ∃ client, final.server.realms = system.server.realms.insert rid client := by
  simp only [Events.EventServer.createRealm, Events.onStore, Events.modifyServer, Exec.bind_eq_ok,
    Exec.get_eq_ok, Exec.assert_eq_ok, Exec.unwrap_eq_ok, Exec.focus_eq_ok,
    Exec.modify_eq_ok] at run
  obtain ⟨_, _, ⟨rfl, rfl⟩, ⟨⟩, _, ⟨isNew, rfl⟩, _, _, ⟨_, rfl⟩, client, _, ⟨_, _, rfl⟩, rfl⟩ := run
  exact ⟨isNew, client, rfl⟩

theorem destroyRealm_known {system final : Events.System K} {rid : Events.RealmId}
    (run : Events.EventServer.destroyRealm rid system = .ok () final) :
    final.server.realms = system.server.realms.erase rid := by
  simp only [Events.EventServer.destroyRealm, Events.onStore, Events.modifyServer,
    Exec.bind_eq_ok, Exec.get_eq_ok, Exec.assert_eq_ok, Exec.unwrap_eq_ok, Exec.focus_eq_ok,
    Exec.modify_eq_ok] at run
  obtain ⟨_, _, ⟨rfl, rfl⟩, ⟨⟩, _, ⟨_, rfl⟩, ⟨⟩, _, rfl, _, _, ⟨_, rfl⟩, _, _, rfl⟩ := run
  rfl

namespace ResourceServer

variable {E : Type} {services : Services K E} {server final : ResourceServer K (Events.System K)}

theorem callEventServer_joint {node : Nat} {request : EventServerRequest}
    (run : callEventServer services.joint node request server = .ok () final) :
    ∃ system, Events.handle services.platform.kernel request.toEvents server.events =
        .ok () system ∧ final = server.withEvents system := by
  obtain ⟨eventServer, kernel, answered, rfl⟩ := callEventServer_eq_ok run
  obtain ⟨system, returned, isAnswer⟩ := Option.map_eq_some_iff.mp answered
  obtain ⟨rfl, rfl⟩ := Prod.mk.inj isAnswer
  obtain ⟨⟨⟩, handled⟩ := Outcome.returned_eq_some.mp returned
  exact ⟨system, handled, rfl⟩

theorem known_unscheduled :
    Unscheduled services.joint (known : ResourceServer K (Events.System K) → _) where
  kernel _ := .focus fun _ _ => rfl
  timer _ _ := by
    refine Exec.Keeps.spares (fun server value final run => ?_) callTimer_infallible
    obtain ⟨kernel, rfl⟩ := callTimer_eq_ok run
    rfl
  subscribe _ := by
    refine Exec.Keeps.spares (fun server value final run => ?_) callEventServer_infallible
    obtain ⟨system, handled, rfl⟩ := callEventServer_joint run
    have same := subscribe_keeps _ _ _ handled
    exact same
  unsubscribe _ := by
    refine Exec.Keeps.spares (fun server value final run => ?_) callEventServer_infallible
    obtain ⟨system, handled, rfl⟩ := callEventServer_joint run
    have same := unsubscribe_keeps _ _ _ handled
    exact same
  setPhysicalNode _ _ _ := .modify fun _ => rfl
  setSlice _ _ := .modify fun _ => rfl
  resumed _ _ := rfl

theorem realizeContinue_known {realmId : RealmId} {objectIndex fillEntryIndex : Nat}
    {content : List UInt8} :
    Exec.Keeps known (realizeContinue services.joint realmId objectIndex fillEntryIndex content) :=
  .bind .get fun _ => .bind (.unwrap _) fun _ => .focus fun _ _ => rfl

/-- A realm is finished only if the event server has none of that id. -/
theorem realizeFinish_known {nodeIndex : Nat} {realmId : RealmId}
    (run : realizeFinish services.joint nodeIndex realmId server = .ok () final) :
    server.known[realmId]? = none ∧
      ∃ client, final.known = server.known.insert realmId client := by
  simp only [realizeFinish, Exec.bind_eq_ok, Exec.get_eq_ok, Exec.unwrap_eq_ok, onRealizer,
    Exec.focus_eq_ok, Exec.modify_eq_ok] at run
  obtain ⟨_, _, ⟨rfl, rfl⟩, partialSubsystem, _, ⟨_, rfl⟩, ⟨⟩, _, rfl, subsystem, _,
    ⟨realizer, _, rfl⟩, virtualNodes, third, nodesRun, ⟨⟩, _, rfl, eventRun⟩ := run
  have same := (Exec.Spares.mapEach fun _ => known_unscheduled.virtualNodeOf).keeps _ _ _ nodesRun
  obtain ⟨system, handled, rfl⟩ := callEventServer_joint eventRun
  obtain ⟨isNew, client, inserted⟩ := createRealm_known handled
  have sameRealms : third.eventServer.server.realms = server.eventServer.server.realms := same
  refine ⟨?_, client, ?_⟩
  · rw [known, ← sameRealms]
    exact isNew
  · rw [known, known, ← sameRealms]
    exact inserted

theorem destroy_known {nodeIndex : Nat} {realmId : RealmId}
    (run : destroy services.joint nodeIndex realmId server = .ok () final) :
    final = server ∨ final.known = server.known.erase realmId := by
  simp only [destroy, Exec.bind_eq_ok, Exec.get_eq_ok] at run
  obtain ⟨_, _, ⟨rfl, rfl⟩, run⟩ := run
  cases found : server.realms[realmId]? with
  | none =>
      simp only [found, Exec.pure_eq_ok] at run
      exact .inl run.2.symm
  | some realm =>
      simp only [found, Exec.bind_eq_ok, Exec.modify_eq_ok, onRealizer, Exec.focus_eq_ok] at run
      obtain ⟨⟨⟩, _, rfl, ⟨⟩, first, descheduled, ⟨⟩, _, ⟨after, _, rfl⟩, eventRun⟩ := run
      have same := (Exec.Spares.forEach fun _ => .bind (.assert _) fun _ => .forEach fun _ =>
        .forEach fun _ => known_unscheduled.kernel _).keeps _ _ _ descheduled
      obtain ⟨system, handled, rfl⟩ := callEventServer_joint eventRun
      have sameRealms : first.eventServer.server.realms = server.eventServer.server.realms := same
      have erased := destroyRealm_known handled
      refine .inr ?_
      rw [known, known, ← sameRealms]
      exact erased

end ResourceServer

/-! ## Runs -/

/-- Every realm of the resource server is one of the event server. -/
def Registered (server : ResourceServer K (Events.System K)) : Prop :=
  ∀ id ∈ server.realms, id ∈ server.known

variable {E : Type} {services : Services K E} {event : Event}
  {before after server : ResourceServer K (Events.System K)}

theorem Registered.same (registered : Registered before) (tenure : after.tenure = before.tenure)
    (known : after.known = before.known) : Registered after := by
  intro id isRealm
  rw [known]
  have same := congrArg Phases.realized (ResourceServer.phases_of_tenure tenure)
  exact registered id (same.subset isRealm)

/-- A step keeps the realms known to the event server, and replaces none of them. -/
theorem Step.registered (registered : Registered before)
    (step : Step services.joint event before after) :
    Registered after ∧ ¬ before.placement.Replaces event := by
  cases step with
  | yieldBack run => exact absurd run ResourceServer.yieldBack_ne_ok
  | @dispatch nodeIndex request _ _ run =>
      cases request with
      | declare id size =>
          obtain ⟨_, rfl⟩ := ResourceServer.declare_eq_ok run
          exact ⟨registered, not_false⟩
      | specChunk id offset content =>
          obtain ⟨_, _, rfl⟩ := ResourceServer.incorporateSpecChunk_eq_ok run
          exact ⟨registered, not_false⟩
      | realizeStart id =>
          obtain ⟨_, _, _, _, _, rfl⟩ := ResourceServer.realizeStart_eq_ok run
          exact ⟨registered, not_false⟩
      | realizeFinish id =>
          obtain ⟨isNew, client, inserted⟩ := ResourceServer.realizeFinish_known run
          obtain ⟨_, realm, _, _, _, _, realms, _⟩ := ResourceServer.realizeFinish_eq_ok run
          refine ⟨fun other isRealm => ?_, fun ⟨old, isOld, _⟩ => ?_⟩
          · rw [inserted, Std.TreeMap.mem_insert]
            rw [realms, Std.TreeMap.mem_insert] at isRealm
            exact isRealm.imp_right (registered other)
          · have isRealm : id ∈ before.realms := Std.TreeMap.mem_iff_isSome_getElem?.mpr
              (Option.isSome_of_eq_some isOld)
            have isKnown := Std.TreeMap.mem_iff_isSome_getElem?.mp (registered id isRealm)
            simp [isNew] at isKnown
      | destroy id =>
          refine ⟨?_, not_false⟩
          rcases ResourceServer.destroy_known run with rfl | erased
          · exact registered
          · rcases ResourceServer.destroy_eq_ok run with
              ⟨_, rfl⟩ | ⟨_, _, _, _, _, _, _, _, realms, _⟩
            · exact registered
            · intro other isRealm
              rw [erased, Std.TreeMap.mem_erase]
              rw [realms, Std.TreeMap.mem_erase] at isRealm
              exact isRealm.imp_right (registered other)
      | fillChunks id chunks =>
          have tenure := (Exec.Spares.forEach fun _ =>
            ResourceServer.realizeContinue_tenure).keeps _ _ _ run
          have known := (Exec.Keeps.forEach fun _ => ResourceServer.realizeContinue_known) _ _ _ run
          exact ⟨registered.same tenure known, not_false⟩
      | hackRun id =>
          exact ⟨registered.same (ResourceServer.tenure_unshared.hackRun.keeps _ _ _ run)
            (ResourceServer.known_unscheduled.hackRun.keeps _ _ _ run), not_false⟩
      | yieldTo physicalNode id virtualNode ns =>
          exact ⟨registered.same (ResourceServer.tenure_unscheduled.yieldTo.keeps _ _ _ run)
            (ResourceServer.known_unscheduled.yieldTo.keeps _ _ _ run), not_false⟩
      | hostEvent =>
          exact ⟨registered.same (ResourceServer.tenure_unscheduled.hostEvent.keeps _ _ _ run)
            (ResourceServer.known_unscheduled.hostEvent.keeps _ _ _ run), not_false⟩
      | timeout =>
          exact ⟨registered.same (ResourceServer.tenure_unscheduled.timeout.keeps _ _ _ run)
            (ResourceServer.known_unscheduled.timeout.keeps _ _ _ run), not_false⟩

theorem JointStep.coherent {jointEvent : JointEvent}
    (holds : before.placement.Coherent ∧ Registered before)
    (step : JointStep services jointEvent before after) :
    after.placement.Coherent ∧ Registered after := by
  cases step with
  | resource step =>
      obtain ⟨registered, notReplaced⟩ := step.registered holds.2
      exact ⟨(step.change.coherent holds.1).mpr notReplaced, registered⟩
  | @client _ _ system isOther ends =>
      refine ⟨holds.1, fun id isRealm => ?_⟩
      have same := handle_other isOther ends
      change id ∈ system.server.realms
      rw [same]
      exact holds.2 id isRealm

/-- In every state of a run of the two servers, a physical node has the slice of a virtual node
exactly if there is such a virtual node and it is on that physical node. -/
theorem jointRun_coherent {realizer : Realizer K} {cnode : CPtr} {nodeLocal : List NodeLocal}
    {system : Events.System K} {taken : List (ResourceServer K (Events.System K) × JointEvent)}
    (run : Recorded (JointStep services)
      (ResourceServer.new services.joint realizer cnode nodeLocal system) taken server)
    (physicalNode : PhysicalNodeIndex) (realmId : RealmId) (virtualNode : VirtualNodeIndex) :
    server.physicalNodes[physicalNode]? = some (some (realmId, virtualNode)) ↔
      ∃ realm node, server.realms[realmId]? = some realm ∧
        realm.virtualNodes[virtualNode]? = some node ∧ node.physicalNode = some physicalNode := by
  have holds := @Recorded.invariant _ _ (JointStep services) _ _ _
    (fun server => server.placement.Coherent ∧ Registered server) (fun _ _ => True)
    ⟨new_coherent, fun id isRealm => absurd isRealm Std.TreeMap.not_mem_emptyc⟩
    (fun _ _ _ holds step _ => step.coherent holds) run (fun _ _ => trivial)
  refine (holds.1 physicalNode realmId virtualNode).trans ⟨Placement.exists_node, ?_⟩
  intro ⟨realm, node, isRealm, isNode, isAt⟩
  change (server.realms[realmId]?).bind _ = _
  rw [isRealm, Option.bind_some, isNode, Option.bind_some, isAt]

/-- The step of an event, where there is one. -/
def JointEvent.serve (services : Services K E) : JointEvent →
    ResourceServer K (Events.System K) → Option (ResourceServer K (Events.System K))
  | .resource event, server => event.serve services.joint server
  | .client request, server =>
      if ofOthers request then
        ((Events.handle services.platform.kernel request) server.events).returned.map fun system =>
          server.withEvents system
      else none

theorem JointEvent.serve_step (event : JointEvent)
    (before after : ResourceServer K (Events.System K))
    (serves : event.serve services before = some after) : JointStep services event before after := by
  cases event with
  | resource event => exact .resource (event.serve_step _ _ serves)
  | client request =>
      simp only [JointEvent.serve] at serves
      split at serves
      · next isOther =>
          obtain ⟨system, returned, rfl⟩ := Option.map_eq_some_iff.mp serves
          exact .client isOther (.inl (Outcome.returned_eq_some.mp returned))
      · simp at serves

/-- A node is lent to a realm, with a signal of the host in between. -/
def exampleLending : List JointEvent :=
  [.resource (.request 0 (.declare 0 0)), .resource (.request 0 (.realizeStart 0)),
    .resource (.request 0 (.realizeFinish 0)), .client (.signal .host 0),
    .resource (.request 0 (.yieldTo 1 0 0 none))]

theorem jointRun_coherent_exampleLending : ∃ allocator system taken server,
    exampleServerBuilder.build = some allocator ∧ Events.exampleSystem = some system ∧
      Recorded (JointStep exampleServices) (ResourceServer.new exampleServices.joint
        ⟨⟨allocator, ()⟩, ∅, fun _ _ => 0⟩ 5 [⟨6⟩, ⟨7⟩] system) taken server ∧
      taken.map Prod.snd = exampleLending ∧
      ∃ realm node, server.realms[0]? = some realm ∧ realm.virtualNodes[0]? = some node ∧
        node.physicalNode = some 1 := by
  have evaluates : (exampleServerBuilder.build.bind fun allocator =>
      Events.exampleSystem.bind fun system =>
        Recorded.record (JointEvent.serve exampleServices) exampleLending
          (ResourceServer.new exampleServices.joint ⟨⟨allocator, ()⟩, ∅, fun _ _ => 0⟩ 5
            [⟨6⟩, ⟨7⟩] system)).any
        (fun run => decide (run.2.physicalNodes[1]? = some (some (0, 0)))) = true := by
    decide +kernel
  obtain ⟨⟨taken, server⟩, isRun, isSlice⟩ := (Option.any_eq_true _ _).mp evaluates
  obtain ⟨allocator, isBuilt, isRun⟩ := Option.bind_eq_some_iff.mp isRun
  obtain ⟨system, isSystem, records⟩ := Option.bind_eq_some_iff.mp isRun
  have run := Recorded.ofRecord JointEvent.serve_step .start records
  exact ⟨allocator, system, taken, server, isBuilt, isSystem, run, Recorded.record_events records,
    (jointRun_coherent run 1 0 0).mp (of_decide_eq_true isSlice)⟩

end IceCap.Resources
