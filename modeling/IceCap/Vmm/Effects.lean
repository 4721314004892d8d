import IceCap.Gic.Embedding
import IceCap.Library.Recorded
import IceCap.Vmm.Node

/-!
# What a VMM asks for

Whatever its guest does, a VMM invokes only its own threads and virtual cpus,
injects with sound arguments, acknowledges only private interrupts that are no
events, and tells the event server of the end of no event but those that its
map says are to be acknowledged.
-/

set_option autoImplicit false

namespace IceCap.Vmm

open IceCap.Library IceCap.Gic IceCap.Sel4 Exec

variable {ε E α : Type}

/-- There is a first register of a call. -/
instance registersNeZero : @NeZero Nat Zero.ofOfNat0 8 := ⟨by decide⟩

/-- The end of the event may be told to this endpoint of the event server. -/
def VMMConfig.Awaits (config : VMMConfig E) (ep : CPtr) (nid index : Nat) : Prop :=
  (∃ ppi : Nat, 16 ≤ ppi ∧ ppi < 32 ∧ config.irqMap.ppi[ppi]? = some (index, true) ∧
    config.eventServerClientEp[nid]? = some ep) ∨
  ∃ spi : Nat, config.irqMap.spi[spi]? = some (index, nid, true) ∧ ep ∈ config.eventServerClientEp

def VMMConfig.Permits (config : VMMConfig E) : Effect → Prop
  | .readAllRegisters tcb | .writeAllRegisters tcb _ | .resume tcb =>
      ∃ node ∈ config.nodes, node.tcb = tcb
  | .writeCntvoff vcpu value => (∃ node ∈ config.nodes, node.vcpu = vcpu) ∧ value = 0
  | .ackVppi vcpu irq => (∃ node ∈ config.nodes, node.vcpu = vcpu) ∧
      16 ≤ irq.toNat ∧ irq.toNat < 32 ∧ config.irqMap.ppi[irq.toNat]? = none
  | .injectIrq vcpu virq priority group index => (∃ node ∈ config.nodes, node.vcpu = vcpu) ∧
      virq.toNat < 1020 ∧ priority.toNat < 32 ∧ group = 0 ∧ index.toNat < numLrs
  | .callEventServer ep (.end_ nid index) => config.Awaits ep nid index
  | .startThread thread => ∃ node ∈ config.nodes, node.thread = thread
  | .callResourceServer _ _ | .putchar _ | .reply _ => True

/-- All that has been asked for is permitted. -/
def World.Modest (config : VMMConfig E) (world : World) : Prop :=
  ∀ effect ∈ world.effects, config.Permits effect

section World
variable {platform : Platform ε} {config : VMMConfig E} {effect : Effect} {world : World}

theorem World.Modest.record (modest : world.Modest config) (permitted : config.Permits effect) :
    (world.record effect).Modest config := by
  intro other member
  rcases List.mem_append.mp member with earlier | isLast
  · exact modest other earlier
  · rw [List.mem_singleton.mp isLast]
    exact permitted

theorem record_modest (permitted : config.Permits effect) :
    Maintains (World.Modest config) (modify (World.record effect) : Exec ε World Unit) :=
  .modify fun _ modest => modest.record permitted

theorem invoke_modest (permitted : config.Permits effect) :
    Maintains (World.Modest config) (invoke platform effect) := by
  intro world final run modest
  rcases run with ⟨value, run⟩ | ⟨error, run⟩
  · obtain ⟨_, rfl⟩ := (invoke_eq_ok platform).mp run
    exact modest.record permitted
  · obtain ⟨_, rfl⟩ := (invoke_eq_err platform).mp run
    exact modest

theorem unrecorded_modest {update : World → World}
    (same : ∀ world, (update world).effects = world.effects) :
    Maintains (World.Modest config) (modify update : Exec ε World Unit) :=
  .modify fun world modest other member => modest other (same world ▸ member)

theorem readAllRegisters_modest {tcb : CPtr} (permitted : ∃ node ∈ config.nodes, node.tcb = tcb) :
    Maintains (World.Modest config) (readAllRegisters platform tcb) :=
  Maintains.bind (invoke_modest (show config.Permits (.readAllRegisters tcb) from permitted))
    fun _ => .of_spares (.reads _)

theorem writeAllRegisters_modest {tcb : CPtr} {ctx : UserContext}
    (permitted : ∃ node ∈ config.nodes, node.tcb = tcb) :
    Maintains (World.Modest config) (writeAllRegisters platform tcb ctx) :=
  Maintains.bind (invoke_modest (show config.Permits (.writeAllRegisters tcb ctx) from permitted))
    fun _ => unrecorded_modest fun _ => rfl

theorem reply_modest {length : Nat} :
    Maintains (World.Modest config) (reply length : Exec ε World Unit) :=
  .modify fun _ modest => modest.record trivial

theorem advanceAndReply_modest {fault : UnknownSyscall} :
    Maintains (World.Modest config) (fault.advanceAndReply : Exec ε World Unit) := by
  apply Maintains.bind
  · exact unrecorded_modest fun _ => rfl
  · exact fun _ => reply_modest

theorem startThread_modest {thread : CPtr}
    (permitted : ∃ node ∈ config.nodes, node.thread = thread) :
    Maintains (World.Modest config) (startThread platform thread) :=
  .modify fun world modest => by
    have sent : World.Modest config
        (((world.setMr 0 platform.entry).setMr 1 (platform.intoRaw world)).setMr 2 0) := modest
    exact sent.record permitted

end World

/-! ## The callbacks of the GIC -/

theorem mem_nodes_of_vcpu {config : VMMConfig E} {i : Nat} {vcpu : CPtr}
    (found : config.callbacks.vcpus[i]? = some vcpu) : ∃ node ∈ config.nodes, node.vcpu = vcpu :=
  List.mem_map.mp (List.mem_of_getElem? found)

theorem callbacks_keep (platform : Platform ε) (config : VMMConfig E) (numNodes : Nat) :
    (config.callbacks.callbacks platform).Keep numNodes (World.Modest config) where
  ack callingNode irq proper := by
    change Maintains _ (config.callbacks.ack platform callingNode irq)
    cases irq with
    | qualifiedPpi node irq =>
        obtain ⟨isPpi, isPrivate⟩ := proper
        cases found : config.callbacks.irqMap.ppi[irq]? with
        | some entry =>
            obtain ⟨inIndex, mustAck⟩ := entry
            simp only [VMMGICCallbacks.ack, found]
            cases mustAck with
            | false => exact .of_spares (.pure _)
            | true =>
                refine Maintains.bindWhere (.of_spares (.unwrap _))
                  (fun _ ep _ _ run => (unwrap_eq_ok.mp run).1) fun ep isEp => ?_
                have awaits : config.Awaits ep callingNode inIndex :=
                  Or.inl ⟨irq, isPpi, isPrivate, found, isEp⟩
                exact record_modest awaits
        | none =>
            simp only [VMMGICCallbacks.ack, found]
            refine Maintains.bindWhere (.of_spares (.unwrap _))
              (fun _ vcpu _ _ run => (unwrap_eq_ok.mp run).1) fun vcpu isVcpu => ?_
            have isWord : (UInt64.ofNat irq).toNat = irq := by
              rw [UInt64.toNat_ofNat']
              exact Nat.mod_eq_of_lt (Nat.lt_trans isPrivate (by decide))
            have permitted : config.Permits (.ackVppi vcpu (UInt64.ofNat irq)) := by
              refine ⟨mem_nodes_of_vcpu isVcpu, ?_⟩
              rw [isWord]
              exact ⟨isPpi, isPrivate, found⟩
            exact invoke_modest permitted
    | spi irq =>
        cases found : config.callbacks.irqMap.spi[irq]? with
        | some entry =>
            obtain ⟨inIndex, nid, mustAck⟩ := entry
            simp only [VMMGICCallbacks.ack, found]
            cases mustAck with
            | false => exact .of_spares (.pure _)
            | true =>
                refine Maintains.bindWhere (.of_spares (.unwrap _))
                  (fun _ ep _ _ run => (unwrap_eq_ok.mp run).1) fun ep isEp => ?_
                have awaits : config.Awaits ep nid inIndex :=
                  Or.inr ⟨irq, found, List.mem_of_getElem? isEp⟩
                exact record_modest awaits
        | none =>
            simp only [VMMGICCallbacks.ack, found]
            exact .of_spares (.pure _)
  inject callingNode targetNode index irq priority _ isIndex isIrq isPriority := by
    refine Maintains.bindWhere (.of_spares (.unwrap _))
      (fun _ vcpu _ _ run => (unwrap_eq_ok.mp run).1) fun vcpu isVcpu => ?_
    have permitted : config.Permits (.injectIrq vcpu (UInt16.ofNat irq) (UInt8.ofNat priority) 0
        (UInt8.ofNat index)) := by
      refine ⟨mem_nodes_of_vcpu isVcpu, ?_, ?_, rfl, ?_⟩
      · rw [UInt16.toNat_ofNat']
        exact Nat.lt_of_le_of_lt (Nat.mod_le _ _) isIrq
      · rw [UInt8.toNat_ofNat']
        exact Nat.lt_of_le_of_lt (Nat.mod_le _ _) isPriority
      · rw [UInt8.toNat_ofNat']
        exact Nat.lt_of_le_of_lt (Nat.mod_le _ _) isIndex
    exact (invoke_modest permitted).bind fun _ => unrecorded_modest fun _ => rfl

/-! ## The nodes -/

/-- A node with its thread, as it is configured. -/
def VMMConfig.Has (config : VMMConfig E) (entry : CPtr × VMMNode E) : Prop :=
  ∃ i, config.node i = entry

theorem VMMConfig.Has.thread {config : VMMConfig E} {entry : CPtr × VMMNode E}
    (has : config.Has entry) : ∃ node ∈ config.nodes, node.thread = entry.1 := by
  obtain ⟨i, rfl⟩ := has
  exact ⟨_, List.getElem_mem i.isLt, rfl⟩

theorem VMMConfig.Has.tcb {config : VMMConfig E} {entry : CPtr × VMMNode E}
    (has : config.Has entry) : ∃ node ∈ config.nodes, node.tcb = entry.2.tcb := by
  obtain ⟨i, rfl⟩ := has
  exact ⟨_, List.getElem_mem i.isLt, rfl⟩

theorem VMMConfig.Has.vcpu {config : VMMConfig E} {entry : CPtr × VMMNode E}
    (has : config.Has entry) : ∃ node ∈ config.nodes, node.vcpu = entry.2.vcpu := by
  obtain ⟨i, rfl⟩ := has
  exact ⟨_, List.getElem_mem i.isLt, rfl⟩

/-- The nodes in the table and of the threads are configured ones, and what has been asked for is
permitted. -/
structure VMM.Modest (config : VMMConfig E) {numNodes : Nat} (vmm : VMM E numNodes) : Prop where
  table : ∀ (i : Nat) (entry : CPtr × VMMNode E), vmm.nodes[i]? = some (some entry) →
    config.Has entry
  threads : ∀ thread ∈ vmm.threads, ∃ cptr, config.Has (cptr, thread.node)
  world : vmm.gic.callbacks.Modest config

section Nodes
variable {platform : Platform ε} {extension : VMMExtension ε E} {config : VMMConfig E}
  {numNodes : Nat} {node : VMMNode E}

theorem onGic_modest {call : Exec (Failure ε) (GIC numNodes World) α}
    (maintains : Maintains (GIC.Embeds (World.Modest config)) call) :
    Maintains (VMM.Modest config) (VMMNode.onGic call : Exec (Failure ε) (VMM E numNodes) α) := by
  intro vmm final run modest
  obtain ⟨gic, ends, rfl⟩ := ends_focus.mp run
  exact ⟨modest.table, modest.threads, maintains _ _ ends modest.world⟩

theorem onWorld_modest {call : Exec ε World α} (maintains : Maintains (World.Modest config) call) :
    Maintains (VMM.Modest config) (VMMNode.onWorld call : Exec (Failure ε) (VMM E numNodes) α) :=
  onGic_modest (GIC.onCallbacks_embeds maintains)

theorem orPanic_modest {call : Exec (Failure ε) (VMM E numNodes) α}
    (maintains : Maintains (VMM.Modest config) call) :
    Maintains (VMM.Modest config) (orPanic call) := by
  intro vmm final run modest
  obtain ⟨value, run⟩ := (Infallible.orPanic call).ends run
  exact maintains _ _ (.inl ⟨value, orPanic_eq_ok.mp run⟩) modest

theorem handleGicDistributorFault_modest {fault : VMFault} {offset : Nat}
    (isTcb : ∃ nodeConfig ∈ config.nodes, nodeConfig.tcb = node.tcb) :
    Maintains (VMM.Modest config) (node.handleGicDistributorFault platform config fault offset :
      Exec (Failure ε) (VMM E numNodes) Unit) := by
  refine (Maintains.of_spares (.assert _)).bind fun _ => ?_
  refine (Maintains.of_spares (.unwrap _)).bind fun _ => ?_
  refine (Maintains.of_spares (.assert _)).bind fun _ => ?_
  refine (Maintains.of_spares (.unwrap _)).bind fun isWrite => .ite ?_ ?_
  · refine (orPanic_modest (onWorld_modest (readAllRegisters_modest isTcb))).bind fun ctx => ?_
    refine (Maintains.of_spares (.unwrap _)).bind fun data => ?_
    refine (onGic_modest (GIC.handleWrite_embeds (callbacks_keep platform config numNodes))).bind
      fun _ => ?_
    exact orPanic_modest (onWorld_modest (writeAllRegisters_modest isTcb))
  · refine (Maintains.of_spares (.unwrap _)).bind fun width => ?_
    refine (onGic_modest GIC.onDist_embeds).bind fun data => ?_
    refine (orPanic_modest (onWorld_modest (readAllRegisters_modest isTcb))).bind fun ctx => ?_
    refine (Maintains.of_spares (.unwrap _)).bind fun loaded => ?_
    exact orPanic_modest (onWorld_modest (writeAllRegisters_modest isTcb))

/-- The node that is moved to a thread comes from the table. -/
theorem cpuOn_modest {target : Nat} {entry ctxId : UInt64} :
    Maintains (VMM.Modest config) (VMMNode.cpuOn platform target entry ctxId :
      Exec (Failure ε) (VMM E numNodes) Unit) := by
  refine Maintains.bindWhere (.of_spares (.reads _))
    (fun vmm (this : Option (CPtr × VMMNode E)) _ modest run =>
      show ∀ found, this = some found → config.Has found from fun found isFound =>
        modest.table target found (isFound ▸ (reads_eq_ok.mp run).1)) fun this isTable => ?_
  refine Maintains.bind (.modify fun vmm modest => ?_) fun _ => ?_
  · refine ⟨fun i entry isEntry => ?_, modest.threads, modest.world⟩
    rw [Vector.getElem?_setIfInBounds] at isEntry
    split at isEntry
    · split at isEntry
      · simp at isEntry
      · simp at isEntry
    · exact modest.table i entry isEntry
  refine Maintains.bindWhere (.of_spares (.unwrap _))
    (fun _ found _ _ run => isTable found (unwrap_eq_ok.mp run).1) fun found has => ?_
  refine (onWorld_modest (startThread_modest has.thread)).bind fun _ => .modify fun vmm modest => ?_
  refine ⟨modest.table, fun thread member => ?_, modest.world⟩
  rcases List.mem_append.mp member with earlier | isLast
  · exact modest.threads thread earlier
  · rw [List.mem_singleton.mp isLast]
    exact ⟨found.1, has⟩

theorem sysPsci_modest {fault : UnknownSyscall} :
    Maintains (VMM.Modest config) (VMMNode.sysPsci platform fault :
      Exec (Failure ε) (VMM E numNodes) Unit) := by
  refine (Maintains.of_spares (.unwrap _)).bind fun call => ?_
  have answers : ∀ ret, Maintains (VMM.Modest config) (do
      VMMNode.onWorld (modify (World.setMr 0 (signExtend ret)))
      VMMNode.onWorld fault.advanceAndReply : Exec (Failure ε) (VMM E numNodes) Unit) :=
    fun ret => by
      apply Maintains.bind
      · exact onWorld_modest (unrecorded_modest fun _ => rfl)
      · exact fun _ => onWorld_modest advanceAndReply_modest
  refine Maintains.bind ?_ answers
  cases call with
  | version | features | migrateInfoType => exact .of_spares (.pure _)
  | cpuOn target entry ctxId => exact cpuOn_modest.bind fun _ => .of_spares (.pure _)

/-- What the extension does is permitted. -/
structure VMMExtension.Modest (extension : VMMExtension ε E) (config : VMMConfig E) : Prop where
  wf : ∀ node, Maintains (World.Modest config) (extension.handleWf node)
  syscall : ∀ node fault, Maintains (World.Modest config) (extension.handleSyscall node fault)
  putchar : ∀ node c, Maintains (World.Modest config) (extension.handlePutchar node c)

theorem handleFault_modest {fault : Fault} (modest : extension.Modest config)
    (isTcb : ∃ nodeConfig ∈ config.nodes, nodeConfig.tcb = node.tcb) :
    Maintains (VMM.Modest config) (node.handleFault platform extension config fault :
      Exec (Failure ε) (VMM E numNodes) Unit) := by
  have keep := callbacks_keep platform config numNodes
  cases fault with
  | nullFault | capFault | userException => exact .of_spares .panic
  | unknownSyscall fault =>
      refine .ite sysPsci_modest (.ite ?_ (onWorld_modest (modest.syscall node fault)))
      exact (onWorld_modest (modest.putchar node _)).bind fun _ =>
        onWorld_modest advanceAndReply_modest
  | vmFault fault =>
      refine Maintains.bind ?_ fun _ => onWorld_modest reply_modest
      unfold VMMNode.handlePageFault
      cases VMMNode.offsetInRegion fault.addr.toNat config.gicDistPaddr VMMNode.distributorSize with
      | some offset => exact handleGicDistributorFault_modest isTcb
      | none => exact .of_spares .panic
  | vgicMaintenance idx =>
      refine (Maintains.of_spares (.unwrap _)).bind fun _ => ?_
      exact (onGic_modest (GIC.handleMaintenance_embeds keep)).bind fun _ =>
        onWorld_modest reply_modest
  | vcpuFault hsr => exact .ite (onWorld_modest (modest.wf node)) (.of_spares .panic)
  | vppiEvent irq =>
      exact (onGic_modest (GIC.handleIrq_embeds keep)).bind fun _ => onWorld_modest reply_modest

theorem handleEvents_modest {badge : BitVec 64} {words : Nat → BitVec 64} :
    Maintains (VMM.Modest config) (node.handleEvents platform config badge words :
      Exec (Failure ε) (VMM E numNodes) Unit) := by
  refine onGic_modest (.forEach fun group _ => .forEach fun member _ => ?_)
  exact (Maintains.of_spares (.unwrap _)).bind fun irq =>
    GIC.handleIrq_embeds (callbacks_keep platform config numNodes)

theorem enter_modest (isTcb : ∃ nodeConfig ∈ config.nodes, nodeConfig.tcb = node.tcb)
    (isVcpu : ∃ nodeConfig ∈ config.nodes, nodeConfig.vcpu = node.vcpu) :
    Maintains (World.Modest config) (node.enter platform) := by
  have permitted : config.Permits (.writeCntvoff node.vcpu 0) := ⟨isVcpu, rfl⟩
  exact (invoke_modest permitted).bind fun _ => invoke_modest isTcb

theorem callClosure_modest {entry ctxId : UInt64}
    (isTcb : ∃ nodeConfig ∈ config.nodes, nodeConfig.tcb = node.tcb)
    (isVcpu : ∃ nodeConfig ∈ config.nodes, nodeConfig.vcpu = node.vcpu) :
    Maintains (World.Modest config) (node.callClosure platform entry ctxId) := by
  have orPanics : ∀ {β : Type} {call : Exec ε World β}, Maintains (World.Modest config) call →
      Maintains (World.Modest config) (orPanic call) := by
    intro β call maintains world final run modest
    obtain ⟨value, run⟩ := (Infallible.orPanic call).ends run
    exact maintains _ _ (.inl ⟨value, orPanic_eq_ok.mp run⟩) modest
  refine (orPanics (readAllRegisters_modest isTcb)).bind fun ctx => ?_
  refine (Maintains.of_spares (.unwrap _)).bind fun _ => ?_
  exact (orPanics (writeAllRegisters_modest isTcb)).bind fun _ => orPanics (enter_modest isTcb isVcpu)

theorem deliver_modest {world : World} (modest : world.Modest config) (message : Message) :
    (VMM.deliver node world message).Modest config := by
  cases message with
  | events => exact modest
  | fault ctx fault =>
      cases fault with
      | vgicMaintenance idx => cases idx <;> exact modest
      | _ => exact modest

theorem step_modest {step : VMM.Step} (modest : extension.Modest config) :
    Maintains (VMM.Modest config) (VMM.step platform extension config step :
      Exec (Failure ε) (VMM E numNodes) Unit) := by
  have isNode : ∀ (position : Nat) (vmm : VMM E numNodes) (thread : NodeThread E)
      (middle : VMM E numNodes), vmm.Modest config →
      (Exec.reads (fun vmm : VMM E numNodes => vmm.threads[position]?) :
        Exec (Failure ε) _ _) vmm = .ok thread middle →
      ∃ cptr, config.Has (cptr, thread.node) := by
    intro position vmm thread middle modest run
    exact modest.threads thread (List.mem_of_getElem? (reads_eq_ok.mp run).1)
  cases step with
  | begin position =>
      refine Maintains.bindWhere (.of_spares (.reads _)) (isNode position) fun thread has => ?_
      obtain ⟨cptr, has⟩ := has
      refine Maintains.bind ?_ fun _ => .modify fun vmm modest => ?_
      · refine onWorld_modest ?_
        unfold NodeThread.begin
        cases thread.phase with
        | closure entry ctxId => exact callClosure_modest has.tcb has.vcpu
        | run => exact enter_modest has.tcb has.vcpu
        | looping => exact .of_spares .panic
      · refine ⟨modest.table, fun other member => ?_, modest.world⟩
        rcases List.mem_or_eq_of_mem_set member with earlier | rfl
        · exact modest.threads other earlier
        · exact ⟨cptr, has⟩
  | recv position message =>
      refine Maintains.bindWhere (.of_spares (.reads _)) (isNode position) fun thread has => ?_
      obtain ⟨cptr, has⟩ := has
      refine (Maintains.of_spares (.assert _)).bind fun _ => ?_
      refine (onWorld_modest (.modify fun _ modest => deliver_modest modest message)).bind fun _ => ?_
      cases message with
      | fault ctx fault => exact handleFault_modest modest has.tcb
      | events badge words => exact handleEvents_modest

end Nodes

/-! ## The extensions -/

section Extensions
variable {platform : Platform ε}

theorem putchar_modest {config : VMMConfig E} (c : UInt8) :
    Maintains (World.Modest config) (modify (World.record (.putchar c)) : Exec ε World Unit) :=
  record_modest (show config.Permits (.putchar c) from trivial)

theorem Realm.extension_modest (config : VMMConfig Unit) :
    (Realm.extension : VMMExtension ε Unit).Modest config where
  wf _ := .of_spares .panic
  syscall _ _ := .of_spares .panic
  putchar _ c := putchar_modest c

theorem Host.userspaceSyscall_modest {config : VMMConfig Host.Extension}
    {node : VMMNode Host.Extension} {fault : UnknownSyscall}
    {f : VMMNode Host.Extension → List UInt64 → Exec ε World (List UInt64)}
    (modest : ∀ parameters, Maintains (World.Modest config) (f node parameters)) :
    Maintains (World.Modest config) (Host.userspaceSyscall node fault f) := by
  refine (Maintains.of_spares (.mapEach fun _ => .unwrap _)).bind fun parameters => ?_
  refine (modest parameters).bind fun r => (Maintains.of_spares (.assert _)).bind fun _ => ?_
  apply Maintains.bind
  · exact unrecorded_modest fun _ => rfl
  refine fun _ => Maintains.bind (.forEach fun i _ => ?_) fun _ => advanceAndReply_modest
  exact unrecorded_modest fun _ => rfl

theorem Host.callResourceServer_modest {config : VMMConfig Host.Extension}
    {node : VMMNode Host.Extension} {values : List UInt64} :
    Maintains (World.Modest config) (Host.callResourceServer platform node values) := by
  refine (Maintains.of_spares .get).bind fun world => ?_
  refine Maintains.bind (.modify fun world modest => ?_) fun _ => .of_spares (.pure _)
  have permitted : config.Permits
      (.callResourceServer node.extension.resourceServerEp values) := trivial
  exact modest.record permitted

theorem Host.extension_modest (config : VMMConfig Host.Extension) :
    (Host.extension platform).Modest config where
  wf _ := .of_spares .panic
  syscall _ _ := .ite (Host.userspaceSyscall_modest fun _ => Host.callResourceServer_modest)
    (.of_spares .panic)
  putchar _ c := putchar_modest c

end Extensions

/-! ## Runs -/

theorem start_modest {config : VMMConfig E} {world : World} {first : VMM E config.nodes.length}
    (started : config.start world = some first) (nothing : world.effects = []) :
    first.Modest config := by
  unfold VMMConfig.start at started
  split at started
  · next isNode =>
      obtain rfl := Option.some.inj started
      refine ⟨fun i entry isEntry => ?_, fun thread member => ?_, fun effect member => ?_⟩
      · rw [Vector.getElem?_set] at isEntry
        split at isEntry
        · simp at isEntry
        · obtain ⟨inBounds, isEntry⟩ := Vector.getElem?_eq_some_iff.mp isEntry
          rw [Vector.getElem_ofFn] at isEntry
          exact ⟨⟨i, inBounds⟩, Option.some.inj isEntry⟩
      · rw [List.mem_singleton.mp member]
        exact ⟨_, ⟨0, isNode.1⟩, rfl⟩
      · change effect ∈ world.effects at member
        rw [nothing] at member
        exact absurd member List.not_mem_nil
  · simp at started

/-- In every run of a VMM, whatever messages its nodes receive and in whatever order they handle
them, all that is asked of the kernel and the event server is permitted. -/
theorem run_modest {platform : Platform ε} {extension : VMMExtension ε E} {config : VMMConfig E}
    {world : World} {first final : VMM E config.nodes.length}
    {taken : List (VMM E config.nodes.length × VMM.Step)} (modest : extension.Modest config)
    (started : config.start world = some first) (nothing : world.effects = [])
    (run : Recorded (VMM.Moves platform extension config) first taken final) :
    ∀ effect ∈ final.gic.callbacks.effects, config.Permits effect := by
  have holds : final.Modest config :=
    run.always (start_modest started nothing) fun step before after isBefore moved =>
      step_modest modest before after moved isBefore
  exact holds.world

/-- A kernel that refuses nothing, and a resource server that sends back what it is sent. -/
def examplePlatform : Platform Unit where
  refuses _ _ := none
  answer _ values := values
  entry := 0x400000
  intoRaw _ := 0x7000

/-- Two nodes, with one private and one shared interrupt that are events. -/
def exampleHost : VMMConfig Host.Extension where
  eventServerClientEp := [10, 20]
  irqMap := ⟨.ofList [(27, (0, true))], .ofList [(33, (5, 0, true))]⟩
  gicDistPaddr := 0x8000000
  nodes := [⟨11, 12, 13, ⟨14⟩⟩, ⟨21, 22, 23, ⟨24⟩⟩]

def exampleRegisters (value : UInt64) : UserContext := ⟨0x1000, 0x2000, 0, fun _ => value, []⟩

def exampleWorld : World := ⟨fun _ => exampleRegisters 0, fun _ _ => none, fun _ => 0, []⟩

/-- A store of a word to the distributor, of the second register. -/
def exampleStore (offset value : UInt64) : Message :=
  .fault (exampleRegisters value) (.vmFault ⟨0x8000000 + offset, 0x1810040⟩)

def exampleCall (number : UInt64) (x : List UInt64) : Message :=
  .fault (exampleRegisters 0) (.unknownSyscall ⟨fun i => x.getD i 0, 0x1000, 0x2000, 0, 0, number⟩)

/-- The second node is started and turns the distributor on, and the first one is interrupted. -/
def exampleSteps : List VMM.Step := [
  .begin 0,
  .recv 0 (exampleCall Psci.SYS_PSCI [0xC4000003, 1, 0x80000, 7]),
  .begin 1,
  .recv 1 (exampleStore 0 1),
  .recv 0 (exampleStore 0x104 2),
  .recv 0 (.events 1 fun _ => 0x20),
  .recv 0 (.fault (exampleRegisters 0) (.vgicMaintenance (some 0))),
  .recv 0 (exampleCall Host.RESOURCE_SERVER_PASSTHRU [2, 8, 9])]

theorem exampleHost_run
    (check : List (VMM Host.Extension 2 × VMM.Step) × VMM Host.Extension 2 → Bool)
    (checked : ((exampleHost.start exampleWorld).bind fun first =>
      (Recorded.record (fun step (vmm : VMM Host.Extension 2) => (VMM.step examplePlatform
        (Host.extension examplePlatform) exampleHost step vmm).returned) exampleSteps first).map
          check) = some true) :
    ∃ first taken final, exampleHost.start exampleWorld = some first ∧
      Recorded (VMM.Returns examplePlatform (Host.extension examplePlatform) exampleHost) first
        taken final ∧
      taken.map Prod.snd = exampleSteps ∧ check (taken, final) = true := by
  obtain ⟨first, started, checked⟩ := Option.bind_eq_some_iff.mp checked
  obtain ⟨⟨taken, final⟩, recorded, checked⟩ := Option.map_eq_some_iff.mp checked
  refine ⟨first, taken, final, started, ?_, Recorded.record_events recorded, checked⟩
  refine Recorded.ofRecord (fun step before after returned => ?_) .start recorded
  obtain ⟨_, returned⟩ := Outcome.returned_eq_some.mp returned
  exact returned

/-- A run of the host's, and the runs of the realms'. -/
theorem run_modest_exampleHost : (∃ first taken final,
    exampleHost.start exampleWorld = some first ∧
    Recorded (VMM.Moves examplePlatform (Host.extension examplePlatform) exampleHost) first taken
      final ∧
    taken.map Prod.snd = exampleSteps ∧ final.gic.callbacks.effects.length = 20 ∧
    ∀ effect ∈ final.gic.callbacks.effects, exampleHost.Permits effect) ∧
    ∀ (config : VMMConfig Unit) (first final : VMM Unit config.nodes.length) (taken : List _),
      config.start exampleWorld = some first →
        Recorded (VMM.Moves examplePlatform Realm.extension config) first taken final →
          ∀ effect ∈ final.gic.callbacks.effects, config.Permits effect := by
  refine ⟨?_, fun config _ _ _ started run =>
    run_modest (Realm.extension_modest config) started rfl run⟩
  obtain ⟨first, taken, final, started, run, isTaken, checked⟩ := exampleHost_run
    (fun run => run.2.gic.callbacks.effects.length == 20) (by decide +kernel)
  have moves := run.mono fun step before after returns => VMM.Returns.moves returns
  exact ⟨first, taken, final, started, moves, isTaken, beq_iff_eq.mp checked,
    run_modest (Host.extension_modest exampleHost) started rfl moves⟩

end IceCap.Vmm
