import IceCap.Gic.Embedding
import IceCap.Vmm.Node

/-!
# What a handler leaves alone

Up to its reply, the handler of a node changes nothing of the world but the
registers of its own thread, the list registers, and the record of what has been
asked for.
-/

set_option autoImplicit false

namespace IceCap.Vmm

open IceCap.Library IceCap.Gic IceCap.Sel4 Exec

variable {ε E α γ : Type}

def Effect.reply? : Effect → Option (List UInt64)
  | .reply values => some values
  | _ => none

/-- What does not show the registers of a thread, the list registers, or what was asked for other
than a reply. -/
structure World.Hides (view : World → γ) (tcb : CPtr) : Prop where
  record : ∀ effect world, effect.reply? = none → view (world.record effect) = view world
  listReg : ∀ vcpu index held world, view (world.setListReg vcpu index held) = view world
  context : ∀ ctx world, view (world.setContext tcb ctx) = view world

section World
variable {platform : Platform ε} {view : World → γ} {tcb : CPtr}

theorem invoke_spares {effect : Effect} (hides : World.Hides view tcb)
    (notReply : effect.reply? = none) : Spares view (invoke platform effect) := by
  rintro world final (⟨value, run⟩ | ⟨error, run⟩)
  · obtain ⟨_, rfl⟩ := (invoke_eq_ok platform).mp run
    exact hides.record effect world notReply
  · obtain ⟨_, rfl⟩ := (invoke_eq_err platform).mp run
    rfl

theorem readAllRegisters_keeps (hides : World.Hides view tcb) :
    Keeps view (readAllRegisters platform tcb) :=
  (invoke_spares hides rfl).keeps.bind fun _ => .reads _

theorem writeAllRegisters_keeps {ctx : UserContext} (hides : World.Hides view tcb) :
    Keeps view (writeAllRegisters platform tcb ctx) := by
  apply Keeps.bind
  · exact (invoke_spares hides rfl).keeps
  · exact fun _ => .modify fun world => hides.context ctx world

theorem callbacks_keep_view {config : VMMConfig E} {numNodes : Nat} (hides : World.Hides view tcb)
    (shown : γ) : (config.callbacks.callbacks platform).Keep numNodes
      fun world => view world = shown where
  ack callingNode irq _ := by
    change Maintains _ (config.callbacks.ack platform callingNode irq)
    have ends : ∀ call, Spares view
        (config.callbacks.callEventServer callingNode call : Exec ε World Unit) :=
      fun call => (Spares.unwrap _).bind fun _ => .modify fun world => hides.record _ world rfl
    cases irq with
    | qualifiedPpi node irq =>
        cases found : config.callbacks.irqMap.ppi[irq]? with
        | some entry =>
            simp only [VMMGICCallbacks.ack, found]
            exact spares_iff_maintains.mp (.ite (ends _) (.pure _)) shown
        | none =>
            simp only [VMMGICCallbacks.ack, found]
            exact spares_iff_maintains.mp
              ((Spares.unwrap _).bind fun _ => invoke_spares hides rfl) shown
    | spi irq =>
        cases found : config.callbacks.irqMap.spi[irq]? with
        | some entry =>
            simp only [VMMGICCallbacks.ack, found]
            exact spares_iff_maintains.mp (.ite (ends _) (.pure _)) shown
        | none =>
            simp only [VMMGICCallbacks.ack, found]
            exact .of_spares (.pure _)
  inject callingNode targetNode index irq priority _ _ _ _ := by
    have injects : ∀ vcpu virq level group place,
        Spares view (injectIrq platform vcpu virq level group place) := by
      intro vcpu virq level group place
      apply Spares.bind
      · exact invoke_spares hides rfl
      · exact fun _ => .modify fun world => hides.listReg _ _ _ world
    exact spares_iff_maintains.mp ((Spares.unwrap _).bind fun _ => injects _ _ _ _ _) shown

end World

section Handlers
variable {platform : Platform ε} {config : VMMConfig E} {numNodes : Nat} {node : VMMNode E}
  {view : World → γ}

/-- What is seen of the world. -/
def VMM.seen (view : World → γ) (vmm : VMM E numNodes) : γ := view vmm.gic.callbacks

theorem onWorld_keeps {call : Exec ε World α} (keeps : Keeps view call) :
    Keeps (VMM.seen view) (VMMNode.onWorld call : Exec (Failure ε) (VMM E numNodes) α) := by
  intro vmm value final run
  obtain ⟨world, called, rfl⟩ := onWorld_eq_ok.mp run
  exact keeps _ _ _ called

theorem onGic_keeps {call : Exec (Failure ε) (GIC numNodes World) α}
    (maintains : ∀ shown, Maintains (GIC.Embeds fun world => view world = shown) call) :
    Keeps (VMM.seen view) (VMMNode.onGic call : Exec (Failure ε) (VMM E numNodes) α) := by
  intro vmm value final run
  obtain ⟨gic, called, rfl⟩ := focus_eq_ok.mp run
  exact maintains _ _ _ (.inl ⟨value, called⟩) rfl

theorem handlePageFault_keeps {fault : VMFault} (hides : World.Hides view node.tcb) :
    Keeps (VMM.seen view) (node.handlePageFault platform config fault :
      Exec (Failure ε) (VMM E numNodes) Unit) := by
  unfold VMMNode.handlePageFault
  cases VMMNode.offsetInRegion fault.addr.toNat config.gicDistPaddr VMMNode.distributorSize with
  | none => exact .panic
  | some offset =>
      refine (Keeps.assert _).bind fun _ => (Keeps.unwrap _).bind fun _ => (Keeps.assert _).bind fun _ => ?_
      refine (Keeps.unwrap _).bind fun isWrite => .ite ?_ ?_
      · refine (Keeps.orPanic (onWorld_keeps (readAllRegisters_keeps hides))).bind fun ctx => ?_
        refine (Keeps.unwrap _).bind fun data => ?_
        refine (onGic_keeps fun shown =>
          GIC.handleWrite_embeds (callbacks_keep_view hides shown)).bind fun _ => ?_
        exact .orPanic (onWorld_keeps (writeAllRegisters_keeps hides))
      · refine (Keeps.unwrap _).bind fun width => ?_
        refine (onGic_keeps fun shown => GIC.onDist_embeds).bind fun data => ?_
        refine (Keeps.orPanic (onWorld_keeps (readAllRegisters_keeps hides))).bind fun ctx => ?_
        refine (Keeps.unwrap _).bind fun loaded => ?_
        exact .orPanic (onWorld_keeps (writeAllRegisters_keeps hides))

theorem handleEvents_keeps {badge : BitVec 64} {words : Nat → BitVec 64} {tcb : CPtr}
    (hides : World.Hides view tcb) :
    Keeps (VMM.seen view) (node.handleEvents platform config badge words :
      Exec (Failure ε) (VMM E numNodes) Unit) := by
  refine onGic_keeps fun shown => .forEach fun group _ => .forEach fun member _ => ?_
  exact (Maintains.of_spares (.unwrap _)).bind fun irq =>
    GIC.handleIrq_embeds (callbacks_keep_view hides shown)

theorem begin_keeps {thread : NodeThread E} (hides : World.Hides view thread.node.tcb) :
    Keeps view (thread.begin platform) := by
  have enters : Keeps view (thread.node.enter platform) :=
    (invoke_spares hides rfl).keeps.bind fun _ => (invoke_spares hides rfl).keeps
  unfold NodeThread.begin
  cases thread.phase with
  | closure entry ctxId =>
      refine (Keeps.orPanic (readAllRegisters_keeps hides)).bind fun ctx => ?_
      refine (Keeps.unwrap _).bind fun _ => ?_
      exact (Keeps.orPanic (writeAllRegisters_keeps hides)).bind fun _ => .orPanic enters
  | run => exact enters
  | looping => exact .panic

end Handlers

/-! ## The loop does not start nodes by itself -/

section Nodes
variable {platform : Platform ε} {extension : VMMExtension ε E} {config : VMMConfig E}
  {numNodes : Nat} {node : VMMNode E}

/-- Which nodes there are, and who runs them. -/
def VMM.layout (vmm : VMM E numNodes) :
    Vector (Option (CPtr × VMMNode E)) numNodes × List (NodeThread E) :=
  (vmm.nodes, vmm.threads)

theorem onGic_layout {call : Exec (Failure ε) (GIC numNodes World) α} :
    Keeps VMM.layout (VMMNode.onGic call : Exec (Failure ε) (VMM E numNodes) α) :=
  .focus fun _ _ => rfl

theorem onWorld_layout {call : Exec ε World α} :
    Keeps VMM.layout (VMMNode.onWorld call : Exec (Failure ε) (VMM E numNodes) α) := onGic_layout

theorem handlePageFault_layout {fault : VMFault} :
    Keeps VMM.layout (node.handlePageFault platform config fault :
      Exec (Failure ε) (VMM E numNodes) Unit) := by
  unfold VMMNode.handlePageFault
  cases VMMNode.offsetInRegion fault.addr.toNat config.gicDistPaddr VMMNode.distributorSize with
  | none => exact .panic
  | some offset =>
      refine (Keeps.assert _).bind fun _ => (Keeps.unwrap _).bind fun _ => (Keeps.assert _).bind fun _ => ?_
      refine (Keeps.unwrap _).bind fun isWrite => .ite ?_ ?_
      · exact (Keeps.orPanic onWorld_layout).bind fun _ => (Keeps.unwrap _).bind fun _ =>
          onGic_layout.bind fun _ => .orPanic onWorld_layout
      · exact (Keeps.unwrap _).bind fun _ => onGic_layout.bind fun _ =>
          (Keeps.orPanic onWorld_layout).bind fun _ => (Keeps.unwrap _).bind fun _ =>
            .orPanic onWorld_layout

/-- The call that starts a node. -/
def Message.cpuOn? : Message → Option (Nat × UInt64 × UInt64)
  | .fault _ (.unknownSyscall syscall) =>
      if syscall.syscall = Psci.SYS_PSCI then
        match Psci.Call.parse syscall with
        | some (.cpuOn target entry ctxId) => some (target, entry, ctxId)
        | _ => none
      else none
  | _ => none

theorem sysPsci_layout {fault : UnknownSyscall}
    (notCpuOn : ∀ target entry ctxId, Psci.Call.parse fault ≠ some (.cpuOn target entry ctxId)) :
    Keeps VMM.layout (VMMNode.sysPsci platform fault : Exec (Failure ε) (VMM E numNodes) Unit) := by
  intro vmm value final run
  obtain ⟨call, _, parsed, rest⟩ := bind_eq_ok.mp run
  obtain ⟨isCall, rfl⟩ := unwrap_eq_ok.mp parsed
  have answers : ∀ ret, Keeps VMM.layout (do
      VMMNode.onWorld (modify (World.setMr 0 (signExtend ret)))
      VMMNode.onWorld fault.advanceAndReply : Exec (Failure ε) (VMM E numNodes) Unit) :=
    fun ret => onWorld_layout.bind fun _ => onWorld_layout
  cases call with
  | version | features | migrateInfoType => exact ((Keeps.pure _).bind answers) _ _ _ rest
  | cpuOn target entry ctxId => exact absurd isCall (notCpuOn target entry ctxId)

/-- Only this call changes which nodes there are. -/
theorem handle_layout {message : Message} (notCpuOn : message.cpuOn? = none) :
    Keeps VMM.layout (VMM.handle platform extension config node message :
      Exec (Failure ε) (VMM E numNodes) Unit) := by
  cases message with
  | events badge words => exact onGic_layout
  | fault ctx fault =>
      cases fault with
      | nullFault | capFault | userException => exact .panic
      | vmFault fault => exact handlePageFault_layout.bind fun _ => onWorld_layout
      | vgicMaintenance idx =>
          exact (Keeps.unwrap _).bind fun _ => onGic_layout.bind fun _ => onWorld_layout
      | vcpuFault hsr => exact .ite onWorld_layout .panic
      | vppiEvent irq => exact onGic_layout.bind fun _ => onWorld_layout
      | unknownSyscall fault =>
          change Keeps VMM.layout (node.handleSyscall platform extension fault)
          unfold VMMNode.handleSyscall
          by_cases isPsci : fault.syscall = Psci.SYS_PSCI
          · rw [if_pos isPsci]
            simp only [Message.cpuOn?, if_pos isPsci] at notCpuOn
            exact sysPsci_layout fun target entry ctxId isCall => by simp [isCall] at notCpuOn
          · rw [if_neg isPsci]
            exact .ite (onWorld_layout.bind fun _ => onWorld_layout) onWorld_layout

end Nodes

end IceCap.Vmm
