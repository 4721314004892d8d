import IceCap.Gic.Steady
import IceCap.Vmm.Effects

/-!
# A VMM that goes on

The guest, the hardware and the event server may do to a VMM what they are there
for.  If that is all they do, and the kernel does not refuse what it can do, no
node of the VMM ever stops: each handler returns, without an error and without a
panic.
-/

set_option autoImplicit false

namespace IceCap.Vmm

open IceCap.Library IceCap.Gic IceCap.Sel4 Exec

variable {ε E α : Type}

/-! ## What is relied upon -/

/-- The private interrupts that somebody can acknowledge: the event server, or the kernel. -/
def VMMConfig.Knows (config : VMMConfig E) (vppi : Nat → Prop) (irq : Irq) : Prop :=
  (config.irqMap.ppi[irq]?).isSome = true ∨ vppi irq

def VMMConfig.Free (config : VMMConfig E) (world : World) (node index : Nat) : Prop :=
  ∀ vcpu, config.callbacks.vcpus[node]? = some vcpu → world.listRegs vcpu index = none

/-- A kernel that acknowledges the virtual private interrupts, injects into list registers that are
free, and refuses nothing else. -/
structure Platform.Willing (platform : Platform ε) (vppi : Nat → Prop) : Prop where
  readAllRegisters : ∀ world tcb, platform.refuses world (.readAllRegisters tcb) = none
  writeAllRegisters : ∀ world tcb ctx, platform.refuses world (.writeAllRegisters tcb ctx) = none
  resume : ∀ world tcb, platform.refuses world (.resume tcb) = none
  writeCntvoff : ∀ world vcpu value, platform.refuses world (.writeCntvoff vcpu value) = none
  ackVppi : ∀ world vcpu irq, vppi irq.toNat → platform.refuses world (.ackVppi vcpu irq) = none
  injectIrq : ∀ world vcpu virq priority index, virq.toNat < 1020 → priority.toNat < 32 →
    index.toNat < numLrs → world.listRegs vcpu index.toNat = none →
    platform.refuses world (.injectIrq vcpu virq priority 0 index) = none

/-- The interrupts of the map are what they are listed as. -/
structure IRQMap.Proper (irqMap : IRQMap) : Prop where
  ppi : ∀ (irq : Nat) entry, irqMap.ppi[irq]? = some entry → irq < 32
  spi : ∀ (irq : Nat) entry, irqMap.spi[irq]? = some entry → 32 ≤ irq ∧ irq < 1020

structure VMMConfig.Proper (config : VMMConfig E) : Prop where
  atMost : config.nodes.length ≤ 8
  vcpus : (config.nodes.map VMMNodeConfig.vcpu).Nodup
  irqMap : config.irqMap.Proper
  gicDistPaddr : 4 ∣ config.gicDistPaddr

theorem searchSpi_mem {nodeIndex inIndex : Nat} {irq : QualifiedIrq}
    {entries : List (Nat × Nat × Nat × Bool)}
    (found : searchSpi nodeIndex inIndex entries = some irq) :
    ∃ spi entry, (spi, entry) ∈ entries ∧ irq = .spi spi := by
  induction entries with
  | nil => simp [searchSpi] at found
  | cons first entries ih =>
      obtain ⟨spi, isSpi, nid, mustAck⟩ := first
      rw [searchSpi] at found
      split at found
      · split at found
        · exact ⟨spi, _, List.mem_cons_self, (Option.some.inj found).symm⟩
        · obtain ⟨other, entry, member, isIrq⟩ := ih found
          exact ⟨other, entry, List.mem_cons_of_mem _ member, isIrq⟩
      · simp at found

theorem search_exists {irqMap : IRQMap} {numNodes nodeIndex inIndex : Nat} {irq : QualifiedIrq}
    (proper : irqMap.Proper) (isNode : nodeIndex < numNodes)
    (found : irqMap.search nodeIndex inIndex = some irq) : irq.Exists numNodes := by
  unfold IRQMap.search at found
  split at found
  · next ppi entry isFound =>
      obtain rfl := Option.some.inj found
      have isEntry := Std.TreeMap.mem_toList_iff_getElem?_eq_some.mp (List.mem_of_find?_eq_some isFound)
      exact ⟨isNode, proper.ppi _ _ isEntry⟩
  · obtain ⟨spi, entry, member, rfl⟩ := searchSpi_mem found
    exact proper.spi spi entry (Std.TreeMap.mem_toList_iff_getElem?_eq_some.mp member)

/-! ## The callbacks of the GIC -/

section Callbacks
variable {platform : Platform ε} {config : VMMConfig E} {vppi : Nat → Prop}

theorem free_of_listRegs {world final : World} (same : final.listRegs = world.listRegs)
    {node index : Nat} (free : config.Free world node index) : config.Free final node index := by
  intro vcpu isVcpu
  rw [same]
  exact free vcpu isVcpu

theorem callEventServer_returns {callingNode : Nat} (call : EventServerCall)
    (isNode : callingNode < config.eventServerClientEp.length) (world : World) :
    ∃ final, (config.callbacks.callEventServer callingNode call : Exec ε World Unit) world =
      .ok () final ∧ final.listRegs = world.listRegs := by
  have isEp : config.callbacks.eventServerClient[callingNode]? =
      some config.eventServerClientEp[callingNode] := List.getElem?_eq_getElem isNode
  rw [VMMGICCallbacks.callEventServer, unwrap_bind isEp]
  exact ⟨_, rfl, rfl⟩

theorem callbacks_serve (willing : platform.Willing vppi) (proper : config.Proper)
    (endpoints : config.nodes.length ≤ config.eventServerClientEp.length) :
    (config.callbacks.callbacks platform).Serve config.nodes.length (config.Knows vppi) config.Free where
  ack callingNode irq world isCaller isServed := by
    change ∃ final, config.callbacks.ack platform callingNode irq world = .ok () final ∧ _
    have isEp := Nat.lt_of_lt_of_le isCaller endpoints
    have ends : ∀ call, ∃ final,
        (config.callbacks.callEventServer callingNode call : Exec ε World Unit) world = .ok () final ∧
          ∀ node index, config.Free world node index → config.Free final node index := by
      intro call
      obtain ⟨final, run, same⟩ := @callEventServer_returns ε E config callingNode call isEp world
      exact ⟨final, run, fun node index => free_of_listRegs same⟩
    cases irq with
    | qualifiedPpi node irq =>
        obtain ⟨isNode, isPrivate, isKnown⟩ := isServed
        cases found : config.callbacks.irqMap.ppi[irq]? with
        | some entry =>
            obtain ⟨inIndex, mustAck⟩ := entry
            simp only [VMMGICCallbacks.ack, found]
            cases mustAck with
            | false => exact ⟨world, rfl, fun _ _ => id⟩
            | true => exact ends _
        | none =>
            simp only [VMMGICCallbacks.ack, found]
            have isVppi : vppi irq := isKnown.resolve_left fun isSome => by
              have isMap : config.irqMap.ppi[irq]? = none := found
              simp [isMap] at isSome
            have isVcpu : config.callbacks.vcpus[node]? = some config.nodes[node].vcpu := by
              simp [VMMConfig.callbacks, isNode]
            have isWord : (UInt64.ofNat irq).toNat = irq := by
              rw [UInt64.toNat_ofNat']
              exact Nat.mod_eq_of_lt (Nat.lt_trans isPrivate (by decide))
            have accepts := willing.ackVppi world config.nodes[node].vcpu (UInt64.ofNat irq)
              (by rwa [isWord])
            rw [unwrap_bind isVcpu]
            exact ⟨_, (invoke_eq_ok platform).mpr ⟨accepts, rfl⟩, fun _ _ => free_of_listRegs rfl⟩
    | spi irq =>
        cases found : config.callbacks.irqMap.spi[irq]? with
        | some entry =>
            obtain ⟨inIndex, nid, mustAck⟩ := entry
            simp only [VMMGICCallbacks.ack, found]
            cases mustAck with
            | false => exact ⟨world, rfl, fun _ _ => id⟩
            | true => exact ends _
        | none =>
            simp only [VMMGICCallbacks.ack, found]
            exact ⟨world, rfl, fun _ _ => id⟩
  inject callingNode targetNode index irq priority world _ isNode isIndex isIrq isPriority isFree := by
    change ∃ final, config.callbacks.vcpuInjectIrq platform targetNode index irq priority world =
      .ok () final ∧ _
    have isVcpu : config.callbacks.vcpus[targetNode]? = some config.nodes[targetNode].vcpu := by
      simp [VMMConfig.callbacks, isNode]
    have isPlace : (UInt8.ofNat index).toNat = index := by
      rw [UInt8.toNat_ofNat']
      exact Nat.mod_eq_of_lt (Nat.lt_trans isIndex (by decide))
    have accepts := willing.injectIrq world config.nodes[targetNode].vcpu (UInt16.ofNat irq)
      (UInt8.ofNat priority) (UInt8.ofNat index)
      (by rw [UInt16.toNat_ofNat']; exact Nat.lt_of_le_of_lt (Nat.mod_le _ _) isIrq)
      (by rw [UInt8.toNat_ofNat']; exact Nat.lt_of_le_of_lt (Nat.mod_le _ _) isPriority)
      (by rwa [isPlace]) (by rw [isPlace]; exact isFree _ isVcpu)
    rw [VMMGICCallbacks.vcpuInjectIrq, unwrap_bind isVcpu]
    refine ⟨_, bind_eq_ok.mpr ⟨(), _, (invoke_eq_ok platform).mpr ⟨accepts, rfl⟩, rfl⟩, ?_⟩
    intro node other differs stillFree vcpu isOther
    simp only [World.setListReg, World.record, isPlace]
    by_cases sameVcpu : vcpu = config.nodes[targetNode].vcpu
    · have sameNode : node = targetNode :=
        (List.getElem?_inj (List.getElem?_eq_some_iff.mp isOther).1 proper.vcpus).mp
          (isOther.trans (sameVcpu ▸ isVcpu.symm))
      rw [sameVcpu, Function.update_self, Function.update_of_ne fun same => differs ⟨sameNode, same⟩]
      exact sameVcpu ▸ stillFree vcpu isOther
    · rw [Function.update_of_ne sameVcpu]
      exact stillFree vcpu isOther

end Callbacks

/-! ## The state of a VMM -/

structure VMM.Steady (config : VMMConfig E) (vppi : Nat → Prop) (vmm : VMM E config.nodes.length) :
    Prop where
  gic : vmm.gic.Steady (config.Knows vppi) config.Free
  table : ∀ (i : Nat) (entry : CPtr × VMMNode E), vmm.nodes[i]? = some (some entry) →
    config.Has entry
  threads : ∀ thread ∈ vmm.threads, ∃ cptr, config.Has (cptr, thread.node)

/-- The call returns, and leaves the list registers alone. -/
def Serves (call : Exec ε World α) : Prop :=
  ∀ listRegs, Total (fun world => world.listRegs = listRegs) call
    fun _ world => world.listRegs = listRegs

section Calls
variable {platform : Platform ε} {config : VMMConfig E} {vppi : Nat → Prop} {β : Type}

theorem Serves.bind {call : Exec ε World α} {next : α → Exec ε World β} (first : Serves call)
    (rest : ∀ value, Serves (next value)) : Serves (call >>= next) :=
  fun listRegs => (first listRegs).bind fun value => rest value listRegs

theorem Serves.modify {update : World → World}
    (same : ∀ world, (update world).listRegs = world.listRegs) :
    Serves (Exec.modify update : Exec ε World Unit) :=
  fun _ => .modify fun world isRegs => (same world).trans isRegs

theorem Serves.invoke {effect : Effect} (accepts : ∀ world, platform.refuses world effect = none) :
    Serves (invoke platform effect) := by
  intro listRegs
  refine total_iff.mpr fun world isRegs => ?_
  exact ⟨(), world.record effect, (invoke_eq_ok platform).mpr ⟨accepts world, rfl⟩, isRegs⟩

theorem Serves.orPanic {call : Exec ε World α} (serves : Serves call) :
    Serves (Exec.orPanic call) :=
  fun listRegs => (serves listRegs).orPanic

theorem readAllRegisters_serves (willing : platform.Willing vppi) {tcb : CPtr} :
    Serves (readAllRegisters platform tcb) := by
  refine (Serves.invoke (willing.readAllRegisters · tcb)).bind fun _ listRegs => ?_
  exact (Triple.reads fun world _ => ⟨_, rfl⟩).weaken fun _ _ holds => holds.2

theorem writeAllRegisters_serves (willing : platform.Willing vppi) {tcb : CPtr} {ctx : UserContext} :
    Serves (writeAllRegisters platform tcb ctx) :=
  (Serves.invoke (willing.writeAllRegisters · tcb ctx)).bind fun _ => .modify fun _ => rfl

theorem reply_serves {length : Nat} : Serves (reply length : Exec ε World Unit) :=
  .modify fun _ => rfl

theorem advanceAndReply_serves {fault : UnknownSyscall} :
    Serves (fault.advanceAndReply : Exec ε World Unit) := by
  apply Serves.bind
  · exact .modify fun _ => rfl
  · exact fun _ => reply_serves

theorem onWorld_total {call : Exec ε World α} (serves : Serves call) :
    Total (VMM.Steady config vppi)
      (VMMNode.onWorld call : Exec (Failure ε) (VMM E config.nodes.length) α)
      fun _ => VMM.Steady config vppi := by
  refine total_iff.mpr fun vmm steady => ?_
  obtain ⟨value, world, run, same⟩ := total_iff.mp (serves _) vmm.gic.callbacks rfl
  refine ⟨value, _, onWorld_eq_ok.mpr ⟨world, run, rfl⟩, ⟨?_, steady.table, steady.threads⟩⟩
  refine ⟨steady.gic.dist, steady.gic.slots, steady.gic.queues, ?_⟩
  intro node index isNode isIndex isEmpty
  exact free_of_listRegs same (steady.gic.free node index isNode isIndex isEmpty)

theorem onGic_total {pre : VMM E config.nodes.length → Prop}
    {met : GIC config.nodes.length World → Prop}
    {call : Exec (Failure ε) (GIC config.nodes.length World) α}
    (total : Total met call fun _ => GIC.Steady (config.Knows vppi) config.Free)
    (holds : ∀ vmm, pre vmm → vmm.Steady config vppi ∧ met vmm.gic) :
    Total pre (VMMNode.onGic call) fun _ => VMM.Steady config vppi := by
  refine total_iff.mpr fun vmm isPre => ?_
  obtain ⟨steady, isMet⟩ := holds vmm isPre
  obtain ⟨value, gic, run, isSteady⟩ := total_iff.mp total vmm.gic isMet
  exact ⟨value, _, focus_eq_ok.mpr ⟨gic, run, rfl⟩, isSteady, steady.table, steady.threads⟩

end Calls

/-! ## Orderly messages -/

/-- An access to the distributor that a guest may make, with its registers. -/
structure VMFault.Orderly (fault : VMFault) (known : Irq → Prop) (numNodes : Nat)
    (ctx : UserContext) (offset : Nat) : Prop where
  isAligned : fault.isAligned = some true
  store : fault.isWrite = some true →
    ∃ data, fault.data ctx = some data ∧ data.toGic.Orderly known numNodes offset
  load : fault.isWrite = some false → fault.width = some .word ∧ fault.srt ≠ 31 ∧
    ∃ reg, DistRegWord.fromOffset offset = some reg ∧ reg.Readable

/-- A call of PSCI that there is; a node that is to be started has not been started. -/
def UnknownSyscall.IsPsci {numNodes : Nat} (fault : UnknownSyscall) (vmm : VMM E numNodes) : Prop :=
  ∃ call, Psci.Call.parse fault = some call ∧ ∀ target entry ctxId,
    call = .cpuOn target entry ctxId → ∃ found, vmm.nodes[target]? = some (some found)

section Orderly
variable (config : VMMConfig E) (vppi : Nat → Prop) (accepted : UnknownSyscall → Prop)

/-- The guest is a kernel that drives the devices there are and makes the calls there are; the
hardware reports a list register only when there is an interrupt in it. -/
def Fault.Orderly (vmm : VMM E config.nodes.length) (node : VMMNode E) (ctx : UserContext) :
    Fault → Prop
  | .vmFault fault => ∃ offset,
      VMMNode.offsetInRegion fault.addr.toNat config.gicDistPaddr VMMNode.distributorSize =
        some offset ∧
      fault.Orderly (config.Knows vppi) config.nodes.length ctx offset
  | .unknownSyscall fault =>
      if fault.syscall = Psci.SYS_PSCI then fault.IsPsci vmm
      else fault.syscall ≠ SYS_PUTCHAR → accepted fault
  | .vgicMaintenance idx => ∃ index, idx = some index ∧ index.toNat < numLrs ∧
      vmm.gic.callbacks.listRegs node.vcpu index.toNat ≠ none
  | .vppiEvent irq => irq.toNat < 32
  | .nullFault | .capFault | .userException | .vcpuFault _ => False

/-- An event of an orderly event server has an interrupt. -/
def Message.Orderly (vmm : VMM E config.nodes.length) (node : VMMNode E) : Message → Prop
  | .fault ctx received => received.Orderly config vppi accepted vmm node ctx
  | .events badge words => ∀ group ∈ biterate badge, ∀ member ∈ biterate (words group),
      (config.irqMap.search node.nodeIndex (group * 64 + member)).isSome = true

def VMM.Orderly (vmm : VMM E config.nodes.length) : Step → Prop
  | .begin position => ∃ thread, vmm.threads[position]? = some thread ∧ thread.phase ≠ .looping
  | .recv position message => ∃ thread, vmm.threads[position]? = some thread ∧
      thread.phase = .looping ∧ message.Orderly config vppi accepted vmm thread.node

end Orderly

/-- The extension handles the calls that are accepted. -/
structure VMMExtension.Accepts (extension : VMMExtension ε E) (accepted : UnknownSyscall → Prop) :
    Prop where
  syscall : ∀ node fault, accepted fault → Serves (extension.handleSyscall node fault)
  putchar : ∀ node c, Serves (extension.handlePutchar node c)

/-! ## Handlers -/

section Handlers
variable {platform : Platform ε} {extension : VMMExtension ε E} {config : VMMConfig E}
  {vppi : Nat → Prop} {accepted : UnknownSyscall → Prop} {node : VMMNode E}

theorem dvd_of_isAligned {fault : VMFault} (aligned : fault.isAligned = some true)
    (isWidth : fault.width = some .word) : 4 ∣ fault.addr.toNat := by
  have isMask : fault.addr &&& 0x3 = 0 := by
    simpa [VMFault.isAligned, isWidth] using aligned
  have isZero : fault.addr.toNat % 4 = 0 := by
    have same := congrArg UInt64.toNat isMask
    rw [UInt64.toNat_and] at same
    exact (Nat.and_two_pow_sub_one_eq_mod fault.addr.toNat 2).symm.trans same
  exact Nat.dvd_of_mod_eq_zero isZero

theorem offsetInRegion_dvd {addr regionStart regionSize offset : Nat}
    (isOffset : VMMNode.offsetInRegion addr regionStart regionSize = some offset)
    (isAddr : 4 ∣ addr) (isStart : 4 ∣ regionStart) : 4 ∣ offset := by
  unfold VMMNode.offsetInRegion at isOffset
  split at isOffset
  · obtain rfl := Option.some.inj isOffset
    exact Nat.dvd_sub isAddr isStart
  · simp at isOffset

theorem isValid_of_isAligned {fault : VMFault} {answer : Bool}
    (isAnswer : fault.isAligned = some answer) : fault.isValid = true := by
  cases isValid : fault.isValid with
  | true => rfl
  | false => simp [VMFault.isAligned, VMFault.width, VMFault.validHsr, isValid] at isAnswer

theorem isWrite_of_isValid {fault : VMFault} (isValid : fault.isValid = true) :
    ∃ answer, fault.isWrite = some answer := by
  simp [VMFault.isWrite, VMFault.validHsr, isValid]

theorem word_of_isWrite {fault : VMFault} {ctx : UserContext} {data : VMFaultData}
    (isData : fault.data ctx = some data) {val : Register32} (isWord : data.toGic = .word val) :
    fault.width = some .word := by
  simp only [VMFault.data, Option.bind_eq_bind, Option.bind_eq_some_iff] at isData
  obtain ⟨_, _, _, _, width, isWidth, _, _, _, _, isData⟩ := isData
  obtain rfl := Option.some.inj isData
  rw [isWidth]
  cases width with
  | word => rfl
  | byte | halfWord | doubleWord => simp [VMFaultWidth.truncate, VMFaultData.toGic] at isWord

theorem emulateRead_isSome {fault : VMFault} {ctx : UserContext} {val : UInt32}
    (isWrite : fault.isWrite = some false) (isWidth : fault.width = some .word)
    (isGpr : fault.srt ≠ 31) : ∃ loaded, fault.emulateRead ctx (.word val) = some loaded := by
  obtain ⟨ix, isIndex, isSrt⟩ := gprIndex_eq (isValid_of_isWrite isWrite)
  have inside : ix.toNat < 31 := by
    have below : fault.srt < 32 := Nat.mod_lt _ (by decide)
    omega
  simp [VMFault.emulateRead, VMFault.isRead, isWrite, isWidth, isIndex, VMFaultData.width,
    UserContext.setGpr, inside]

theorem VMMConfig.Has.vcpuOf {entry : CPtr × VMMNode E} (has : config.Has entry) :
    entry.2.nodeIndex < config.nodes.length ∧
      config.callbacks.vcpus[entry.2.nodeIndex]? = some entry.2.vcpu := by
  obtain ⟨i, rfl⟩ := has
  exact ⟨i.isLt, by simp [VMMConfig.callbacks, VMMConfig.node]⟩

/-- The registers of the guest's thread are the ones that the message came with. -/
theorem readAllRegisters_total (willing : platform.Willing vppi) {ctx : UserContext} :
    Total (fun vmm : VMM E config.nodes.length =>
        vmm.gic.callbacks.contexts node.tcb = ctx ∧ vmm.Steady config vppi)
      (Exec.orPanic (VMMNode.onWorld (readAllRegisters platform node.tcb)) :
        Exec (Failure ε) _ UserContext)
      fun value vmm => value = ctx ∧ vmm.Steady config vppi := by
  refine total_iff.mpr fun vmm ⟨isContext, steady⟩ => ?_
  obtain ⟨value, final, run, isSteady⟩ :=
    total_iff.mp (onWorld_total (readAllRegisters_serves willing)).orPanic vmm steady
  refine ⟨value, final, run, ?_, isSteady⟩
  obtain ⟨world, read, rfl⟩ := onWorld_eq_ok.mp (orPanic_eq_ok.mp run)
  obtain ⟨_, _, invoked, isRead⟩ := bind_eq_ok.mp read
  obtain ⟨_, rfl⟩ := (invoke_eq_ok platform).mp invoked
  obtain ⟨isValue, _⟩ := reads_eq_ok.mp isRead
  exact (Option.some.inj isValue).symm.trans isContext

theorem handleGicDistributorFault_total (willing : platform.Willing vppi) (proper : config.Proper)
    (endpoints : config.nodes.length ≤ config.eventServerClientEp.length)
    (isNode : node.nodeIndex < config.nodes.length) {fault : VMFault} {offset : Nat}
    {ctx : UserContext}
    (isOffset : VMMNode.offsetInRegion fault.addr.toNat config.gicDistPaddr
      VMMNode.distributorSize = some offset)
    (orderly : fault.Orderly (config.Knows vppi) config.nodes.length ctx offset) :
    Total (fun vmm : VMM E config.nodes.length =>
        vmm.gic.callbacks.contexts node.tcb = ctx ∧ vmm.Steady config vppi)
      (node.handleGicDistributorFault platform config fault offset : Exec (Failure ε) _ Unit)
      fun _ => VMM.Steady config vppi := by
  have isValid := isValid_of_isAligned orderly.isAligned
  obtain ⟨answer, isWrite⟩ := isWrite_of_isValid isValid
  have isDivided (isWidth : fault.width = some .word) : 4 ∣ offset :=
    offsetInRegion_dvd isOffset (dvd_of_isAligned orderly.isAligned isWidth) proper.gicDistPaddr
  unfold VMMNode.handleGicDistributorFault
  refine Triple.bind (.assert fun _ _ => isValid) fun _ => .of_fact fun _ => ?_
  refine .unwrapped orderly.isAligned ?_
  refine Triple.bind (.assert fun _ _ => rfl) fun _ => .of_fact fun _ => ?_
  refine .unwrapped isWrite ?_
  cases answer with
  | true =>
      obtain ⟨data, isData, isOrderly⟩ := orderly.store isWrite
      refine Triple.bind (readAllRegisters_total willing) fun value => .of_fact fun isCtx => ?_
      rw [isCtx]
      refine .unwrapped isData ?_
      refine Triple.through (fun _ => VMM.Steady config vppi) ?_ fun _ => ?_
      · exact onGic_total (GIC.handleWrite_total (callbacks_serve willing proper endpoints)
          proper.atMost isNode (fun val isWord => isDivided (word_of_isWrite isData isWord))
          isOrderly) fun vmm steady => ⟨steady, steady.gic⟩
      · exact (onWorld_total (writeAllRegisters_serves willing)).orPanic
  | false =>
      obtain ⟨isWidth, isGpr, reg, decodes, readable⟩ := orderly.load isWrite
      have reads : Total (VMM.Steady config vppi)
          (VMMNode.onGic (GIC.handleRead node.nodeIndex offset .word) :
            Exec (Failure ε) (VMM E config.nodes.length) FaultData)
          fun data vmm => (∃ val, data = .word val) ∧ vmm.Steady config vppi := by
        refine total_iff.mpr fun vmm steady => ?_
        obtain ⟨val, run⟩ := @Distributor.handleRead_total _ vmm.gic.dist _ _ _ isNode
          (isDivided isWidth) decodes readable
        refine ⟨.word val, vmm, focus_eq_ok.mpr ⟨vmm.gic, ?_, rfl⟩, ⟨val, rfl⟩, steady⟩
        exact GIC.onDist_eq_ok.mpr ⟨_, run, rfl⟩
      refine .unwrapped isWidth ?_
      refine Triple.bind (reads.strengthen fun _ holds => holds.2) fun data =>
        .of_fact fun isWord => ?_
      obtain ⟨val, rfl⟩ := isWord
      refine Triple.through (fun _ => VMM.Steady config vppi)
        (onWorld_total (readAllRegisters_serves willing)).orPanic fun value => ?_
      obtain ⟨loaded, isLoaded⟩ :=
        @emulateRead_isSome fault value ⟨val⟩ isWrite isWidth isGpr
      refine .unwrapped isLoaded ?_
      exact (onWorld_total (writeAllRegisters_serves willing)).orPanic

theorem cpuOn_total {target : Nat} {entry ctxId : UInt64} :
    Total (fun vmm : VMM E config.nodes.length =>
        (∃ found, vmm.nodes[target]? = some (some found)) ∧ vmm.Steady config vppi)
      (VMMNode.cpuOn platform target entry ctxId : Exec (Failure ε) _ Unit)
      fun _ => VMM.Steady config vppi := by
  refine total_iff.mpr fun vmm ⟨⟨found, isFound⟩, steady⟩ => ?_
  refine ⟨(), _, cpuOn_eq_ok.mpr ⟨found, isFound, rfl⟩, ?_, fun i other isOther => ?_,
    fun thread member => ?_⟩
  · exact ⟨steady.gic.dist, steady.gic.slots, steady.gic.queues, steady.gic.free⟩
  · change (vmm.nodes.setIfInBounds target none)[i]? = _ at isOther
    rw [Vector.getElem?_setIfInBounds] at isOther
    split at isOther
    · split at isOther <;> simp at isOther
    · exact steady.table i other isOther
  · rcases List.mem_append.mp member with earlier | isLast
    · exact steady.threads thread earlier
    · rw [List.mem_singleton.mp isLast]
      exact ⟨found.1, steady.table target found isFound⟩

theorem sysPsci_total {fault : UnknownSyscall} :
    Total (fun vmm : VMM E config.nodes.length => fault.IsPsci vmm ∧ vmm.Steady config vppi)
      (VMMNode.sysPsci platform fault : Exec (Failure ε) _ Unit)
      fun _ => VMM.Steady config vppi := by
  have answers (ret : Int32) : Total (VMM.Steady config vppi) (do
      VMMNode.onWorld (Exec.modify (World.setMr 0 (signExtend ret)))
      VMMNode.onWorld fault.advanceAndReply : Exec (Failure ε) (VMM E config.nodes.length) Unit)
      fun _ => VMM.Steady config vppi := by
    apply Triple.bind
    · exact onWorld_total (.modify fun _ => rfl)
    · exact fun _ => onWorld_total advanceAndReply_serves
  intro vmm ⟨⟨call, isCall, isTarget⟩, steady⟩
  have total : Total (fun vmm : VMM E config.nodes.length => (∀ target entry ctxId,
        call = .cpuOn target entry ctxId → ∃ found, vmm.nodes[target]? = some (some found)) ∧
        vmm.Steady config vppi)
      (VMMNode.sysPsci platform fault : Exec (Failure ε) _ Unit)
      fun _ => VMM.Steady config vppi := by
    refine .unwrapped isCall ?_
    refine Triple.through (fun _ => VMM.Steady config vppi) ?_ answers
    cases call with
    | version | features | migrateInfoType => exact .pure fun _ holds => holds.2
    | cpuOn target entry ctxId =>
        refine Triple.through (fun _ => VMM.Steady config vppi) ?_ fun _ => .pure fun _ holds => holds
        exact cpuOn_total.strengthen fun _ holds => ⟨holds.1 target entry ctxId rfl, holds.2⟩
  exact total vmm ⟨isTarget, steady⟩

theorem handleSyscall_total {fault : UnknownSyscall} (accepts : extension.Accepts accepted) :
    Total (fun vmm : VMM E config.nodes.length => (if fault.syscall = Psci.SYS_PSCI
        then fault.IsPsci vmm else fault.syscall ≠ SYS_PUTCHAR → accepted fault) ∧
        vmm.Steady config vppi)
      (node.handleSyscall platform extension fault : Exec (Failure ε) _ Unit)
      fun _ => VMM.Steady config vppi := by
  refine .ite (fun isPsci => ?_) fun notPsci => .ite (fun _ => ?_) fun notPutchar => ?_
  · exact sysPsci_total.strengthen fun vmm holds => ⟨by simpa [isPsci] using holds.1, holds.2⟩
  · refine Triple.through (fun _ => VMM.Steady config vppi) ?_ fun _ =>
      onWorld_total advanceAndReply_serves
    exact (onWorld_total (accepts.putchar node _)).strengthen fun _ holds => holds.2
  · intro vmm ⟨orderly, steady⟩
    rw [if_neg notPsci] at orderly
    exact onWorld_total (accepts.syscall node fault (orderly notPutchar)) vmm steady

theorem handleFault_total (willing : platform.Willing vppi) (proper : config.Proper)
    (endpoints : config.nodes.length ≤ config.eventServerClientEp.length)
    (accepts : extension.Accepts accepted) (isNode : node.nodeIndex < config.nodes.length)
    (isVcpu : config.callbacks.vcpus[node.nodeIndex]? = some node.vcpu) {fault : Fault}
    {ctx : UserContext} {vmm delivered : VMM E config.nodes.length}
    (steady : vmm.Steady config vppi) (orderly : fault.Orderly config vppi accepted vmm node ctx)
    (isDelivered : delivered = { vmm with gic := { vmm.gic with
      callbacks := VMM.deliver node vmm.gic.callbacks (.fault ctx fault) } })
    (stillSteady : delivered.Steady config vppi) :
    ∃ final, (node.handleFault platform extension config fault : Exec (Failure ε) _ Unit) delivered =
      .ok () final ∧ final.Steady config vppi := by
  have serve := callbacks_serve willing proper endpoints
  have replies : Total (VMM.Steady config vppi)
      (VMMNode.onWorld (reply 0) : Exec (Failure ε) (VMM E config.nodes.length) Unit)
      fun _ => VMM.Steady config vppi := onWorld_total reply_serves
  suffices total : Total (fun vmm => vmm = delivered)
      (node.handleFault platform extension config fault : Exec (Failure ε) _ Unit)
      fun _ => VMM.Steady config vppi by
    obtain ⟨_, final, run, isSteady⟩ := total_iff.mp total delivered rfl
    exact ⟨final, run, isSteady⟩
  cases fault with
  | nullFault | capFault | userException | vcpuFault => exact orderly.elim
  | vmFault fault =>
      obtain ⟨offset, isOffset, orderly⟩ := orderly
      refine Triple.through (fun _ => VMM.Steady config vppi) ?_ fun _ => replies
      simp only [VMMNode.handlePageFault, isOffset]
      refine (handleGicDistributorFault_total willing proper endpoints isNode isOffset
        orderly).strengthen ?_
      rintro _ rfl
      rw [isDelivered] at stillSteady ⊢
      exact ⟨Function.update_self _ _ _, stillSteady⟩
  | unknownSyscall fault =>
      refine (handleSyscall_total accepts).strengthen ?_
      rintro _ rfl
      rw [isDelivered] at stillSteady ⊢
      exact ⟨orderly, stillSteady⟩
  | vgicMaintenance idx =>
      obtain ⟨index, rfl, isIndex, isHeld⟩ := orderly
      refine .unwrapped rfl ?_
      refine Triple.through (fun _ => VMM.Steady config vppi) ?_ fun _ => replies
      refine onGic_total (GIC.handleMaintenance_total serve isNode isIndex) ?_
      rintro _ rfl
      refine ⟨stillSteady, stillSteady.gic, ?_, fun vcpu isOther => ?_⟩
      · rw [isDelivered]
        change (vmm.gic.slot node.nodeIndex index.toNat).isSome = true
        rw [Option.isSome_iff_ne_none]
        exact fun isEmpty => isHeld
          (steady.gic.free node.nodeIndex index.toNat isNode isIndex isEmpty node.vcpu isVcpu)
      · obtain rfl := Option.some.inj (isOther.symm.trans isVcpu)
        rw [isDelivered]
        simp only [VMM.deliver, World.setListReg, World.setContext, Function.update_self]
  | vppiEvent irq =>
      refine Triple.through (fun _ => VMM.Steady config vppi) ?_ fun _ => replies
      refine onGic_total (GIC.handleIrq_total serve isNode ⟨isNode, orderly⟩) ?_
      rintro _ rfl
      exact ⟨stillSteady, stillSteady.gic⟩

theorem handleEvents_total (willing : platform.Willing vppi) (proper : config.Proper)
    (endpoints : config.nodes.length ≤ config.eventServerClientEp.length)
    (isNode : node.nodeIndex < config.nodes.length) {badge : BitVec 64} {words : Nat → BitVec 64}
    (found : ∀ group ∈ biterate badge, ∀ member ∈ biterate (words group),
      (config.irqMap.search node.nodeIndex (group * 64 + member)).isSome = true) :
    Total (VMM.Steady config vppi)
      (node.handleEvents platform config badge words :
        Exec (Failure ε) (VMM E config.nodes.length) Unit)
      fun _ => VMM.Steady config vppi := by
  refine onGic_total ?_ fun vmm steady => ⟨steady, steady.gic⟩
  refine .forEach fun group isGroup => .forEach fun member isMember => ?_
  obtain ⟨irq, isIrq⟩ := Option.isSome_iff_exists.mp (found group isGroup member isMember)
  refine .unwrapped isIrq ?_
  exact GIC.handleIrq_total (callbacks_serve willing proper endpoints) isNode
    (search_exists proper.irqMap isNode isIrq)

theorem deliver_steady {vmm : VMM E config.nodes.length} (steady : vmm.Steady config vppi)
    (message : Message) :
    VMM.Steady config vppi { vmm with gic := { vmm.gic with
      callbacks := VMM.deliver node vmm.gic.callbacks message } } := by
  have less : ∀ (vcpu : CPtr) (index : Nat), vmm.gic.callbacks.listRegs vcpu index = none →
      (VMM.deliver node vmm.gic.callbacks message).listRegs vcpu index = none := by
    intro vcpu index isFree
    cases message with
    | events => exact isFree
    | fault ctx fault =>
        cases fault with
        | vgicMaintenance idx =>
            cases idx with
            | none => exact isFree
            | some idx =>
                simp only [VMM.deliver, World.setListReg, World.setContext]
                by_cases sameVcpu : vcpu = node.vcpu
                · rw [sameVcpu, Function.update_self]
                  by_cases same : index = idx.toNat
                  · rw [same, Function.update_self]
                  · rw [Function.update_of_ne same]
                    exact sameVcpu ▸ isFree
                · rw [Function.update_of_ne sameVcpu]
                  exact isFree
        | _ => exact isFree
  refine ⟨⟨steady.gic.dist, steady.gic.slots, steady.gic.queues, ?_⟩, steady.table, steady.threads⟩
  intro other index isNode isIndex isEmpty vcpu isVcpu
  exact less vcpu index (steady.gic.free other index isNode isIndex isEmpty vcpu isVcpu)

theorem enter_serves (willing : platform.Willing vppi) : Serves (node.enter platform) :=
  (Serves.invoke (willing.writeCntvoff · node.vcpu 0)).bind fun _ =>
    .invoke (willing.resume · node.tcb)

theorem begin_serves (willing : platform.Willing vppi) {thread : NodeThread E}
    (isPhase : thread.phase ≠ .looping) : Serves (thread.begin platform) := by
  unfold NodeThread.begin
  cases begins : thread.phase with
  | looping => exact absurd begins isPhase
  | run => exact enter_serves willing
  | closure entry ctxId =>
      refine (readAllRegisters_serves willing).orPanic.bind fun ctx listRegs => ?_
      refine .unwrapped (dif_pos (by decide)) ?_
      exact ((writeAllRegisters_serves willing).orPanic.bind fun _ =>
        (enter_serves willing).orPanic) listRegs

/-- An orderly step returns. -/
theorem step_total (willing : platform.Willing vppi) (proper : config.Proper)
    (endpoints : config.nodes.length ≤ config.eventServerClientEp.length)
    (accepts : extension.Accepts accepted) {vmm : VMM E config.nodes.length} {step : VMM.Step}
    (steady : vmm.Steady config vppi) (orderly : vmm.Orderly config vppi accepted step) :
    ∃ final, VMM.Returns platform extension config step vmm final ∧ final.Steady config vppi := by
  cases step with
  | begin position =>
      obtain ⟨thread, isThread, isPhase⟩ := orderly
      obtain ⟨_, middle, returns, isSteady⟩ := total_iff.mp
        (onWorld_total (begin_serves willing isPhase)) vmm steady
      obtain ⟨world, begun, rfl⟩ := onWorld_eq_ok.mp returns
      refine ⟨_, VMM.begin_eq_ok.mpr ⟨thread, world, isThread, begun, rfl⟩, isSteady.gic,
        steady.table, fun other member => ?_⟩
      rcases List.mem_or_eq_of_mem_set member with earlier | rfl
      · exact steady.threads other earlier
      · exact steady.threads thread (List.mem_of_getElem? isThread)
  | recv position message =>
      obtain ⟨thread, isThread, isLooping, orderly⟩ := orderly
      obtain ⟨cptr, has⟩ := steady.threads thread (List.mem_of_getElem? isThread)
      obtain ⟨inTable, isVcpu⟩ := has.vcpuOf
      have delivered := @deliver_steady E config vppi thread.node vmm steady message
      cases message with
      | fault ctx fault =>
          obtain ⟨final, handled, isSteady⟩ := handleFault_total willing proper endpoints accepts
            inTable isVcpu steady orderly rfl delivered
          exact ⟨final, VMM.recv_eq_ok.mpr ⟨thread, isThread, isLooping, handled⟩, isSteady⟩
      | events badge words =>
          obtain ⟨_, final, handled, isSteady⟩ := total_iff.mp
            (handleEvents_total willing proper endpoints inTable orderly) _ delivered
          exact ⟨final, VMM.recv_eq_ok.mpr ⟨thread, isThread, isLooping, handled⟩, isSteady⟩

end Handlers

/-! ## The extensions -/

theorem putchar_serves (c : UInt8) :
    Serves (Exec.modify (World.record (.putchar c)) : Exec ε World Unit) := .modify fun _ => rfl

theorem Realm.extension_accepts :
    (Realm.extension : VMMExtension ε Unit).Accepts fun _ => False where
  syscall _ _ isAccepted := isAccepted.elim
  putchar _ c := putchar_serves c

/-- A call of the resource server whose parameters and response are in registers. -/
def Host.Accepted (platform : Platform ε) (fault : UnknownSyscall) : Prop :=
  fault.syscall = RESOURCE_SERVER_PASSTHRU ∧ (fault.x 0).toNat < 8 ∧
    ∀ world values, values.length = (fault.x 0).toNat → (platform.answer world values).length ≤ 6

theorem gprs_found {fault : UnknownSyscall} (inRegisters : (fault.x 0).toNat < 8) :
    ∃ parameters : List UInt64, (List.range (fault.x 0).toNat).map (fun i => fault.gpr (i + 1)) =
      parameters.map some ∧ parameters.length = (fault.x 0).toNat := by
  refine ⟨(List.range (fault.x 0).toNat).map fun i => (fault.gpr (i + 1)).getD 0, ?_, by simp⟩
  rw [List.map_map]
  refine List.map_congr_left fun i member => ?_
  have isGpr : i + 1 < 8 := by
    have inside := List.mem_range.mp member
    omega
  simp [UnknownSyscall.gpr, isGpr]

theorem Host.extension_accepts (platform : Platform ε) :
    (Host.extension platform).Accepts (Host.Accepted platform) where
  syscall node fault isAccepted := by
    obtain ⟨isPassthru, inRegisters, isShort⟩ := isAccepted
    change Serves (if _ then _ else _)
    rw [if_pos isPassthru]
    obtain ⟨parameters, found, isLength⟩ := gprs_found inRegisters
    intro listRegs
    refine Triple.through (fun values world => values.length = (fault.x 0).toNat ∧
      world.listRegs = listRegs) ?_ fun values => .of_fact fun isLength => ?_
    · exact total_iff.mpr fun world isRegs =>
        ⟨parameters, world, mapEach_unwrap found, isLength, isRegs⟩
    refine Triple.through (fun r world => r.length ≤ 6 ∧ world.listRegs = listRegs) ?_ fun r =>
      .of_fact fun short => ?_
    · exact fun world isRegs => ⟨isShort world values isLength, isRegs⟩
    refine Triple.bind (.assert fun _ _ => short) fun _ => .of_fact fun _ => ?_
    refine Triple.through (fun _ world => world.listRegs = listRegs) ?_ fun _ => ?_
    · exact .modify fun _ isRegs => isRegs
    refine Triple.through (fun _ world => world.listRegs = listRegs) ?_ fun _ =>
      advanceAndReply_serves listRegs
    exact .forEach fun i _ => .modify fun _ isRegs => isRegs
  putchar _ c := putchar_serves c

/-! ## Runs -/

theorem start_steady {config : VMMConfig E} {vppi : Nat → Prop} {world : World}
    {first : VMM E config.nodes.length} (started : config.start world = some first)
    (allFree : ∀ vcpu index, world.listRegs vcpu index = none) :
    config.nodes.length ≤ config.eventServerClientEp.length ∧ first.Steady config vppi := by
  unfold VMMConfig.start at started
  split at started
  · next isNode =>
      obtain rfl := Option.some.inj started
      refine ⟨isNode.2, GIC.new_steady isNode.1 fun _ index vcpu _ => allFree vcpu index,
        fun i entry isEntry => ?_, fun thread member => ?_⟩
      · rw [Vector.getElem?_set] at isEntry
        split at isEntry
        · simp at isEntry
        · obtain ⟨inBounds, isEntry⟩ := Vector.getElem?_eq_some_iff.mp isEntry
          rw [Vector.getElem_ofFn] at isEntry
          exact ⟨⟨i, inBounds⟩, Option.some.inj isEntry⟩
      · rw [List.mem_singleton.mp member]
        exact ⟨_, ⟨0, isNode.1⟩, rfl⟩
  · simp at started

/-- As long as its guest, the hardware and the event server are orderly, a VMM goes on: after every
run of orderly steps each orderly step returns, whichever node takes it. -/
theorem run_goesOn {platform : Platform ε} {extension : VMMExtension ε E} {config : VMMConfig E}
    {vppi : Nat → Prop} {accepted : UnknownSyscall → Prop} {world : World}
    {first final : VMM E config.nodes.length} {taken : List (VMM E config.nodes.length × VMM.Step)}
    {step : VMM.Step} (willing : platform.Willing vppi) (proper : config.Proper)
    (accepts : extension.Accepts accepted) (started : config.start world = some first)
    (allFree : ∀ vcpu index, world.listRegs vcpu index = none)
    (run : Recorded (VMM.Returns platform extension config) first taken final)
    (orderly : ∀ entry ∈ taken, entry.1.Orderly config vppi accepted entry.2)
    (next : final.Orderly config vppi accepted step) :
    ∃ after, VMM.Returns platform extension config step final after := by
  obtain ⟨endpoints, isFirst⟩ : config.nodes.length ≤ config.eventServerClientEp.length ∧
      first.Steady config vppi := start_steady started allFree
  have keeps : ∀ step (before after : VMM E config.nodes.length), before.Steady config vppi →
      VMM.Returns platform extension config step before after →
      before.Orderly config vppi accepted step → after.Steady config vppi := by
    intro step before after isBefore returns isOrderly
    obtain ⟨found, isFound, isAfter⟩ := step_total willing proper endpoints accepts isBefore isOrderly
    obtain ⟨_, rfl⟩ := Outcome.ok.inj (returns.symm.trans isFound)
    exact isAfter
  obtain ⟨after, returns, _⟩ := step_total willing proper endpoints accepts
    (run.invariant isFirst keeps orderly) next
  exact ⟨after, returns⟩

/-- What the example's messages need of the state. -/
def exampleAdmits (vmm : VMM Host.Extension 2) (thread : NodeThread Host.Extension) :
    Message → Bool
  | .fault _ (.vgicMaintenance (some idx)) =>
      (vmm.gic.callbacks.listRegs thread.node.vcpu idx.toNat).isSome
  | .fault _ (.unknownSyscall fault) => fault.syscall != Psci.SYS_PSCI || (vmm.nodes[1]?.join).isSome
  | _ => true

def exampleReady (vmm : VMM Host.Extension 2) : VMM.Step → Bool
  | .begin position => (vmm.threads[position]?).any fun thread => thread.phase != .looping
  | .recv position message => (vmm.threads[position]?).any fun thread =>
      thread.phase == .looping && thread.node.nodeIndex == position &&
        exampleAdmits vmm thread message

theorem exampleSteps_orderly {vmm : VMM Host.Extension 2} {step : VMM.Step}
    (isStep : step ∈ exampleSteps ++ [.recv 1 (exampleCall SYS_PUTCHAR [65])])
    (ready : exampleReady vmm step = true) :
    vmm.Orderly exampleHost (fun _ => False) (Host.Accepted examplePlatform) step := by
  have receives (position : Nat) (message : Message)
      (orderly : ∀ thread, thread.node.nodeIndex = position → exampleAdmits vmm thread message = true →
        message.Orderly exampleHost (fun _ => False) (Host.Accepted examplePlatform) vmm thread.node)
      (ready : exampleReady vmm (.recv position message) = true) :
      vmm.Orderly exampleHost (fun _ => False) (Host.Accepted examplePlatform)
        (.recv position message) := by
    obtain ⟨thread, isThread, isReady⟩ := (Option.any_eq_true _ _).mp ready
    simp only [Bool.and_eq_true, beq_iff_eq] at isReady
    exact ⟨thread, isThread, isReady.1.1, orderly thread isReady.1.2 isReady.2⟩
  have begins (position : Nat) (ready : exampleReady vmm (.begin position) = true) :
      vmm.Orderly exampleHost (fun _ => False) (Host.Accepted examplePlatform)
        (.begin position) := by
    obtain ⟨thread, isThread, isReady⟩ := (Option.any_eq_true _ _).mp ready
    exact ⟨thread, isThread, bne_iff_ne.mp isReady⟩
  have stores (position : Nat) (offset value : UInt64) (word : UInt32)
      (isOffset : VMMNode.offsetInRegion (0x8000000 + offset).toNat 0x8000000 4096 =
        some offset.toNat)
      (isAligned : VMFault.isAligned ⟨0x8000000 + offset, 0x1810040⟩ = some true)
      (isData : VMFault.data ⟨0x8000000 + offset, 0x1810040⟩ (exampleRegisters value) =
        some (.word word))
      (isOrderly : (FaultData.word word.toBitVec).Orderly (exampleHost.Knows fun _ => False) 2
        offset.toNat)
      (ready : exampleReady vmm (.recv position (exampleStore offset value)) = true) :
      vmm.Orderly exampleHost (fun _ => False) (Host.Accepted examplePlatform)
        (.recv position (exampleStore offset value)) := by
    have isStore : VMFault.isWrite ⟨0, 0x1810040⟩ = some true := by decide
    refine receives position _ (fun thread _ _ => ⟨offset.toNat, isOffset, isAligned,
      fun _ => ⟨_, isData, isOrderly⟩, fun isLoad => ?_⟩) ready
    exact absurd (isStore.symm.trans isLoad) (by decide)
  have calls (position : Nat) (number : UInt64) (x : List UInt64) (notPsci : number ≠ Psci.SYS_PSCI)
      (isAccepted : number ≠ SYS_PUTCHAR → Host.Accepted examplePlatform
        ⟨fun i => x.getD i 0, 0x1000, 0x2000, 0, 0, number⟩)
      (ready : exampleReady vmm (.recv position (exampleCall number x)) = true) :
      vmm.Orderly exampleHost (fun _ => False) (Host.Accepted examplePlatform)
        (.recv position (exampleCall number x)) := by
    refine receives position _ (fun thread _ _ => ?_) ready
    change if number = Psci.SYS_PSCI then _ else _
    rwa [if_neg notPsci]
  simp only [exampleSteps, List.cons_append, List.nil_append, List.mem_cons, List.not_mem_nil,
    or_false] at isStep
  rcases isStep with rfl | rfl | rfl | rfl | rfl | rfl | rfl | rfl | rfl
  · exact begins 0 ready
  · refine receives 0 _ (fun thread _ admits => ?_) ready
    have isFound : ∃ found, vmm.nodes[1]? = some (some found) := by
      obtain ⟨found, isFound⟩ := Option.isSome_iff_exists.mp
        (show (vmm.nodes[1]?.join).isSome = true by simpa [exampleAdmits, exampleCall] using admits)
      exact ⟨found, Option.join_eq_some_iff.mp isFound⟩
    refine ⟨.cpuOn 1 0x80000 7, rfl, fun target entry ctxId isCall => ?_⟩
    obtain ⟨rfl, _, _⟩ := Psci.Call.cpuOn.inj isCall
    exact isFound
  · exact begins 1 ready
  · exact stores 1 0 1 1 (by decide) rfl rfl ⟨.ctlr, rfl, .inr rfl⟩ ready
  · refine stores 0 0x104 2 2 (by decide) rfl rfl ⟨.isenabler 1, by decide, fun k isSet => ?_⟩ ready
    have areBits : ∀ bit : Fin 32, (2 : BitVec 32).getLsbD bit = true → bit = 1 := by decide
    have isBit : k = 1 :=
      congrArg Fin.val (areBits ⟨k, BitVec.lt_of_getLsbD isSet⟩ isSet)
    omega
  · refine receives 0 (.events 1 fun _ => 0x20) (fun thread isNode _ => ?_) ready
    change ∀ group ∈ biterate 1, ∀ member ∈ biterate 0x20,
      (exampleHost.irqMap.search thread.node.nodeIndex (group * 64 + member)).isSome = true
    rw [isNode]
    decide +kernel
  · refine receives 0 _ (fun thread _ admits => ⟨0, rfl, by decide, ?_⟩) ready
    exact Option.isSome_iff_ne_none.mp admits
  · exact calls 0 _ _ (by decide) (fun _ => ⟨rfl, by decide, fun _ values isLength => by
      rw [examplePlatform, isLength]
      decide⟩) ready
  · exact calls 1 _ _ (by decide) (fun differs => absurd rfl differs) ready

/-- A run of the host's, and the runs of the realms', which accept no call. -/
theorem run_goesOn_exampleHost :
    (∃ (first final after : VMM Host.Extension 2) (taken : List _),
      exampleHost.start exampleWorld = some first ∧
      Recorded (VMM.Returns examplePlatform (Host.extension examplePlatform) exampleHost) first taken
        final ∧
      taken.map Prod.snd = exampleSteps ∧
      VMM.Returns examplePlatform (Host.extension examplePlatform) exampleHost
        (.recv 1 (exampleCall SYS_PUTCHAR [65])) final after) ∧
    ∀ (config : VMMConfig Unit) (first final : VMM Unit config.nodes.length) (taken : List _)
      (step : VMM.Step), config.Proper → config.start exampleWorld = some first →
        Recorded (VMM.Returns examplePlatform Realm.extension config) first taken final →
          (∀ entry ∈ taken, entry.1.Orderly config (fun _ => False) (fun _ => False) entry.2) →
            final.Orderly config (fun _ => False) (fun _ => False) step →
              ∃ after, VMM.Returns examplePlatform Realm.extension config step final after := by
  have willing : examplePlatform.Willing fun _ => False :=
    ⟨fun _ _ => rfl, fun _ _ _ => rfl, fun _ _ => rfl, fun _ _ _ => rfl, fun _ _ _ _ => rfl,
      fun _ _ _ _ _ _ _ _ _ => rfl⟩
  refine ⟨?_, fun _ _ _ _ _ proper started run orderly next =>
    run_goesOn willing proper Realm.extension_accepts started (fun _ _ => rfl) run orderly next⟩
  obtain ⟨first, taken, final, started, run, isTaken, checked⟩ := exampleHost_run
    (fun run => run.1.all (fun entry => exampleReady entry.1 entry.2) &&
      exampleReady run.2 (.recv 1 (exampleCall SYS_PUTCHAR [65]))) (by decide +kernel)
  obtain ⟨areReady, isReady⟩ := (Bool.and_eq_true _ _).mp checked
  have proper : exampleHost.Proper := by
    have isPpi : exampleHost.irqMap.ppi.toList = [(27, (0, true))] := by decide +kernel
    have isSpi : exampleHost.irqMap.spi.toList = [(33, (5, 0, true))] := by decide +kernel
    refine ⟨by decide, by decide, ⟨fun irq entry isEntry => ?_, fun irq entry isEntry => ?_⟩, by decide⟩
    · have member := Std.TreeMap.mem_toList_iff_getElem?_eq_some.mpr isEntry
      rw [isPpi] at member
      obtain ⟨rfl, _⟩ := Prod.mk.inj (List.mem_singleton.mp member)
      decide
    · have member := Std.TreeMap.mem_toList_iff_getElem?_eq_some.mpr isEntry
      rw [isSpi] at member
      obtain ⟨rfl, _⟩ := Prod.mk.inj (List.mem_singleton.mp member)
      decide
  have orderly : ∀ entry ∈ taken, entry.1.Orderly exampleHost (fun _ => False)
      (Host.Accepted examplePlatform) entry.2 := fun entry member =>
    exampleSteps_orderly (List.mem_append_left _ (isTaken ▸ List.mem_map_of_mem member))
      (List.all_eq_true.mp areReady entry member)
  obtain ⟨after, returns⟩ := run_goesOn willing proper (Host.extension_accepts examplePlatform)
    started (fun _ _ => rfl) run orderly (exampleSteps_orderly (by simp) isReady)
  exact ⟨first, final, after, taken, started, run, isTaken, returns⟩

end IceCap.Vmm
