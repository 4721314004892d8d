import IceCap.Vmm.Fault
import IceCap.Vmm.IrqMap

/-!
# The nodes of a VMM

`vmm.rs` with the PSCI calls and the accesses to the distributor.  Each node has
a thread that receives the faults of its virtual cpu and the badges of events,
one after the other.  They share the GIC and a table of the nodes that have not
been started; a node is moved out of it to the thread that runs it.

What the kernel is asked to do is recorded.  The platform decides whether the
kernel refuses, with all of the world before it.  Message registers are those of
the thread that handles a message; the event server leaves nothing in them that
is sent on.
-/

set_option autoImplicit false

namespace IceCap.Vmm

open IceCap.Library IceCap.Gic IceCap.Sel4

/-! ## The kernel -/

/-- `x` are the registers `x0` to `x7`. -/
structure UnknownSyscall where
  x : Fin 8 → UInt64
  faultIp : UInt64
  sp : UInt64
  lr : UInt64
  spsr : UInt64
  syscall : UInt64

inductive Fault where
  | nullFault
  | capFault
  | unknownSyscall (fault : UnknownSyscall)
  | userException
  | vmFault (fault : VMFault)
  | vgicMaintenance (idx : Option UInt64)
  | vcpuFault (hsr : UInt64)
  | vppiEvent (irq : UInt64)

/-- The calls of the event server's client that are made. -/
inductive EventServerCall where
  | end_ (nid index : Nat)
  deriving DecidableEq, Repr

inductive Effect where
  | readAllRegisters (tcb : CPtr)
  | writeAllRegisters (tcb : CPtr) (ctx : UserContext)
  | resume (tcb : CPtr)
  | writeCntvoff (vcpu : CPtr) (value : UInt64)
  | ackVppi (vcpu : CPtr) (irq : UInt64)
  | injectIrq (vcpu : CPtr) (virq : UInt16) (priority group index : UInt8)
  | callEventServer (ep : CPtr) (call : EventServerCall)
  | callResourceServer (ep : CPtr) (values : List UInt64)
  | startThread (thread : CPtr)
  | putchar (c : UInt8)
  | reply (values : List UInt64)

/-- The registers of the guest's threads, the list registers of the virtual cpus, the message
registers, and the effects so far. -/
structure World where
  contexts : CPtr → UserContext
  listRegs : CPtr → Nat → Option UInt16
  mrs : Nat → UInt64
  effects : List Effect

/-- What is not part of the VMM: which invocations the kernel refuses, what the resource server
answers, the address of `Thread`'s `entry`, and where closures are put for it. -/
structure Platform (ε : Type) where
  refuses : World → Effect → Option ε
  answer : World → List UInt64 → List UInt64
  entry : UInt64
  intoRaw : World → UInt64

namespace World

def record (effect : Effect) (world : World) : World :=
  { world with effects := world.effects ++ [effect] }

def setContext (tcb : CPtr) (ctx : UserContext) (world : World) : World :=
  { world with contexts := Function.update world.contexts tcb ctx }

def setListReg (vcpu : CPtr) (index : Nat) (held : Option UInt16) (world : World) : World :=
  let listRegs := Function.update (world.listRegs vcpu) index held
  { world with listRegs := Function.update world.listRegs vcpu listRegs }

def setMr (i : Nat) (value : UInt64) (world : World) : World :=
  { world with mrs := Function.update world.mrs i value }

end World

section Invocations
variable {ε : Type} (platform : Platform ε)

/-- An invocation that the kernel may refuse. -/
def invoke (effect : Effect) : Exec ε World Unit := fun world =>
  match platform.refuses world effect with
  | none => .ok () (world.record effect)
  | some error => .err error world

@[simp] theorem invoke_eq_ok {effect : Effect} {world final : World} {value : Unit} :
    invoke platform effect world = .ok value final ↔
      platform.refuses world effect = none ∧ world.record effect = final := by
  simp only [invoke]
  cases platform.refuses world effect <;> simp

@[simp] theorem invoke_eq_err {effect : Effect} {world final : World} {error : ε} :
    invoke platform effect world = .err error final ↔
      platform.refuses world effect = some error ∧ world = final := by
  simp only [invoke]
  cases platform.refuses world effect <;> simp

def readAllRegisters (tcb : CPtr) : Exec ε World UserContext := do
  invoke platform (.readAllRegisters tcb)
  Exec.reads fun world => some (world.contexts tcb)

def writeAllRegisters (tcb : CPtr) (ctx : UserContext) : Exec ε World Unit := do
  invoke platform (.writeAllRegisters tcb ctx)
  Exec.modify (World.setContext tcb ctx)

def injectIrq (vcpu : CPtr) (virq : UInt16) (priority group index : UInt8) : Exec ε World Unit := do
  invoke platform (.injectIrq vcpu virq priority group index)
  Exec.modify (World.setListReg vcpu index.toNat (some virq))

/-- A message with the first message registers. -/
def reply (length : Nat) : Exec ε World Unit :=
  Exec.modify fun world => world.record (.reply ((List.range length).map world.mrs))

/-- The closure is sent by its address. -/
def World.started (thread : CPtr) (world : World) : World :=
  (((world.setMr 0 platform.entry).setMr 1 (platform.intoRaw world)).setMr 2 0).record
    (.startThread thread)

/-- `Thread::start` -/
def startThread (thread : CPtr) : Exec ε World Unit := Exec.modify (World.started platform thread)

end Invocations

/-! ## Faults -/

namespace UserContext

def advance (ctx : UserContext) : UserContext := { ctx with pc := ctx.pc + 4 }

end UserContext

namespace UnknownSyscall

/-- The registers as the kernel puts them into a message. -/
def message (fault : UnknownSyscall) : List UInt64 :=
  List.ofFn fault.x ++ [fault.faultIp, fault.sp, fault.lr, fault.spsr, fault.syscall]

def gpr (fault : UnknownSyscall) (ix : Nat) : Option UInt64 :=
  if isGpr : ix < 8 then some (fault.x ⟨ix, isGpr⟩) else none

def mrPc : Nat := 8

def numRegsForGprsAndPc : Nat := 8 + 1

def advanceAndReply {ε : Type} (fault : UnknownSyscall) : Exec ε World Unit := do
  Exec.modify (World.setMr mrPc (fault.faultIp + 4))
  reply numRegsForGprsAndPc

end UnknownSyscall

/-- `VCPUFault::is_wf`. -/
def isWf (hsr : UInt64) : Bool := hsr >>> 26 == 1

/-! ## PSCI -/

namespace Psci

def SYS_PSCI : UInt64 := 0

def VERSION : Int32 := 0x00010001

def FID_PSCI_VERSION : UInt32 := 0x84000000
def FID_CPU_ON : UInt32 := 0xC4000003
def FID_MIGRATE_INFO_TYPE : UInt32 := 0x84000006
def FID_PSCI_FEATURES : UInt32 := 0x8400000a

def RET_SUCCESS : Int32 := 0
def RET_NOT_SUPPORTED : Int32 := -1

inductive Call where
  | version
  | features (qfid : UInt32)
  | cpuOn (target : Nat) (entry ctxId : UInt64)
  | migrateInfoType
  deriving DecidableEq, Repr

/-- `none` is the error of an unrecognized function. -/
def Call.parse (fault : UnknownSyscall) : Option Call :=
  let fid := (fault.x 0).toUInt32
  if fid = FID_PSCI_VERSION then some .version
  else if fid = FID_PSCI_FEATURES then some (.features (fault.x 1).toUInt32)
  else if fid = FID_CPU_ON then some (.cpuOn (fault.x 1).toNat (fault.x 2) (fault.x 3))
  else if fid = FID_MIGRATE_INFO_TYPE then some .migrateInfoType
  else none

end Psci

/-- `ret as u64`. -/
def signExtend (ret : Int32) : UInt64 := ret.toInt64.toUInt64

def SYS_PUTCHAR : UInt64 := 1337

/-! ## Configuration and state -/

structure VMMNodeConfig (E : Type) where
  tcb : CPtr
  vcpu : CPtr
  thread : CPtr
  extension : E

structure VMMConfig (E : Type) where
  eventServerClientEp : List CPtr
  irqMap : IRQMap
  gicDistPaddr : Nat
  nodes : List (VMMNodeConfig E)

structure VMMNode (E : Type) where
  nodeIndex : Nat
  tcb : CPtr
  vcpu : CPtr
  extension : E

/-- What a thread of a node is about to do: call the closure it was sent, enter `run`, or
receive the next message. -/
inductive Phase where
  | closure (entry ctxId : UInt64)
  | run
  | looping
  deriving DecidableEq, Repr

structure NodeThread (E : Type) where
  node : VMMNode E
  phase : Phase

/-- The callbacks of the GIC have the world as their state. -/
structure VMM (E : Type) (numNodes : Nat) where
  gic : GIC numNodes World
  nodes : Vector (Option (CPtr × VMMNode E)) numNodes
  threads : List (NodeThread E)

/-! ## Callbacks of the GIC -/

structure VMMGICCallbacks where
  vcpus : List CPtr
  eventServerClient : List CPtr
  irqMap : IRQMap

namespace VMMGICCallbacks

variable {ε : Type} (platform : Platform ε) (self : VMMGICCallbacks)

def callEventServer (callingNode : Nat) (call : EventServerCall) : Exec ε World Unit := do
  let ep ← Exec.unwrap self.eventServerClient[callingNode]?
  Exec.modify (World.record (.callEventServer ep call))

def ack (callingNode : Nat) : QualifiedIrq → Exec ε World Unit
  | .qualifiedPpi node irq =>
      match self.irqMap.ppi[irq]? with
      | some (inIndex, mustAck) =>
          if mustAck then self.callEventServer callingNode (.end_ callingNode inIndex) else pure ()
      | none => do
          let vcpu ← Exec.unwrap self.vcpus[node]?
          invoke platform (.ackVppi vcpu (UInt64.ofNat irq))
  | .spi irq =>
      match self.irqMap.spi[irq]? with
      | some (inIndex, nid, mustAck) =>
          if mustAck then self.callEventServer callingNode (.end_ nid inIndex) else pure ()
      | none => pure ()

def vcpuInjectIrq (targetNode index : Nat) (irq : Irq) (priority : Nat) : Exec ε World Unit := do
  let vcpu ← Exec.unwrap self.vcpus[targetNode]?
  injectIrq platform vcpu (UInt16.ofNat irq) (UInt8.ofNat priority) 0 (UInt8.ofNat index)

def callbacks : GICCallbacks ε World where
  ack callingNode irq := self.ack platform callingNode irq
  vcpuInjectIrq _ targetNode index irq priority :=
    self.vcpuInjectIrq platform targetNode index irq priority

end VMMGICCallbacks

/-- The part of a VMM that the host and the realms have their own of. -/
structure VMMExtension (ε E : Type) where
  handleWf : VMMNode E → Exec ε World Unit
  handleSyscall : VMMNode E → UnknownSyscall → Exec ε World Unit
  handlePutchar : VMMNode E → UInt8 → Exec ε World Unit

namespace VMMConfig

variable {E : Type}

def callbacks (config : VMMConfig E) : VMMGICCallbacks where
  vcpus := config.nodes.map VMMNodeConfig.vcpu
  eventServerClient := config.eventServerClientEp
  irqMap := config.irqMap

def node (config : VMMConfig E) (i : Fin config.nodes.length) : CPtr × VMMNode E :=
  let nodeConfig := config.nodes[i]
  (nodeConfig.thread, ⟨i, nodeConfig.tcb, nodeConfig.vcpu, nodeConfig.extension⟩)

/-- `VMMConfig::run` up to the node it runs itself, the first one.  It indexes the endpoints with
the number of each node. -/
def start (config : VMMConfig E) (world : World) : Option (VMM E config.nodes.length) :=
  if isNode : 0 < config.nodes.length ∧ config.nodes.length ≤ config.eventServerClientEp.length then
    some {
      gic := GIC.new config.nodes.length world
      nodes := (Vector.ofFn fun i => some (config.node i)).set 0 none isNode.1
      threads := [⟨(config.node ⟨0, isNode.1⟩).2, .run⟩] }
  else none

end VMMConfig

/-! ## The loop of a node -/

namespace VMMNode

variable {ε E : Type} (platform : Platform ε) (extension : VMMExtension ε E) (config : VMMConfig E)
  {numNodes : Nat}

def onGic {α : Type} (call : Exec (Failure ε) (GIC numNodes World) α) :
    Exec (Failure ε) (VMM E numNodes) α :=
  Exec.focus VMM.gic (fun gic vmm => { vmm with gic }) call

def onWorld {α : Type} (call : Exec ε World α) : Exec (Failure ε) (VMM E numNodes) α :=
  onGic (GIC.onCallbacks call)

/-- `utils::offset_in_region` of the distributor. -/
def offsetInRegion (addr regionStart regionSize : Nat) : Option Nat :=
  if regionStart ≤ addr ∧ addr < regionStart + regionSize then some (addr - regionStart) else none

def distributorSize : Nat := 4096

end VMMNode

/-- The data of an access, for the GIC. -/
def VMFaultData.toGic : VMFaultData → FaultData
  | .byte raw => .byte raw.toBitVec
  | .halfWord raw => .halfWord raw.toBitVec
  | .word raw => .word raw.toBitVec
  | .doubleWord raw => .doubleWord raw.toBitVec

def VMFaultData.ofGic : FaultData → VMFaultData
  | .byte val => .byte ⟨val⟩
  | .halfWord val => .halfWord ⟨val⟩
  | .word val => .word ⟨val⟩
  | .doubleWord val => .doubleWord ⟨val⟩

def VMFaultWidth.toGic : VMFaultWidth → FaultWidth
  | .byte => .byte
  | .halfWord => .halfWord
  | .word => .word
  | .doubleWord => .doubleWord

namespace VMMNode

variable {ε E : Type} (platform : Platform ε) (extension : VMMExtension ε E) (config : VMMConfig E)
  {numNodes : Nat} (node : VMMNode E)

/-- `utils::handle_gic_distributor_fault`. -/
def handleGicDistributorFault (fault : VMFault) (offset : Nat) :
    Exec (Failure ε) (VMM E numNodes) Unit := do
  Exec.assert (fault.isValid = true)
  let isAligned ← Exec.unwrap fault.isAligned
  Exec.assert (isAligned = true)
  let isWrite ← Exec.unwrap fault.isWrite
  if isWrite then do
    let ctx ← Exec.orPanic (onWorld (readAllRegisters platform node.tcb))
    let data ← Exec.unwrap (fault.data ctx)
    onGic (GIC.handleWrite (config.callbacks.callbacks platform) node.nodeIndex offset data.toGic)
    Exec.orPanic (onWorld (writeAllRegisters platform node.tcb ctx.advance))
  else do
    let width ← Exec.unwrap fault.width
    let data ← onGic (GIC.handleRead node.nodeIndex offset width.toGic)
    let ctx ← Exec.orPanic (onWorld (readAllRegisters platform node.tcb))
    let loaded ← Exec.unwrap (fault.emulateRead ctx (.ofGic data))
    Exec.orPanic (onWorld (writeAllRegisters platform node.tcb loaded.advance))

def handlePageFault (fault : VMFault) : Exec (Failure ε) (VMM E numNodes) Unit :=
  match offsetInRegion fault.addr.toNat config.gicDistPaddr distributorSize with
  | some offset => node.handleGicDistributorFault platform config fault offset
  | none => Exec.panic

/-- The node is taken out of the table, and a thread is sent the closure that runs it. -/
def cpuOn (target : Nat) (entry ctxId : UInt64) : Exec (Failure ε) (VMM E numNodes) Unit := do
  let this ← Exec.reads fun vmm => vmm.nodes[target]?
  Exec.modify fun vmm => { vmm with nodes := vmm.nodes.setIfInBounds target none }
  let found ← Exec.unwrap this
  onWorld (startThread platform found.1)
  Exec.modify fun vmm => { vmm with threads := vmm.threads ++ [⟨found.2, .closure entry ctxId⟩] }

def sysPsci (fault : UnknownSyscall) : Exec (Failure ε) (VMM E numNodes) Unit := do
  let call ← Exec.unwrap (Psci.Call.parse fault)
  let ret ← (match call with
    | .version => pure Psci.VERSION
    | .features qfid => pure (if qfid = Psci.FID_CPU_ON then 0 else Psci.RET_NOT_SUPPORTED)
    | .cpuOn target entry ctxId => do
        cpuOn platform target entry ctxId
        pure Psci.RET_SUCCESS
    | .migrateInfoType => pure Psci.RET_NOT_SUPPORTED)
  onWorld (Exec.modify (World.setMr 0 (signExtend ret)))
  onWorld fault.advanceAndReply

def sysPutchar (fault : UnknownSyscall) : Exec (Failure ε) (VMM E numNodes) Unit := do
  onWorld (extension.handlePutchar node (fault.x 0).toUInt8)
  onWorld fault.advanceAndReply

def handleSyscall (fault : UnknownSyscall) : Exec (Failure ε) (VMM E numNodes) Unit :=
  if fault.syscall = Psci.SYS_PSCI then sysPsci platform fault
  else if fault.syscall = SYS_PUTCHAR then node.sysPutchar extension fault
  else onWorld (extension.handleSyscall node fault)

def handleFault : Fault → Exec (Failure ε) (VMM E numNodes) Unit
  | .vmFault fault => do
      node.handlePageFault platform config fault
      onWorld (reply 0)
  | .unknownSyscall fault => node.handleSyscall platform extension fault
  | .vgicMaintenance idx => do
      let idx ← Exec.unwrap idx
      onGic (GIC.handleMaintenance (config.callbacks.callbacks platform) node.nodeIndex idx.toNat)
      onWorld (reply 0)
  | .vcpuFault hsr => if isWf hsr then onWorld (extension.handleWf node) else Exec.panic
  | .vppiEvent irq => do
      onGic (GIC.handleIrq (config.callbacks.callbacks platform) node.nodeIndex
        (.qualifiedPpi node.nodeIndex irq.toNat))
      onWorld (reply 0)
  | .nullFault | .capFault | .userException => Exec.panic

/-- The events of a badge, and what each swap of a word of the bitfield finds there. -/
def handleEvents (badge : BitVec 64) (words : Nat → BitVec 64) :
    Exec (Failure ε) (VMM E numNodes) Unit :=
  onGic (Exec.forEach (biterate badge) fun group =>
    Exec.forEach (biterate (words group)) fun member => do
      let irq ← Exec.unwrap (config.irqMap.search node.nodeIndex (group * 64 + member))
      GIC.handleIrq (config.callbacks.callbacks platform) node.nodeIndex irq)

/-- The beginning of `run`. -/
def enter : Exec ε World Unit := do
  invoke platform (.writeCntvoff node.vcpu 0)
  invoke platform (.resume node.tcb)

/-- The closure that a thread is sent by `CPU_ON`. -/
def callClosure (entry ctxId : UInt64) : Exec ε World Unit := do
  let ctx ← Exec.orPanic (readAllRegisters platform node.tcb)
  let ctx ← Exec.unwrap (({ ctx with pc := entry } : UserContext).setGpr 0 fun _ => ctxId)
  Exec.orPanic (writeAllRegisters platform node.tcb ctx)
  Exec.orPanic (node.enter platform)

end VMMNode

/-- What a thread does before it receives its first message. -/
def NodeThread.begin {ε E : Type} (platform : Platform ε) (thread : NodeThread E) :
    Exec ε World Unit :=
  match thread.phase with
  | .closure entry ctxId => thread.node.callClosure platform entry ctxId
  | .run => thread.node.enter platform
  | .looping => Exec.panic

section Calls
variable {ε E α : Type} {platform : Platform ε} {numNodes : Nat} {vmm final : VMM E numNodes}

theorem onWorld_eq_ok {call : Exec ε World α} {value : α} :
    (VMMNode.onWorld call : Exec (Failure ε) (VMM E numNodes) α) vmm = .ok value final ↔
      ∃ world, call vmm.gic.callbacks = .ok value world ∧
        { vmm with gic := { vmm.gic with callbacks := world } } = final := by
  simp [VMMNode.onWorld, VMMNode.onGic, GIC.onCallbacks]

/-- `CPU_ON` succeeds for a node that is in the table. -/
theorem cpuOn_eq_ok {target : Nat} {entry ctxId : UInt64} {value : Unit} :
    (VMMNode.cpuOn platform target entry ctxId : Exec (Failure ε) _ Unit) vmm = .ok value final ↔
      ∃ found, vmm.nodes[target]? = some (some found) ∧ final = {
        gic := { vmm.gic with callbacks := vmm.gic.callbacks.started platform found.1 }
        nodes := vmm.nodes.setIfInBounds target none
        threads := vmm.threads ++ [⟨found.2, .closure entry ctxId⟩] } := by
  simp only [VMMNode.cpuOn, Exec.bind_eq_ok, Exec.reads_eq_ok, Exec.modify_eq_ok,
    Exec.unwrap_eq_ok, onWorld_eq_ok, startThread]
  constructor
  · rintro ⟨_, _, ⟨isTable, rfl⟩, _, _, rfl, found, _, ⟨rfl, rfl⟩, _, _, ⟨_, rfl, rfl⟩, rfl⟩
    exact ⟨found, isTable, rfl⟩
  · rintro ⟨found, isTable, rfl⟩
    exact ⟨_, _, ⟨isTable, rfl⟩, (), _, rfl, found, _, ⟨rfl, rfl⟩, (), _, ⟨_, rfl, rfl⟩, rfl⟩

end Calls

/-! ## Steps -/

/-- What a thread receives.  The guest has run since, up to the fault: `ctx` are its registers. -/
inductive Message where
  | fault (ctx : UserContext) (fault : Fault)
  | events (badge : BitVec 64) (words : Nat → BitVec 64)

namespace VMM

variable {ε E : Type} (platform : Platform ε) (extension : VMMExtension ε E) (config : VMMConfig E)
  {numNodes : Nat}

/-- What the kernel does when it delivers a fault: the registers of a system call are in the
message, and the list register that is reported is free. -/
def deliver (node : VMMNode E) (world : World) : Message → World
  | .fault ctx fault =>
      let world := world.setContext node.tcb ctx
      match fault with
      | .unknownSyscall fault =>
          { world with mrs := fun i => (fault.message[i]?).getD (world.mrs i) }
      | .vgicMaintenance (some idx) => world.setListReg node.vcpu idx.toNat none
      | _ => world
  | .events _ _ => world

def handle (node : VMMNode E) : Message → Exec (Failure ε) (VMM E numNodes) Unit
  | .fault _ fault => node.handleFault platform extension config fault
  | .events badge words => node.handleEvents platform config badge words

inductive Step where
  | begin (position : Nat)
  | recv (position : Nat) (message : Message)

/-- What a thread does up to its next message. -/
def step : Step → Exec (Failure ε) (VMM E numNodes) Unit
  | .begin position => do
      let thread ← Exec.reads fun vmm => vmm.threads[position]?
      VMMNode.onWorld (thread.begin platform)
      Exec.modify fun vmm =>
        { vmm with threads := vmm.threads.set position { thread with phase := .looping } }
  | .recv position message => do
      let thread ← Exec.reads fun vmm => vmm.threads[position]?
      Exec.assert (thread.phase = .looping)
      VMMNode.onWorld (Exec.modify fun world => deliver thread.node world message)
      handle platform extension config thread.node message

def Returns (step : Step) (before after : VMM E numNodes) : Prop :=
  VMM.step platform extension config step before = .ok () after

/-- A step that returns, with a value or an error. -/
def Moves (step : Step) (before after : VMM E numNodes) : Prop :=
  Exec.Ends (VMM.step platform extension config step) before after

variable {platform extension config} {vmm final : VMM E numNodes} {position : Nat} {value : Unit}

theorem Returns.moves {step : Step} (returns : Returns platform extension config step vmm final) :
    Moves platform extension config step vmm final := .inl ⟨(), returns⟩

theorem begin_eq_ok : step platform extension config (.begin position) vmm = .ok value final ↔
    ∃ thread world, vmm.threads[position]? = some thread ∧
      thread.begin platform vmm.gic.callbacks = .ok () world ∧ final = {
        gic := { vmm.gic with callbacks := world }
        nodes := vmm.nodes
        threads := vmm.threads.set position { thread with phase := .looping } } := by
  simp only [step, Exec.bind_eq_ok, Exec.reads_eq_ok, Exec.modify_eq_ok, onWorld_eq_ok]
  constructor
  · rintro ⟨thread, _, ⟨isThread, rfl⟩, _, _, ⟨world, begun, rfl⟩, rfl⟩
    exact ⟨thread, world, isThread, begun, rfl⟩
  · rintro ⟨thread, world, isThread, begun, rfl⟩
    exact ⟨thread, _, ⟨isThread, rfl⟩, (), _, ⟨world, begun, rfl⟩, rfl⟩

theorem recv_eq_ok {message : Message} :
    step platform extension config (.recv position message) vmm = .ok value final ↔
      ∃ thread, vmm.threads[position]? = some thread ∧ thread.phase = .looping ∧
        handle platform extension config thread.node message { vmm with gic := { vmm.gic with
          callbacks := deliver thread.node vmm.gic.callbacks message } } = .ok value final := by
  simp only [step, Exec.bind_eq_ok, Exec.reads_eq_ok, Exec.modify_eq_ok, Exec.assert_eq_ok,
    onWorld_eq_ok]
  constructor
  · rintro ⟨thread, _, ⟨isThread, rfl⟩, _, _, ⟨isLooping, rfl⟩, _, _, ⟨_, rfl, rfl⟩, handled⟩
    exact ⟨thread, isThread, isLooping, handled⟩
  · rintro ⟨thread, isThread, isLooping, handled⟩
    exact ⟨thread, _, ⟨isThread, rfl⟩, (), _, ⟨isLooping, rfl⟩, (), _, ⟨_, rfl, rfl⟩, handled⟩

end VMM

/-! ## The extensions -/

namespace Realm

/-- The guests of realms make no other calls. -/
def extension {ε : Type} : VMMExtension ε Unit where
  handleWf _ := Exec.panic
  handleSyscall _ _ := Exec.panic
  handlePutchar _ c := Exec.modify (World.record (.putchar c))

end Realm

namespace Host

structure Extension where
  resourceServerEp : CPtr

def RESOURCE_SERVER_PASSTHRU : UInt64 := 1338

section
variable {ε : Type} (platform : Platform ε)

def userspaceSyscall (node : VMMNode Extension) (fault : UnknownSyscall)
    (f : VMMNode Extension → List UInt64 → Exec ε World (List UInt64)) : Exec ε World Unit := do
  let length := (fault.x 0).toNat
  let parameters ← Exec.mapEach (List.range length) fun i => Exec.unwrap (fault.gpr (i + 1))
  let r ← f node parameters
  Exec.assert (r.length ≤ 6)
  Exec.modify (World.setMr 0 (UInt64.ofNat r.length))
  Exec.forEach (List.range 6) fun i => Exec.modify (World.setMr (i + 1) (r[i]?.getD 0))
  fault.advanceAndReply

/-- The values are sent in message registers, and so is the response. -/
def callResourceServer (node : VMMNode Extension) (values : List UInt64) :
    Exec ε World (List UInt64) := do
  let response := platform.answer (← Exec.get) values
  Exec.modify fun world =>
    { world.record (.callResourceServer node.extension.resourceServerEp values) with
      mrs := fun i => (response[i]?).getD ((values[i]?).getD (world.mrs i)) }
  pure response

/-- The direct calls are for benchmarks, and panic otherwise. -/
def extension : VMMExtension ε Extension where
  handleWf _ := Exec.panic
  handleSyscall node fault :=
    if fault.syscall = RESOURCE_SERVER_PASSTHRU then
      userspaceSyscall node fault (callResourceServer platform)
    else Exec.panic
  handlePutchar _ c := Exec.modify (World.record (.putchar c))

end

end Host

end IceCap.Vmm
