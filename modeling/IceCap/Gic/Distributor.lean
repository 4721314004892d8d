import IceCap.Biterate
import IceCap.Gic.Registers

/-!
# The GIC distributor

`Distributor`, with all its registers and what reads and writes of them do.  The
register vectors are never resized, so their lengths are in their types; an
index past the end is a panic.  There are at most eight nodes.
-/

set_option autoImplicit false

namespace IceCap.Gic

open IceCap.Library

structure Distributor (numNodes : Nat) where
  control : Register32
  icType : Register32
  distIdent : Register32
  irqGroup0 : Vector Register32 numNodes
  irqGroup : Vector Register32 31
  enable0 : Vector Register32 numNodes
  enable : Vector Register32 31
  pending0 : Vector Register32 numNodes
  pending : Vector Register32 31
  active0 : Vector Register32 numNodes
  active : Vector Register32 31
  priority0 : Vector (Vector Register32 8) numNodes
  priority : Vector Register32 247
  targets0 : Vector (Vector Register32 8) numNodes
  targets : Vector Register32 247
  config0 : Register32
  config1 : Vector Register32 numNodes
  config : Vector Register32 62
  sgiPending : Vector (Vector Register32 4) numNodes
  periphId : Vector Register32 12
  componentId : Vector Register32 4
  deriving DecidableEq, Repr

inductive WriteAction where
  | noAction
  | injectAndAckIrqs (toInject toAck : Option (List (Irq × Cpu)))
  deriving DecidableEq, Repr

variable {numNodes : Nat}

namespace Distributor

/-- A bit for the cpu in each of the four bytes. -/
def ownTarget (cpu : Cpu) : Register32 :=
  (List.range 4).foldl (fun reg irq => reg ||| ((1#32 <<< cpu) <<< (irq * 8))) 0

def reset (dist : Distributor numNodes) : Distributor numNodes :=
  { dist with
    icType := 0x0000fce7
    distIdent := 0x0200043b
    enable0 := Vector.replicate numNodes 0x0000ffff
    config0 := 0xaaaaaaaa
    config1 := Vector.replicate numNodes 0x55540000
    config := (List.range 14).foldl (fun config i => config.setIfInBounds i 0x55555555) dist.config
    targets0 := Vector.ofFn fun cpu => Vector.replicate 8 (ownTarget cpu.val)
    targets := Vector.replicate 247 0x01010101
    periphId := (((dist.periphId.setIfInBounds 4 0x04).setIfInBounds 8 0x90).setIfInBounds 9
      0xb4).setIfInBounds 10 0x2b
    componentId := (((dist.componentId.setIfInBounds 0 0x0d).setIfInBounds 1 0xf0).setIfInBounds 2
      0x05).setIfInBounds 3 0xb1 }

def new (numNodes : Nat) : Distributor numNodes :=
  reset {
    control := 0
    icType := 0
    distIdent := 0
    irqGroup0 := Vector.replicate numNodes 0
    irqGroup := Vector.replicate 31 0
    enable0 := Vector.replicate numNodes 0
    enable := Vector.replicate 31 0
    pending0 := Vector.replicate numNodes 0
    pending := Vector.replicate 31 0
    active0 := Vector.replicate numNodes 0
    active := Vector.replicate 31 0
    priority0 := Vector.replicate numNodes (Vector.replicate 8 0)
    priority := Vector.replicate 247 0
    targets0 := Vector.replicate numNodes (Vector.replicate 8 0)
    targets := Vector.replicate 247 0
    config0 := 0
    config1 := Vector.replicate numNodes 0
    config := Vector.replicate 62 0
    sgiPending := Vector.replicate numNodes (Vector.replicate 4 0)
    periphId := Vector.replicate 12 0
    componentId := Vector.replicate 4 0 }

/-! ## Registers with one bit for each interrupt

The first register of such a family is banked. -/

structure Family (numNodes : Nat) where
  banked : Distributor numNodes → Vector Register32 numNodes
  shared : Distributor numNodes → Vector Register32 31
  put : Vector Register32 numNodes → Vector Register32 31 → Distributor numNodes →
    Distributor numNodes
  banked_put : ∀ regs0 regs dist, banked (put regs0 regs dist) = regs0 := by intros; rfl
  shared_put : ∀ regs0 regs dist, shared (put regs0 regs dist) = regs := by intros; rfl

def group : Family numNodes where
  banked := irqGroup0
  shared := irqGroup
  put irqGroup0 irqGroup dist := { dist with irqGroup0, irqGroup }

def enables : Family numNodes where
  banked := enable0
  shared := enable
  put enable0 enable dist := { dist with enable0, enable }

def pendings : Family numNodes where
  banked := pending0
  shared := pending
  put pending0 pending dist := { dist with pending0, pending }

def actives : Family numNodes where
  banked := active0
  shared := active
  put active0 active dist := { dist with active0, active }

namespace Family

/-- The register a load by `nodeIndex` finds. -/
def load (family : Family numNodes) (regNum nodeIndex : Nat) (dist : Distributor numNodes) :
    Option Register32 :=
  if regNum = 0 then (family.banked dist)[nodeIndex]? else (family.shared dist)[regNum - 1]?

/-- Update a register in place. -/
def update (family : Family numNodes) (regNum nodeIndex : Nat) (change : Register32 → Register32) :
    Exec IrqError (Distributor numNodes) Unit := do
  let reg ← Exec.reads (family.load regNum nodeIndex)
  Exec.modify fun dist =>
    if regNum = 0 then
      family.put ((family.banked dist).setIfInBounds nodeIndex (change reg)) (family.shared dist) dist
    else
      family.put (family.banked dist) ((family.shared dist).setIfInBounds (regNum - 1) (change reg))
        dist

/-- `is_enabled`, `is_pending` and `is_active`. -/
def test (family : Family numNodes) (dist : Distributor numNodes) (irq : Irq) (cpu : Cpu) :
    Option Bool :=
  if cpu ≥ numNodes then some false
  else
    let reg := if irq < 32 then (family.banked dist)[cpu]? else (family.shared dist)[irq / 32 - 1]?
    reg.map fun (val : Register32) => (val >>> (irq % 32)) &&& 1 == 1

/-- `set_pending`, `clear_pending`, `set_active` and `clear_active`. -/
def updateBit (family : Family numNodes) (irq : Irq) (cpu : Cpu)
    (change : Register32 → Register32 → Register32) : Exec IrqError (Distributor numNodes) Unit :=
  if cpu ≥ numNodes then Exec.fail (.invalidCpu cpu)
  else do
    let shift := irq % 32
    let val := 1#32 <<< shift
    family.update (if irq < 32 then 0 else irq / 32) cpu fun reg => change reg val

end Family

def setBits (reg val : Register32) : Register32 := reg ||| val

def clearBits (reg val : Register32) : Register32 := reg &&& ~~~val

def isEnabled (dist : Distributor numNodes) (irq : Irq) (cpu : Cpu) : Option Bool :=
  enables.test dist irq cpu

def isPending (dist : Distributor numNodes) (irq : Irq) (cpu : Cpu) : Option Bool :=
  pendings.test dist irq cpu

def isActive (dist : Distributor numNodes) (irq : Irq) (cpu : Cpu) : Option Bool :=
  actives.test dist irq cpu

def setPending (irq : Irq) (cpu : Cpu) : Exec IrqError (Distributor numNodes) Unit :=
  pendings.updateBit irq cpu setBits

def clearPending (irq : Irq) (cpu : Cpu) : Exec IrqError (Distributor numNodes) Unit :=
  pendings.updateBit irq cpu clearBits

def setActive (irq : Irq) (cpu : Cpu) : Exec IrqError (Distributor numNodes) Unit :=
  actives.updateBit irq cpu setBits

def clearActive (irq : Irq) (cpu : Cpu) : Exec IrqError (Distributor numNodes) Unit :=
  actives.updateBit irq cpu clearBits

/-! ## Priorities and targets -/

def priorityOf (dist : Distributor numNodes) (irq : Irq) (cpu : Cpu) : Option Register32 :=
  let regNum := irq / 4
  let reg :=
    if regNum < 8 then (dist.priority0[cpu]?).bind fun bank => bank[regNum]?
    else dist.priority[regNum - 8]?
  let mask := 0xFF#32 <<< ((irq % 4) * 8)
  reg.map fun (val : Register32) => (val &&& mask) >>> ((irq % 4) * 8)

def getPriority (irq : Irq) (cpu : Cpu) : Exec IrqError (Distributor numNodes) Register32 :=
  if cpu ≥ numNodes then Exec.fail (.invalidCpu cpu)
  else Exec.reads fun dist => dist.priorityOf irq cpu

def getSpiTargets (dist : Distributor numNodes) (irq : Irq) : Option Register32 :=
  if irq < 32 then none
  else (dist.targets[irq / 4 - 8]?).map fun (val : Register32) =>
      (val >>> ((irq % 4) * 8)) &&& 0xFF

def isTarget (dist : Distributor numNodes) (irq : Irq) (cpu : Cpu) : Option Bool :=
  if cpu ≥ numNodes then some false
  else
    let reg :=
      if irq < 32 then (dist.targets0[cpu]?).bind fun bank => bank[irq / 4]?
      else dist.targets[irq / 4 - 8]?
    reg.map fun (val : Register32) =>
      let cpus := (val >>> ((irq % 4) * 8)) &&& 0xFF
      (cpus >>> cpu) &&& 1 == 1

def isGicEnabled (dist : Distributor numNodes) : Bool := dist.control == 1

/-- The conditions are tested in order, and the first that fails ends the test. -/
def shouldInject (dist : Distributor numNodes) (irq : Irq) (cpu : Cpu) : Option Bool :=
  if dist.isGicEnabled then
    (dist.isEnabled irq cpu).bind fun enabled =>
      if enabled then
        (dist.isTarget irq cpu).bind fun target =>
          if target then
            (dist.isPending irq cpu).bind fun pending =>
              if pending then (dist.isActive irq cpu).map fun active => !active else some false
          else some false
      else some false
  else some false

/-! ## Acknowledgement -/

/-- Update `sgi_pending[node_index][reg_num]` and return what was there. -/
def updateSgiPending (regNum nodeIndex : Nat) (change : Register32 → Register32) :
    Exec IrqError (Distributor numNodes) Register32 := do
  let bank ← Exec.reads fun dist => dist.sgiPending[nodeIndex]?
  let prev ← Exec.unwrap bank[regNum]?
  Exec.modify fun dist =>
    { dist with
      sgiPending := dist.sgiPending.setIfInBounds nodeIndex
        (bank.setIfInBounds regNum (change prev)) }
  pure prev

def clearSgiPending (irq : Irq) (sourceCpu targetCpu : Cpu) :
    Exec IrqError (Distributor numNodes) Unit :=
  if sourceCpu ≥ numNodes then Exec.fail (.invalidCpu sourceCpu)
  else if targetCpu ≥ numNodes then Exec.fail (.invalidCpu targetCpu)
  else if irq > 16 then Exec.fail (.invalidIrq irq)
  else do
    let regNum := irq / 4
    let val := 1#32 <<< (sourceCpu + (irq % 4) * 8)
    let prev ← updateSgiPending regNum targetCpu fun reg => clearBits reg val
    let stillPending := clearBits prev val
    let mask := 0xFF#32 <<< ((irq % 4) * 8)
    if stillPending &&& mask = 0 then Exec.orPanic (clearPending irq targetCpu) else pure ()

def ack (irq : Irq) (nodeIndex : Nat) : Exec IrqError (Distributor numNodes) Unit :=
  let cpu := nodeIndex
  if cpu ≥ numNodes then Exec.fail (.invalidCpu cpu)
  else do
    (if irq < 16 then clearSgiPending irq 0 cpu else clearPending irq cpu)
    clearActive irq cpu

/-! ## Sweeps -/

/-- The inner loop: for shared interrupts it ends with the first node found. -/
def sweepNodes (test : Irq → Cpu → Option Bool) (irq : Irq) :
    List Cpu → Option (List (Irq × Cpu))
  | [] => some []
  | nodeIndex :: rest =>
      (test irq nodeIndex).bind fun found =>
        if found then
          if irq ≥ 32 then some [(irq, nodeIndex)]
          else (sweepNodes test irq rest).map fun more => (irq, nodeIndex) :: more
        else sweepNodes test irq rest

def sweepIrqs (numNodes : Nat) (test : Irq → Cpu → Option Bool) :
    List Irq → Option (List (Irq × Cpu))
  | [] => some []
  | irq :: rest =>
      (sweepNodes test irq (List.range numNodes)).bind fun found =>
        (sweepIrqs numNodes test rest).map fun more => found ++ more

def sweepIrqsToInject (baseIrq numIrqs : Nat) (dist : Distributor numNodes) :
    Option (List (Irq × Cpu)) :=
  sweepIrqs numNodes dist.shouldInject (List.range' baseIrq numIrqs)

/-- Enabled, but not to be injected. -/
def shouldAck (dist : Distributor numNodes) (irq : Irq) (cpu : Cpu) : Option Bool :=
  (dist.shouldInject irq cpu).bind fun inject =>
    if inject then some false else dist.isEnabled irq cpu

def sweepIrqsToAck (baseIrq numIrqs : Nat) (dist : Distributor numNodes) :
    Option (List (Irq × Cpu)) :=
  sweepIrqs numNodes dist.shouldAck (List.range' baseIrq numIrqs)

/-- Sweep for both, as after a write that enables something. -/
def sweepBoth (baseIrq numIrqs : Nat) : Exec IrqError (Distributor numNodes) WriteAction := do
  let toInject ← Exec.reads (sweepIrqsToInject baseIrq numIrqs)
  let toAck ← Exec.reads (sweepIrqsToAck baseIrq numIrqs)
  if toInject.length = 0 ∧ toAck.length = 0 then pure .noAction
  else pure (.injectAndAckIrqs (some toInject) (some toAck))

def injectOnly (toInject : List (Irq × Cpu)) : WriteAction :=
  if toInject.length = 0 then .noAction else .injectAndAckIrqs (some toInject) none

/-! ## Writes -/

def writeCtlr (val : Register32) : Exec IrqError (Distributor numNodes) WriteAction :=
  if val = 1 then do
    let prev := (← Exec.get).control
    Exec.modify fun dist => { dist with control := setBits dist.control val }
    if prev = 0 then sweepBoth 0 1020 else pure .noAction
  else if val = 0 then do
    Exec.modify fun dist => { dist with control := dist.control &&& val }
    pure .noAction
  else Exec.fail .invalidRegisterWrite

def writeIgroupr (regNum nodeIndex : Nat) (val : Register32) :
    Exec IrqError (Distributor numNodes) WriteAction := do
  group.update regNum nodeIndex fun _ => val
  pure .noAction

def writeIsenabler (regNum nodeIndex : Nat) (val : Register32) :
    Exec IrqError (Distributor numNodes) WriteAction :=
  if val = 0 then pure .noAction
  else do
    enables.update regNum nodeIndex fun reg => setBits reg val
    sweepBoth (regNum * 32) 32

/-- A shared register is taken from `enable[reg_num]`, not from `enable[reg_num - 1]`. -/
def writeIcenabler (regNum nodeIndex : Nat) (val : Register32) :
    Exec IrqError (Distributor numNodes) WriteAction :=
  if val = 0 then pure .noAction
  else do
    enables.update (if regNum = 0 then 0 else regNum + 1) nodeIndex fun reg => clearBits reg val
    pure .noAction

def writeIspendr (regNum nodeIndex : Nat) (val : Register32) :
    Exec IrqError (Distributor numNodes) WriteAction :=
  if val = 0 then pure .noAction
  else if regNum = 0 ∧ val &&& 0xFFFF ≠ 0 then pure .noAction
  else do
    pendings.update regNum nodeIndex fun reg => setBits reg val
    let toInject ← Exec.reads (sweepIrqsToInject (regNum * 32) 32)
    pure (injectOnly toInject)

def writeIcpendr (regNum nodeIndex : Nat) (val : Register32) :
    Exec IrqError (Distributor numNodes) WriteAction :=
  if val = 0 then pure .noAction
  else if regNum = 0 ∧ val &&& 0xFFFF ≠ 0 then Exec.fail .invalidRegisterWrite
  else do
    pendings.update regNum nodeIndex fun reg => clearBits reg val
    pure .noAction

/-- `GICD_ISACTIVERn` and `GICD_ICACTIVERn`. -/
def writeActiver (regNum nodeIndex : Nat) (change : Register32 → Register32 → Register32)
    (val : Register32) : Exec IrqError (Distributor numNodes) WriteAction :=
  if val = 0 then pure .noAction
  else do
    actives.update regNum nodeIndex fun reg => change reg val
    pure .noAction

def writeIpriorityr (regNum nodeIndex : Nat) (val : Register32) :
    Exec IrqError (Distributor numNodes) WriteAction :=
  if regNum < 8 then do
    let bank ← Exec.reads fun dist => dist.priority0[nodeIndex]?
    let _ ← Exec.unwrap bank[regNum]?
    Exec.modify fun dist =>
      { dist with
        priority0 := dist.priority0.setIfInBounds nodeIndex (bank.setIfInBounds regNum val) }
    pure .noAction
  else do
    let _ ← Exec.reads fun dist => dist.priority[regNum - 8]?
    Exec.modify fun dist => { dist with priority := dist.priority.setIfInBounds (regNum - 8) val }
    pure .noAction

/-- `GICD_ITARGETSRn`: `named` are the bits the write names. -/
def writeItargetsr (regNum : Nat) (change : Register32 → Register32) (named : Register32) :
    Exec IrqError (Distributor numNodes) WriteAction :=
  if regNum < 8 then Exec.fail .invalidRegisterWrite
  else do
    let prev ← Exec.reads fun dist => dist.targets[regNum - 8]?
    Exec.modify fun dist =>
      { dist with targets := dist.targets.setIfInBounds (regNum - 8) (change prev) }
    let newCpus := clearBits named prev
    if newCpus = 0 then pure .noAction else sweepBoth (regNum * 4) 4

def writeIcfgr (regNum nodeIndex : Nat) (val : Register32) :
    Exec IrqError (Distributor numNodes) WriteAction :=
  if regNum = 0 then pure .noAction
  else if regNum = 1 then do
    let _ ← Exec.reads fun dist => dist.config1[nodeIndex]?
    Exec.modify fun dist => { dist with config1 := dist.config1.setIfInBounds nodeIndex val }
    pure .noAction
  else do
    let _ ← Exec.reads fun dist => dist.config[regNum - 2]?
    Exec.modify fun dist => { dist with config := dist.config.setIfInBounds (regNum - 2) val }
    pure .noAction

/-- Make the interrupt pending on a cpu, and note it if it is to be injected. -/
def pendSgi (irq : Irq) (toInject : List (Irq × Cpu)) (cpu : Cpu) :
    Exec IrqError (Distributor numNodes) (List (Irq × Cpu)) := do
  Exec.orPanic (setPending irq cpu)
  let inject ← Exec.reads fun dist => dist.shouldInject irq cpu
  pure (if inject then toInject ++ [(irq, cpu)] else toInject)

def forwardSgi (irq : Irq) (cpus : List Cpu) :
    Exec IrqError (Distributor numNodes) (List (Irq × Cpu)) :=
  Exec.foldEach cpus [] (pendSgi irq)

def writeSgir (nodeIndex : Nat) (val : Register32) :
    Exec IrqError (Distributor numNodes) WriteAction :=
  let irq := (val &&& 0xFF).toNat
  let cpuTargetList := (val >>> 16) &&& 0xFF
  let targetListFilter := (val >>> 24) &&& 0x3
  if targetListFilter = 0b00 then do
    let toInject ← forwardSgi irq (biterate cpuTargetList)
    pure (injectOnly toInject)
  else if targetListFilter = 0b01 then do
    Exec.assert (nodeIndex < 8)
    let toInject ← forwardSgi irq (biterate (0b11111111#32 ^^^ (1#32 <<< nodeIndex)))
    pure (injectOnly toInject)
  else if targetListFilter = 0b10 then do
    let toInject ← forwardSgi irq [nodeIndex]
    pure (injectOnly toInject)
  else pure .noAction

/-- The loop over the four interrupts of an SGI register.  The mask is shifted anew in each round,
so that it goes over the first, second and fourth byte and is then empty. -/
def forSgiBytes (baseIrq : Irq) (body : Irq → Register32 → Exec IrqError (Distributor numNodes) Unit) :
    Exec IrqError (Distributor numNodes) Unit := do
  let _ ← Exec.foldEach (List.range' baseIrq 4) 0xFF#32 fun mask irq => do
    body irq (mask <<< ((irq - baseIrq) * 8))
    pure (mask <<< ((irq - baseIrq) * 8))
  pure ()

def writeCpendsgir (regNum nodeIndex : Nat) (val : Register32) :
    Exec IrqError (Distributor numNodes) WriteAction :=
  if val = 0 then pure .noAction
  else do
    let prev ← updateSgiPending regNum nodeIndex fun reg => clearBits reg val
    let stillPending := clearBits prev val
    forSgiBytes (regNum * 4) fun irq mask =>
      if stillPending &&& mask = 0 then Exec.orPanic (clearPending irq nodeIndex) else pure ()
    pure .noAction

def writeSpendsgir (regNum nodeIndex : Nat) (val : Register32) :
    Exec IrqError (Distributor numNodes) WriteAction :=
  if val = 0 then pure .noAction
  else do
    let prev ← updateSgiPending regNum nodeIndex fun reg => setBits reg val
    let newlyPending := clearBits val prev
    forSgiBytes (regNum * 4) fun irq mask =>
      if newlyPending &&& mask ≠ 0 then Exec.orPanic (setPending irq nodeIndex) else pure ()
    let toInject ← Exec.reads (sweepIrqsToInject (regNum * 4) 4)
    pure (injectOnly toInject)

def writeWord (nodeIndex : Nat) (val : Register32) :
    DistRegWord → Exec IrqError (Distributor numNodes) WriteAction
  | .ctlr => writeCtlr val
  | .iidr | .typer => Exec.fail .invalidRegisterWrite
  | .igroupr regNum => writeIgroupr regNum nodeIndex val
  | .isenabler regNum => writeIsenabler regNum nodeIndex val
  | .icenabler regNum => writeIcenabler regNum nodeIndex val
  | .ispendr regNum => writeIspendr regNum nodeIndex val
  | .icpendr regNum => writeIcpendr regNum nodeIndex val
  | .isactiver regNum => writeActiver regNum nodeIndex setBits val
  | .icactiver regNum => writeActiver regNum nodeIndex clearBits val
  | .ipriorityr regNum => writeIpriorityr regNum nodeIndex val
  | .itargetsr regNum => writeItargetsr regNum (fun _ => val) val
  | .icfgr regNum => writeIcfgr regNum nodeIndex val
  | .nsacr _ => Exec.fail .invalidRegisterWrite
  | .sgir => writeSgir nodeIndex val
  | .cpendsgir regNum => writeCpendsgir regNum nodeIndex val
  | .spendsgir regNum => writeSpendsgir regNum nodeIndex val
  | .icpidr _ | .iccidr _ => Exec.fail .invalidRegisterWrite

def writeByte (val : BitVec 8) : DistRegByte → Exec IrqError (Distributor numNodes) WriteAction
  | .itargetsr regNum byteIndex =>
      writeItargetsr regNum (fun reg => setByte reg byteIndex val)
        (val.setWidth 32 <<< (byteIndex * 8))
  | _ => Exec.panic

end Distributor

inductive FaultData where
  | byte (val : BitVec 8)
  | halfWord (val : BitVec 16)
  | word (val : BitVec 32)
  | doubleWord (val : BitVec 64)
  deriving DecidableEq, Repr

inductive FaultWidth where
  | byte
  | halfWord
  | word
  | doubleWord
  deriving DecidableEq, Repr

namespace Distributor

def handleWrite (offset nodeIndex : Nat) :
    FaultData → Exec IrqError (Distributor numNodes) WriteAction
  | .word val => do
      let reg ← Exec.unwrap (DistRegWord.fromOffset offset)
      writeWord nodeIndex val reg
  | .byte val => do
      let reg ← Exec.unwrap (DistRegByte.fromOffset offset)
      writeByte val reg
  | _ => Exec.panic

/-! ## Reads -/

/-- Both views of the enable registers take a shared one from `enable[reg_num]`. -/
def readEnable (regNum nodeIndex : Nat) (dist : Distributor numNodes) : Option Register32 :=
  enables.load (if regNum = 0 then 0 else regNum + 1) nodeIndex dist

def readWord (nodeIndex : Nat) : DistRegWord → Exec IrqError (Distributor numNodes) Register32
  | .ctlr => Exec.reads fun dist => some dist.control
  | .typer => Exec.reads fun dist => some dist.icType
  | .iidr => Exec.reads fun dist => some dist.distIdent
  | .igroupr regNum => Exec.reads (group.load regNum nodeIndex)
  | .isenabler regNum | .icenabler regNum => Exec.reads (readEnable regNum nodeIndex)
  | .ispendr regNum | .icpendr regNum => Exec.reads (pendings.load regNum nodeIndex)
  | .isactiver regNum | .icactiver regNum => Exec.reads (actives.load regNum nodeIndex)
  | .ipriorityr regNum => Exec.reads fun dist =>
      if regNum < 8 then (dist.priority0[nodeIndex]?).bind fun bank => bank[regNum]?
      else dist.priority[regNum - 8]?
  | .itargetsr regNum => Exec.reads fun dist =>
      if regNum < 8 then (dist.targets0[nodeIndex]?).bind fun bank => bank[regNum]?
      else dist.targets[regNum - 8]?
  | .icfgr regNum => Exec.reads fun dist =>
      if regNum = 0 then some dist.config0
      else if regNum = 1 then dist.config1[nodeIndex]?
      else dist.config[regNum - 2]?
  | .nsacr _ | .sgir => Exec.fail .invalidRegisterRead
  | .cpendsgir regNum | .spendsgir regNum => Exec.reads fun dist =>
      (dist.sgiPending[nodeIndex]?).bind fun bank => bank[regNum]?
  | .icpidr regNum => Exec.reads fun dist => dist.periphId[regNum]?
  | .iccidr regNum => Exec.reads fun dist => dist.componentId[regNum]?

def handleRead (offset nodeIndex : Nat) :
    FaultWidth → Exec IrqError (Distributor numNodes) FaultData
  | .word => do
      let reg ← Exec.unwrap (DistRegWord.fromOffset offset)
      let val ← readWord nodeIndex reg
      pure (.word val)
  | _ => Exec.panic

end Distributor

end IceCap.Gic
