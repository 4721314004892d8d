import IceCap.Gic.Distributor

/-!
# The GIC

`GIC`: the distributor, and for each node a mirror of its list registers and a
queue for what does not fit.  The embedder's callbacks are a parameter, with a
state of their own; they may return an error and they may panic.
-/

set_option autoImplicit false

namespace IceCap.Gic

open IceCap.Library

def numLrs : Nat := 4

inductive QualifiedIrq where
  | qualifiedPpi (node : Nat) (irq : Irq)
  | spi (irq : Irq)
  deriving DecidableEq, Repr

/-- The callbacks the GIC makes. -/
structure GICCallbacks (ε C : Type) where
  ack : (callingNode : Nat) → QualifiedIrq → Exec ε C Unit
  vcpuInjectIrq : (callingNode targetNode index : Nat) → Irq → (priority : Nat) → Exec ε C Unit

structure Lr where
  mirror : Vector (Option Irq) numLrs
  overflow : List Irq
  deriving DecidableEq, Repr

def Lr.new : Lr := ⟨Vector.replicate numLrs none, []⟩

/-- The first slot of the mirror that is empty. -/
def Lr.emptySlot (lr : Lr) : Option Nat :=
  (List.range numLrs).find? fun index => lr.mirror[index]? == some none

structure GIC (numNodes : Nat) (C : Type) where
  callbacks : C
  dist : Distributor numNodes
  lrs : Vector Lr numNodes

inductive Failure (ε : Type) where
  | irq (error : IrqError)
  | callback (error : ε)

namespace GIC

variable {numNodes : Nat} {ε C α : Type}

def new (numNodes : Nat) (callbacks : C) : GIC numNodes C where
  callbacks := callbacks
  dist := Distributor.new numNodes
  lrs := Vector.replicate numNodes Lr.new

def onDist (call : Exec IrqError (Distributor numNodes) α) : Exec (Failure ε) (GIC numNodes C) α :=
  Exec.focus GIC.dist (fun dist gic => { gic with dist }) (Exec.mapErr .irq call)

def onCallbacks (call : Exec ε C α) : Exec (Failure ε) (GIC numNodes C) α :=
  Exec.focus GIC.callbacks (fun callbacks gic => { gic with callbacks }) (Exec.mapErr .callback call)

/-! ## List registers -/

def updateLr (node : Nat) (change : Lr → Lr) : Exec (Failure ε) (GIC numNodes C) Unit := do
  let lr ← Exec.reads fun gic => gic.lrs[node]?
  Exec.modify fun gic => { gic with lrs := gic.lrs.setIfInBounds node (change lr) }

def setMirror (node index : Nat) (slot : Option Irq) : Exec (Failure ε) (GIC numNodes C) Unit := do
  Exec.assert (index < numLrs)
  updateLr node fun lr => { lr with mirror := lr.mirror.setIfInBounds index slot }

def popOverflow (node : Nat) : Exec (Failure ε) (GIC numNodes C) (Option Irq) := do
  let lr ← Exec.reads fun gic => gic.lrs[node]?
  updateLr node fun lr => { lr with overflow := lr.overflow.tail }
  pure lr.overflow.head?

/-! ## Injection -/

variable (callbacks : GICCallbacks ε C)

def injectIrq (callingNode targetNode index : Nat) (irq : Irq) :
    Exec (Failure ε) (GIC numNodes C) Unit := do
  let priority ← onDist (Distributor.getPriority irq targetNode)
  let priority := priority.toNat >>> 3
  onDist (Distributor.setPending irq targetNode)
  let inject ← onDist (Exec.reads fun dist => dist.shouldInject irq targetNode)
  if inject then do
    onDist (Distributor.setActive irq targetNode)
    setMirror targetNode index (some irq)
    onCallbacks (callbacks.vcpuInjectIrq callingNode targetNode index irq priority)
  else pure ()

def forwardIrq (callingNode targetNode : Nat) (irq : Irq) :
    Exec (Failure ε) (GIC numNodes C) Unit := do
  let lr ← Exec.reads fun gic => gic.lrs[targetNode]?
  match lr.emptySlot with
  | some index => injectIrq callbacks callingNode targetNode index irq
  | none =>
      if irq ∈ lr.overflow then pure ()
      else updateLr targetNode fun lr => { lr with overflow := lr.overflow ++ [irq] }

/-! ## The calls of the VMM -/

/-- A shared interrupt goes to the caller if it is a target, and otherwise to the first target. -/
def handleIrq (callingNode : Nat) : QualifiedIrq → Exec (Failure ε) (GIC numNodes C) Unit
  | .qualifiedPpi node irq => forwardIrq callbacks callingNode node irq
  | .spi irq => do
      let isTarget ← onDist (Exec.reads fun dist => dist.isTarget irq callingNode)
      if isTarget then forwardIrq callbacks callingNode callingNode irq
      else do
        let targets ← onDist (Exec.reads fun dist => dist.getSpiTargets irq)
        match (biterate targets).head? with
        | some targetNode => forwardIrq callbacks callingNode targetNode irq
        | none => pure ()

def handleMaintenance (node index : Nat) : Exec (Failure ε) (GIC numNodes C) Unit := do
  let slot ← Exec.reads fun gic => (gic.lrs[node]?).bind fun lr => lr.mirror[index]?
  let irq ← Exec.unwrap slot
  setMirror node index none
  onDist (Distributor.ack irq node)
  onCallbacks (callbacks.ack node (if irq ≥ 16 ∧ irq < 32 then .qualifiedPpi node irq else .spi irq))
  let next ← popOverflow node
  match next with
  | some irq => injectIrq callbacks node node index irq
  | none => pure ()

/-- One round of the loop over what is to be acknowledged. -/
def ackIrq (callingNode : Nat) (pair : Irq × Cpu) : Exec (Failure ε) (GIC numNodes C) Unit := do
  onDist (Distributor.ack pair.1 pair.2)
  if pair.1 ≥ 16 then
    onCallbacks (callbacks.ack callingNode
      (if pair.1 < 32 then .qualifiedPpi pair.2 pair.1 else .spi pair.1))
  else pure ()

def handleWrite (callingNode offset : Nat) (data : FaultData) :
    Exec (Failure ε) (GIC numNodes C) Unit := do
  let writeAction ← onDist (Distributor.handleWrite offset callingNode data)
  match writeAction with
  | .noAction => pure ()
  | .injectAndAckIrqs toInject toAck => do
      Exec.forEach (toAck.getD []) (ackIrq callbacks callingNode)
      Exec.forEach (toInject.getD []) fun pair =>
        forwardIrq callbacks callingNode pair.2 pair.1

def handleRead (node offset : Nat) (width : FaultWidth) :
    Exec (Failure ε) (GIC numNodes C) FaultData :=
  onDist (Distributor.handleRead offset node width)

inductive Call where
  | handleIrq (callingNode : Nat) (irq : QualifiedIrq)
  | handleMaintenance (node index : Nat)
  | handleWrite (callingNode offset : Nat) (data : FaultData)
  deriving DecidableEq, Repr

def handle : Call → Exec (Failure ε) (GIC numNodes C) Unit
  | .handleIrq callingNode irq => handleIrq callbacks callingNode irq
  | .handleMaintenance node index => handleMaintenance callbacks node index
  | .handleWrite callingNode offset data => handleWrite callbacks callingNode offset data

end GIC

end IceCap.Gic
