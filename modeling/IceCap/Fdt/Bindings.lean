import IceCap.Fdt.Read
import IceCap.Fdt.Write

/-!
# The devices of a guest

The setters of nodes and values, the nodes that describe devices, and
`hypervisor-fdt-append-devices`, which adds them to the tree of a guest.  `none`
is a panic.  A `usize` has 64 bits.
-/

set_option autoImplicit false

namespace IceCap.Fdt

open IceCap.Library

/-- `Range<usize>` -/
structure Range where
  start : UInt64
  stop : UInt64
  deriving DecidableEq, Repr

def Range.len (range : Range) : UInt64 :=
  if range.start < range.stop then range.stop - range.start else 0

/-! ## Values -/

namespace Value

def ofU32 (v : UInt32) : Value := ⟨beU32 v⟩

def ofU64 (v : UInt64) : Value := ⟨beU64 v⟩

def ofStr (v : String) : Value := ⟨bytesOf v ++ [0]⟩

def fromIter (vs : List Value) : Value := ⟨vs.flatMap Value.raw⟩

def toU32 (v : Value) : Option UInt32 :=
  if v.raw.length = 4 then some (.ofNat (ofBeBytes v.raw)) else none

def toU64 (v : Value) : Option UInt64 :=
  if v.raw.length = 8 then some (.ofNat (ofBeBytes v.raw)) else none

end Value

inductive Cells where
  | address (v : UInt64)
  | size (v : UInt64)
  | raw32 (v : UInt32)
  | raw64 (v : UInt64)

structure SizeSpec where
  addressCells : UInt32
  sizeCells : UInt32
  deriving DecidableEq, Repr

namespace SizeSpec

/-- A number that does not fit in one cell is cut. -/
def render (numCells : UInt32) (v : UInt64) : Option Value :=
  if numCells = 1 then some (.ofU32 v.toUInt32)
  else if numCells = 2 then some (.ofU64 v)
  else none

def address (self : SizeSpec) (v : UInt64) : Option Value := render self.addressCells v

def size (self : SizeSpec) (v : UInt64) : Option Value := render self.sizeCells v

def cell (self : SizeSpec) : Cells → Option Value
  | .address v => self.address v
  | .size v => self.size v
  | .raw32 v => some (.ofU32 v)
  | .raw64 v => some (.ofU64 v)

end SizeSpec

/-! ## Nodes -/

def defaultAddressCells : UInt32 := 2
def defaultSizeCells : UInt32 := 1

namespace Node

def new : Node := .mk [] []

def getProperty (self : Node) (name : String) : Option Value := SortedMap.get name self.properties

def setProperty (self : Node) (name : String) (value : Value) : Node :=
  .mk (SortedMap.insert name value self.properties) self.children

def setPropertyIter (self : Node) (name : String) (values : List Value) : Node :=
  self.setProperty name (.fromIter values)

def setPropertyCells (self : Node) (name : String) (spec : SizeSpec) (values : List Cells) :
    Option Node := do
  let values ← values.mapM spec.cell
  pure (self.setPropertyIter name values)

def getChild (self : Node) (name : String) : Option Node := SortedMap.get name self.children

def setChild (self : Node) (name : String) (child : Node) : Node :=
  .mk self.properties (SortedMap.insert name child self.children)

def setCompatible (self : Node) (value : String) : Node :=
  self.setProperty "compatible" (.ofStr value)

def getAddressCells (self : Node) : UInt32 :=
  ((self.getProperty "#address-cells").bind Value.toU32).getD defaultAddressCells

def getSizeCells (self : Node) : UInt32 :=
  ((self.getProperty "#size-cells").bind Value.toU32).getD defaultSizeCells

def getSizeSpec (self : Node) : SizeSpec := ⟨self.getAddressCells, self.getSizeCells⟩

end Node

/-- What becomes of the root. -/
def DeviceTree.setChild (dt : DeviceTree) (name : String) (child : Node) : DeviceTree :=
  { dt with root := dt.root.setChild name child }

/-! ## Devices -/

structure RingBufferSide where
  ctrl : Range
  data : Range
  deriving DecidableEq, Repr

inductive Kick where
  | raw (notification : UInt64)
  | managed (endpoints : List UInt64) (message : UInt64)
  deriving DecidableEq, Repr

structure RingBuffer where
  read : RingBufferSide
  write : RingBufferSide
  kick : Kick
  deriving DecidableEq, Repr

def RingBuffer.setReg (self : RingBuffer) (node : Node) (spec : SizeSpec) : Option Node := do
  let node ← node.setPropertyCells "reg" spec [
    .address self.read.ctrl.start, .size self.read.ctrl.len,
    .address self.write.ctrl.start, .size self.write.ctrl.len,
    .address self.read.data.start, .size self.read.data.len,
    .address self.write.data.start, .size self.write.data.len]
  match self.kick with
  | .raw notification =>
      let node := node.setProperty "kick-type" (.ofStr "unmanaged")
      pure (node.setProperty "kick-notification" (.ofU64 notification))
  | .managed endpoints message =>
      let node := node.setProperty "kick-type" (.ofStr "managed")
      let node := node.setProperty "kick-message" (.ofU64 message)
      node.setPropertyCells "kick-endpoints" spec (endpoints.map .raw64)

def interrupts (irq : UInt32) : List Value := [.ofU32 0, .ofU32 irq, .ofU32 1]

structure Net where
  ringBuffer : RingBuffer
  mtu : UInt32
  macAddress : Vector UInt8 6
  irq : UInt32
  deriving DecidableEq, Repr

structure Con where
  ringBuffer : RingBuffer
  irq : UInt32
  deriving DecidableEq, Repr

structure Channel where
  ringBuffer : RingBuffer
  irq : UInt32
  name : String
  id : UInt32
  deriving DecidableEq, Repr

def Net.apply (self : Net) (name : String) (dt : DeviceTree) : Option DeviceTree := do
  let spec := dt.root.getSizeSpec
  let node := Node.new
  let node := node.setCompatible "icecap,net"
  let node := node.setProperty "mtu" (.ofU32 self.mtu)
  let node := node.setProperty "local-mac-address" ⟨self.macAddress.toList⟩
  let node := node.setPropertyIter "interrupts" (interrupts self.irq)
  let node ← self.ringBuffer.setReg node spec
  pure (dt.setChild name node)

def Con.apply (self : Con) (name : String) (dt : DeviceTree) : Option DeviceTree := do
  let spec := dt.root.getSizeSpec
  let node := Node.new
  let node := node.setCompatible "icecap,con"
  let node := node.setPropertyIter "interrupts" (interrupts self.irq)
  let node ← self.ringBuffer.setReg node spec
  pure (dt.setChild name node)

def Channel.apply (self : Channel) (name : String) (dt : DeviceTree) : Option DeviceTree := do
  let spec := dt.root.getSizeSpec
  let node := Node.new
  let node := node.setCompatible "icecap,channel"
  let node := node.setProperty "channel-name" (.ofStr self.name)
  let node := node.setProperty "id" (.ofU32 self.id)
  let node := node.setPropertyIter "interrupts" (interrupts self.irq)
  let node ← self.ringBuffer.setReg node spec
  pure (dt.setChild name node)

inductive Device where
  | channel (dev : Channel)
  | net (dev : Net)
  | con (dev : Con)
  deriving DecidableEq, Repr

/-- `{:x}` -/
def hex (v : UInt64) : String := String.ofList (Nat.toDigits 16 v.toNat)

namespace Device

def ringBuffer : Device → RingBuffer
  | channel dev => dev.ringBuffer
  | net dev => dev.ringBuffer
  | con dev => dev.ringBuffer

/-- The name that `apply` gives to the node. -/
def nodeName : Device → String
  | channel dev => "icecap_channel@" ++ hex dev.ringBuffer.read.ctrl.start
  | net dev => "icecap_net@" ++ hex dev.ringBuffer.read.ctrl.start
  | con dev => "icecap_con@" ++ hex dev.ringBuffer.read.ctrl.start

def apply (self : Device) (dt : DeviceTree) : Option DeviceTree :=
  match self with
  | channel dev => dev.apply self.nodeName dt
  | net dev => dev.apply self.nodeName dt
  | con dev => dev.apply self.nodeName dt

end Device

structure Chosen where
  bootargs : Option (List String)
  initrd : Option Range
  stdoutPath : Option String
  kaslrSeed : Option UInt64

def Chosen.apply (self : Chosen) (dt : DeviceTree) : Option DeviceTree := do
  let spec := dt.root.getSizeSpec
  let node := Node.new
  let node := match self.bootargs with
    | some bootargs => node.setProperty "bootargs" (.ofStr (" ".intercalate bootargs))
    | none => node
  let node ← match self.initrd with
    | some initrd => do
        let node := node.setProperty "linux,initrd-start" (← spec.address initrd.start)
        pure (node.setProperty "linux,initrd-end" (← spec.address initrd.stop))
    | none => pure node
  let node := match self.stdoutPath with
    | some stdoutPath => node.setProperty "stdout-path" (.ofStr stdoutPath)
    | none => node
  let node := match self.kaslrSeed with
    | some kaslrSeed => node.setProperty "kaslr-seed" (.ofU64 kaslrSeed)
    | none => node
  pure (dt.setChild "chosen" node)

structure ResourceServer where
  bulkRegion : Range
  endpoints : List UInt64

namespace ResourceServer

def apply (self : ResourceServer) (name : String) (dt : DeviceTree) : Option DeviceTree := do
  let spec := dt.root.getSizeSpec
  let node := Node.new
  let node := node.setCompatible "icecap,resource-server"
  let node ← node.setPropertyCells "reg" spec
    [.address self.bulkRegion.start, .size self.bulkRegion.len]
  let node ← node.setPropertyCells "endpoints" spec (self.endpoints.map .raw64)
  pure (dt.setChild name node)

/-- The name that `apply_with_default_name` gives to the node. -/
def nodeName (self : ResourceServer) : String :=
  "icecap_resource_server@" ++ hex self.bulkRegion.start

def applyWithDefaultName (self : ResourceServer) (dt : DeviceTree) : Option DeviceTree :=
  self.apply self.nodeName dt

end ResourceServer

/-! ## The tool -/

structure Input where
  chosen : Option Chosen
  devices : List Device
  resourceServer : Option ResourceServer
  numCpus : Nat

def cpuName (i : Nat) : String := "cpu@" ++ toString i

/-- The nodes of the cpus behind the first one are copies of it. -/
def addCpus (numCpus : Nat) (cpus cpu0 : Node) : Node :=
  (List.range' 1 (numCpus - 1)).foldl
    (fun cpus i => cpus.setChild (cpuName i) (cpu0.setProperty "reg" (.ofU32 (.ofNat i)))) cpus

namespace Input

def append (input : Input) (dt : DeviceTree) : Option DeviceTree := do
  let dt ← match input.chosen with
    | some chosen => chosen.apply dt
    | none => pure dt
  let dt ← input.devices.foldlM (fun dt device => device.apply dt) dt
  let dt ← match input.resourceServer with
    | some resourceServer => resourceServer.applyWithDefaultName dt
    | none => pure dt
  let cpus ← dt.root.getChild "cpus"
  let cpu0 ← cpus.getChild "cpu@0"
  pure (dt.setChild "cpus" (addCpus input.numCpus cpus cpu0))

/-- From the blob on the standard input to the one on the standard output. -/
def main (checks : Bool) (input : Input) (dtb : List UInt8) : Option (List UInt8) := do
  let dt ← match DeviceTree.read checks dtb () with
    | .ok dt _ => some dt
    | .err _ _ => none
    | .panic => none
  let dt ← input.append dt
  pure dt.write

end Input

end IceCap.Fdt
