import IceCap.Fdt.Types

/-!
# Writing a device tree

The writer has no error path.  No vector is so long that aligning its length
overflows, but offsets and lengths are cut to 32 bits as they are written.
-/

set_option autoImplicit false

namespace IceCap.Fdt

open IceCap.Library

def bytesOf (s : String) : List UInt8 := s.toByteArray.data.toList

def beU32 (v : UInt32) : List UInt8 := beBytes 4 v.toNat

def beU64 (v : UInt64) : List UInt8 := beBytes 8 v.toNat

namespace Writer

def pad (buf : List UInt8) (n : Nat) : List UInt8 := buf ++ List.replicate n 0

def align (buf : List UInt8) (n : Nat) : List UInt8 := pad buf (alignedUp buf.length n - buf.length)

def writeHeader (buf : List UInt8) (header : Header) : List UInt8 :=
  buf ++ beU32 header.magic ++ beU32 header.totalsize ++ beU32 header.offDtStruct ++
    beU32 header.offDtStrings ++ beU32 header.offMemRsvmap ++ beU32 header.version ++
    beU32 header.lastCompVersion ++ beU32 header.bootCpuidPhys ++ beU32 header.sizeDtStrings ++
    beU32 header.sizeDtStruct

def writeMemRsvmap (buf : List UInt8) (memRsvmap : List ReserveEntry) : List UInt8 :=
  memRsvmap.foldl (fun buf entry => buf ++ beU64 entry.address ++ beU64 entry.size) buf ++
    beU64 0 ++ beU64 0

/-- The table of the strings, and the buffer of the writer. -/
structure Output where
  strings : List UInt8
  buf : List UInt8
  deriving DecidableEq, Repr

/-- `Strings::insert`, which returns the offset. -/
def insertString (strings : List UInt8) (s : String) : UInt32 × List UInt8 :=
  (.ofNat strings.length, strings ++ bytesOf s ++ [0])

def writeBeginNode (buf : List UInt8) (name : String) : List UInt8 :=
  align (buf ++ beU32 tokBeginNode ++ bytesOf name ++ [0]) 4

def writeProperty (output : Output) (property : String × Value) : Output :=
  let inserted := insertString output.strings property.1
  { strings := inserted.2
    buf := align (output.buf ++ beU32 tokProp ++ beU32 (.ofNat property.2.raw.length) ++
      beU32 inserted.1 ++ property.2.raw) 4 }

mutual

def writeNode (output : Output) (name : String) : Node → Output
  | .mk properties children =>
      let begun := { output with buf := writeBeginNode output.buf name }
      let written := writeChildren (properties.foldl writeProperty begun) children
      { written with buf := written.buf ++ beU32 tokEndNode }

def writeChildren (output : Output) : List (String × Node) → Output
  | [] => output
  | (name, child) :: rest => writeChildren (writeNode output name child) rest

end

end Writer

namespace DeviceTree

def write (dt : DeviceTree) : List UInt8 :=
  let memRsvmap := Writer.writeMemRsvmap [] dt.memRsvmap
  let written := Writer.writeNode ⟨[], []⟩ "" dt.root
  let root := written.buf ++ beU32 tokEnd
  let strings := written.strings
  let w := Writer.pad [] headerSize
  let w := Writer.align w 8
  let offMemRsvmap := UInt32.ofNat w.length
  let w := Writer.align (w ++ memRsvmap) 4
  let sizeDtStruct := UInt32.ofNat root.length
  let offDtStruct := UInt32.ofNat w.length
  let w := Writer.align (w ++ root) 4
  let sizeDtStrings := UInt32.ofNat strings.length
  let offDtStrings := UInt32.ofNat w.length
  let w := w ++ strings
  let totalsize := UInt32.ofNat w.length
  let header := Writer.writeHeader [] {
    magic := magic
    totalsize
    offDtStruct
    offDtStrings
    offMemRsvmap
    version := version
    lastCompVersion := lastCompVersion
    bootCpuidPhys := dt.bootCpuidPhys
    sizeDtStrings
    sizeDtStruct }
  header ++ w.drop headerSize

end DeviceTree

end IceCap.Fdt
