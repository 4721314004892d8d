import IceCap.Fdt.Types

/-!
# Reading a device tree

`checks` says whether the build checks for overflow.  The loops of the source
have no bound; here they and the recursion have one in rounds, and a blob is
read with a round for every four of its bytes, and one more.
-/

set_option autoImplicit false

namespace IceCap.Fdt

open IceCap.Library

structure Cursor where
  buf : List UInt8
  i : Nat
  deriving DecidableEq, Repr

structure Strings where
  table : List UInt8
  deriving DecidableEq, Repr

def cstringAt {σ : Type} (buf : List UInt8) (offset : Nat) : Exec Failure σ String := do
  let sub ← Exec.okOr (sliceFrom buf offset) .malformed
  let n ← Exec.okOr (sub.findIdx? (· == 0)) .malformed
  Exec.okOr (fromUtf8 (sub.take n)) .malformed

def Strings.get {σ : Type} (self : Strings) (offset : UInt32) : Exec Failure σ String :=
  cstringAt self.table offset.toNat

/-- The maps that `read_node` fills. -/
abbrev Maps : Type := List (String × Value) × List (String × Node)

namespace Cursor

/-- `Cursor::new` -/
def start (buf : List UInt8) : Cursor := ⟨buf, 0⟩

section Methods
variable (checks : Bool)

def advance (n : Nat) : Exec Failure Cursor Unit := do
  let self ← Exec.get
  let i ← add checks usizeModulus self.i n
  Exec.modify fun self => { self with i := i }

def align (n : Nat) : Exec Failure Cursor Unit := do
  let self ← Exec.get
  let i ← alignUp checks self.i n
  Exec.modify fun self => { self with i := i }

def read (n : Nat) : Exec Failure Cursor (List UInt8) := do
  let self ← Exec.get
  let stop ← add checks usizeModulus self.i n
  let sub ← Exec.okOr (slice self.buf self.i stop) .malformed
  advance checks n
  pure sub

def readValue (size : Nat) : Exec Failure Cursor Value := do
  let raw ← read checks size
  align checks 4
  pure ⟨raw⟩

def readUnitName : Exec Failure Cursor String := do
  let self ← Exec.get
  let s ← cstringAt self.buf self.i
  let n ← add checks usizeModulus s.utf8ByteSize 1
  advance checks n
  align checks 4
  pure s

/-- A big-endian word.  `copy_from_slice` panics when the lengths differ. -/
def readBe (size : Nat) : Exec Failure Cursor Nat := do
  let raw ← read checks size
  Exec.assert (raw.length = size)
  pure (ofBeBytes raw)

def readBeU32 : Exec Failure Cursor UInt32 := do
  let word ← readBe checks 4
  pure (.ofNat word)

def readBeU64 : Exec Failure Cursor UInt64 := do
  let word ← readBe checks 8
  pure (.ofNat word)

def readHeader : Exec Failure Cursor Header := do
  let magic ← readBeU32 checks
  let totalsize ← readBeU32 checks
  let offDtStruct ← readBeU32 checks
  let offDtStrings ← readBeU32 checks
  let offMemRsvmap ← readBeU32 checks
  let version ← readBeU32 checks
  let lastCompVersion ← readBeU32 checks
  let bootCpuidPhys ← readBeU32 checks
  let sizeDtStrings ← readBeU32 checks
  let sizeDtStruct ← readBeU32 checks
  pure { magic, totalsize, offDtStruct, offDtStrings, offMemRsvmap, version, lastCompVersion,
         bootCpuidPhys, sizeDtStrings, sizeDtStruct }

def readReserveEntry : Exec Failure Cursor ReserveEntry := do
  let address ← readBeU64 checks
  let size ← readBeU64 checks
  pure { address, size }

def readPropHeader : Exec Failure Cursor PropHeader := do
  let len ← readBeU32 checks
  let nameOff ← readBeU32 checks
  pure { len, nameOff }

/-- A round of the loop in `read_node`, which calls `read_node` for a child. -/
def nodeRound (strings : Strings) (readNode : Exec Failure Cursor Node) (maps : Maps) :
    Exec Failure Cursor (Maps ⊕ Node) := do
  let tok ← readBeU32 checks
  if tok = tokNop then pure (.inl maps)
  else if tok = tokProp then do
    let prop ← readPropHeader checks
    let name ← strings.get prop.nameOff
    let value ← readValue checks prop.len.toNat
    pure (.inl (SortedMap.insert name value maps.1, maps.2))
  else if tok = tokBeginNode then do
    let name ← readUnitName checks
    let child ← readNode
    pure (.inl (maps.1, SortedMap.insert name child maps.2))
  else if tok = tokEndNode then pure (.inr (.mk maps.1 maps.2))
  else Exec.fail .malformed

/-- The bound is one on the rounds, and on the depth of the nodes. -/
def readNode (strings : Strings) : Nat → Exec Failure Cursor Node
  | 0 => Exec.fail .unfinished
  | bound + 1 =>
      Exec.loop .unfinished (nodeRound checks strings (readNode strings bound)) (bound + 1) ([], [])

/-- A round of the loop in `read_mem_rsvmap`. -/
def rsvmapRound (v : List ReserveEntry) :
    Exec Failure Cursor (List ReserveEntry ⊕ List ReserveEntry) := do
  let entry ← readReserveEntry checks
  if entry.address = 0 ∧ entry.size = 0 then pure (.inr v)
  else pure (.inl (v ++ [entry]))

def readMemRsvmap (bound : Nat) : Exec Failure Cursor (List ReserveEntry) :=
  Exec.loop .unfinished (rsvmapRound checks) bound []

end Methods

end Cursor

namespace DeviceTree

/-- What follows the root's `TOK_BEGIN_NODE` and up to `TOK_END`. -/
def readStruct (checks : Bool) (strings : Strings) (bound : Nat) : Exec Failure Cursor Node := do
  let tok ← Cursor.readBeU32 checks
  Exec.ensure (tok = tokBeginNode) .malformed
  let name ← Cursor.readUnitName checks
  Exec.ensure (name.utf8ByteSize = 0) .malformed
  let root ← Cursor.readNode checks strings bound
  let tok ← Cursor.readBeU32 checks
  Exec.ensure (tok = tokEnd) .malformed
  pure root

def rounds (dtb : List UInt8) : Nat := dtb.length / 4 + 1

/-- Slicing with `[..]` panics where `get` returns `None`. -/
def read (checks : Bool) (dtb : List UInt8) : Exec Failure Unit DeviceTree := do
  let header ← Exec.on (.start dtb) (Cursor.readHeader checks)
  Exec.ensure (header.magic = magic) .malformed
  Exec.ensure (header.version = version) .malformed
  Exec.ensure (header.lastCompVersion = lastCompVersion) .malformed
  let rsvmap ← Exec.unwrap (sliceFrom dtb header.offMemRsvmap.toNat)
  let memRsvmap ← Exec.on (.start rsvmap) (Cursor.readMemRsvmap checks (rounds dtb))
  let stringsEnd ← add checks u32Modulus header.offDtStrings.toNat header.sizeDtStrings.toNat
  let table ← Exec.unwrap (slice dtb header.offDtStrings.toNat stringsEnd)
  let structEnd ← add checks u32Modulus header.offDtStruct.toNat header.sizeDtStruct.toNat
  let buf ← Exec.unwrap (slice dtb header.offDtStruct.toNat structEnd)
  let root ← Exec.on (.start buf) (readStruct checks ⟨table⟩ (rounds dtb))
  pure { memRsvmap, root, bootCpuidPhys := header.bootCpuidPhys }

end DeviceTree

end IceCap.Fdt
