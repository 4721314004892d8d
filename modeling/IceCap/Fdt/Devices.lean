import IceCap.Fdt.Bindings
import IceCap.Fdt.Follows
import IceCap.Library.Fields

/-!
# The bindings of devices, decoded

What the writers of the bindings put into the properties of a node is taken apart
again, field by field and with the widths in which it was put together.  The
decoder is a specification of the layout and no part of the program, which only
writes it: it gives the device that was put there exactly if its addresses and
sizes have room in the cells of the tree, and its name is one that can be in a
string.
-/

set_option autoImplicit false

namespace IceCap.Fdt

open IceCap.Library

/-! ## Reading properties -/

namespace Value

/-- Numbers in so many cells each. -/
def toCells (cells : List UInt32) (v : Value) : Option (List Nat) :=
  ofBeFields (cells.map fun count => 4 * count.toNat) v.raw

def toU64s (v : Value) : Option (List UInt64) :=
  (ofBeFields (List.replicate (v.raw.length / 8) 8) v.raw).map (List.map UInt64.ofNat)

/-- The string up to the first byte that is zero. -/
def toStr (v : Value) : Option String :=
  if 0 ∈ v.raw then fromUtf8 (v.raw.takeWhile (· != 0)) else none

def toMac (v : Value) : Option (Vector UInt8 6) :=
  if isSize : v.raw.length = 6 then some ⟨v.raw.toArray, isSize⟩ else none

end Value

def Range.ofCells (start size : Nat) : Range := ⟨.ofNat start, .ofNat (start + size)⟩

def Kick.decode (node : Node) : Option Kick := do
  let kind ← (node.getProperty "kick-type").bind Value.toStr
  if kind = "unmanaged" then
    (node.getProperty "kick-notification").bind Value.toU64 |>.map .raw
  else if kind = "managed" then do
    let message ← (node.getProperty "kick-message").bind Value.toU64
    let endpoints ← (node.getProperty "kick-endpoints").bind Value.toU64s
    pure (.managed endpoints message)
  else none

def RingBuffer.decode (spec : SizeSpec) (node : Node) : Option RingBuffer := do
  let cells := [spec.addressCells, spec.sizeCells]
  let reg ← (node.getProperty "reg").bind (Value.toCells (cells ++ cells ++ cells ++ cells))
  let kick ← Kick.decode node
  match reg with
  | [readCtrl, readCtrlSize, writeCtrl, writeCtrlSize, readData, readDataSize, writeData,
      writeDataSize] => some {
        read := ⟨.ofCells readCtrl readCtrlSize, .ofCells readData readDataSize⟩
        write := ⟨.ofCells writeCtrl writeCtrlSize, .ofCells writeData writeDataSize⟩
        kick }
  | _ => none

def decodeIrq (node : Node) : Option UInt32 := do
  match ← (node.getProperty "interrupts").bind (Value.toCells [1, 1, 1]) with
  | [_, irq, _] => some (.ofNat irq)
  | _ => none

/-- The device that the properties of a node describe. -/
def Device.decode (spec : SizeSpec) (node : Node) : Option Device := do
  let compatible ← (node.getProperty "compatible").bind Value.toStr
  let ringBuffer ← RingBuffer.decode spec node
  let irq ← decodeIrq node
  if compatible = "icecap,channel" then do
    let name ← (node.getProperty "channel-name").bind Value.toStr
    let id ← (node.getProperty "id").bind Value.toU32
    pure (.channel ⟨ringBuffer, irq, name, id⟩)
  else if compatible = "icecap,net" then do
    let mtu ← (node.getProperty "mtu").bind Value.toU32
    let macAddress ← (node.getProperty "local-mac-address").bind Value.toMac
    pure (.net ⟨ringBuffer, mtu, macAddress, irq⟩)
  else if compatible = "icecap,con" then pure (.con ⟨ringBuffer, irq⟩)
  else none

/-! ## What is written -/

namespace Cells

def count (spec : SizeSpec) : Cells → UInt32
  | .address _ => spec.addressCells
  | .size _ => spec.sizeCells
  | .raw32 _ => 1
  | .raw64 _ => 2

def value : Cells → Nat
  | .address v | .size v | .raw64 v => v.toNat
  | .raw32 v => v.toNat

end Cells

/-- The numbers of cells that are handled. -/
def Rendered (count : UInt32) : Prop := count = 1 ∨ count = 2

structure SizeSpec.Renders (spec : SizeSpec) : Prop where
  address : Rendered spec.addressCells
  size : Rendered spec.sizeCells

theorem render_eq_some {count : UInt32} {v : UInt64} {value : Value} :
    SizeSpec.render count v = some value ↔
      Rendered count ∧ value = ⟨beBytes (4 * count.toNat) v.toNat⟩ := by
  have room : (2 : Nat) ^ 32 = 256 ^ 4 := by decide
  have cut : beU32 v.toUInt32 = beBytes 4 v.toNat := by
    rw [beU32, UInt64.toNat_toUInt32, room, beBytes_mod]
  unfold SizeSpec.render Rendered
  split
  · next isOne =>
      subst isOne
      simp [Value.ofU32, cut, eq_comm]
  · next notOne =>
      split
      · next isTwo =>
          subst isTwo
          simp [Value.ofU64, beU64, eq_comm]
      · next notTwo => simp [notOne, notTwo]

theorem cell_eq_some {spec : SizeSpec} {cell : Cells} {value : Value} :
    spec.cell cell = some value ↔ Rendered (cell.count spec) ∧
      value = ⟨beBytes (4 * (cell.count spec).toNat) cell.value⟩ := by
  cases cell with
  | address v => exact render_eq_some
  | size v => exact render_eq_some
  | raw32 v => simp [SizeSpec.cell, Cells.count, Cells.value, Rendered, Value.ofU32, beU32, eq_comm]
  | raw64 v => simp [SizeSpec.cell, Cells.count, Cells.value, Rendered, Value.ofU64, beU64, eq_comm]

/-- The fields of cells. -/
def fieldsOf (spec : SizeSpec) (cells : List Cells) : List (Nat × Nat) :=
  cells.map fun cell => (4 * (cell.count spec).toNat, cell.value)

theorem cells_eq_some {spec : SizeSpec} {cells : List Cells} {values : List Value} :
    cells.mapM spec.cell = some values ↔ (∀ cell ∈ cells, Rendered (cell.count spec)) ∧
      values = (fieldsOf spec cells).map fun field => ⟨beBytes field.1 field.2⟩ := by
  induction cells generalizing values with
  | nil => simp [fieldsOf, eq_comm]
  | cons cell cells ih =>
      simp only [List.mapM_cons, Option.bind_eq_bind, Option.bind_eq_some_iff, cell_eq_some, ih,
        Option.pure_def, Option.some.injEq, List.forall_mem_cons, fieldsOf, List.map_cons]
      constructor
      · rintro ⟨_, ⟨isRendered, rfl⟩, _, ⟨areRendered, rfl⟩, rfl⟩
        exact ⟨⟨isRendered, areRendered⟩, rfl⟩
      · rintro ⟨⟨isRendered, areRendered⟩, rfl⟩
        exact ⟨_, ⟨isRendered, rfl⟩, _, ⟨areRendered, rfl⟩, rfl⟩

theorem setPropertyCells_eq_some {node final : Node} {name : String} {spec : SizeSpec}
    {cells : List Cells} : node.setPropertyCells name spec cells = some final ↔
      (∀ cell ∈ cells, Rendered (cell.count spec)) ∧
      final = node.setProperty name ⟨beFields (fieldsOf spec cells)⟩ := by
  simp only [Node.setPropertyCells, Option.bind_eq_bind, Option.bind_eq_some_iff, cells_eq_some,
    Option.pure_def, Option.some.injEq]
  constructor
  · rintro ⟨_, ⟨areRendered, rfl⟩, rfl⟩
    refine ⟨areRendered, ?_⟩
    simp [Node.setPropertyIter, Value.fromIter, beFields, List.flatMap_map]
  · rintro ⟨areRendered, rfl⟩
    refine ⟨_, ⟨areRendered, rfl⟩, ?_⟩
    simp [Node.setPropertyIter, Value.fromIter, beFields, List.flatMap_map]

theorem raw64_rendered (spec : SizeSpec) (numbers : List UInt64) :
    ∀ cell ∈ numbers.map Cells.raw64, Rendered (cell.count spec) := by
  intro cell member
  obtain ⟨_, _, rfl⟩ := List.mem_map.mp member
  exact .inr rfl

theorem fieldsOf_raw64 (spec : SizeSpec) (numbers : List UInt64) :
    beFields (fieldsOf spec (numbers.map .raw64)) =
      numbers.flatMap fun number => beBytes 8 number.toNat := by
  simp [fieldsOf, beFields, List.flatMap_map, Cells.count, Cells.value]

/-! ## The nodes of devices -/

def RingBuffer.cells (self : RingBuffer) : List Cells := [
  .address self.read.ctrl.start, .size self.read.ctrl.len,
  .address self.write.ctrl.start, .size self.write.ctrl.len,
  .address self.read.data.start, .size self.read.data.len,
  .address self.write.data.start, .size self.write.data.len]

def Kick.described (node : Node) : Kick → Node
  | .raw notification =>
      (node.setProperty "kick-type" (.ofStr "unmanaged")).setProperty "kick-notification"
        (.ofU64 notification)
  | .managed endpoints message =>
      ((node.setProperty "kick-type" (.ofStr "managed")).setProperty "kick-message"
        (.ofU64 message)).setProperty "kick-endpoints"
          ⟨endpoints.flatMap fun endpoint => beBytes 8 endpoint.toNat⟩

def RingBuffer.described (self : RingBuffer) (node : Node) (spec : SizeSpec) : Node :=
  self.kick.described (node.setProperty "reg" ⟨beFields (fieldsOf spec self.cells)⟩)

theorem setReg_eq_some {ringBuffer : RingBuffer} {node final : Node} {spec : SizeSpec} :
    ringBuffer.setReg node spec = some final ↔
      spec.Renders ∧ final = ringBuffer.described node spec := by
  have renders : (∀ cell ∈ ringBuffer.cells, Rendered (cell.count spec)) ↔ spec.Renders := by
    simp only [RingBuffer.cells, List.forall_mem_cons, Cells.count, List.not_mem_nil]
    exact ⟨fun all => ⟨all.1, all.2.1⟩, fun both => by simp [both.address, both.size]⟩
  obtain ⟨read, write, kick⟩ := ringBuffer
  rw [RingBuffer.setReg, Option.bind_eq_bind, Option.bind_eq_some_iff]
  change (∃ middle, node.setPropertyCells "reg" spec (RingBuffer.cells ⟨read, write, kick⟩) =
    some middle ∧ _) ↔ _
  simp only [setPropertyCells_eq_some, renders]
  cases kick with
  | raw notification =>
      constructor
      · rintro ⟨_, ⟨isSpec, rfl⟩, isFinal⟩
        exact ⟨isSpec, (Option.some.inj isFinal).symm⟩
      · rintro ⟨isSpec, rfl⟩
        exact ⟨_, ⟨isSpec, rfl⟩, rfl⟩
  | managed endpoints message =>
      constructor
      · rintro ⟨_, ⟨isSpec, rfl⟩, isFinal⟩
        obtain ⟨_, rfl⟩ := setPropertyCells_eq_some.mp isFinal
        rw [fieldsOf_raw64]
        exact ⟨isSpec, rfl⟩
      · rintro ⟨isSpec, rfl⟩
        refine ⟨_, ⟨isSpec, rfl⟩, setPropertyCells_eq_some.mpr ⟨raw64_rendered _ _, ?_⟩⟩
        rw [fieldsOf_raw64]
        rfl

/-- The node that `apply` makes. -/
def Device.described (self : Device) (spec : SizeSpec) : Node :=
  match self with
  | .channel dev =>
      let node := Node.new.setCompatible "icecap,channel"
      let node := node.setProperty "channel-name" (.ofStr dev.name)
      let node := node.setProperty "id" (.ofU32 dev.id)
      let node := node.setPropertyIter "interrupts" (interrupts dev.irq)
      dev.ringBuffer.described node spec
  | .net dev =>
      let node := Node.new.setCompatible "icecap,net"
      let node := node.setProperty "mtu" (.ofU32 dev.mtu)
      let node := node.setProperty "local-mac-address" ⟨dev.macAddress.toList⟩
      let node := node.setPropertyIter "interrupts" (interrupts dev.irq)
      dev.ringBuffer.described node spec
  | .con dev =>
      let node := Node.new.setCompatible "icecap,con"
      let node := node.setPropertyIter "interrupts" (interrupts dev.irq)
      dev.ringBuffer.described node spec

theorem apply_eq_some {device : Device} {dt final : DeviceTree} :
    device.apply dt = some final ↔ dt.root.getSizeSpec.Renders ∧
      final = dt.setChild device.nodeName (device.described dt.root.getSizeSpec) := by
  cases device with
  | channel | net | con =>
      simp only [Device.apply, Channel.apply, Net.apply, Con.apply, Option.bind_eq_bind,
        Option.bind_eq_some_iff, setReg_eq_some, Option.pure_def, Option.some.injEq]
      constructor
      · rintro ⟨_, ⟨isSpec, rfl⟩, rfl⟩
        exact ⟨isSpec, rfl⟩
      · rintro ⟨isSpec, rfl⟩
        exact ⟨_, ⟨isSpec, rfl⟩, rfl⟩

/-! ## What is decoded -/

namespace Node

@[simp]
theorem getProperty_setProperty (node : Node) (name other : String) (value : Value) :
    (node.setProperty name value).getProperty other =
      if other = name then some value else node.getProperty other := by
  split
  · next same => exact same ▸ SortedMap.get_insert_self _ _ _
  · next differs => exact SortedMap.get_insert_of_ne differs _ _

@[simp]
theorem getProperty_setPropertyIter (node : Node) (name other : String) (values : List Value) :
    (node.setPropertyIter name values).getProperty other =
      if other = name then some (.fromIter values) else node.getProperty other :=
  getProperty_setProperty _ _ _ _

@[simp]
theorem getProperty_setCompatible (node : Node) (other value : String) :
    (node.setCompatible value).getProperty other =
      if other = "compatible" then some (.ofStr value) else node.getProperty other :=
  getProperty_setProperty _ _ _ _

end Node

namespace Value

@[simp]
theorem toU32_ofU32 (v : UInt32) : (ofU32 v).toU32 = some v := by
  rw [toU32, ofU32, beU32, if_pos (length_beBytes _ _), ofBeBytes_beBytes]
  exact congrArg some (UInt32.toNat_inj.mp (by simp))

@[simp]
theorem toU64_ofU64 (v : UInt64) : (ofU64 v).toU64 = some v := by
  rw [toU64, ofU64, beU64, if_pos (length_beBytes _ _), ofBeBytes_beBytes]
  exact congrArg some (UInt64.toNat_inj.mp (by simp))

theorem toU64s_eq (vs : List UInt64) :
    toU64s ⟨vs.flatMap fun v => beBytes 8 v.toNat⟩ = some vs := by
  have isLength : (vs.flatMap fun v => beBytes 8 v.toNat).length / 8 = (vs.map UInt64.toNat).length := by
    simp [List.length_flatMap, List.map_const']
  have comesBack := ofBeFields_replicate 8 (vs.map UInt64.toNat)
  rw [List.flatMap_map] at comesBack
  rw [toU64s, isLength, comesBack, Option.map_some, List.map_map, List.map_map]
  refine congrArg some ((List.map_congr_left fun v _ => ?_).trans (List.map_id _))
  exact UInt64.toNat_inj.mp (by simp)

/-- What is found of a string is all of it if it has no zero in it. -/
theorem toStr_ofStr_iff {s : String} : (ofStr s).toStr = some s ↔ NulFree s := by
  have hasZero : (0 : UInt8) ∈ bytesOf s ++ [0] := by simp
  rw [toStr, ofStr, if_pos hasZero, nulFree_iff]
  constructor
  · intro found member
    rw [bytesOf_fromUtf8 found] at member
    have notZero := List.all_eq_true.mp List.all_takeWhile _ member
    simp at notZero
  · intro nulFree
    have notZero : ∀ byte ∈ bytesOf s, (byte != 0) = true := fun byte member =>
      bne_iff_ne.mpr fun isZero => nulFree (isZero ▸ member)
    rw [List.takeWhile_append_of_pos notZero]
    simpa using fromUtf8_bytesOf s

@[simp]
theorem toMac_toList (mac : Vector UInt8 6) : toMac ⟨mac.toList⟩ = some mac := by
  rw [toMac, dif_pos mac.length_toList]
  rfl

end Value

theorem toCells_eq (spec : SizeSpec) (cells : List Cells) :
    Value.toCells (cells.map (Cells.count spec)) ⟨beFields (fieldsOf spec cells)⟩ =
      some (cells.map fun cell => cell.value % 256 ^ (4 * (cell.count spec).toNat)) := by
  have comesBack := ofBeFields_beFields (fieldsOf spec cells)
  simpa [Value.toCells, fieldsOf, Function.comp_def] using comesBack

/-- The range has room in the cells. -/
structure Range.Fits (range : Range) (spec : SizeSpec) : Prop where
  ordered : range.start ≤ range.stop
  address : range.start.toNat < 256 ^ (4 * spec.addressCells.toNat)
  size : range.len.toNat < 256 ^ (4 * spec.sizeCells.toNat)

theorem ofCells_eq_iff {range : Range} {spec : SizeSpec} :
    Range.ofCells (range.start.toNat % 256 ^ (4 * spec.addressCells.toNat))
      (range.len.toNat % 256 ^ (4 * spec.sizeCells.toNat)) = range ↔ range.Fits spec := by
  obtain ⟨start, stop⟩ := range
  have startLess := start.toNat_lt
  have stopLess := stop.toNat_lt
  have isLen : (Range.len ⟨start, stop⟩).toNat = stop.toNat - start.toNat := by
    unfold Range.len
    split
    · next less => exact UInt64.toNat_sub_of_le _ _ (UInt64.le_of_lt less)
    · next notLess =>
        have ordered : stop.toNat ≤ start.toNat := UInt64.le_iff_toNat_le.mp (UInt64.not_lt.mp notLess)
        exact (Nat.sub_eq_zero_of_le ordered).symm
  have isCut := Nat.mod_le start.toNat (256 ^ (4 * spec.addressCells.toNat))
  have isCutLen := Nat.mod_le (stop.toNat - start.toNat) (256 ^ (4 * spec.sizeCells.toNat))
  rw [Range.ofCells, Range.mk.injEq, ← UInt64.toNat_inj, ← UInt64.toNat_inj, UInt64.toNat_ofNat',
    UInt64.toNat_ofNat', isLen]
  constructor
  · intro ⟨sameStart, sameStop⟩
    rw [Nat.mod_eq_of_lt (lt_of_le_of_lt isCut startLess)] at sameStart
    rw [sameStart, Nat.mod_eq_of_lt (by omega)] at sameStop
    have sameLen : (stop.toNat - start.toNat) % 256 ^ (4 * spec.sizeCells.toNat) =
        stop.toNat - start.toNat := by omega
    have ordered : start.toNat ≤ stop.toNat := by omega
    refine ⟨UInt64.le_iff_toNat_le.mpr ordered, ?_, ?_⟩
    · exact sameStart ▸ Nat.mod_lt _ (Nat.pow_pos (by decide))
    · rw [isLen]
      exact sameLen ▸ Nat.mod_lt _ (Nat.pow_pos (by decide))
  · intro ⟨ordered, address, size⟩
    rw [isLen] at size
    have isOrdered := UInt64.le_iff_toNat_le.mp ordered
    rw [Nat.mod_eq_of_lt address, Nat.mod_eq_of_lt size, Nat.mod_eq_of_lt startLess]
    refine ⟨rfl, ?_⟩
    rw [Nat.add_sub_cancel' isOrdered, Nat.mod_eq_of_lt stopLess]

def RingBuffer.Fits (self : RingBuffer) (spec : SizeSpec) : Prop :=
  (self.read.ctrl.Fits spec ∧ self.read.data.Fits spec) ∧
    self.write.ctrl.Fits spec ∧ self.write.data.Fits spec

/-- The ring buffer has room, and the name of a channel ends where it is said to end. -/
def Device.Fits (self : Device) (spec : SizeSpec) : Prop :=
  match self with
  | .channel dev => dev.ringBuffer.Fits spec ∧ NulFree dev.name
  | .net dev => dev.ringBuffer.Fits spec
  | .con dev => dev.ringBuffer.Fits spec

instance nulFreeDecidable (s : String) : Decidable (NulFree s) :=
  inferInstanceAs (Decidable (Char.ofNat 0 ∉ s.toList))

theorem decode_kick (kick : Kick) (node : Node) : Kick.decode (kick.described node) = some kick := by
  cases kick with
  | raw notification =>
      have isKind : (Value.ofStr "unmanaged").toStr = some "unmanaged" :=
        Value.toStr_ofStr_iff.mpr (by decide)
      simp [Kick.decode, Kick.described, isKind]
  | managed endpoints message =>
      have isKind : (Value.ofStr "managed").toStr = some "managed" :=
        Value.toStr_ofStr_iff.mpr (by decide)
      simp [Kick.decode, Kick.described, isKind, Value.toU64s_eq]

/-- The kick is in properties of its own. -/
theorem getProperty_kick {name : String} (kick : Kick) (node : Node)
    (differs : name ∉ ["kick-type", "kick-notification", "kick-message", "kick-endpoints"]) :
    (kick.described node).getProperty name = node.getProperty name := by
  simp only [List.mem_cons, List.not_mem_nil, or_false, not_or] at differs
  obtain ⟨notType, notNotification, notMessage, notEndpoints⟩ := differs
  cases kick with
  | raw notification => simp [Kick.described, notType, notNotification]
  | managed endpoints message => simp [Kick.described, notType, notMessage, notEndpoints]

theorem getProperty_described {name : String} (ringBuffer : RingBuffer) (node : Node)
    (spec : SizeSpec) (differs : name ∉ ["reg", "kick-type", "kick-notification", "kick-message",
      "kick-endpoints"]) :
    (ringBuffer.described node spec).getProperty name = node.getProperty name := by
  rw [List.mem_cons, not_or] at differs
  rw [RingBuffer.described, getProperty_kick _ _ differs.2, Node.getProperty_setProperty,
    if_neg differs.1]

theorem decode_described (ringBuffer : RingBuffer) (node : Node) (spec : SizeSpec) :
    ∃ found, RingBuffer.decode spec (ringBuffer.described node spec) = some found ∧
      (found = ringBuffer ↔ ringBuffer.Fits spec) := by
  have isReg : (ringBuffer.described node spec).getProperty "reg" =
      some ⟨beFields (fieldsOf spec ringBuffer.cells)⟩ := by
    rw [RingBuffer.described, getProperty_kick _ _ (by decide), Node.getProperty_setProperty,
      if_pos rfl]
  have cells := toCells_eq spec ringBuffer.cells
  have isKick := decode_kick ringBuffer.kick
    (node.setProperty "reg" ⟨beFields (fieldsOf spec ringBuffer.cells)⟩)
  obtain ⟨⟨readCtrl, readData⟩, ⟨writeCtrl, writeData⟩, kick⟩ := ringBuffer
  simp only [RingBuffer.cells, List.map_cons, List.map_nil, Cells.count, Cells.value] at cells
  have isRead := (congrArg (fun found => Option.bind found (Value.toCells [spec.addressCells,
    spec.sizeCells, spec.addressCells, spec.sizeCells, spec.addressCells, spec.sizeCells,
    spec.addressCells, spec.sizeCells])) isReg).trans cells
  refine ⟨_, Option.bind_eq_some_iff.mpr ⟨_, isRead,
    Option.bind_eq_some_iff.mpr ⟨kick, isKick, rfl⟩⟩, ?_⟩
  simp only [RingBuffer.mk.injEq, RingBufferSide.mk.injEq, ofCells_eq_iff, and_true]
  rfl

theorem decodeIrq_eq {irq : UInt32} {node : Node}
    (isIrq : node.getProperty "interrupts" = some (.fromIter (interrupts irq))) :
    decodeIrq node = some irq := by
  have cells : Value.toCells [1, 1, 1] (Value.fromIter (interrupts irq)) =
      some [0, irq.toNat % 2 ^ 32, 1] := toCells_eq ⟨1, 1⟩ [.raw32 0, .raw32 irq, .raw32 1]
  rw [decodeIrq, isIrq, Option.bind_some, cells]
  exact congrArg some (UInt32.toNat_inj.mp (by simp))

/-- A device is decoded from its description exactly if it has room there. -/
theorem decode_described_iff {device : Device} {spec : SizeSpec} :
    Device.decode spec (device.described spec) = some device ↔ device.Fits spec := by
  cases device with
  | channel dev =>
      obtain ⟨ringBuffer, irq, name, id⟩ := dev
      have isKind : (Value.ofStr "icecap,channel").toStr = some "icecap,channel" :=
        Value.toStr_ofStr_iff.mpr (by decide)
      simp only [Device.described, Device.Fits]
      generalize isNode : ((((Node.new.setCompatible "icecap,channel").setProperty "channel-name"
        (.ofStr name)).setProperty "id" (.ofU32 id)).setPropertyIter "interrupts" (interrupts irq)) =
          node
      obtain ⟨found, isFound, isSame⟩ := decode_described ringBuffer node spec
      have isIrq : decodeIrq (ringBuffer.described node spec) = some irq :=
        decodeIrq_eq (by rw [getProperty_described _ _ _ (by decide), ← isNode]; simp)
      simp (disch := decide) only [Device.decode, getProperty_described, isFound, isIrq, ← isSame]
      subst isNode
      simp [isKind, Value.toStr_ofStr_iff, Option.bind_eq_some_iff, and_comm]
  | net dev =>
      obtain ⟨ringBuffer, mtu, macAddress, irq⟩ := dev
      have isKind : (Value.ofStr "icecap,net").toStr = some "icecap,net" :=
        Value.toStr_ofStr_iff.mpr (by decide)
      simp only [Device.described, Device.Fits]
      generalize isNode : ((((Node.new.setCompatible "icecap,net").setProperty "mtu"
        (.ofU32 mtu)).setProperty "local-mac-address" ⟨macAddress.toList⟩).setPropertyIter
          "interrupts" (interrupts irq)) = node
      obtain ⟨found, isFound, isSame⟩ := decode_described ringBuffer node spec
      have isIrq : decodeIrq (ringBuffer.described node spec) = some irq :=
        decodeIrq_eq (by rw [getProperty_described _ _ _ (by decide), ← isNode]; simp)
      simp (disch := decide) only [Device.decode, getProperty_described, isFound, isIrq, ← isSame]
      subst isNode
      simp [isKind]
  | con dev =>
      obtain ⟨ringBuffer, irq⟩ := dev
      have isKind : (Value.ofStr "icecap,con").toStr = some "icecap,con" :=
        Value.toStr_ofStr_iff.mpr (by decide)
      simp only [Device.described, Device.Fits]
      generalize isNode : ((Node.new.setCompatible "icecap,con").setPropertyIter "interrupts"
        (interrupts irq)) = node
      obtain ⟨found, isFound, isSame⟩ := decode_described ringBuffer node spec
      have isIrq : decodeIrq (ringBuffer.described node spec) = some irq :=
        decodeIrq_eq (by rw [getProperty_described _ _ _ (by decide), ← isNode]; simp)
      simp (disch := decide) only [Device.decode, getProperty_described, isFound, isIrq, ← isSame]
      subst isNode
      simp [isKind]

end IceCap.Fdt
