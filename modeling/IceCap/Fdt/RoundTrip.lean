import IceCap.Fdt.Follows

/-!
# The round trip

A tree that is written, with an encoding that 32-bit offsets reach, is read
again.  Every tree that the reader returns can be written so, as far as its
names and its reservation map go; its encoding may still be too long.
-/

set_option autoImplicit false

namespace IceCap.Fdt

open IceCap.Library

/-! ## What is written where -/

section Layout
variable {α : Type} {before block whole : List α}

theorem prefix_drop (isPrefix : before ++ block <+: whole) : block <+: whole.drop before.length := by
  obtain ⟨rest, rfl⟩ := isPrefix
  rw [List.append_assoc, List.drop_left' rfl]
  exact List.prefix_append _ _

/-- A block is sliced out from where it starts. -/
theorem take_drop_block (isPrefix : before ++ block <+: whole) :
    (whole.drop before.length).take block.length = block := by
  obtain ⟨rest, isRest⟩ := prefix_drop isPrefix
  rw [← isRest, List.take_left' rfl]

end Layout

theorem length_beU32 (v : UInt32) : (beU32 v).length = 4 := length_beBytes 4 _

theorem length_writeHeader (header : Header) : (Writer.writeHeader [] header).length = headerSize := by
  unfold Writer.writeHeader
  simp only [List.length_append, length_beU32]
  rfl

theorem length_writeMemRsvmap (before : List UInt8) (entries : List ReserveEntry) :
    (Writer.writeMemRsvmap before entries).length = before.length + 16 * (entries.length + 1) := by
  induction entries generalizing before with
  | nil =>
      unfold Writer.writeMemRsvmap
      simp only [List.foldl_nil, List.length_append, length_beU64, List.length_nil]
  | cons entry entries ih =>
      rw [writeMemRsvmap_cons, ih, List.length_cons]
      simp only [List.length_append, length_beU64]
      omega

theorem writeMemRsvmap_eq (before : List UInt8) (entries : List ReserveEntry) :
    Writer.writeMemRsvmap before entries = before ++ Writer.writeMemRsvmap [] entries := by
  induction entries generalizing before with
  | nil =>
      unfold Writer.writeMemRsvmap
      simp only [List.foldl_nil, List.append_assoc, List.nil_append]
  | cons entry entries ih =>
      rw [writeMemRsvmap_cons, writeMemRsvmap_cons, ih, ih ([] ++ beU64 entry.address ++ beU64 entry.size)]
      simp only [List.append_assoc, List.nil_append]

namespace DeviceTree

/-- The space for the header, and the reservation map. -/
def upToMap (dt : DeviceTree) : List UInt8 :=
  Writer.align (Writer.align (Writer.pad [] headerSize) 8 ++ Writer.writeMemRsvmap [] dt.memRsvmap) 4

def upToStruct (dt : DeviceTree) : List UInt8 := Writer.align (dt.upToMap ++ structOf dt.root) 4

def upToStrings (dt : DeviceTree) : List UInt8 := dt.upToStruct ++ tableOf dt.root

def headerFor (dt : DeviceTree) : Header where
  magic := magic
  totalsize := .ofNat dt.upToStrings.length
  offDtStruct := .ofNat dt.upToMap.length
  offDtStrings := .ofNat dt.upToStruct.length
  offMemRsvmap := .ofNat (Writer.align (Writer.pad [] headerSize) 8).length
  version := version
  lastCompVersion := lastCompVersion
  bootCpuidPhys := dt.bootCpuidPhys
  sizeDtStrings := .ofNat (tableOf dt.root).length
  sizeDtStruct := .ofNat (structOf dt.root).length

variable (dt : DeviceTree)

theorem write_eq : dt.write = Writer.writeHeader [] dt.headerFor ++ dt.upToStrings.drop headerSize := rfl

theorem length_space : (Writer.align (Writer.pad [] headerSize) 8).length = headerSize := rfl

theorem prefix_map :
    Writer.align (Writer.pad [] headerSize) 8 ++ Writer.writeMemRsvmap [] dt.memRsvmap <+: dt.upToMap :=
  prefix_align _ 4

theorem prefix_upToMap : dt.upToMap <+: dt.upToStrings :=
  (List.prefix_append _ _).trans ((prefix_align _ 4).trans (List.prefix_append _ _))

theorem prefix_struct : dt.upToMap ++ structOf dt.root <+: dt.upToStrings :=
  (prefix_align _ 4).trans (List.prefix_append _ _)

theorem headerSize_le : headerSize ≤ dt.upToMap.length := by
  have isLonger := dt.prefix_map.length_le
  rw [List.length_append, length_space] at isLonger
  omega

theorem length_write : dt.write.length = dt.upToStrings.length := by
  have isLonger := le_trans dt.headerSize_le dt.prefix_upToMap.length_le
  rw [write_eq, List.length_append, length_writeHeader, List.length_drop]
  omega

/-- The header takes the place of the space that was left for it. -/
theorem drop_write {k : Nat} (behind : headerSize ≤ k) : dt.write.drop k = dt.upToStrings.drop k := by
  obtain ⟨more, rfl⟩ := Nat.exists_eq_add_of_le behind
  rw [← List.drop_drop, ← List.drop_drop, write_eq, List.drop_left' (length_writeHeader _)]

/-! ## What is read from there -/

variable {checks : Bool} {dtb : List UInt8} {header : Header} {entries : List ReserveEntry}

/-- A header, the reservation map where the header says, and blocks that the blob contains. -/
structure Laid (dtb : List UInt8) (header : Header) (entries : List ReserveEntry) : Prop where
  fits : dtb.length < maxSliceLength
  isHeader : Writer.writeHeader [] header <+: dtb
  isMagic : header.magic = magic
  isVersion : header.version = version
  isLast : header.lastCompVersion = lastCompVersion
  inside : header.offMemRsvmap.toNat ≤ dtb.length
  isMap : Writer.writeMemRsvmap [] entries <+: dtb.drop header.offMemRsvmap.toNat
  noEnd : NoEnd entries
  strings : Contains dtb header.offDtStrings header.sizeDtStrings
  struct : Contains dtb header.offDtStruct header.sizeDtStruct

theorem Laid.headerSize_le (laid : Laid dtb header entries) : headerSize ≤ dtb.length := by
  have isLonger := laid.isHeader.length_le
  rwa [length_writeHeader] at isLonger

theorem Laid.headerOf_eq (laid : Laid dtb header entries) : headerOf dtb = header := by
  have isHeader : Cursor.readHeader false (.start dtb) =
      .ok header ⟨dtb, (Writer.writeHeader [] header).length⟩ :=
    readHeader_follows laid.fits laid.isHeader
  rw [Cursor.readHeader_eq laid.fits laid.headerSize_le] at isHeader
  injection isHeader

theorem Laid.readMemRsvmap_eq (laid : Laid dtb header entries) (checks : Bool) :
    Cursor.readMemRsvmap checks (rounds dtb) (.start (dtb.drop header.offMemRsvmap.toNat)) =
      .ok entries ⟨dtb.drop header.offMemRsvmap.toNat, (Writer.writeMemRsvmap [] entries).length⟩ := by
  have shorter : (dtb.drop header.offMemRsvmap.toNat).length ≤ dtb.length := by
    rw [List.length_drop]
    exact Nat.sub_le _ _
  exact rsvmapLoop_follows (lt_of_le_of_lt shorter laid.fits) laid.noEnd laid.isMap
    (rounds_enough shorter)

/-- What is left to read is the structure block. -/
theorem Laid.read_eq (laid : Laid dtb header entries) (checks : Bool) :
    read checks dtb () =
      (Exec.on
        (.start ((dtb.drop header.offDtStruct.toNat).take header.sizeDtStruct.toNat))
        (readStruct checks ⟨(dtb.drop header.offDtStrings.toNat).take header.sizeDtStrings.toNat⟩
          (rounds dtb)) >>= fun root =>
        pure ⟨entries, root, header.bootCpuidPhys⟩ : Exec Failure Unit DeviceTree) () := by
  have isHeader := laid.headerOf_eq
  have recognised : Recognised dtb := by
    unfold Recognised
    rw [isHeader]
    exact ⟨laid.headerSize_le, laid.isMagic, laid.isVersion, laid.isLast⟩
  have isRest : sliceFrom dtb header.offMemRsvmap.toNat = some (dtb.drop header.offMemRsvmap.toNat) :=
    if_pos laid.inside
  rw [DeviceTree.read_eq laid.fits recognised, isHeader, Exec.unwrap_bind isRest,
    Exec.on_bind (laid.readMemRsvmap_eq checks), Exec.bind_assoc, slice_block, if_pos laid.strings,
    Exec.bind_assoc, slice_block, if_pos laid.struct]

/-- A blob that holds the blocks of a tree is read as the tree. -/
theorem Laid.read_ok (laid : Laid dtb header entries) (checks : Bool) {root : Node}
    (good : root.All Good)
    (isStruct : (dtb.drop header.offDtStruct.toNat).take header.sizeDtStruct.toNat = structOf root)
    (isTable : (dtb.drop header.offDtStrings.toNat).take header.sizeDtStrings.toNat = tableOf root) :
    read checks dtb () = .ok ⟨entries, root, header.bootCpuidPhys⟩ () := by
  have within : ∀ start size : UInt32, ((dtb.drop start.toNat).take size.toNat).length < u32Modulus := by
    intro start size
    rw [List.length_take]
    exact lt_of_le_of_lt (Nat.min_le_left _ _) size.toNat_lt
  have small : (structOf root).length < u32Modulus := isStruct ▸ within _ _
  have smallTable : (tableOf root).length < u32Modulus := isTable ▸ within _ _
  have shorter : (structOf root).length ≤ dtb.length := by
    rw [← isStruct, List.length_take, List.length_drop]
    omega
  have isRoot := readStruct_follows checks small smallTable good (List.prefix_refl _)
    (List.prefix_refl _) (rounds_enough shorter)
  rw [laid.read_eq checks, isStruct, isTable, Exec.on_bind isRoot]
  rfl

/-- What is written is laid out as its header says, where the blocks are within it. -/
theorem laid_write {dt : DeviceTree} (fits : dt.write.length < maxSliceLength)
    (noEnd : NoEnd dt.memRsvmap)
    (strings : Contains dt.write dt.headerFor.offDtStrings dt.headerFor.sizeDtStrings)
    (struct : Contains dt.write dt.headerFor.offDtStruct dt.headerFor.sizeDtStruct) :
    Laid dt.write dt.headerFor dt.memRsvmap where
  fits := fits
  isHeader := List.prefix_append _ _
  isMagic := rfl
  isVersion := rfl
  isLast := rfl
  inside := by
    rw [length_write]
    exact le_trans dt.headerSize_le dt.prefix_upToMap.length_le
  isMap := by
    have isMap := prefix_drop (dt.prefix_map.trans dt.prefix_upToMap)
    rw [length_space] at isMap
    have isOffset : dt.headerFor.offMemRsvmap.toNat = headerSize := rfl
    rwa [isOffset, dt.drop_write (le_refl _)]
  noEnd := noEnd
  strings := strings
  struct := struct

theorem headerFor_toNat {dt : DeviceTree} (short : dt.write.length < u32Modulus) :
    dt.headerFor.offDtStruct.toNat = dt.upToMap.length ∧
    dt.headerFor.sizeDtStruct.toNat = (structOf dt.root).length ∧
    dt.headerFor.offDtStrings.toNat = dt.upToStruct.length ∧
    dt.headerFor.sizeDtStrings.toNat = (tableOf dt.root).length := by
  have isStruct := dt.prefix_struct.length_le
  have isTable : dt.upToStruct.length + (tableOf dt.root).length = dt.upToStrings.length :=
    List.length_append.symm
  rw [length_write] at short
  rw [List.length_append] at isStruct
  refine ⟨toNat_ofNat_length ?_, toNat_ofNat_length ?_, toNat_ofNat_length ?_, toNat_ofNat_length ?_⟩
  · omega
  · omega
  · omega
  · omega

theorem read_write_ok (checks : Bool) {dt : DeviceTree} (good : dt.root.All Good)
    (noEnd : NoEnd dt.memRsvmap) (short : dt.write.length < u32Modulus) :
    read checks dt.write () = .ok dt () := by
  obtain ⟨offStruct, sizeStruct, offStrings, sizeStrings⟩ := headerFor_toNat short
  have isLength := dt.length_write
  have structInside := dt.prefix_struct.length_le
  have stringsInside : dt.upToStruct.length + (tableOf dt.root).length = dt.upToStrings.length :=
    List.length_append.symm
  rw [List.length_append] at structInside
  have laid : Laid dt.write dt.headerFor dt.memRsvmap := by
    apply laid_write (short_of_small short) noEnd
    · rw [Contains, offStrings, sizeStrings]
      omega
    · rw [Contains, offStruct, sizeStruct]
      omega
  have behindStruct : headerSize ≤ dt.upToStruct.length :=
    le_trans dt.headerSize_le ((List.prefix_append _ _).trans (prefix_align _ 4)).length_le
  apply laid.read_ok checks good
  · rw [offStruct, sizeStruct, dt.drop_write dt.headerSize_le]
    exact take_drop_block dt.prefix_struct
  · rw [offStrings, sizeStrings, dt.drop_write behindStruct]
    exact take_drop_block (List.prefix_refl _)

end DeviceTree

/-! ## What the reader returns -/

section Yields
variable {σ : Type} {checks : Bool} {strings : Strings}

theorem cstringAt_nulFree (buf : List UInt8) (offset : Nat) :
    Exec.Yields NulFree (cstringAt buf offset : Exec Failure σ String) := by
  unfold cstringAt
  apply Exec.Yields.bind
  intro sub
  refine Exec.Yields.follows (Exec.Yields.okOr fun n isFound => isFound) ?_
  intro n isFound
  apply Exec.Yields.okOr
  intro s isString
  apply nulFree_iff.mpr
  rw [bytesOf_fromUtf8 isString]
  intro member
  obtain ⟨i, less, isZero⟩ := List.mem_iff_getElem.mp member
  rw [List.length_take] at less
  have notZero := (List.findIdx?_eq_some_iff_getElem.mp isFound).2.2 i (by omega)
  rw [List.getElem_take] at isZero
  rw [isZero] at notZero
  exact notZero rfl

theorem readUnitName_nulFree : Exec.Yields NulFree (Cursor.readUnitName checks) := by
  unfold Cursor.readUnitName
  apply Exec.Yields.bind
  intro self
  refine Exec.Yields.follows (cstringAt_nulFree self.buf self.i) ?_
  intro s nulFree
  apply Exec.Yields.bind
  intro n
  apply Exec.Yields.bind
  intro done
  apply Exec.Yields.bind
  intro done
  exact Exec.Yields.pure nulFree

/-- The maps are good, and so are the nodes that are in them already. -/
def GoodMaps (maps : Maps) : Prop :=
  Good maps.1 maps.2 ∧ ∀ entry ∈ maps.2, entry.2.All Good

theorem GoodMaps.property {maps : Maps} (good : GoodMaps maps) {name : String} (value : Value)
    (nulFree : NulFree name) : GoodMaps (SortedMap.insert name value maps.1, maps.2) := by
  obtain ⟨⟨⟨ascending, ascendingChildren⟩, names, childNames⟩, below⟩ := good
  refine ⟨⟨⟨ascending.insert name value, ascendingChildren⟩, ?_, childNames⟩, below⟩
  intro entry member
  cases SortedMap.mem_insert member with
  | inl isNew => exact isNew ▸ nulFree
  | inr isOld => exact names entry isOld

theorem GoodMaps.child {maps : Maps} (good : GoodMaps maps) {name : String} {child : Node}
    (nulFree : NulFree name) (goodChild : child.All Good) :
    GoodMaps (maps.1, SortedMap.insert name child maps.2) := by
  obtain ⟨⟨⟨ascending, ascendingChildren⟩, names, childNames⟩, below⟩ := good
  refine ⟨⟨⟨ascending, ascendingChildren.insert name child⟩, names, ?_⟩, ?_⟩
  · intro entry member
    cases SortedMap.mem_insert member with
    | inl isNew => exact isNew ▸ nulFree
    | inr isOld => exact childNames entry isOld
  · intro entry member
    cases SortedMap.mem_insert member with
    | inl isNew => exact isNew ▸ goodChild
    | inr isOld => exact below entry isOld

theorem nodeRound_good {readChild : Exec Failure Cursor Node} {maps : Maps} (good : GoodMaps maps)
    (child : Exec.Yields (Node.All Good) readChild) :
    Exec.Yields (fun next => next.elim GoodMaps (Node.All Good))
      (Cursor.nodeRound checks strings readChild maps) := by
  unfold Cursor.nodeRound
  apply Exec.Yields.bind
  intro tok
  apply Exec.Yields.ite
  · exact Exec.Yields.pure good
  apply Exec.Yields.ite
  · apply Exec.Yields.bind
    intro prop
    refine Exec.Yields.follows (cstringAt_nulFree strings.table prop.nameOff.toNat) ?_
    intro name nulFree
    apply Exec.Yields.bind
    intro value
    exact Exec.Yields.pure (good.property value nulFree)
  apply Exec.Yields.ite
  · refine Exec.Yields.follows readUnitName_nulFree ?_
    intro name nulFree
    refine Exec.Yields.follows child ?_
    intro node goodChild
    exact Exec.Yields.pure (good.child nulFree goodChild)
  apply Exec.Yields.ite
  · exact Exec.Yields.pure (.mk good.1 good.2)
  · exact Exec.Yields.fail _

theorem goodMaps_empty : GoodMaps ([], []) := by
  refine ⟨⟨⟨List.Pairwise.nil, List.Pairwise.nil⟩, ?_, ?_⟩, ?_⟩
  · exact List.forall_mem_nil _
  · exact List.forall_mem_nil _
  · exact List.forall_mem_nil _

theorem readNode_good (bound : Nat) : Exec.Yields (Node.All Good) (Cursor.readNode checks strings bound) := by
  induction bound with
  | zero => exact Exec.Yields.fail _
  | succ bound ih =>
      exact Exec.Yields.loop GoodMaps (fun maps good => nodeRound_good good ih) (bound + 1) goodMaps_empty

theorem readStruct_good (bound : Nat) :
    Exec.Yields (Node.All Good) (DeviceTree.readStruct checks strings bound) := by
  unfold DeviceTree.readStruct
  apply Exec.Yields.bind
  intro tok
  apply Exec.Yields.bind
  intro isBegin
  apply Exec.Yields.bind
  intro name
  apply Exec.Yields.bind
  intro isRoot
  refine Exec.Yields.follows (readNode_good bound) ?_
  intro root good
  apply Exec.Yields.bind
  intro last
  apply Exec.Yields.bind
  intro isEnd
  exact Exec.Yields.pure good

theorem readMemRsvmap_noEnd (bound : Nat) : Exec.Yields NoEnd (Cursor.readMemRsvmap checks bound) := by
  have round : ∀ v, NoEnd v →
      Exec.Yields (fun next => next.elim NoEnd NoEnd) (Cursor.rsvmapRound checks v) := by
    intro v noEnd
    unfold Cursor.rsvmapRound
    apply Exec.Yields.bind
    intro entry
    by_cases isEnd : entry.address = 0 ∧ entry.size = 0
    · rw [if_pos isEnd]
      exact Exec.Yields.pure noEnd
    · rw [if_neg isEnd]
      apply Exec.Yields.pure
      intro other member
      cases List.mem_append.mp member with
      | inl isOld => exact noEnd other isOld
      | inr isNew => exact List.mem_singleton.mp isNew ▸ isEnd
  exact Exec.Yields.loop NoEnd round bound (List.forall_mem_nil _)

end Yields

theorem Node.all_good_iff {node : Node} : node.All Good ↔ node.Ordered ∧ node.NulFree := by
  constructor
  · intro good
    induction good with
    | mk here below ih =>
        exact ⟨.mk here.1 fun entry member => (ih entry member).1,
          .mk here.2 fun entry member => (ih entry member).2⟩
  · intro both
    obtain ⟨ordered, nulFree⟩ := both
    induction ordered with
    | mk here below ih =>
        cases nulFree with
        | mk names others => exact .mk ⟨here, names⟩ fun entry member => ih entry member (others entry member)

namespace DeviceTree

variable {checks : Bool} {dtb : List UInt8}

theorem read_good {dt : DeviceTree} (isRead : read checks dtb () = .ok dt ()) :
    dt.root.All Good ∧ NoEnd dt.memRsvmap := by
  have yields : Exec.Yields
      (fun dt : DeviceTree => dt.root.All Good ∧ NoEnd dt.memRsvmap)
      (read checks dtb) := by
    unfold read
    apply Exec.Yields.bind
    intro header
    apply Exec.Yields.bind
    intro isMagic
    apply Exec.Yields.bind
    intro isVersion
    apply Exec.Yields.bind
    intro isLast
    apply Exec.Yields.bind
    intro rsvmap
    refine Exec.Yields.follows (Exec.Yields.on (readMemRsvmap_noEnd (rounds dtb))) ?_
    intro memRsvmap noEnd
    apply Exec.Yields.bind
    intro stringsEnd
    apply Exec.Yields.bind
    intro table
    apply Exec.Yields.bind
    intro structEnd
    apply Exec.Yields.bind
    intro buf
    refine Exec.Yields.follows (Exec.Yields.on (readStruct_good (rounds dtb))) ?_
    intro root good
    exact Exec.Yields.pure ⟨good, noEnd⟩
  exact yields () dt () isRead

/-! ## Encodings that are too long -/

/-- So many reservations of one byte each, and nothing else. -/
def crowdedTree (count : Nat) : DeviceTree := ⟨List.replicate count ⟨0, 1⟩, .mk [] [], 0⟩

def crowdedHeader : Header where
  magic := magic
  totalsize := 0
  offDtStruct := 40
  offDtStrings := 40
  offMemRsvmap := 56
  version := version
  lastCompVersion := lastCompVersion
  bootCpuidPhys := 0
  sizeDtStrings := 0
  sizeDtStruct := 16

/-- A blob of the same tree, with the structure block in front of the reservation map. -/
def crowdedBlob (count : Nat) : List UInt8 :=
  Writer.writeMemRsvmap (Writer.writeHeader [] crowdedHeader ++ structOf (.mk [] []))
    (crowdedTree count).memRsvmap

theorem good_empty : (Node.mk [] []).All Good := .mk goodMaps_empty.1 (List.forall_mem_nil _)

theorem noEnd_crowded (count : Nat) : NoEnd (crowdedTree count).memRsvmap := by
  intro entry member isEnd
  rw [List.eq_of_mem_replicate member] at isEnd
  exact absurd isEnd.2 (by decide)

theorem length_structOf_empty : (structOf (.mk [] [])).length = 16 := rfl

theorem length_crowdedBlob (count : Nat) : (crowdedBlob count).length = 56 + 16 * (count + 1) := by
  rw [crowdedBlob, length_writeMemRsvmap, List.length_append, length_writeHeader, length_structOf_empty,
    crowdedTree, List.length_replicate]
  rfl

theorem read_crowdedBlob (checks : Bool) {count : Nat} (fits : (crowdedBlob count).length < maxSliceLength) :
    read checks (crowdedBlob count) () = .ok (crowdedTree count) () := by
  have isLength := length_crowdedBlob count
  have isPrefix : Writer.writeHeader [] crowdedHeader ++ structOf (.mk [] []) <+: crowdedBlob count :=
    prefix_writeMemRsvmap _ _
  have isBehind : (Writer.writeHeader [] crowdedHeader ++ structOf (.mk [] [])).length = 56 := rfl
  have isRest : (crowdedBlob count).drop 56 =
      Writer.writeMemRsvmap [] (crowdedTree count).memRsvmap := by
    rw [crowdedBlob, writeMemRsvmap_eq (Writer.writeHeader [] crowdedHeader ++ structOf (.mk [] []))]
    exact List.drop_left' isBehind
  have laid : Laid (crowdedBlob count) crowdedHeader (crowdedTree count).memRsvmap := by
    refine ⟨fits, (List.prefix_append _ _).trans isPrefix, rfl, rfl, rfl, ?_, ?_, noEnd_crowded count,
      ⟨by decide, ?_⟩, ⟨by decide, ?_⟩⟩
    · have isOffset : crowdedHeader.offMemRsvmap.toNat = 56 := rfl
      omega
    · have isOffset : crowdedHeader.offMemRsvmap.toNat = 56 := rfl
      rw [isOffset]
      exact ⟨[], by rw [List.append_nil, isRest]⟩
    · have isEnd : crowdedHeader.offDtStrings.toNat + crowdedHeader.sizeDtStrings.toNat = 40 := rfl
      omega
    · have isEnd : crowdedHeader.offDtStruct.toNat + crowdedHeader.sizeDtStruct.toNat = 56 := rfl
      omega
  apply laid.read_ok checks good_empty
  · exact take_drop_block isPrefix
  · exact List.take_zero

theorem aligned_mul (n k : Nat) : aligned (n * 2 ^ k) k = n * 2 ^ k := by
  have positive := Nat.two_pow_pos k
  rw [aligned, Nat.mul_comm n, Nat.mul_add_div positive,
    Nat.div_eq_of_lt (Nat.sub_lt positive Nat.one_pos), Nat.add_zero, Nat.mul_comm]

theorem length_upToMap_crowded (count : Nat) :
    (crowdedTree count).upToMap.length = 56 + 16 * count := by
  have isSum : headerSize + (([] : List UInt8).length + 16 * (count + 1)) = (14 + 4 * count) * 2 ^ 2 := by
    have isSize : headerSize = 40 := rfl
    rw [List.length_nil]
    omega
  rw [upToMap, length_align, List.length_append, length_space, length_writeMemRsvmap, crowdedTree,
    List.length_replicate, isSum, aligned_mul]
  omega

theorem length_upToStruct_crowded (count : Nat) :
    (crowdedTree count).upToStruct.length = 72 + 16 * count := by
  have isSum : 56 + 16 * count + 16 = (18 + 4 * count) * 2 ^ 2 := by omega
  have isStruct : (structOf (crowdedTree count).root).length = 16 := length_structOf_empty
  rw [upToStruct, length_align, List.length_append, length_upToMap_crowded, isStruct, isSum, aligned_mul]
  omega

theorem readStruct_unbegun (checks : Bool) (strings : Strings) (bound : Nat) {buf : List UInt8}
    {tok : UInt32} (fits : buf.length < maxSliceLength) (isPrefix : beU32 tok <+: buf)
    (notBegin : tok ≠ tokBeginNode) :
    ∃ final, readStruct checks strings bound (.start buf) = .err .malformed final := by
  have marked : [] ++ beU32 tok <+: buf := isPrefix
  have isToken : Cursor.readBeU32 checks (.start buf) = .ok tok ⟨buf, ([] ++ beU32 tok).length⟩ :=
    readBeU32_follows fits marked
  refine ⟨⟨buf, ([] ++ beU32 tok).length⟩, ?_⟩
  unfold readStruct
  rw [Exec.bind_of_ok isToken, Exec.bind_apply, Exec.ensure, if_neg notBegin]

/-- Behind the first reservation there is the address of the second one. -/
theorem prefix_crowded (count : Nat) : beU32 0 <+: ((crowdedTree (count + 2)).write.drop 56).take 16 := by
  have isMap : [] ++ beU64 0 ++ beU64 1 ++ beU64 0 <+:
      Writer.writeMemRsvmap [] (crowdedTree (count + 2)).memRsvmap :=
    (List.prefix_append _ (beU64 1)).trans (prefix_writeMemRsvmap _ (List.replicate count ⟨0, 1⟩))
  have isSpace := (List.prefix_append_right_inj (Writer.align (Writer.pad [] headerSize) 8)).mpr isMap
  have isWhole := (isSpace.trans (crowdedTree (count + 2)).prefix_map).trans
    (crowdedTree (count + 2)).prefix_upToMap
  have isAddress : beU64 0 <+: (crowdedTree (count + 2)).upToStrings.drop 56 := by
    rw [← List.append_assoc] at isWhole
    exact prefix_drop isWhole
  have isWord : beU32 0 <+: beU64 0 := by decide
  rw [drop_write _ (by decide)]
  exact List.prefix_take_iff.mpr ⟨isWord.trans isAddress, by decide⟩

/-- The word that says where the structure block starts is cut, and says that it starts at the second
reservation. -/
theorem read_crowdedTree (checks : Bool) {count : Nat} (isCount : count = 2 ^ 28) :
    read checks (crowdedTree count).write () = .err .malformed () := by
  have isLength : (crowdedTree count).write.length = 72 + 16 * count := by
    rw [length_write, upToStrings, List.length_append, length_upToStruct_crowded]
    rfl
  have fits : (crowdedTree count).write.length < maxSliceLength := by
    unfold maxSliceLength
    omega
  have offStruct : (crowdedTree count).headerFor.offDtStruct.toNat = 56 := by
    have isCut : (crowdedTree count).headerFor.offDtStruct.toNat = (56 + 16 * count) % 2 ^ 32 := by
      rw [← length_upToMap_crowded]
      exact UInt32.toNat_ofNat'
    omega
  have offStrings : (crowdedTree count).headerFor.offDtStrings.toNat = 72 := by
    have isCut : (crowdedTree count).headerFor.offDtStrings.toNat = (72 + 16 * count) % 2 ^ 32 := by
      rw [← length_upToStruct_crowded]
      exact UInt32.toNat_ofNat'
    omega
  have sizeStruct : (crowdedTree count).headerFor.sizeDtStruct.toNat = 16 := rfl
  have sizeStrings : (crowdedTree count).headerFor.sizeDtStrings.toNat = 0 := rfl
  have laid : Laid (crowdedTree count).write (crowdedTree count).headerFor
      (crowdedTree count).memRsvmap := by
    apply laid_write fits (noEnd_crowded count)
    · rw [Contains, offStrings, sizeStrings, isLength]
      exact ⟨by decide, by omega⟩
    · rw [Contains, offStruct, sizeStruct, isLength]
      exact ⟨by decide, by omega⟩
  obtain ⟨fewer, rfl⟩ : ∃ fewer, count = fewer + 2 := ⟨count - 2, by omega⟩
  have small : (((crowdedTree (fewer + 2)).write.drop 56).take 16).length < maxSliceLength := by
    rw [List.length_take]
    exact lt_of_le_of_lt (Nat.min_le_left _ _) (by decide)
  rw [laid.read_eq checks, offStruct, sizeStruct]
  obtain ⟨final, failed⟩ := readStruct_unbegun checks
    ⟨((crowdedTree (fewer + 2)).write.drop _).take _⟩ (rounds (crowdedTree (fewer + 2)).write) small
    (prefix_crowded fewer) (by decide)
  rw [Exec.bind_apply, Exec.on_eq_err.mpr ⟨⟨final, failed⟩, rfl⟩]

/-! ## The round trip -/

/-- What is written is read again, where the encoding is not too long.  What the reader returns can be
written, and is the same when it is read again, under the same condition. -/
theorem read_write (checks : Bool) :
    (∀ dt : DeviceTree, dt.root.Ordered → dt.root.NulFree → NoEnd dt.memRsvmap →
      dt.write.length < u32Modulus → read checks dt.write () = .ok dt ()) ∧
    (∀ dtb dt, read checks dtb () = .ok dt () → dt.root.NulFree ∧ NoEnd dt.memRsvmap) ∧
    ∀ dtb dt, read checks dtb () = .ok dt () → dt.write.length < u32Modulus →
      read checks dt.write () = .ok dt () := by
  refine ⟨?_, ?_, ?_⟩
  · intro dt ordered nulFree noEnd short
    exact read_write_ok checks (Node.all_good_iff.mpr ⟨ordered, nulFree⟩) noEnd short
  · intro dtb dt isRead
    obtain ⟨good, noEnd⟩ := read_good isRead
    exact ⟨(Node.all_good_iff.mp good).2, noEnd⟩
  · intro dtb dt isRead short
    obtain ⟨good, noEnd⟩ := read_good isRead
    exact read_write_ok checks good noEnd short

/-- A tree with a reservation, a property and a node. -/
def smallTree : DeviceTree where
  memRsvmap := [⟨0x40000000, 0x1000⟩]
  root := .mk [("model", ⟨[105, 99, 101, 0]⟩)] [("cpus", .mk [] [])]
  bootCpuidPhys := 0

theorem smallTree_good : smallTree.root.All Good := by
  refine .mk ⟨⟨List.pairwise_singleton _ _, List.pairwise_singleton _ _⟩, ?_, ?_⟩ ?_
  · exact List.forall_mem_singleton.mpr (show NulFree "model" by unfold NulFree; decide)
  · exact List.forall_mem_singleton.mpr (show NulFree "cpus" by unfold NulFree; decide)
  · exact List.forall_mem_singleton.mpr good_empty

/-- The small tree is read again, and what is read of it can be written. -/
theorem read_write_smallTree :
    read true smallTree.write () = .ok smallTree () ∧
      smallTree.root.NulFree ∧ NoEnd smallTree.memRsvmap := by
  obtain ⟨ordered, nulFree⟩ := Node.all_good_iff.mp smallTree_good
  have noEnd : NoEnd smallTree.memRsvmap := by
    intro entry member isEnd
    rw [List.mem_singleton.mp member] at isEnd
    exact absurd isEnd.1 (by decide)
  have isRead := (read_write true).1 smallTree ordered nulFree noEnd (by decide +kernel)
  exact ⟨isRead, (read_write true).2.1 _ _ isRead⟩

/-- A blob of four gigabytes, which is accepted, and what is written of its tree is not. -/
theorem read_write_crowded :
    (crowdedBlob (2 ^ 28)).length < maxSliceLength ∧
      read true (crowdedBlob (2 ^ 28)) () = .ok (crowdedTree (2 ^ 28)) () ∧
      read true (crowdedTree (2 ^ 28)).write () = .err .malformed () := by
  have fits : (crowdedBlob (2 ^ 28)).length < maxSliceLength := by
    rw [length_crowdedBlob, maxSliceLength]
    omega
  exact ⟨fits, read_crowdedBlob true fits, read_crowdedTree true rfl⟩

end DeviceTree

end IceCap.Fdt
