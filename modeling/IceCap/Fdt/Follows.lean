import IceCap.Fdt.Readable
import IceCap.Fdt.Write

/-!
# Reading what was written

The reader follows the writer: where the writer's buffer has become `b`, the
reader's cursor is at the length of `b`.  What is read back is the tree that
was written, when its encoding is shorter than the words that hold offsets and
lengths can say.
-/

set_option autoImplicit false

namespace IceCap.Fdt

open IceCap.Library

/-! ## Names -/

def NulFree (s : String) : Prop := Char.ofNat 0 ∉ s.toList

theorem utf8EncodeChar_nulFree {c : Char} (notNul : c ≠ Char.ofNat 0) : 0 ∉ String.utf8EncodeChar c := by
  have positive : c.val.toNat ≠ 0 := by
    intro isZero
    apply notNul
    apply Char.ext
    exact UInt32.toNat_inj.mp isZero
  have byte : ∀ n, n % 256 ≠ 0 → (0 : UInt8) ≠ UInt8.ofNat n := by
    intro n notZero same
    apply notZero
    have sameNat := congrArg UInt8.toNat same
    rw [UInt8.toNat_ofNat'] at sameNat
    exact sameNat.symm
  intro member
  unfold String.utf8EncodeChar at member
  dsimp only at member
  split at member
  · next small =>
      exact byte _ (by omega) (List.mem_singleton.mp member)
  · split at member
    · simp only [List.mem_cons, List.not_mem_nil, or_false] at member
      rcases member with same | same
      · exact byte _ (by omega) same
      · exact byte _ (by omega) same
    · split at member
      · simp only [List.mem_cons, List.not_mem_nil, or_false] at member
        rcases member with same | same | same
        · exact byte _ (by omega) same
        · exact byte _ (by omega) same
        · exact byte _ (by omega) same
      · simp only [List.mem_cons, List.not_mem_nil, or_false] at member
        rcases member with same | same | same | same
        · exact byte _ (by omega) same
        · exact byte _ (by omega) same
        · exact byte _ (by omega) same
        · exact byte _ (by omega) same

theorem bytesOf_eq (s : String) : bytesOf s = s.toList.flatMap String.utf8EncodeChar := by
  rw [bytesOf, ← String.utf8Encode_toList, List.utf8Encode, List.data_toByteArray]

theorem nulFree_iff {s : String} : NulFree s ↔ 0 ∉ bytesOf s := by
  rw [bytesOf_eq, NulFree, List.mem_flatMap, not_iff_not]
  constructor
  · intro member
    exact ⟨_, member, by decide⟩
  · intro inBytes
    obtain ⟨c, member, isNul⟩ := inBytes
    by_contra absent
    have notNul : c ≠ Char.ofNat 0 := fun same => absent (same ▸ member)
    exact utf8EncodeChar_nulFree notNul isNul

theorem fromUtf8_bytesOf (s : String) : fromUtf8 (bytesOf s) = some s := by
  unfold fromUtf8 bytesOf String.fromUTF8?
  have valid : ByteArray.IsValidUTF8 ⟨s.toByteArray.data.toList.toArray⟩ := s.isValidUTF8
  rw [dif_pos valid]
  rfl

theorem bytesOf_fromUtf8 {bytes : List UInt8} {s : String} (isString : fromUtf8 bytes = some s) :
    bytesOf s = bytes := by
  unfold fromUtf8 String.fromUTF8? at isString
  split at isString
  · cases isString
    rfl
  · cases isString

/-! ## The reader behind the writer -/

section Follows
variable {checks : Bool} {buf table before piece : List UInt8} {ε σ : Type}

theorem IsPrefix.length_lt {limit : Nat} (isPrefix : before <+: buf) (fits : buf.length < limit) :
    before.length < limit := lt_of_le_of_lt isPrefix.length_le fits

theorem read_follows (checks : Bool) (fits : buf.length < maxSliceLength) (isPrefix : before ++ piece <+: buf) :
    Cursor.read checks piece.length ⟨buf, before.length⟩ =
      .ok piece ⟨buf, (before ++ piece).length⟩ := by
  have inside := isPrefix.length_le
  have less : before.length + piece.length < usizeModulus := by
    rw [List.length_append] at inside
    unfold maxSliceLength at fits
    unfold usizeModulus
    omega
  rw [List.length_append] at inside
  rw [Cursor.read_eq checks less, if_pos inside, List.length_append]
  obtain ⟨rest, rfl⟩ := isPrefix
  rw [List.append_assoc, List.drop_left' rfl, List.take_left' rfl]

theorem readBe_follows {size n : Nat} (checks : Bool) (fits : buf.length < maxSliceLength)
    (isPrefix : before ++ beBytes size n <+: buf) (small : n < 256 ^ size) :
    Cursor.readBe checks size ⟨buf, before.length⟩ =
      .ok n ⟨buf, (before ++ beBytes size n).length⟩ := by
  have isRead := read_follows checks fits isPrefix
  rw [length_beBytes] at isRead
  unfold Cursor.readBe
  rw [Exec.bind_of_ok isRead, Exec.assert_bind (length_beBytes size n), ofBeBytes_beBytes,
    Nat.mod_eq_of_lt small]
  rfl

theorem readBeU32_follows {v : UInt32} (fits : buf.length < maxSliceLength)
    (isPrefix : before ++ beU32 v <+: buf) :
    Cursor.readBeU32 checks ⟨buf, before.length⟩ = .ok v ⟨buf, (before ++ beU32 v).length⟩ := by
  have isWord := readBe_follows checks fits isPrefix v.toNat_lt
  unfold Cursor.readBeU32
  rw [Exec.bind_of_ok isWord, UInt32.ofNat_toNat]
  rfl

theorem readBeU64_follows {v : UInt64} (fits : buf.length < maxSliceLength)
    (isPrefix : before ++ beU64 v <+: buf) :
    Cursor.readBeU64 checks ⟨buf, before.length⟩ = .ok v ⟨buf, (before ++ beU64 v).length⟩ := by
  have isWord := readBe_follows checks fits isPrefix v.toNat_lt
  unfold Cursor.readBeU64
  rw [Exec.bind_of_ok isWord, UInt64.ofNat_toNat]
  rfl

theorem length_align (buf : List UInt8) : (Writer.align buf 4).length = aligned buf.length 2 := by
  have isNext : alignedUp buf.length 4 = aligned buf.length 2 := alignedUp_eq buf.length 2
  have later := le_aligned buf.length 2
  rw [Writer.align, Writer.pad, List.length_append, List.length_replicate, isNext]
  omega

theorem prefix_align (buf : List UInt8) (n : Nat) : buf <+: Writer.align buf n :=
  List.prefix_append _ _

theorem align_follows (fits : before.length < maxSliceLength) :
    Cursor.align checks 4 ⟨buf, before.length⟩ =
      .ok () ⟨buf, (Writer.align before 4).length⟩ := by
  have less : before.length + 4 ≤ usizeModulus := by
    unfold maxSliceLength at fits
    unfold usizeModulus
    omega
  rw [Cursor.align_eq less, length_align]

theorem readValue_follows (fits : buf.length < maxSliceLength)
    (isPrefix : before ++ piece <+: buf) :
    Cursor.readValue checks piece.length ⟨buf, before.length⟩ =
      .ok ⟨piece⟩ ⟨buf, (Writer.align (before ++ piece) 4).length⟩ := by
  unfold Cursor.readValue
  rw [Exec.bind_of_ok (read_follows checks fits isPrefix),
    Exec.bind_of_ok (align_follows (IsPrefix.length_lt isPrefix fits))]
  rfl

theorem cstringAt_follows {s : String} {state : σ} (nulFree : NulFree s)
    (isPrefix : before ++ bytesOf s ++ [0] <+: buf) :
    cstringAt buf before.length state = .ok s state := by
  obtain ⟨rest, rfl⟩ := isPrefix
  have isRest : sliceFrom (before ++ bytesOf s ++ [0] ++ rest) before.length =
      some (bytesOf s ++ 0 :: rest) := by
    have within : before.length ≤ (before ++ bytesOf s ++ [0] ++ rest).length := by
      simp only [List.length_append]
      omega
    rw [sliceFrom, if_pos within, List.append_assoc, List.append_assoc, List.drop_left' rfl]
    rfl
  have isFound : (bytesOf s ++ 0 :: rest).findIdx? (· == 0) = some (bytesOf s).length := by
    have absent : (bytesOf s).findIdx? (· == 0) = none := by
      apply List.findIdx?_eq_none_iff.mpr
      intro byte member
      have notZero : byte ≠ 0 := fun same => nulFree_iff.mp nulFree (same ▸ member)
      exact beq_eq_false_iff_ne.mpr notZero
    have isFirst : ((0 : UInt8) :: rest).findIdx? (· == 0) = some 0 := rfl
    rw [List.findIdx?_append, absent, isFirst]
    simp
  unfold cstringAt
  rw [isRest, Exec.okOr_some_bind, isFound, Exec.okOr_some_bind, List.take_left' rfl,
    fromUtf8_bytesOf]
  rfl

theorem readUnitName_follows {s : String} (fits : buf.length < maxSliceLength) (nulFree : NulFree s)
    (isPrefix : before ++ bytesOf s ++ [0] <+: buf) :
    Cursor.readUnitName checks ⟨buf, before.length⟩ =
      .ok s ⟨buf, (Writer.align (before ++ bytesOf s ++ [0]) 4).length⟩ := by
  have isLength : before.length + (s.utf8ByteSize + 1) = (before ++ bytesOf s ++ [0]).length := by
    have isSize := fromUtf8_size (fromUtf8_bytesOf s)
    simp only [List.length_append, List.length_singleton]
    omega
  have small := IsPrefix.length_lt isPrefix fits
  have less : before.length + (s.utf8ByteSize + 1) < usizeModulus := by
    rw [isLength]
    unfold maxSliceLength at small
    unfold usizeModulus
    omega
  have lessSize : s.utf8ByteSize + 1 < usizeModulus := by omega
  have isAdvance := @Cursor.advance_eq checks ⟨buf, before.length⟩ (s.utf8ByteSize + 1) less
  unfold Cursor.readUnitName
  rw [Exec.get_bind, Exec.bind_of_ok (cstringAt_follows nulFree isPrefix), add_eq lessSize,
    Exec.pure_value_bind, Exec.bind_of_ok isAdvance]
  dsimp only
  rw [isLength, Exec.bind_of_ok (align_follows small)]
  rfl

end Follows

/-! ## Nodes -/

/-- No name has a NUL character. -/
def Node.NulFree (node : Node) : Prop :=
  node.All fun properties children =>
    (∀ entry ∈ properties, Fdt.NulFree entry.1) ∧ ∀ entry ∈ children, Fdt.NulFree entry.1

namespace Writer

/-- The strings and the buffer are added to. -/
structure Grows (first last : Output) : Prop where
  strings : first.strings <+: last.strings
  buf : first.buf <+: last.buf

variable {first middle last : Output}

theorem Grows.refl (output : Output) : Grows output output :=
  ⟨List.prefix_refl _, List.prefix_refl _⟩

theorem Grows.trans (earlier : Grows first middle) (later : Grows middle last) : Grows first last :=
  ⟨earlier.strings.trans later.strings, earlier.buf.trans later.buf⟩

theorem writeProperty_grows (output : Output) (property : String × Value) :
    Grows output (writeProperty output property) := by
  refine ⟨?_, List.IsPrefix.trans ?_ (prefix_align _ 4)⟩
  · unfold writeProperty insertString
    dsimp only
    rw [List.append_assoc]
    exact List.prefix_append _ _
  · simp only [List.append_assoc]
    exact List.prefix_append _ _

theorem writeProperties_grows (output : Output) (properties : List (String × Value)) :
    Grows output (properties.foldl writeProperty output) := by
  induction properties generalizing output with
  | nil => exact Grows.refl output
  | cons property properties ih => exact (writeProperty_grows output property).trans (ih _)

theorem prefix_writeBeginNode (buf : List UInt8) (name : String) :
    buf ++ beU32 tokBeginNode <+: writeBeginNode buf name := by
  refine List.IsPrefix.trans ?_ (prefix_align _ 4)
  rw [List.append_assoc]
  exact List.prefix_append _ _

theorem writeChildren_grows {children : List (String × Node)}
    (each : ∀ entry ∈ children, ∀ output name, Grows output (writeNode output name entry.2))
    (output : Output) : Grows output (writeChildren output children) := by
  induction children generalizing output with
  | nil => exact Grows.refl output
  | cons child children ih =>
      have first := each child List.mem_cons_self output child.1
      exact first.trans (ih (fun entry member => each entry (List.mem_cons_of_mem _ member)) _)

/-- The output when the children are still to be written. -/
def opened (output : Output) (name : String) (properties : List (String × Value)) : Output :=
  properties.foldl writeProperty { output with buf := writeBeginNode output.buf name }

theorem writeNode_eq (output : Output) (name : String) (properties : List (String × Value))
    (children : List (String × Node)) :
    writeNode output name (.mk properties children) =
      { writeChildren (opened output name properties) children with
        buf := (writeChildren (opened output name properties) children).buf ++ beU32 tokEndNode } := rfl

theorem writeNode_grows {node : Node} {holds : List (String × Value) → List (String × Node) → Prop}
    (all : node.All holds) (output : Output) (name : String) :
    Grows output (writeNode output name node) ∧
      writeBeginNode output.buf name <+: (writeNode output name node).buf := by
  induction all generalizing output name with
  | @mk properties children here below ih =>
      have begun : output.buf <+: writeBeginNode output.buf name :=
        (List.prefix_append _ _).trans (prefix_writeBeginNode output.buf name)
      have outer : Grows { output with buf := writeBeginNode output.buf name }
          (opened output name properties) := writeProperties_grows _ properties
      have inner := writeChildren_grows (fun entry member output name => (ih entry member output name).1)
        (opened output name properties)
      have written := (outer.trans inner).buf.trans (List.prefix_append _ (beU32 tokEndNode))
      rw [writeNode_eq]
      exact ⟨⟨(outer.trans inner).strings, begun.trans written⟩, written⟩

end Writer

/-! ## Reading nodes -/

section Nodes
variable {checks : Bool} {buf table : List UInt8} {readChild : Exec Failure Cursor Node}
  {output : Writer.Output}

theorem toNat_ofNat_length {items : List UInt8} (small : items.length < u32Modulus) :
    (UInt32.ofNat items.length).toNat = items.length := by
  rw [UInt32.toNat_ofNat']
  exact Nat.mod_eq_of_lt small

theorem short_of_small (small : buf.length < u32Modulus) : buf.length < maxSliceLength :=
  lt_trans small (by decide)

theorem nodeRound_property (checks : Bool) (readChild : Exec Failure Cursor Node) (maps : Maps)
    {property : String × Value} (small : buf.length < u32Modulus)
    (smallTable : table.length < u32Modulus) (nulFree : NulFree property.1)
    (isPrefix : (Writer.writeProperty output property).buf <+: buf)
    (isTable : (Writer.writeProperty output property).strings <+: table) :
    Cursor.nodeRound checks ⟨table⟩ readChild maps ⟨buf, output.buf.length⟩ =
      .ok (.inl (SortedMap.insert property.1 property.2 maps.1, maps.2))
        ⟨buf, (Writer.writeProperty output property).buf.length⟩ := by
  obtain ⟨name, value⟩ := property
  have fits := short_of_small small
  have written : output.buf ++ beU32 tokProp ++ beU32 (.ofNat value.raw.length) ++
      beU32 (.ofNat output.strings.length) ++ value.raw <+: buf := (prefix_align _ 4).trans isPrefix
  have named := (List.prefix_append _ value.raw).trans written
  have sized := (List.prefix_append _ _).trans named
  have marked := (List.prefix_append _ _).trans sized
  have smallValue : value.raw.length < u32Modulus := by
    have within := written.length_le
    simp only [List.length_append] at within
    omega
  have smallStrings : output.strings.length < u32Modulus := by
    have within := isTable.length_le
    simp only [Writer.writeProperty, Writer.insertString, List.length_append] at within
    omega
  have isName : (Strings.get ⟨table⟩ (.ofNat output.strings.length) : Exec Failure Cursor String) =
      fun state => .ok name state := by
    funext state
    rw [Strings.get, toNat_ofNat_length smallStrings]
    exact cstringAt_follows nulFree isTable
  have isHeader : Cursor.readPropHeader checks
      ⟨buf, (output.buf ++ beU32 tokProp).length⟩ =
      .ok ⟨.ofNat value.raw.length, .ofNat output.strings.length⟩
        ⟨buf, (output.buf ++ beU32 tokProp ++ beU32 (.ofNat value.raw.length) ++
          beU32 (.ofNat output.strings.length)).length⟩ := by
    unfold Cursor.readPropHeader
    rw [Exec.bind_of_ok (readBeU32_follows fits sized), Exec.bind_of_ok (readBeU32_follows fits named)]
    rfl
  unfold Cursor.nodeRound
  rw [Exec.bind_of_ok (readBeU32_follows fits marked), if_neg (by decide), if_pos rfl,
    Exec.bind_of_ok isHeader, isName, Exec.bind_of_ok rfl]
  dsimp only
  rw [toNat_ofNat_length smallValue, Exec.bind_of_ok (readValue_follows fits written)]
  rfl

/-- The cursor moves on with the writer, by four bytes or more. -/
theorem remaining_lt {first last : List UInt8} {n : Nat} (isPrefix : last <+: buf)
    (grows : first.length + 4 ≤ last.length)
    (enough : Cursor.remaining ⟨buf, first.length⟩ < 4 * (n + 1)) :
    Cursor.remaining ⟨buf, last.length⟩ < 4 * n := by
  have within := isPrefix.length_le
  unfold Cursor.remaining at *
  dsimp only at *
  omega

theorem length_writeProperty (output : Writer.Output) (property : String × Value) :
    output.buf.length + 4 ≤ (Writer.writeProperty output property).buf.length := by
  have isLonger := (prefix_align (output.buf ++ beU32 tokProp ++ beU32 (.ofNat property.2.raw.length) ++
    beU32 (.ofNat output.strings.length) ++ property.2.raw) 4).length_le
  have isWord : (beU32 tokProp).length = 4 := length_beBytes 4 _
  simp only [List.length_append, isWord] at isLonger
  unfold Writer.writeProperty Writer.insertString
  dsimp only
  omega

/-- The rounds that read the properties. -/
theorem readProperties_follows {properties done : List (String × Value)}
    {children : List (String × Node)} {rounds : Nat} (small : buf.length < u32Modulus)
    (smallTable : table.length < u32Modulus) (nulFree : ∀ entry ∈ properties, NulFree entry.1)
    (ascending : SortedMap.Ascending (done ++ properties))
    (isPrefix : (properties.foldl Writer.writeProperty output).buf <+: buf)
    (isTable : (properties.foldl Writer.writeProperty output).strings <+: table)
    (enough : Cursor.remaining ⟨buf, output.buf.length⟩ < 4 * rounds) :
    ∃ left ≤ rounds,
      Cursor.remaining ⟨buf, (properties.foldl Writer.writeProperty output).buf.length⟩ < 4 * left ∧
      Exec.loop .unfinished (Cursor.nodeRound checks ⟨table⟩ readChild) rounds (done, children)
          ⟨buf, output.buf.length⟩ =
        Exec.loop .unfinished (Cursor.nodeRound checks ⟨table⟩ readChild) left
          (done ++ properties, children)
          ⟨buf, (properties.foldl Writer.writeProperty output).buf.length⟩ := by
  induction properties generalizing output done rounds with
  | nil => exact ⟨rounds, le_refl _, enough, by rw [List.append_nil]; rfl⟩
  | cons property properties ih =>
      obtain ⟨rounds, rfl⟩ : ∃ fewer, rounds = fewer + 1 := ⟨rounds - 1, by omega⟩
      have grows := Writer.writeProperties_grows (Writer.writeProperty output property) properties
      have isFirst := nodeRound_property checks readChild (done, children) small smallTable
        (nulFree property List.mem_cons_self) (grows.buf.trans isPrefix) (grows.strings.trans isTable)
      have isLast : SortedMap.insert property.1 property.2 done = done ++ [property] := by
        apply SortedMap.insert_last
        intro entry member
        exact (List.pairwise_append.mp ascending).2.2 entry member property List.mem_cons_self
      have isSum : done ++ property :: properties = done ++ [property] ++ properties := by
        rw [List.append_assoc]
        rfl
      rw [isSum] at ascending
      obtain ⟨left, fewer, leftEnough, run⟩ := ih
        (fun entry member => nulFree entry (List.mem_cons_of_mem _ member)) ascending isPrefix isTable
        (remaining_lt (grows.buf.trans isPrefix) (length_writeProperty output property) enough)
      refine ⟨left, Nat.le_succ_of_le fewer, leftEnough, ?_⟩
      rw [isLast] at isFirst
      rw [Exec.loop_goes_on isFirst, isSum]
      exact run

theorem nodeRound_child (checks : Bool) (strings : Strings) (maps : Maps) {name : String} {child : Node} {last : List UInt8}
    (fits : buf.length < maxSliceLength) (nulFree : NulFree name)
    (isPrefix : Writer.writeBeginNode output.buf name <+: buf)
    (isChild : readChild ⟨buf, (Writer.writeBeginNode output.buf name).length⟩ =
      .ok child ⟨buf, last.length⟩) :
    Cursor.nodeRound checks strings readChild maps ⟨buf, output.buf.length⟩ =
      .ok (.inl (maps.1, SortedMap.insert name child maps.2)) ⟨buf, last.length⟩ := by
  have named : output.buf ++ beU32 tokBeginNode ++ bytesOf name ++ [0] <+: buf :=
    (prefix_align _ 4).trans isPrefix
  have marked := (Writer.prefix_writeBeginNode output.buf name).trans isPrefix
  have isName : Cursor.readUnitName checks ⟨buf, (output.buf ++ beU32 tokBeginNode).length⟩ =
      .ok name ⟨buf, (Writer.writeBeginNode output.buf name).length⟩ :=
    readUnitName_follows fits nulFree named
  unfold Cursor.nodeRound
  rw [Exec.bind_of_ok (readBeU32_follows fits marked), if_neg (by decide), if_neg (by decide), if_pos rfl,
    Exec.bind_of_ok isName, Exec.bind_of_ok isChild]
  rfl

theorem nodeRound_end (checks : Bool) (strings : Strings) (readChild : Exec Failure Cursor Node) (maps : Maps)
    {before : List UInt8} (fits : buf.length < maxSliceLength) (isPrefix : before ++ beU32 tokEndNode <+: buf) :
    Cursor.nodeRound checks strings readChild maps ⟨buf, before.length⟩ =
      .ok (.inr (.mk maps.1 maps.2)) ⟨buf, (before ++ beU32 tokEndNode).length⟩ := by
  unfold Cursor.nodeRound
  rw [Exec.bind_of_ok (readBeU32_follows fits isPrefix), if_neg (by decide), if_neg (by decide),
    if_neg (by decide), if_pos rfl]
  rfl

theorem length_writeBeginNode (before : List UInt8) (name : String) :
    before.length + 4 ≤ (Writer.writeBeginNode before name).length := by
  have isLonger := (Writer.prefix_writeBeginNode before name).length_le
  rwa [List.length_append, beU32, length_beBytes] at isLonger

/-- The node is read from behind its name, where what is written is read. -/
def ReadBack (checks : Bool) (buf table : List UInt8) (node : Node) : Prop :=
  ∀ (output : Writer.Output) (name : String) (bound : Nat),
    (Writer.writeNode output name node).buf <+: buf →
    (Writer.writeNode output name node).strings <+: table →
    Cursor.remaining ⟨buf, (Writer.writeBeginNode output.buf name).length⟩ < 4 * bound →
    Cursor.readNode checks ⟨table⟩ bound ⟨buf, (Writer.writeBeginNode output.buf name).length⟩ =
      .ok node ⟨buf, (Writer.writeNode output name node).buf.length⟩

/-- The rounds that read the children. -/
theorem readChildren_follows {holds : List (String × Value) → List (String × Node) → Prop}
    {properties : List (String × Value)} {children done : List (String × Node)} {rounds bound : Nat}
    (fits : buf.length < maxSliceLength) (nulFree : ∀ entry ∈ children, NulFree entry.1)
    (all : ∀ entry ∈ children, entry.2.All holds)
    (readBack : ∀ entry ∈ children, ReadBack checks buf table entry.2)
    (ascending : SortedMap.Ascending (done ++ children))
    (isPrefix : (Writer.writeChildren output children).buf <+: buf)
    (isTable : (Writer.writeChildren output children).strings <+: table)
    (enough : Cursor.remaining ⟨buf, output.buf.length⟩ < 4 * rounds) (fewer : rounds ≤ bound + 1) :
    ∃ left ≤ rounds,
      Cursor.remaining ⟨buf, (Writer.writeChildren output children).buf.length⟩ < 4 * left ∧
      Exec.loop .unfinished (Cursor.nodeRound checks ⟨table⟩ (Cursor.readNode checks ⟨table⟩ bound))
          rounds (properties, done) ⟨buf, output.buf.length⟩ =
        Exec.loop .unfinished (Cursor.nodeRound checks ⟨table⟩ (Cursor.readNode checks ⟨table⟩ bound))
          left (properties, done ++ children)
          ⟨buf, (Writer.writeChildren output children).buf.length⟩ := by
  induction children generalizing output done rounds with
  | nil => exact ⟨rounds, le_refl _, enough, by rw [List.append_nil]; rfl⟩
  | cons child children ih =>
      obtain ⟨rounds, rfl⟩ : ∃ fewer, rounds = fewer + 1 := ⟨rounds - 1, by omega⟩
      have allLater : ∀ entry ∈ children, entry.2.All holds :=
        fun entry member => all entry (List.mem_cons_of_mem _ member)
      have written := Writer.writeNode_grows (all child List.mem_cons_self) output child.1
      have later := Writer.writeChildren_grows
        (fun entry member output name => (Writer.writeNode_grows (allLater entry member) output name).1)
        (Writer.writeNode output child.1 child.2)
      have childPrefix := later.buf.trans isPrefix
      have beginPrefix := written.2.trans childPrefix
      have isLonger := length_writeBeginNode output.buf child.1
      have childEnough := remaining_lt beginPrefix isLonger
        (lt_of_lt_of_le enough (Nat.mul_le_mul_left 4 fewer))
      have isChild := readBack child List.mem_cons_self output child.1 bound childPrefix
        (later.strings.trans isTable) childEnough
      have isFirst := nodeRound_child checks ⟨table⟩ (properties, done) fits
        (nulFree child List.mem_cons_self) beginPrefix isChild
      have isLast : SortedMap.insert child.1 child.2 done = done ++ [child] := by
        apply SortedMap.insert_last
        intro entry member
        exact (List.pairwise_append.mp ascending).2.2 entry member child List.mem_cons_self
      have isSum : done ++ child :: children = done ++ [child] ++ children := by
        rw [List.append_assoc]
        rfl
      rw [isSum] at ascending
      obtain ⟨left, fewerLeft, leftEnough, run⟩ := ih
        (fun entry member => nulFree entry (List.mem_cons_of_mem _ member)) allLater
        (fun entry member => readBack entry (List.mem_cons_of_mem _ member)) ascending isPrefix isTable
        (remaining_lt childPrefix (le_trans isLonger written.2.length_le) enough) (by omega)
      refine ⟨left, Nat.le_succ_of_le fewerLeft, leftEnough, ?_⟩
      rw [isLast] at isFirst
      rw [Exec.loop_goes_on isFirst, isSum]
      exact run

/-- What the maps of a node are, and the names in them. -/
def Good (properties : List (String × Value)) (children : List (String × Node)) : Prop :=
  (SortedMap.Ascending properties ∧ SortedMap.Ascending children) ∧
    (∀ entry ∈ properties, NulFree entry.1) ∧ ∀ entry ∈ children, NulFree entry.1

/-- A node is read as it was written: its properties, its children one after the other, its end. -/
theorem readNode_follows {node : Node} (checks : Bool) (small : buf.length < u32Modulus)
    (smallTable : table.length < u32Modulus) (good : node.All Good) :
    ReadBack checks buf table node := by
  induction good with
  | @mk properties children here below ih =>
      intro output name bound isPrefix isTable enough
      obtain ⟨⟨ascending, ascendingChildren⟩, nulFree, nulFreeChildren⟩ := here
      obtain ⟨bound, rfl⟩ : ∃ fewer, bound = fewer + 1 := ⟨bound - 1, by omega⟩
      rw [Writer.writeNode_eq] at isPrefix isTable ⊢
      have fits := short_of_small small
      have writtenPrefix := (List.prefix_append _ _).trans isPrefix
      have inner := Writer.writeChildren_grows
        (fun entry member output name => (Writer.writeNode_grows (below entry member) output name).1)
        (Writer.opened output name properties)
      obtain ⟨rounds, fewer, enoughChildren, runProperties⟩ :=
        @readProperties_follows checks buf table (Cursor.readNode checks ⟨table⟩ bound)
          { output with buf := Writer.writeBeginNode output.buf name } properties [] [] (bound + 1)
          small smallTable nulFree ascending (inner.buf.trans writtenPrefix)
          (inner.strings.trans isTable) enough
      obtain ⟨left, _, leftEnough, runChildren⟩ :=
        @readChildren_follows checks buf table (Writer.opened output name properties) Good properties
          children [] rounds bound fits nulFreeChildren below ih ascendingChildren writtenPrefix isTable
          enoughChildren fewer
      obtain ⟨left, rfl⟩ : ∃ fewer, left = fewer + 1 := ⟨left - 1, by omega⟩
      have isEnd := nodeRound_end checks ⟨table⟩ (Cursor.readNode checks ⟨table⟩ bound)
        (properties, children) fits isPrefix
      calc Cursor.readNode checks ⟨table⟩ (bound + 1)
            ⟨buf, (Writer.writeBeginNode output.buf name).length⟩
        _ = _ := runProperties
        _ = _ := runChildren
        _ = _ := Exec.loop_leaves isEnd

/-- The bytes of the structure block. -/
def structOf (root : Node) : List UInt8 := (Writer.writeNode ⟨[], []⟩ "" root).buf ++ beU32 tokEnd

def tableOf (root : Node) : List UInt8 := (Writer.writeNode ⟨[], []⟩ "" root).strings

theorem readStruct_follows {root : Node} {bound : Nat} (checks : Bool) (small : buf.length < u32Modulus)
    (smallTable : table.length < u32Modulus) (good : root.All Good) (isPrefix : structOf root <+: buf)
    (isTable : tableOf root <+: table) (enough : (Cursor.start buf).remaining < 4 * bound) :
    DeviceTree.readStruct checks ⟨table⟩ bound (.start buf) =
      .ok root ⟨buf, (structOf root).length⟩ := by
  have fits := short_of_small small
  have written := Writer.writeNode_grows good ⟨[], []⟩ ""
  have rootPrefix := (List.prefix_append _ _).trans isPrefix
  have beginPrefix := written.2.trans rootPrefix
  have marked : [] ++ beU32 tokBeginNode <+: buf := (Writer.prefix_writeBeginNode [] "").trans beginPrefix
  have isName : Cursor.readUnitName checks ⟨buf, ([] ++ beU32 tokBeginNode).length⟩ =
      .ok "" ⟨buf, (Writer.writeBeginNode [] "").length⟩ :=
    readUnitName_follows fits (List.not_mem_nil) ((prefix_align _ 4).trans beginPrefix)
  have fewer : Cursor.remaining ⟨buf, (Writer.writeBeginNode [] "").length⟩ < 4 * bound :=
    lt_of_le_of_lt (Nat.sub_le_sub_left (Nat.zero_le _) _) enough
  have isRoot := readNode_follows checks small smallTable good ⟨[], []⟩ "" bound rootPrefix isTable fewer
  have isToken : Cursor.readBeU32 checks (.start buf) =
      .ok tokBeginNode ⟨buf, ([] ++ beU32 tokBeginNode).length⟩ := readBeU32_follows fits marked
  have isEmpty : "".utf8ByteSize = 0 := rfl
  unfold DeviceTree.readStruct
  rw [Exec.bind_of_ok isToken, Exec.ensure_bind rfl, Exec.bind_of_ok isName, Exec.ensure_bind isEmpty,
    Exec.bind_of_ok isRoot, Exec.bind_of_ok (readBeU32_follows fits isPrefix), Exec.ensure_bind rfl]
  rfl

end Nodes

/-! ## The header and the reservation map -/

section Blocks
variable {checks : Bool} {buf before : List UInt8}

theorem readHeader_follows {header : Header} (fits : buf.length < maxSliceLength)
    (isPrefix : Writer.writeHeader before header <+: buf) :
    Cursor.readHeader checks ⟨buf, before.length⟩ =
      .ok header ⟨buf, (Writer.writeHeader before header).length⟩ := by
  have toStruct := (List.prefix_append _ _).trans isPrefix
  have toStrings := (List.prefix_append _ _).trans toStruct
  have toBoot := (List.prefix_append _ _).trans toStrings
  have toLast := (List.prefix_append _ _).trans toBoot
  have toVersion := (List.prefix_append _ _).trans toLast
  have toRsvmap := (List.prefix_append _ _).trans toVersion
  have toOffStrings := (List.prefix_append _ _).trans toRsvmap
  have toOffStruct := (List.prefix_append _ _).trans toOffStrings
  have toMagic := (List.prefix_append _ _).trans toOffStruct
  unfold Cursor.readHeader
  rw [Exec.bind_of_ok (readBeU32_follows fits toMagic), Exec.bind_of_ok (readBeU32_follows fits toOffStruct),
    Exec.bind_of_ok (readBeU32_follows fits toOffStrings), Exec.bind_of_ok (readBeU32_follows fits toRsvmap),
    Exec.bind_of_ok (readBeU32_follows fits toVersion), Exec.bind_of_ok (readBeU32_follows fits toLast),
    Exec.bind_of_ok (readBeU32_follows fits toBoot), Exec.bind_of_ok (readBeU32_follows fits toStrings),
    Exec.bind_of_ok (readBeU32_follows fits toStruct), Exec.bind_of_ok (readBeU32_follows fits isPrefix)]
  rfl

theorem length_beU64 (v : UInt64) : (beU64 v).length = 8 := length_beBytes 8 _

/-- The entry that ends the map. -/
def ReserveEntry.IsEnd (entry : ReserveEntry) : Prop := entry.address = 0 ∧ entry.size = 0

def NoEnd (entries : List ReserveEntry) : Prop := ∀ entry ∈ entries, ¬ entry.IsEnd

theorem readReserveEntry_follows {entry : ReserveEntry} (fits : buf.length < maxSliceLength)
    (isPrefix : before ++ beU64 entry.address ++ beU64 entry.size <+: buf) :
    Cursor.readReserveEntry checks ⟨buf, before.length⟩ =
      .ok entry ⟨buf, (before ++ beU64 entry.address ++ beU64 entry.size).length⟩ := by
  have toAddress := (List.prefix_append _ _).trans isPrefix
  unfold Cursor.readReserveEntry
  rw [Exec.bind_of_ok (readBeU64_follows fits toAddress), Exec.bind_of_ok (readBeU64_follows fits isPrefix)]
  rfl

theorem writeMemRsvmap_cons (before : List UInt8) (entry : ReserveEntry) (entries : List ReserveEntry) :
    Writer.writeMemRsvmap before (entry :: entries) =
      Writer.writeMemRsvmap (before ++ beU64 entry.address ++ beU64 entry.size) entries := rfl

theorem prefix_writeMemRsvmap (before : List UInt8) (entries : List ReserveEntry) :
    before <+: Writer.writeMemRsvmap before entries := by
  induction entries generalizing before with
  | nil =>
      rw [Writer.writeMemRsvmap, List.append_assoc]
      exact List.prefix_append _ _
  | cons entry entries ih =>
      rw [writeMemRsvmap_cons]
      refine List.IsPrefix.trans ?_ (ih _)
      rw [List.append_assoc]
      exact List.prefix_append _ _

/-- The entries are read one after the other, up to the one that ends the map. -/
theorem rsvmapLoop_follows {entries done : List ReserveEntry} {rounds : Nat}
    (fits : buf.length < maxSliceLength) (noEnd : NoEnd entries)
    (isPrefix : Writer.writeMemRsvmap before entries <+: buf)
    (enough : Cursor.remaining ⟨buf, before.length⟩ < 4 * rounds) :
    Exec.loop .unfinished (Cursor.rsvmapRound checks) rounds done ⟨buf, before.length⟩ =
      .ok (done ++ entries) ⟨buf, (Writer.writeMemRsvmap before entries).length⟩ := by
  induction entries generalizing before done rounds with
  | nil =>
      obtain ⟨rounds, rfl⟩ : ∃ fewer, rounds = fewer + 1 := ⟨rounds - 1, by omega⟩
      have isEntry := @readReserveEntry_follows checks buf before ⟨0, 0⟩ fits isPrefix
      have isRound : Cursor.rsvmapRound checks done ⟨buf, before.length⟩ =
          .ok (.inr done) ⟨buf, (Writer.writeMemRsvmap before []).length⟩ := by
        unfold Cursor.rsvmapRound
        rw [Exec.bind_of_ok isEntry, if_pos ⟨rfl, rfl⟩]
        rfl
      rw [Exec.loop_leaves isRound, List.append_nil]
  | cons entry entries ih =>
      obtain ⟨rounds, rfl⟩ : ∃ fewer, rounds = fewer + 1 := ⟨rounds - 1, by omega⟩
      rw [writeMemRsvmap_cons] at isPrefix ⊢
      have entryPrefix := (prefix_writeMemRsvmap _ entries).trans isPrefix
      have isEntry := @readReserveEntry_follows checks buf before entry fits entryPrefix
      have isRound : Cursor.rsvmapRound checks done ⟨buf, before.length⟩ =
          .ok (.inl (done ++ [entry]))
            ⟨buf, (before ++ beU64 entry.address ++ beU64 entry.size).length⟩ := by
        unfold Cursor.rsvmapRound
        rw [Exec.bind_of_ok isEntry]
        exact congrFun (if_neg (noEnd entry List.mem_cons_self)) _
      have isLonger : before.length + 4 ≤
          (before ++ beU64 entry.address ++ beU64 entry.size).length := by
        rw [List.length_append, List.length_append, length_beU64, length_beU64]
        omega
      have isSum : done ++ entry :: entries = done ++ [entry] ++ entries := by
        rw [List.append_assoc]
        rfl
      rw [Exec.loop_goes_on isRound, isSum]
      exact ih (fun other member => noEnd other (List.mem_cons_of_mem _ member)) isPrefix
        (remaining_lt entryPrefix isLonger enough)

end Blocks

end IceCap.Fdt
