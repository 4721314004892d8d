import Mathlib.Algebra.Order.Ring.Nat
import Mathlib.Data.UInt
import Mathlib.Tactic.Ring
import IceCap.Library.Codec
import IceCap.Library.Words

/-!
# The wire format of 9P

Integers are little-endian, strings and vectors have the number of their bytes
or elements in front of them, and what is derived for a struct is its fields
one after another.  A reader is what there is still to read, and a writer what
has been written.
-/

set_option autoImplicit false

namespace IceCap.NineP

open IceCap.Library

/-! ## Errors -/

inductive ErrorKind where
  | notFound | permissionDenied | connectionRefused | connectionReset | connectionAborted
  | notConnected | addrInUse | addrNotAvailable | brokenPipe | alreadyExists | wouldBlock
  | invalidInput | invalidData | timedOut | writeZero | interrupted | other | unexpectedEof
  | uncategorized
  deriving DecidableEq, Repr

/-- `io::Error`: what the system has returned, or what was made up with a kind and a text. -/
inductive Error where
  | os (errno : Int)
  | new (kind : ErrorKind) (message : String)
  deriving DecidableEq, Repr

/-! ## Readers and writers -/

def writeAll (bytes : List UInt8) : Exec Error (List UInt8) Unit :=
  Exec.modify fun written => written ++ bytes

def readExact (count : Nat) : Exec Error (List UInt8) (List UInt8) :=
  Codec.readExact (.new .unexpectedEof "failed to fill whole buffer") count

def readToString : Exec Error (List UInt8) String := do
  let bytes ← Codec.readToEnd
  match String.fromUTF8? bytes.toByteArray with
  | some string => pure string
  | none => Exec.fail (.new .invalidData "stream did not contain valid UTF-8")

/-! ## The trait -/

class WireFormat (α : Type) where
  byteSize : α → UInt32
  encode : α → Exec Error (List UInt8) Unit
  decode : Exec Error (List UInt8) α

open WireFormat

def codec (α : Type) [WireFormat α] : Codec Error α := ⟨encode, decode⟩

/-- The bytes of every value, the values with an encoding, and those which that is decoded to. -/
class LawfulWireFormat (α : Type) [WireFormat α] where
  spec : Codec.Spec α
  meets : (codec α).Meets spec
  byteSize_eq : ∀ value : α, byteSize value = .ofNat (spec.bytes value).length

open LawfulWireFormat

/-- The number of bytes of the encoding. -/
def wireSize {α : Type} [WireFormat α] [LawfulWireFormat α] (value : α) : Nat :=
  ((spec (α := α)).bytes value).length

/-- There is an encoding. -/
def Fits {α : Type} [WireFormat α] [LawfulWireFormat α] (value : α) : Prop :=
  (spec (α := α)).Fits value

/-! ## Integers -/

def encodeUint (size value : Nat) : Exec Error (List UInt8) Unit :=
  writeAll ((List.range size).map fun idx => UInt8.ofNat (value >>> (8 * idx)))

def decodeUint (size : Nat) : Exec Error (List UInt8) Nat := do
  let buf ← readExact size
  pure ((List.range size).foldl
    (fun result idx => result ||| ((buf.getD idx 0).toNat <<< (8 * idx)) % 2 ^ (8 * size)) 0)

theorem bytes_eq_leBytes (size value : Nat) :
    ((List.range size).map fun idx => UInt8.ofNat (value >>> (8 * idx))) = leBytes size value := by
  induction size generalizing value with
  | zero => rfl
  | succ size ih =>
      have shifted : ∀ idx, value >>> (8 * (idx + 1)) = (value / 256) >>> (8 * idx) := by
        intro idx
        rw [Nat.mul_succ, Nat.add_comm, Nat.shiftRight_add, Nat.shiftRight_eq_div_pow value]
      rw [List.range_succ_eq_map, List.map_cons, List.map_map, leBytes, ← ih (value / 256)]
      simp only [Function.comp_def, shifted, Nat.mul_zero, Nat.shiftRight_zero]

theorem ofLeBytes_concat (bytes : List UInt8) (byte : UInt8) :
    ofLeBytes (bytes ++ [byte]) = ofLeBytes bytes + byte.toNat * 256 ^ bytes.length := by
  induction bytes with
  | nil => simp [ofLeBytes]
  | cons first bytes ih =>
      rw [List.cons_append, ofLeBytes, ih, ofLeBytes, List.length_cons, pow_succ]
      ring

theorem fold_eq_ofLeBytes (size : Nat) (buf : List UInt8) (count : Nat) (within : count ≤ size)
    (enough : count ≤ buf.length) :
    (List.range count).foldl
      (fun result idx => result ||| ((buf.getD idx 0).toNat <<< (8 * idx)) % 2 ^ (8 * size)) 0 =
        ofLeBytes (buf.take count) := by
  induction count with
  | zero => rfl
  | succ count ih =>
      have isByte : buf[count]? = some (buf.getD count 0) := by
        simp [List.getD, List.getElem?_eq_getElem (Nat.lt_of_succ_le enough)]
      have length : (buf.take count).length = count := by simp; omega
      have power : (256 : Nat) ^ count = 2 ^ (8 * count) := by rw [Nat.pow_mul]
      have below : ofLeBytes (buf.take count) < 2 ^ (8 * count) := by
        have less := ofLeBytes_lt (buf.take count)
        rwa [length, power] at less
      have small : (buf.getD count 0).toNat <<< (8 * count) < 2 ^ (8 * size) := by
        calc (buf.getD count 0).toNat <<< (8 * count)
          _ = (buf.getD count 0).toNat * 2 ^ (8 * count) := Nat.shiftLeft_eq ..
          _ < 2 ^ 8 * 2 ^ (8 * count) :=
              Nat.mul_lt_mul_of_pos_right (UInt8.toNat_lt _) (Nat.two_pow_pos _)
          _ = 2 ^ (8 * (count + 1)) := by rw [← Nat.pow_add, Nat.mul_succ, Nat.add_comm]
          _ ≤ 2 ^ (8 * size) := Nat.pow_le_pow_right (by decide) (Nat.mul_le_mul_left 8 within)
      rw [List.range_succ, List.foldl_append, ih (by omega) (by omega), List.foldl_cons,
        List.foldl_nil, Nat.mod_eq_of_lt small, Nat.or_comm, ← Nat.shiftLeft_add_eq_or_of_lt below,
        List.take_add_one, isByte, Option.toList_some, ofLeBytes_concat, length, power,
        Nat.shiftLeft_eq, Nat.add_comm]

theorem encodeUint_eq (size value : Nat) (out : List UInt8) :
    encodeUint size value out = .ok () (out ++ leBytes size value) := by
  rw [encodeUint, bytes_eq_leBytes]
  rfl

theorem decodeUint_eq_ok {size value : Nat} {input rest : List UInt8} :
    decodeUint size input = .ok value rest ↔
      ∃ buf, input = buf ++ rest ∧ buf.length = size ∧ ofLeBytes buf = value := by
  simp only [decodeUint, readExact, Exec.bind_eq_ok, Codec.readExact_eq_ok, Exec.pure_eq_ok]
  constructor
  · rintro ⟨buf, left, ⟨isInput, length⟩, rfl, rfl⟩
    refine ⟨buf, isInput, length, ?_⟩
    rw [fold_eq_ofLeBytes size buf size le_rfl (by omega), List.take_of_length_le (by omega)]
  · rintro ⟨buf, isInput, length, rfl⟩
    refine ⟨buf, rest, ⟨isInput, length⟩, ?_, rfl⟩
    rw [fold_eq_ofLeBytes size buf size le_rfl (by omega), List.take_of_length_le (by omega)]

theorem decodeUint_ne_panic {size : Nat} {input : List UInt8} :
    decodeUint size input = .panic ↔ False := by
  simp [decodeUint, readExact, Exec.bind_eq_panic, Codec.readExact_ne_panic]

/-- `uint_wire_format_impl!` -/
@[reducible]
def uintWireFormat {α : Type} (size : Nat) (toNat : α → Nat) (ofNat : Nat → α) : WireFormat α where
  byteSize _ := .ofNat size
  encode value := encodeUint size (toNat value)
  decode := do
    let value ← decodeUint size
    pure (ofNat value)

@[reducible]
def uintLawful {α : Type} {size : Nat} {toNat : α → Nat} {ofNat : Nat → α}
    (isLess : ∀ value, toNat value < 256 ^ size) (isSame : ∀ value, ofNat (toNat value) = value) :
    @LawfulWireFormat α (uintWireFormat size toNat ofNat) :=
  letI := uintWireFormat size toNat ofNat
  { spec := ⟨fun value => leBytes size (toNat value), fun _ => True, fun _ => True⟩
    byteSize_eq := fun value => congrArg UInt32.ofNat (length_leBytes size (toNat value)).symm
    meets :=
      { writes := fun value out _ => encodeUint_eq size (toNat value) out
        refuses := fun _ _ unfit => absurd trivial unfit
        reads := by
          intro value rest _ _
          refine Exec.bind_eq_ok.mpr ⟨toNat value, rest, decodeUint_eq_ok.mpr ⟨_, rfl,
            length_leBytes .., ?_⟩, by rw [isSame]; rfl⟩
          rw [ofLeBytes_leBytes, Nat.mod_eq_of_lt (isLess value)]
        consumes := by
          intro input value rest read
          simp only [codec, decode, Exec.bind_eq_ok, decodeUint_eq_ok, Exec.pure_eq_ok] at read
          obtain ⟨_, _, ⟨buf, isInput, length, _⟩, _, rfl⟩ := read
          exact ⟨trivial, trivial, buf, isInput, by rw [length, length_leBytes]⟩
        returns := by
          intro input panicked
          simp [codec, decode, Exec.bind_eq_panic, decodeUint_ne_panic] at panicked } }

instance wireFormatU8 : WireFormat UInt8 := uintWireFormat 1 UInt8.toNat UInt8.ofNat
instance wireFormatU16 : WireFormat UInt16 := uintWireFormat 2 UInt16.toNat UInt16.ofNat
instance wireFormatU32 : WireFormat UInt32 := uintWireFormat 4 UInt32.toNat UInt32.ofNat
instance wireFormatU64 : WireFormat UInt64 := uintWireFormat 8 UInt64.toNat UInt64.ofNat

instance lawfulU8 : LawfulWireFormat UInt8 :=
  uintLawful UInt8.toNat_lt fun _ => UInt8.ofNat_toNat
instance lawfulU16 : LawfulWireFormat UInt16 :=
  uintLawful UInt16.toNat_lt fun _ => UInt16.ofNat_toNat
instance lawfulU32 : LawfulWireFormat UInt32 :=
  uintLawful UInt32.toNat_lt fun _ => UInt32.ofNat_toNat
instance lawfulU64 : LawfulWireFormat UInt64 :=
  uintLawful UInt64.toNat_lt fun _ => UInt64.ofNat_toNat

section Counts
variable {count : Nat} {out input rest : List UInt8}

theorem encode_u16 (fits : count ≤ 65535) :
    encode (UInt16.ofNat count) out = .ok () (out ++ leBytes 2 count) := by
  have isCount : (UInt16.ofNat count).toNat = count := UInt16.toNat_ofNat_of_lt (Nat.lt_succ_of_le fits)
  exact (encodeUint_eq 2 (UInt16.ofNat count).toNat out).trans (by rw [isCount])

theorem decode_u16 (fits : count ≤ 65535) :
    decode (leBytes 2 count ++ rest) = .ok (UInt16.ofNat count) rest := by
  have isCount : (UInt16.ofNat count).toNat = count := UInt16.toNat_ofNat_of_lt (Nat.lt_succ_of_le fits)
  nth_rewrite 1 [← isCount]
  exact (meets (α := UInt16)).reads (.ofNat count) rest trivial trivial

theorem decode_u16_uses {len : UInt16} (read : decode input = .ok len rest) :
    ∃ used, input = used ++ rest ∧ used.length = 2 := by
  obtain ⟨_, _, used, isInput, length⟩ := (meets (α := UInt16)).consumes _ _ _ read
  exact ⟨used, isInput, length.trans (length_leBytes ..)⟩

theorem encode_u32 (fits : count ≤ 4294967295) :
    encode (UInt32.ofNat count) out = .ok () (out ++ leBytes 4 count) := by
  have isCount : (UInt32.ofNat count).toNat = count := UInt32.toNat_ofNat_of_lt (Nat.lt_succ_of_le fits)
  exact (encodeUint_eq 4 (UInt32.ofNat count).toNat out).trans (by rw [isCount])

theorem decode_u32 (fits : count ≤ 4294967295) :
    decode (leBytes 4 count ++ rest) = .ok (UInt32.ofNat count) rest := by
  have isCount : (UInt32.ofNat count).toNat = count := UInt32.toNat_ofNat_of_lt (Nat.lt_succ_of_le fits)
  nth_rewrite 1 [← isCount]
  exact (meets (α := UInt32)).reads (.ofNat count) rest trivial trivial

theorem decode_u32_uses {len : UInt32} (read : decode input = .ok len rest) :
    ∃ used, input = used ++ rest ∧ used.length = 4 := by
  obtain ⟨_, _, used, isInput, length⟩ := (meets (α := UInt32)).consumes _ _ _ read
  exact ⟨used, isInput, length.trans (length_leBytes ..)⟩

end Counts

/-! ## Strings -/

def utf8 (string : String) : List UInt8 := string.toByteArray.data.toList

theorem length_utf8 (string : String) : (utf8 string).length = string.utf8ByteSize := by
  rw [utf8, Array.length_toList]
  rfl

theorem toByteArray_utf8 (string : String) : (utf8 string).toByteArray = string.toByteArray := by
  apply ByteArray.ext
  rw [List.data_toByteArray, utf8, Array.toArray_toList]

theorem readToString_eq_ok {string : String} {input rest : List UInt8} :
    readToString input = .ok string rest ↔ input = utf8 string ∧ rest = [] := by
  constructor
  · intro read
    obtain ⟨bytes, left, readAll, read⟩ := Exec.bind_eq_ok.mp read
    obtain ⟨rfl, rfl⟩ := Codec.readToEnd_eq_ok.mp readAll
    cases found : String.fromUTF8? input.toByteArray with
    | none => simp [found] at read
    | some valid =>
        rw [found] at read
        obtain ⟨rfl, rfl⟩ := Exec.pure_eq_ok.mp read
        unfold String.fromUTF8? at found
        split at found
        · obtain rfl := Option.some.inj found
          rw [← List.toByteArray_inj, toByteArray_utf8]
          exact ⟨rfl, rfl⟩
        · simp at found
  · rintro ⟨rfl, rfl⟩
    refine Exec.bind_eq_ok.mpr ⟨_, [], Codec.readToEnd_eq_ok.mpr ⟨rfl, rfl⟩, ?_⟩
    rw [toByteArray_utf8, String.fromUTF8?, dif_pos string.isValidUTF8]
    rfl

theorem readToString_ne_panic {input : List UInt8} : readToString input = .panic ↔ False := by
  simp only [readToString, Exec.bind_eq_panic, Codec.readToEnd_ne_panic, false_or, iff_false,
    not_exists, not_and]
  intro bytes left _
  cases String.fromUTF8? bytes.toByteArray with
  | none => simp [Exec.fail]
  | some string => exact Exec.pure_ne_panic.mp

def encodeString (string : String) : Exec Error (List UInt8) Unit := do
  Exec.ensure (string.utf8ByteSize ≤ 65535) (.new .invalidInput "string is too long")
  encode (UInt16.ofNat string.utf8ByteSize)
  writeAll (utf8 string)

def decodeString : Exec Error (List UInt8) String := do
  let len : UInt16 ← decode
  Codec.limited len.toNat readToString

section String
variable {string : String} {out input rest : List UInt8}

theorem encodeString_fits (fits : string.utf8ByteSize ≤ 65535) :
    encodeString string out = .ok () (out ++ (leBytes 2 string.utf8ByteSize ++ utf8 string)) := by
  refine Exec.bind_eq_ok.mpr ⟨(), out, Exec.ensure_eq_ok.mpr ⟨fits, rfl⟩, ?_⟩
  refine Exec.bind_eq_ok.mpr ⟨(), _, encode_u16 fits, ?_⟩
  rw [← List.append_assoc]
  rfl

theorem decodeString_append (fits : string.utf8ByteSize ≤ 65535) :
    decodeString (leBytes 2 string.utf8ByteSize ++ utf8 string ++ rest) = .ok string rest := by
  refine Exec.bind_eq_ok.mpr ⟨UInt16.ofNat string.utf8ByteSize, utf8 string ++ rest, ?_, ?_⟩
  · rw [List.append_assoc]
    exact decode_u16 fits
  · have isLength : (UInt16.ofNat string.utf8ByteSize).toNat = string.utf8ByteSize :=
      UInt16.toNat_ofNat_of_lt (Nat.lt_succ_of_le fits)
    rw [isLength]
    exact Codec.limited_append (length_utf8 string) (readToString_eq_ok.mpr ⟨rfl, rfl⟩)

theorem decodeString_uses (read : decodeString input = .ok string rest) :
    string.utf8ByteSize ≤ 65535 ∧
      ∃ used, input = used ++ rest ∧ used.length = 2 + string.utf8ByteSize := by
  obtain ⟨len, middle, readLen, readText⟩ := Exec.bind_eq_ok.mp read
  obtain ⟨used, rfl, length⟩ := decode_u16_uses readLen
  obtain ⟨left, readLimited, rfl⟩ := Codec.limited_eq_ok.mp readText
  obtain ⟨isString, rfl⟩ := readToString_eq_ok.mp readLimited
  have isSize : (middle.take len.toNat).length = string.utf8ByteSize := by
    rw [isString, length_utf8]
  have isLess := len.toNat_lt
  refine ⟨?_, used ++ utf8 string, ?_, by rw [List.length_append, length, length_utf8]⟩
  · rw [List.length_take] at isSize
    omega
  · rw [← isString, List.nil_append, List.append_assoc, List.take_append_drop]

theorem decodeString_ne_panic : decodeString input ≠ .panic := by
  intro panicked
  rcases Exec.bind_eq_panic.mp panicked with first | ⟨len, middle, _, rest⟩
  · exact (meets (α := UInt16)).returns input first
  · exact readToString_ne_panic.mp (Codec.limited_eq_panic.mp rest)

end String

instance wireFormatString : WireFormat String where
  byteSize string := .ofNat (2 + string.utf8ByteSize)
  encode := encodeString
  decode := decodeString

/-- A string may be shorter than it says where there is nothing behind it, so other bytes are decoded
to it as well. -/
instance lawfulString : LawfulWireFormat String where
  spec := ⟨fun string => leBytes 2 string.utf8ByteSize ++ utf8 string,
    fun string => string.utf8ByteSize ≤ 65535, fun _ => True⟩
  byteSize_eq string := by
    rw [List.length_append, length_leBytes, length_utf8]
    rfl
  meets :=
    { writes := fun _ _ fits => encodeString_fits fits
      refuses := fun string out unfit => ⟨_, out, Exec.bind_eq_err.mpr (.inl (if_neg unfit))⟩
      reads := fun _ _ fits _ => decodeString_append fits
      consumes := fun input string rest read => by
        obtain ⟨fits, used, isInput, length⟩ := decodeString_uses read
        exact ⟨fits, trivial, used, isInput, by
          rw [length, List.length_append, length_leBytes, length_utf8]⟩
      returns := fun _ => decodeString_ne_panic }

/-! ## Vectors -/

section Vectors
variable {α : Type} [WireFormat α]

def encodeVec (values : List α) : Exec Error (List UInt8) Unit := do
  Exec.ensure (values.length ≤ 65535) (.new .invalidInput "too many elements in vector")
  encode (UInt16.ofNat values.length)
  Exec.forEach values encode

def decodeVec : Exec Error (List UInt8) (List α) := do
  let len : UInt16 ← decode
  Exec.mapEach (List.range len.toNat) fun _ => decode

instance wireFormatVec : WireFormat (List α) where
  byteSize values := 2 + (values.map byteSize).sum
  encode := encodeVec
  decode := decodeVec

variable [LawfulWireFormat α] {values : List α} {out input rest : List UInt8}

theorem sum_byteSize (values : List α) :
    (values.map byteSize).sum = UInt32.ofNat (values.flatMap spec.bytes).length := by
  induction values with
  | nil => rfl
  | cons value values ih =>
      rw [List.map_cons, List.sum_cons, ih, byteSize_eq, List.flatMap_cons, List.length_append,
        UInt32.ofNat_add]

theorem encodeVec_fits (short : values.length ≤ 65535) (fits : ∀ value ∈ values, spec.Fits value) :
    encodeVec values out =
      .ok () (out ++ (leBytes 2 values.length ++ values.flatMap spec.bytes)) := by
  refine Exec.bind_eq_ok.mpr ⟨(), out, Exec.ensure_eq_ok.mpr ⟨short, rfl⟩, ?_⟩
  refine Exec.bind_eq_ok.mpr ⟨(), _, encode_u16 short, ?_⟩
  rw [← List.append_assoc]
  exact meets.writesEach values _ fits

theorem encodeVec_refuses (unfit : ¬ (values.length ≤ 65535 ∧ ∀ value ∈ values, spec.Fits value)) :
    ∃ error left, encodeVec values out = .err error left := by
  by_cases short : values.length ≤ 65535
  · obtain ⟨error, left, failed⟩ := meets.refusesEach values (out ++ leBytes 2 values.length)
      fun each => unfit ⟨short, each⟩
    refine ⟨error, left, Exec.bind_eq_err.mpr (.inr ⟨(), out,
      Exec.ensure_eq_ok.mpr ⟨short, rfl⟩, ?_⟩)⟩
    exact Exec.bind_eq_err.mpr (.inr ⟨(), _, encode_u16 short, failed⟩)
  · exact ⟨_, out, Exec.bind_eq_err.mpr (.inl (if_neg short))⟩

theorem decodeVec_append (short : values.length ≤ 65535) (fits : ∀ value ∈ values, spec.Fits value)
    (kept : ∀ value ∈ values, spec.Kept value) :
    decodeVec (leBytes 2 values.length ++ values.flatMap spec.bytes ++ rest) = .ok values rest := by
  refine Exec.bind_eq_ok.mpr ⟨UInt16.ofNat values.length, values.flatMap spec.bytes ++ rest, ?_, ?_⟩
  · rw [List.append_assoc]
    exact decode_u16 short
  · have isLength : (UInt16.ofNat values.length).toNat = values.length :=
      UInt16.toNat_ofNat_of_lt (Nat.lt_succ_of_le short)
    rw [isLength]
    exact meets.readsEach values rest (List.length_range ..) fits kept

theorem decodeVec_uses (read : decodeVec input = .ok values rest) :
    (values.length ≤ 65535 ∧ ∀ value ∈ values, spec.Fits value) ∧
      (∀ value ∈ values, spec.Kept value) ∧ ∃ used, input = used ++ rest ∧
        used.length = 2 + (values.flatMap spec.bytes).length := by
  obtain ⟨len, middle, readLen, readEach⟩ := Exec.bind_eq_ok.mp read
  obtain ⟨used, rfl, length⟩ := decode_u16_uses readLen
  obtain ⟨isLength, fits, kept, usedRest, rfl, lengthRest⟩ := meets.consumesEach readEach
  have isLess := len.toNat_lt
  rw [List.length_range] at isLength
  exact ⟨⟨by omega, fits⟩, kept, used ++ usedRest, (List.append_assoc ..).symm, by
    rw [List.length_append, length, lengthRest]⟩

theorem decodeVec_ne_panic : (decodeVec : Exec Error _ (List α)) input ≠ .panic := by
  intro panicked
  rcases Exec.bind_eq_panic.mp panicked with first | ⟨len, middle, _, rest⟩
  · exact (meets (α := UInt16)).returns input first
  · exact (meets (α := α)).returnsEach _ middle rest

instance lawfulVec : LawfulWireFormat (List α) where
  spec := ⟨fun values => leBytes 2 values.length ++ values.flatMap spec.bytes,
    fun values => values.length ≤ 65535 ∧ ∀ value ∈ values, spec.Fits value,
    fun values => ∀ value ∈ values, spec.Kept value⟩
  byteSize_eq values := by
    rw [List.length_append, length_leBytes, UInt32.ofNat_add, ← sum_byteSize]
    rfl
  meets :=
    { writes := fun _ _ fits => encodeVec_fits fits.1 fits.2
      refuses := fun _ _ unfit => encodeVec_refuses unfit
      reads := fun _ _ fits kept => decodeVec_append fits.1 fits.2 kept
      consumes := fun input values rest read => by
        obtain ⟨fits, kept, used, isInput, length⟩ := decodeVec_uses read
        exact ⟨fits, kept, used, isInput, by rw [length, List.length_append, length_leBytes]⟩
      returns := fun _ => decodeVec_ne_panic }

end Vectors

/-! ## Data -/

structure Data where
  bytes : List UInt8
  deriving DecidableEq

def maxDataLength : Nat := 32 * 1024 * 1024

def encodeData (data : Data) : Exec Error (List UInt8) Unit := do
  Exec.ensure (data.bytes.length ≤ 4294967295) (.new .invalidInput "data is too large")
  encode (UInt32.ofNat data.bytes.length)
  writeAll data.bytes

def decodeData : Exec Error (List UInt8) Data := do
  let len : UInt32 ← decode
  Exec.ensure (len.toNat ≤ maxDataLength)
    (.new .invalidData s!"data length ({len.toNat} bytes) is too large")
  let buf ← Codec.limited len.toNat Codec.readToEnd
  Exec.ensure (buf.length = len.toNat) (.new .unexpectedEof
    s!"unexpected end of data: want: {len.toNat} bytes, got: {buf.length} bytes")
  pure ⟨buf⟩

section Data
variable {data : Data} {out input rest : List UInt8}

theorem encodeData_fits (fits : data.bytes.length ≤ 4294967295) :
    encodeData data out = .ok () (out ++ (leBytes 4 data.bytes.length ++ data.bytes)) := by
  refine Exec.bind_eq_ok.mpr ⟨(), out, Exec.ensure_eq_ok.mpr ⟨fits, rfl⟩, ?_⟩
  refine Exec.bind_eq_ok.mpr ⟨(), _, encode_u32 fits, ?_⟩
  rw [← List.append_assoc]
  rfl

theorem decodeData_append (fits : data.bytes.length ≤ 4294967295)
    (kept : data.bytes.length ≤ maxDataLength) :
    decodeData (leBytes 4 data.bytes.length ++ data.bytes ++ rest) = .ok data rest := by
  have isLength : (UInt32.ofNat data.bytes.length).toNat = data.bytes.length :=
    UInt32.toNat_ofNat_of_lt (Nat.lt_succ_of_le fits)
  refine Exec.bind_eq_ok.mpr ⟨UInt32.ofNat data.bytes.length, data.bytes ++ rest, ?_, ?_⟩
  · rw [List.append_assoc]
    exact decode_u32 fits
  · simp only [isLength, Exec.bind_eq_ok, Exec.ensure_eq_ok, Exec.pure_eq_ok]
    exact ⟨(), _, ⟨kept, rfl⟩, data.bytes, rest,
      Codec.limited_append rfl (Codec.readToEnd_eq_ok.mpr ⟨rfl, rfl⟩), (), rest, ⟨rfl, rfl⟩, rfl, rfl⟩

theorem decodeData_uses (read : decodeData input = .ok data rest) :
    data.bytes.length ≤ 4294967295 ∧ data.bytes.length ≤ maxDataLength ∧
      ∃ used, input = used ++ rest ∧ used.length = 4 + data.bytes.length := by
  obtain ⟨len, middle, readLen, readBuf⟩ := Exec.bind_eq_ok.mp read
  obtain ⟨used, rfl, length⟩ := decode_u32_uses readLen
  simp only [Exec.bind_eq_ok, Exec.ensure_eq_ok, Codec.limited_eq_ok, Codec.readToEnd_eq_ok,
    Exec.pure_eq_ok] at readBuf
  obtain ⟨_, _, ⟨kept, rfl⟩, buf, _, ⟨_, ⟨isBuf, rfl⟩, rfl⟩, _, _, ⟨isLength, rfl⟩, rfl, rfl⟩ :=
    readBuf
  have isLess := len.toNat_lt
  rw [← isLength] at kept isLess
  refine ⟨Nat.le_of_lt_succ isLess, kept, used ++ buf, ?_, by rw [List.length_append, length]⟩
  rw [← isBuf, List.nil_append, List.append_assoc, List.take_append_drop]

theorem decodeData_ne_panic : decodeData input ≠ .panic := by
  intro panicked
  rcases Exec.bind_eq_panic.mp panicked with first | ⟨len, middle, _, rest⟩
  · exact (meets (α := UInt32)).returns input first
  · simp [Exec.bind_eq_panic, Codec.limited_eq_panic, Codec.readToEnd_ne_panic] at rest

end Data

instance wireFormatData : WireFormat Data where
  byteSize data := 4 + (data.bytes.map byteSize).sum
  encode := encodeData
  decode := decodeData

theorem flatMap_bytes_u8 (bytes : List UInt8) :
    (bytes.flatMap (spec (α := UInt8)).bytes).length = bytes.length := by
  induction bytes with
  | nil => rfl
  | cons byte bytes ih =>
      rw [List.flatMap_cons, List.length_append, ih, List.length_cons, Nat.add_comm]
      rfl

instance lawfulData : LawfulWireFormat Data where
  spec := ⟨fun data => leBytes 4 data.bytes.length ++ data.bytes,
    fun data => data.bytes.length ≤ 4294967295, fun data => data.bytes.length ≤ maxDataLength⟩
  byteSize_eq data := by
    rw [List.length_append, length_leBytes, UInt32.ofNat_add, ← flatMap_bytes_u8 data.bytes,
      ← sum_byteSize]
    rfl
  meets :=
    { writes := fun _ _ fits => encodeData_fits fits
      refuses := fun data out unfit => ⟨_, out, Exec.bind_eq_err.mpr (.inl (if_neg unfit))⟩
      reads := fun _ _ fits kept => decodeData_append fits kept
      consumes := fun input data rest read => by
        obtain ⟨fits, kept, used, isInput, length⟩ := decodeData_uses read
        exact ⟨fits, kept, used, isInput, by rw [length, List.length_append, length_leBytes]⟩
      returns := fun _ => decodeData_ne_panic }

/-! ## What is derived for a struct -/

section Derive
variable {α β γ : Type} [WireFormat α]

/-- The fields of a struct one after another. -/
instance wireFormatFields [WireFormat β] : WireFormat (α × β) where
  byteSize fields := byteSize fields.1 + byteSize fields.2
  encode := ((codec α).pair (codec β)).encode
  decode := ((codec α).pair (codec β)).decode

/-- `derive(P9WireFormat)` -/
@[reducible]
def p9WireFormat (fields : γ → α) (make : α → γ) : WireFormat γ where
  byteSize value := 0 + byteSize (fields value)
  encode := ((codec α).map fields make).encode
  decode := ((codec α).map fields make).decode

variable [LawfulWireFormat α]

instance lawfulFields [WireFormat β] [LawfulWireFormat β] : LawfulWireFormat (α × β) where
  spec := spec.pair spec
  meets := meets.pair meets
  byteSize_eq fields := by
    change byteSize fields.1 + byteSize fields.2 =
      UInt32.ofNat (spec.bytes fields.1 ++ spec.bytes fields.2).length
    rw [byteSize_eq, byteSize_eq, List.length_append, UInt32.ofNat_add]

@[reducible]
def p9Lawful {fields : γ → α} {make : α → γ} (made : ∀ value, make (fields value) = value)
    (taken : ∀ found, fields (make found) = found) :
    @LawfulWireFormat γ (p9WireFormat fields make) :=
  letI := p9WireFormat fields make
  { spec := spec.map fields
    meets := meets.map made taken
    byteSize_eq := fun value => by
      change 0 + byteSize (fields value) = UInt32.ofNat (spec.bytes (fields value)).length
      rw [byteSize_eq, UInt32.zero_add] }

end Derive

end IceCap.NineP
