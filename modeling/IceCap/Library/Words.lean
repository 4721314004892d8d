import Mathlib.Data.List.Basic
import IceCap.Library.LittleEndian

/-!
# Bytes in words

Bytes are filled up with zeros to a whole number of words, and the words are
read off in chunks.  The bytes of the words are the bytes that were filled up.
-/

set_option autoImplicit false

namespace IceCap.Library

section Chunks
variable {α : Type}

/-- `resize_with` -/
def resizeWith (size : Nat) (fill : α) (items : List α) : List α :=
  items.take size ++ List.replicate (size - items.length) fill

/-- `chunks_exact`, without what is left over. -/
def chunksExact (size : Nat) (items : List α) : List (List α) :=
  (List.range (items.length / size)).map fun i => (items.drop (i * size)).take size

/-- What is left over behind the chunks. -/
def remainder (size : Nat) (items : List α) : List α := items.drop (items.length / size * size)

variable {size : Nat} {items : List α}

theorem length_resizeWith (fill : α) : (resizeWith size fill items).length = size := by
  rw [resizeWith, List.length_append, List.length_take, List.length_replicate]
  omega

theorem resizeWith_of_le (fill : α) (fits : items.length ≤ size) :
    resizeWith size fill items = items ++ List.replicate (size - items.length) fill := by
  rw [resizeWith, List.take_of_length_le fits]

theorem length_of_mem_chunksExact {chunk : List α} (member : chunk ∈ chunksExact size items) :
    chunk.length = size := by
  obtain ⟨i, isChunk, rfl⟩ := List.mem_map.mp member
  have isLess := List.mem_range.mp isChunk
  have within : (i + 1) * size ≤ items.length :=
    le_trans (Nat.mul_le_mul_right size isLess) (Nat.div_mul_le_self _ _)
  rw [Nat.succ_mul] at within
  rw [List.length_take, List.length_drop]
  omega

theorem take_eq_flatten (count : Nat) :
    items.take (count * size) =
      ((List.range count).map fun i => (items.drop (i * size)).take size).flatten := by
  induction count with
  | zero => simp
  | succ count ih =>
      rw [Nat.succ_mul, List.take_add, ih, List.range_succ, List.map_append, List.flatten_append]
      simp

theorem flatten_chunksExact : (chunksExact size items).flatten ++ remainder size items = items := by
  rw [chunksExact, ← take_eq_flatten, remainder, List.take_append_drop]

end Chunks

theorem leBytes_ofLeBytes (bytes : List UInt8) : leBytes bytes.length (ofLeBytes bytes) = bytes := by
  induction bytes with
  | nil => rfl
  | cons byte bytes ih =>
      have isByte := byte.toNat_lt
      have isLowest : UInt8.ofNat (byte.toNat + 256 * ofLeBytes bytes) = byte := by
        apply UInt8.toNat_inj.mp
        rw [UInt8.toNat_ofNat']
        omega
      have isRest : (byte.toNat + 256 * ofLeBytes bytes) / 256 = ofLeBytes bytes := by omega
      rw [List.length_cons, ofLeBytes, leBytes, isLowest, isRest, ih]

/-! ## Words of eight bytes -/

/-- The bytes, filled up to whole words. -/
def padded (bytes : List UInt8) : List UInt8 := resizeWith ((bytes.length + 8 - 1) / 8 * 8) 0 bytes

def wordOf (chunk : List UInt8) : UInt64 := .ofNat (ofLeBytes chunk)

def bytesOf (word : UInt64) : List UInt8 := leBytes 8 word.toNat

def wordsOf (bytes : List UInt8) : List UInt64 := (chunksExact 8 (padded bytes)).map wordOf

theorem bytesOf_wordOf {chunk : List UInt8} (isWord : chunk.length = 8) :
    bytesOf (wordOf chunk) = chunk := by
  have less := ofLeBytes_lt chunk
  have isModulus : 256 ^ 8 = 2 ^ 64 := rfl
  rw [isWord, isModulus] at less
  rw [bytesOf, wordOf, UInt64.toNat_ofNat', Nat.mod_eq_of_lt less, ← isWord]
  exact leBytes_ofLeBytes chunk

theorem wordOf_bytesOf (word : UInt64) : wordOf (bytesOf word) = word := by
  have isModulus : 256 ^ 8 = 2 ^ 64 := rfl
  rw [wordOf, bytesOf, ofLeBytes_leBytes, isModulus, Nat.mod_eq_of_lt word.toNat_lt, UInt64.ofNat_toNat]

@[simp]
theorem length_bytesOf (word : UInt64) : (bytesOf word).length = 8 := length_leBytes 8 _

theorem length_flatMap_bytesOf (words : List UInt64) :
    (words.flatMap bytesOf).length = 8 * words.length := by
  induction words with
  | nil => rfl
  | cons word words ih =>
      rw [List.flatMap_cons, List.length_append, ih, length_bytesOf, List.length_cons]
      omega

/-- The word at an offset. -/
def wordAt (bytes : List UInt8) (offset : Nat) : UInt64 := wordOf ((bytes.drop offset).take 8)

/-- Words are where their number says, whatever is behind them. -/
theorem wordAt_flatMap {words : List UInt64} {rest : List UInt8} {i : Nat} {word : UInt64}
    (isWord : words[i]? = some word) : wordAt (words.flatMap bytesOf ++ rest) (8 * i) = word := by
  induction words generalizing i with
  | nil => simp at isWord
  | cons first words ih =>
      rw [List.flatMap_cons, List.append_assoc]
      cases i with
      | zero =>
          obtain rfl : first = word := by simpa using isWord
          rw [wordAt, Nat.mul_zero, List.drop_zero, List.take_left' (length_bytesOf first)]
          exact wordOf_bytesOf first
      | succ i =>
          rw [List.getElem?_cons_succ] at isWord
          have isDrop : 8 * (i + 1) = (bytesOf first).length + 8 * i := by
            rw [length_bytesOf]
            omega
          rw [wordAt, isDrop, List.drop_length_add_append]
          exact ih isWord

theorem padded_eq (bytes : List UInt8) :
    ∃ padding, padding ≤ 7 ∧ padded bytes = bytes ++ List.replicate padding 0 := by
  refine ⟨(bytes.length + 8 - 1) / 8 * 8 - bytes.length, by omega, ?_⟩
  exact resizeWith_of_le 0 (by omega)

theorem length_wordsOf (bytes : List UInt8) : (wordsOf bytes).length = (bytes.length + 7) / 8 := by
  have isSum : (bytes.length + 8 - 1) / 8 = (bytes.length + 7) / 8 := rfl
  rw [wordsOf, List.length_map, chunksExact, List.length_map, List.length_range, padded,
    length_resizeWith, isSum, Nat.mul_div_cancel _ (by decide)]

theorem remainder_padded (bytes : List UInt8) : remainder 8 (padded bytes) = [] := by
  rw [remainder, padded, length_resizeWith, Nat.mul_div_cancel _ (by decide)]
  exact List.drop_of_length_le (le_of_eq (length_resizeWith 0))

/-- The words lose nothing but the length of the padding. -/
theorem bytesOf_wordsOf (bytes : List UInt8) : (wordsOf bytes).flatMap bytesOf = padded bytes := by
  have chunks : ∀ parts : List (List UInt8), (∀ part ∈ parts, part.length = 8) →
      (parts.map wordOf).flatMap bytesOf = parts.flatten := by
    intro parts areWords
    induction parts with
    | nil => rfl
    | cons part parts ih =>
        rw [List.map_cons, List.flatMap_cons, List.flatten_cons,
          bytesOf_wordOf (areWords part List.mem_cons_self),
          ih fun other member => areWords other (List.mem_cons_of_mem _ member)]
  have isWhole := @flatten_chunksExact UInt8 8 (padded bytes)
  rw [remainder_padded, List.append_nil] at isWhole
  rw [wordsOf, chunks _ fun part => length_of_mem_chunksExact, isWhole]

end IceCap.Library
