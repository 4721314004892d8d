import IceCap.Library.Circular

/-!
# The ring buffer

`RingBuffer` and its methods.  A method that looks at the peer's control block
takes the value it loads from there as an argument, for the peer may change it
between two loads.  Offsets are 64-bit words; the release profile has no
overflow checks, so sums and differences wrap around, and `debug_assert!` does
nothing.
-/

set_option autoImplicit false

namespace IceCap.Ring

open IceCap.Library

def usizeModulus : Nat := 2 ^ 64

def wrappingAdd (a b : Nat) : Nat := (a + b) % usizeModulus

def wrappingSub (a b : Nat) : Nat := (a + (usizeModulus - b)) % usizeModulus

theorem wrappingAdd_eq {a b : Nat} (less : a + b < usizeModulus) : wrappingAdd a b = a + b :=
  Nat.mod_eq_of_lt less

theorem wrappingSub_eq {a b : Nat} (le : b ≤ a) (less : a < usizeModulus) :
    wrappingSub a b = a - b := by
  have shifted : a + (usizeModulus - b) = a - b + usizeModulus := by omega
  rw [wrappingSub, shifted, Nat.add_mod_right]
  exact Nat.mod_eq_of_lt (by omega)

theorem wrappingSub_underflows {a b : Nat} (less : a < b) (le : b ≤ usizeModulus) :
    wrappingSub a b = usizeModulus - (b - a) := by
  rw [wrappingSub, Nat.mod_eq_of_lt (by omega)]
  omega

/-! ## Control blocks -/

inductive Status where
  | notifyRead
  | notifyWrite
  deriving DecidableEq, Repr

namespace Status

def offset : Status → Nat
  | notifyRead => 0
  | notifyWrite => 1

def read (field : Status) (status : BitVec 64) : Bool := status.getLsbD field.offset

def modify (field : Status) (value : Bool) (status : BitVec 64) : BitVec 64 :=
  (status &&& ~~~(1#64 <<< field.offset)) ||| ((if value then 1#64 else 0#64) <<< field.offset)

end Status

structure CtrlBlock where
  offsetR : Nat
  offsetW : Nat
  status : BitVec 64
  deriving DecidableEq, Repr

/-! ## The methods -/

structure RingBuffer where
  readSize : Nat
  writeSize : Nat
  privateOffsetR : Nat
  privateOffsetW : Nat
  deriving DecidableEq, Repr

namespace RingBuffer

def new (readSize writeSize : Nat) : RingBuffer := ⟨readSize, writeSize, 0, 0⟩

def pollRead (rb : RingBuffer) (offsetW : Nat) : Option Nat :=
  let offsetR := rb.privateOffsetR
  if offsetR ≤ offsetW ∧ offsetW - offsetR ≤ rb.readSize then some (offsetW - offsetR) else none

/-- The capacity left, less the one byte that is kept free.  A ring that looks exactly full makes
the last subtraction wrap around. -/
def pollWrite (rb : RingBuffer) (offsetR : Nat) : Option Nat :=
  let offsetW := rb.privateOffsetW
  if offsetR ≤ offsetW ∧ offsetW - offsetR ≤ rb.writeSize then
    some (max 0 (wrappingSub (rb.writeSize - (offsetW - offsetR)) 1))
  else none

def peek (rb : RingBuffer) (src : List UInt8) (n : Nat) : Option (List UInt8) :=
  let offset := rb.privateOffsetR % rb.readSize
  let n1 := rb.readSize - offset
  if n ≤ n1 then copyOut src offset n
  else do
    let first ← copyOut src offset n1
    let second ← copyOut src 0 (n - n1)
    some (first ++ second)

def skip (rb : RingBuffer) (n : Nat) : RingBuffer :=
  { rb with privateOffsetR := wrappingAdd rb.privateOffsetR n }

def read (rb : RingBuffer) (src : List UInt8) (n : Nat) : Option (List UInt8 × RingBuffer) := do
  let buf ← rb.peek src n
  some (buf, rb.skip n)

def write (rb : RingBuffer) (dst buf : List UInt8) : Option (List UInt8 × RingBuffer) := do
  let offset := rb.privateOffsetW % rb.writeSize
  let n1 := rb.writeSize - offset
  let n := buf.length
  let dst ←
    if n ≤ n1 then copyIn dst offset buf
    else do
      let dst ← copyIn dst offset (buf.take n1)
      copyIn dst 0 (buf.drop n1)
  some (dst, { rb with privateOffsetW := wrappingAdd rb.privateOffsetW n })

/-! ## Assertions that pass -/

theorem pollRead_eq_some {rb : RingBuffer} {offsetW n : Nat} :
    rb.pollRead offsetW = some n ↔ rb.privateOffsetR ≤ offsetW ∧
      offsetW - rb.privateOffsetR ≤ rb.readSize ∧ offsetW - rb.privateOffsetR = n := by
  simp only [pollRead]
  split
  · next passes => simp [passes]
  · next fails =>
      simp only [reduceCtorEq, false_iff]
      intro passes
      exact fails ⟨passes.1, passes.2.1⟩

/-! ## Which offsets they change -/

theorem write_offsets {rb next : RingBuffer} {dst buf result : List UInt8}
    (isWritten : rb.write dst buf = some (result, next)) :
    next = { rb with privateOffsetW := wrappingAdd rb.privateOffsetW buf.length } := by
  simp only [write, Option.bind_eq_bind] at isWritten
  split at isWritten
  · obtain ⟨_, _, isNext⟩ := Option.bind_eq_some_iff.mp isWritten
    rw [← (Prod.mk.inj (Option.some.inj isNext)).2]
  · obtain ⟨_, _, rest⟩ := Option.bind_eq_some_iff.mp isWritten
    obtain ⟨_, _, isNext⟩ := Option.bind_eq_some_iff.mp rest
    rw [← (Prod.mk.inj (Option.some.inj isNext)).2]

theorem read_offsets {rb next : RingBuffer} {src bytes : List UInt8} {n : Nat}
    (isRead : rb.read src n = some (bytes, next)) : next = rb.skip n := by
  simp only [read, Option.bind_eq_bind] at isRead
  obtain ⟨_, _, isNext⟩ := Option.bind_eq_some_iff.mp isRead
  exact (Prod.mk.inj (Option.some.inj isNext)).2.symm

/-! ## What they copy -/

section Copies
variable {rb : RingBuffer}

/-- A peek of no more than the buffer's size takes the bytes from the read offset on. -/
theorem peek_eq_some {src : List UInt8} {n : Nat} (sized : rb.readSize = src.length)
    (positive : 0 < src.length) (fits : n ≤ src.length) :
    ∃ bytes, rb.peek src n = some bytes ∧ bytes.length = n ∧
      ∀ k < n, bytes[k]? = src[(rb.privateOffsetR + k) % src.length]? := by
  have inside : rb.privateOffsetR % src.length < src.length := Nat.mod_lt _ positive
  simp only [peek, sized]
  split
  · next onePiece =>
      refine ⟨_, copyOut_eq_some (by omega), ?_, fun k less => ?_⟩
      · simp only [List.length_take, List.length_drop]
        omega
      · rw [place_add (by omega), if_pos (by omega), List.getElem?_take_of_lt less,
          List.getElem?_drop]
  · next twoPieces =>
      rw [copyOut_eq_some (by omega), copyOut_eq_some (by omega)]
      have firstLength : ((src.drop (rb.privateOffsetR % src.length)).take
          (src.length - rb.privateOffsetR % src.length)).length =
          src.length - rb.privateOffsetR % src.length := by
        simp only [List.length_take, List.length_drop]
        omega
      refine ⟨_, rfl, ?_, fun k less => ?_⟩
      · simp only [List.length_append, List.length_take, List.length_drop]
        omega
      · rw [place_add (by omega), List.getElem?_append, firstLength]
        by_cases before : k < src.length - rb.privateOffsetR % src.length
        · rw [if_pos before, if_pos (by omega), List.getElem?_take_of_lt before,
            List.getElem?_drop]
        · rw [if_neg before, if_neg (by omega), List.getElem?_take_of_lt (by omega),
            List.getElem?_drop]
          congr 1
          omega

/-- A write of no more than the buffer's size puts the bytes from the write offset on. -/
theorem write_eq_some {dst buf : List UInt8} (sized : rb.writeSize = dst.length)
    (positive : 0 < dst.length) (fits : buf.length ≤ dst.length) :
    ∃ result, rb.write dst buf = some (result,
        { rb with privateOffsetW := wrappingAdd rb.privateOffsetW buf.length }) ∧
      result.length = dst.length ∧
      (∀ k < buf.length, result[(rb.privateOffsetW + k) % dst.length]? = buf[k]?) ∧
      ∀ position, (∀ k < buf.length, position ≠ (rb.privateOffsetW + k) % dst.length) →
        result[position]? = dst[position]? := by
  have inside : rb.privateOffsetW % dst.length < dst.length := Nat.mod_lt _ positive
  simp only [write, sized]
  split
  · next onePiece =>
      have bounds : rb.privateOffsetW % dst.length + buf.length ≤ dst.length := by omega
      obtain ⟨result, copied⟩ := copyIn_isSome bounds
      refine ⟨result, by rw [copied]; rfl, copyIn_length copied, fun k less => ?_, ?_⟩
      · rw [place_add (by omega), if_pos (by omega), copyIn_getElem? copied, if_pos (by omega)]
        congr 1
        omega
      · intro position elsewhere
        rw [copyIn_getElem? copied, if_neg]
        rintro ⟨above, below⟩
        have less : position - rb.privateOffsetW % dst.length < buf.length := by omega
        apply elsewhere _ less
        rw [place_add (by omega), if_pos (by omega)]
        omega
  · next twoPieces =>
      have firstLength : (buf.take (dst.length - rb.privateOffsetW % dst.length)).length =
          dst.length - rb.privateOffsetW % dst.length := by
        rw [List.length_take]
        omega
      have secondLength : (buf.drop (dst.length - rb.privateOffsetW % dst.length)).length =
          buf.length - (dst.length - rb.privateOffsetW % dst.length) := List.length_drop
      obtain ⟨middle, firstCopied⟩ := copyIn_isSome (show rb.privateOffsetW % dst.length +
        (buf.take (dst.length - rb.privateOffsetW % dst.length)).length ≤ dst.length by omega)
      have middleLength := copyIn_length firstCopied
      obtain ⟨result, secondCopied⟩ := copyIn_isSome (show 0 +
        (buf.drop (dst.length - rb.privateOffsetW % dst.length)).length ≤ middle.length by omega)
      refine ⟨result, by rw [firstCopied]; simp only [Option.bind_some, secondCopied,
        Option.bind_eq_bind], by rw [copyIn_length secondCopied, middleLength], fun k less => ?_, ?_⟩
      · rw [place_add (by omega), copyIn_getElem? secondCopied, secondLength]
        by_cases before : rb.privateOffsetW % dst.length + k < dst.length
        · rw [if_pos before, if_neg (by omega), copyIn_getElem? firstCopied, firstLength,
            if_pos (by omega), List.getElem?_take_of_lt (by omega)]
          congr 1
          omega
        · rw [if_neg before, if_pos (by omega), List.getElem?_drop]
          congr 1
          omega
      · intro position elsewhere
        rw [copyIn_getElem? secondCopied, secondLength, if_neg, copyIn_getElem? firstCopied,
          firstLength, if_neg]
        · rintro ⟨above, below⟩
          have less : position - rb.privateOffsetW % dst.length < buf.length := by omega
          apply elsewhere _ less
          rw [place_add (by omega), if_pos (by omega)]
          omega
        · rintro ⟨_, below⟩
          have less : position + (dst.length - rb.privateOffsetW % dst.length) < buf.length := by
            omega
          apply elsewhere _ less
          rw [place_add (by omega), if_neg (by omega)]
          omega

/-- A write that returns puts the last bytes, as many as there is memory, from the write offset on. -/
theorem write_places {dst buf result : List UInt8} {next : RingBuffer}
    (sized : rb.writeSize = dst.length) (positive : 0 < dst.length)
    (isWritten : rb.write dst buf = some (result, next)) :
    result.length = dst.length ∧
      (∀ k < buf.length, buf.length ≤ k + dst.length →
        result[(rb.privateOffsetW + k) % dst.length]? = buf[k]?) ∧
      ∀ position, (∀ k < buf.length, position ≠ (rb.privateOffsetW + k) % dst.length) →
        result[position]? = dst[position]? := by
  by_cases fits : buf.length ≤ dst.length
  · obtain ⟨_, isSame, length, isPut, kept⟩ := write_eq_some sized positive fits
    obtain ⟨rfl, rfl⟩ := Prod.mk.inj (Option.some.inj (isSame.symm.trans isWritten))
    exact ⟨length, fun k less _ => isPut k less, kept⟩
  · -- the second part overwrites what there is of the first
    have inside : rb.privateOffsetW % dst.length < dst.length := Nat.mod_lt _ positive
    simp only [write, sized, Option.bind_eq_bind] at isWritten
    rw [if_neg (by omega)] at isWritten
    obtain ⟨middle, firstCopied, isWritten⟩ := Option.bind_eq_some_iff.mp isWritten
    obtain ⟨last, secondCopied, isResult⟩ := Option.bind_eq_some_iff.mp isWritten
    obtain ⟨rfl, _⟩ := Prod.mk.inj (Option.some.inj isResult)
    have middleLength := copyIn_length firstCopied
    have firstLength : (buf.take (dst.length - rb.privateOffsetW % dst.length)).length =
        dst.length - rb.privateOffsetW % dst.length := by
      rw [List.length_take]
      omega
    have secondLength : (buf.drop (dst.length - rb.privateOffsetW % dst.length)).length =
        buf.length - (dst.length - rb.privateOffsetW % dst.length) := List.length_drop
    have bounds : buf.length - (dst.length - rb.privateOffsetW % dst.length) ≤ dst.length := by
      have inMiddle := copyIn_inside secondCopied
      rwa [Nat.zero_add, secondLength, middleLength] at inMiddle
    have place : ∀ k, (rb.privateOffsetW + k) % dst.length =
        (rb.privateOffsetW % dst.length + k) % dst.length := fun k => (Nat.mod_add_mod _ _ _).symm
    refine ⟨by rw [copyIn_length secondCopied, middleLength], fun k less isLast => ?_, ?_⟩
    · rw [place]
      by_cases before : rb.privateOffsetW % dst.length + k < dst.length
      · rw [Nat.mod_eq_of_lt before, copyIn_getElem? secondCopied, secondLength, if_neg (by omega),
          copyIn_getElem? firstCopied, firstLength, if_pos (by omega), Nat.add_sub_cancel_left,
          List.getElem?_take_of_lt (by omega)]
      · rw [Nat.mod_eq_sub_mod (by omega), Nat.mod_eq_of_lt (by omega),
          copyIn_getElem? secondCopied, secondLength, if_pos (by omega), List.getElem?_drop]
        congr 1
        omega
    · intro position elsewhere
      -- all of the memory is written
      have isNone : dst[position]? = none := by
        rw [List.getElem?_eq_none_iff]
        by_contra within
        by_cases before : position < rb.privateOffsetW % dst.length
        · apply elsewhere (position + (dst.length - rb.privateOffsetW % dst.length)) (by omega)
          rw [place, Nat.mod_eq_sub_mod (by omega), Nat.mod_eq_of_lt (by omega)]
          omega
        · apply elsewhere (position - rb.privateOffsetW % dst.length) (by omega)
          rw [place, Nat.mod_eq_of_lt (by omega)]
          omega
      rw [isNone, List.getElem?_eq_none]
      rw [copyIn_length secondCopied, middleLength]
      exact List.getElem?_eq_none_iff.mp isNone

end Copies

/-! ## What the memory holds -/

/-- The memory has the last bytes of a stream that began at the offset `start`, each at its place in the
circle as long as the offsets do not wrap around, and the write offset is behind them. -/
structure Holds (rb : RingBuffer) (buf : List UInt8) (start : Nat) (stream : List UInt8) : Prop where
  sized : rb.writeSize = buf.length
  positive : 0 < buf.length
  offset : rb.privateOffsetW = (start + stream.length) % usizeModulus
  memory : start + stream.length < usizeModulus → ∀ i < stream.length,
    stream.length ≤ i + buf.length → buf[(start + i) % buf.length]? = stream[i]?

theorem Holds.empty {rb : RingBuffer} {buf : List UInt8} (sized : rb.writeSize = buf.length)
    (positive : 0 < buf.length) (isWord : rb.privateOffsetW < usizeModulus) :
    rb.Holds buf rb.privateOffsetW [] where
  sized := sized
  positive := positive
  offset := (Nat.mod_eq_of_lt isWord).symm
  memory := fun _ _ less => absurd less (Nat.not_lt_zero _)

theorem Holds.write {rb next : RingBuffer} {dst buf result stream : List UInt8} {start : Nat}
    (holds : rb.Holds dst start stream) (isWritten : rb.write dst buf = some (result, next)) :
    next.Holds result start (stream ++ buf) := by
  obtain ⟨length, isPut, kept⟩ := write_places holds.sized holds.positive isWritten
  obtain rfl := write_offsets isWritten
  refine ⟨holds.sized.trans length.symm, by rw [length]; exact holds.positive, ?_, ?_⟩
  · rw [wrappingAdd, holds.offset, Nat.mod_add_mod, List.length_append, Nat.add_assoc]
  · intro noWrap i isLess isLast
    rw [List.length_append] at noWrap isLess isLast
    have isOffset : rb.privateOffsetW = start + stream.length := by
      rw [holds.offset, Nat.mod_eq_of_lt (by omega)]
    rw [length] at isLast ⊢
    by_cases old : i < stream.length
    · rw [List.getElem?_append_left old, kept, holds.memory (by omega) i old (by omega)]
      intro k less
      rw [isOffset, Nat.add_assoc]
      exact Window.places_differ (by omega) (by omega)
    · obtain ⟨k, rfl⟩ := Nat.exists_eq_add_of_le (Nat.le_of_not_lt old)
      rw [List.getElem?_append_right (by omega), Nat.add_sub_cancel_left, ← isPut k (by omega)
        (by omega), isOffset, Nat.add_assoc]

end RingBuffer

end IceCap.Ring
