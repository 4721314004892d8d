import IceCap.Library.LittleEndian
import IceCap.Ring.Buffer

/-!
# The packet ring buffer

`PacketRingBuffer`: every packet is a header, its length as a `u32`, and the
payload.  As in `RingBuffer`, what is loaded from the peer's control block is an
argument, one for each load.
-/

set_option autoImplicit false

namespace IceCap.Ring

open IceCap.Library

namespace PacketRingBuffer

def headerSize : Nat := 4

def packetSize (buf : List UInt8) : Nat := headerSize + buf.length

/-- `(n as u32).to_le_bytes()`, which keeps the lowest four bytes. -/
def serializeHeader (n : Nat) : List UInt8 := leBytes headerSize n

/-- The length of the next packet; the two loads are those of the two `poll_read`. -/
def poll (rb : RingBuffer) (src : List UInt8) (first second : Nat) : Option (Option Nat) := do
  let available ← rb.pollRead first
  if available < headerSize then some none
  else do
    let header ← rb.peek src headerSize
    let n := ofLeBytes header
    let available ← rb.pollRead second
    if wrappingSub available headerSize < n then some none else some (some n)

def readInto (rb : RingBuffer) (src : List UInt8) (n : Nat) : Option (List UInt8 × RingBuffer) :=
  (rb.skip headerSize).read src n

def read (rb : RingBuffer) (src : List UInt8) (first second : Nat) :
    Option (Option (List UInt8) × RingBuffer) := do
  let polled ← poll rb src first second
  match polled with
  | none => some (none, rb)
  | some n => do
      let (bytes, rb) ← readInto rb src n
      some (some bytes, rb)

def write (rb : RingBuffer) (dst : List UInt8) (offsetR : Nat) (buf : List UInt8) :
    Option (Bool × List UInt8 × RingBuffer) := do
  let available ← rb.pollWrite offsetR
  if available < packetSize buf then some (false, dst, rb)
  else do
    let (dst, rb) ← rb.write dst (serializeHeader buf.length)
    let (dst, rb) ← rb.write dst buf
    some (true, dst, rb)

section Results
variable {rb next : RingBuffer} {src dst bytes result : List UInt8}

/-- What a `write` that is not refused does. -/
theorem write_eq_true {offsetR : Nat} (isWritten : write rb dst offsetR bytes =
    some (true, result, next)) :
    ∃ n headed middle, rb.pollWrite offsetR = some n ∧ packetSize bytes ≤ n ∧
      rb.write dst (serializeHeader bytes.length) = some (headed, middle) ∧
      middle.write headed bytes = some (result, next) := by
  simp only [write, Option.bind_eq_bind] at isWritten
  obtain ⟨n, polled, isWritten⟩ := Option.bind_eq_some_iff.mp isWritten
  split at isWritten
  · simp at isWritten
  · next room =>
      obtain ⟨⟨headed, middle⟩, writesHeader, isWritten⟩ := Option.bind_eq_some_iff.mp isWritten
      obtain ⟨⟨last, final⟩, writesPayload, isWritten⟩ := Option.bind_eq_some_iff.mp isWritten
      obtain ⟨rfl, rfl⟩ : last = result ∧ final = next := by simpa using isWritten
      exact ⟨n, headed, middle, polled, Nat.le_of_not_lt room, writesHeader, writesPayload⟩

/-- A packet is announced when the first load shows a header and what the second load leaves
after it is no shorter than the header says. -/
theorem poll_eq_some_iff {first second n : Nat} :
    poll rb src first second = some (some n) ↔
      (∃ available, rb.pollRead first = some available ∧ headerSize ≤ available) ∧
      (∃ header, rb.peek src headerSize = some header ∧ ofLeBytes header = n) ∧
      ∃ available, rb.pollRead second = some available ∧ n ≤ wrappingSub available headerSize := by
  simp only [poll, Option.bind_eq_bind, Option.bind_eq_some_iff]
  constructor
  · rintro ⟨shown, isFirst, rest⟩
    split at rest
    · simp at rest
    · next hasHeader =>
        obtain ⟨header, isHeader, left, isSecond, rest⟩ := by
          simpa only [Option.bind_eq_some_iff] using rest
        split at rest
        · simp at rest
        · next fits =>
            obtain rfl : ofLeBytes header = n := by simpa using rest
            exact ⟨⟨shown, isFirst, Nat.le_of_not_lt hasHeader⟩, ⟨header, isHeader, rfl⟩, left,
              isSecond, Nat.le_of_not_lt fits⟩
  · rintro ⟨⟨shown, isFirst, enough⟩, ⟨header, isHeader, rfl⟩, left, isSecond, fits⟩
    refine ⟨shown, isFirst, ?_⟩
    rw [if_neg (Nat.not_lt.mpr enough), Option.bind_eq_some_iff]
    refine ⟨header, isHeader, Option.bind_eq_some_iff.mpr ⟨left, isSecond, ?_⟩⟩
    rw [if_neg (Nat.not_lt.mpr fits)]

/-- What a `read` that returns a packet does. -/
theorem read_eq_bytes {first second : Nat} :
    read rb src first second = some (some bytes, next) ↔
      ∃ n, poll rb src first second = some (some n) ∧
        (rb.skip headerSize).peek src n = some bytes ∧ (rb.skip headerSize).skip n = next := by
  simp only [read, Option.bind_eq_bind, Option.bind_eq_some_iff]
  constructor
  · intro reads
    obtain ⟨polled, isPolled, reads⟩ := reads
    cases polled with
    | none => simp at reads
    | some n =>
        refine ⟨n, isPolled, ?_⟩
        simp only [readInto, RingBuffer.read, Option.bind_eq_bind, Option.bind_eq_some_iff] at reads
        obtain ⟨⟨payload, final⟩, ⟨taken, takes, isTaken⟩, isRead⟩ := reads
        obtain ⟨rfl, rfl⟩ := Prod.mk.inj (Option.some.inj isTaken)
        obtain ⟨isBytes, isNext⟩ := Prod.mk.inj (Option.some.inj isRead)
        exact ⟨by rw [takes, isBytes], isNext⟩
  · intro reads
    obtain ⟨n, isPolled, takes, rfl⟩ := reads
    refine ⟨some n, isPolled, ?_⟩
    simp [readInto, RingBuffer.read, takes]

end Results

end PacketRingBuffer

end IceCap.Ring
