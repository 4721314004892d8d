import IceCap.Ring.Queued

/-!
# A hostile peer

The peer may store anything in its control block at any time, so that every load
from there is a new value.  The assertions of `poll_read` and `poll_write` guard
each load for itself.  They do not guard `PacketRingBuffer::poll`, which goes by
two loads together, and in `poll_write` they let through the one value for which
the ring looks full to the last byte.
-/

set_option autoImplicit false

namespace IceCap.Ring

open IceCap.Library

/-! ## Reading packets -/

namespace PacketRingBuffer

variable {rb : RingBuffer} {src : List UInt8} {first second : Nat}

/-- A packet that `poll` announces lies within the ring: its length is what is left after the
header, without an underflow, and `read` copies it out of the buffer, whatever that has by then. -/
def ReadsInside (rb : RingBuffer) (src : List UInt8) (first second : Nat) : Prop :=
  ∀ n, poll rb src first second = some (some n) →
    (∃ available, rb.pollRead second = some available ∧ headerSize ≤ available) ∧
    n + headerSize ≤ rb.readSize ∧
    ∀ payload : List UInt8, payload.length = rb.readSize → readInto rb payload n ≠ none

/-- The first load shows a header, and the second takes some of it back. -/
def TakesBack (rb : RingBuffer) (first second : Nat) : Prop :=
  (rb.privateOffsetR + headerSize ≤ first ∧ first ≤ rb.privateOffsetR + rb.readSize) ∧
    rb.privateOffsetR ≤ second ∧ second < rb.privateOffsetR + headerSize

/-- A header that has been loaded. -/
theorem peek_header (sized : rb.readSize = src.length) (large : headerSize ≤ src.length) :
    ∃ header, rb.peek src headerSize = some header ∧ ofLeBytes header < 2 ^ 32 := by
  have positive : 0 < headerSize := by decide
  obtain ⟨header, isHeader, length, _⟩ := RingBuffer.peek_eq_some sized (by omega) large
  refine ⟨header, isHeader, ?_⟩
  calc ofLeBytes header < 256 ^ header.length := ofLeBytes_lt header
    _ = 2 ^ 32 := by simp [length, headerSize]

/-- The packets that `poll` announces lie within the ring, unless the second load takes back what
the first has shown. -/
theorem readsInside_iff (sized : rb.readSize = src.length) (word : rb.readSize < usizeModulus) :
    ReadsInside rb src first second ↔ ¬ TakesBack rb first second := by
  constructor
  · intro inside takesBack
    obtain ⟨⟨shown, fits⟩, above, below⟩ := takesBack
    have isFirst : rb.pollRead first = some (first - rb.privateOffsetR) :=
      RingBuffer.pollRead_eq_some.mpr ⟨by omega, by omega, rfl⟩
    have isSecond : rb.pollRead second = some (second - rb.privateOffsetR) :=
      RingBuffer.pollRead_eq_some.mpr ⟨above, by omega, rfl⟩
    obtain ⟨header, isHeader, small⟩ := peek_header sized (by omega)
    -- What is left after the header has wrapped around, and every length passes.
    have wraps : ofLeBytes header ≤ wrappingSub (second - rb.privateOffsetR) headerSize := by
      have few : second - rb.privateOffsetR < headerSize := by omega
      have large : 2 ^ 32 + headerSize ≤ usizeModulus := by simp [headerSize, usizeModulus]
      rw [wrappingSub_underflows few (by omega)]
      omega
    have isPolled : poll rb src first second = some (some (ofLeBytes header)) :=
      poll_eq_some_iff.mpr ⟨⟨_, isFirst, by omega⟩, ⟨header, isHeader, rfl⟩, _, isSecond, wraps⟩
    obtain ⟨⟨available, isAvailable, enough⟩, _⟩ := inside _ isPolled
    obtain rfl := Option.some.inj (isSecond.symm.trans isAvailable)
    omega
  · intro keeps n isPolled
    obtain ⟨⟨shown, isFirst, hasHeader⟩, _, available, isSecond, fits⟩ :=
      poll_eq_some_iff.mp isPolled
    obtain ⟨firstAbove, firstFits, rfl⟩ := RingBuffer.pollRead_eq_some.mp isFirst
    obtain ⟨above, secondFits, rfl⟩ := RingBuffer.pollRead_eq_some.mp isSecond
    have enough : headerSize ≤ second - rb.privateOffsetR := by
      by_contra few
      exact keeps ⟨⟨by omega, by omega⟩, above, by omega⟩
    rw [wrappingSub_eq enough (by omega)] at fits
    refine ⟨⟨_, isSecond, enough⟩, by omega, fun payload length => ?_⟩
    have positive : 0 < headerSize := by decide
    obtain ⟨bytes, isPeeked, _⟩ := @RingBuffer.peek_eq_some (rb.skip headerSize) payload n length.symm
      (by omega) (by omega)
    simp [readInto, RingBuffer.read, isPeeked]

theorem readsInside_iff_shown :
    ReadsInside ⟨8, 8, 0, 0⟩ [1, 0, 0, 0, 7, 0, 0, 0] 5 5 ↔ ¬ TakesBack ⟨8, 8, 0, 0⟩ 5 5 :=
  readsInside_iff rfl (by decide)

/-- The header announces as many bytes as it can, and then the peer takes it back: `read` would
copy 4 GiB out of 8 bytes. -/
theorem poll_underflows :
    poll ⟨8, 8, 0, 0⟩ [255, 255, 255, 255, 0, 0, 0, 0] 4 0 = some (some (2 ^ 32 - 1)) ∧
      ¬ ReadsInside ⟨8, 8, 0, 0⟩ [255, 255, 255, 255, 0, 0, 0, 0] 4 0 := by
  have isPolled : poll ⟨8, 8, 0, 0⟩ [255, 255, 255, 255, 0, 0, 0, 0] 4 0 =
      some (some (2 ^ 32 - 1)) := by decide
  refine ⟨isPolled, fun inside => ?_⟩
  have fits := (inside _ isPolled).2.1
  revert fits
  decide

end PacketRingBuffer

/-! ## Writing -/

namespace Poll

/-- What `poll_write` returns if its assertions hold. -/
def available (size : Nat) (poll : Poll) : Option Nat :=
  RingBuffer.pollWrite ⟨0, size, 0, poll.offsetW⟩ poll.offsetR

/-- What is returned is the room that is left, without an underflow and hence below the size, and
no more than the size is copied on the strength of it. -/
def Fits (size : Nat) (poll : Poll) : Prop :=
  (∀ n, poll.available size = some n → n + 1 + (poll.offsetW - poll.offsetR) = size) ∧
    poll.copied.length ≤ size

/-- The ring looks full to the last byte, the one that is always kept free. -/
def ExactlyFull (size : Nat) (poll : Poll) : Prop := poll.offsetR + size = poll.offsetW

variable {size : Nat} {poll : Poll}

theorem available_eq_some {n : Nat} : poll.available size = some n ↔
    poll.offsetR ≤ poll.offsetW ∧ poll.offsetW - poll.offsetR ≤ size ∧
      wrappingSub (size - (poll.offsetW - poll.offsetR)) 1 = n := by
  simp only [available, RingBuffer.pollWrite, Nat.zero_max]
  split
  · next passes => simp [passes]
  · next fails =>
      simp only [reduceCtorEq, false_iff]
      intro passes
      exact fails ⟨passes.1, passes.2.1⟩

theorem available_eq (word : size < usizeModulus) (notFull : ¬ poll.ExactlyFull size) {n : Nat}
    (isAvailable : poll.available size = some n) :
    n + 1 + (poll.offsetW - poll.offsetR) = size := by
  obtain ⟨above, fits, rfl⟩ := available_eq_some.mp isAvailable
  unfold ExactlyFull at notFull
  rw [wrappingSub_eq (by omega) (by omega)]
  omega

/-- The subtraction of the byte that is kept free wraps around. -/
theorem not_fits_of_exactlyFull (full : poll.ExactlyFull size) :
    ¬ poll.Fits size := by
  intro fits
  unfold ExactlyFull at full
  have isAvailable : poll.available size = some (wrappingSub 0 1) :=
    available_eq_some.mpr ⟨by omega, by omega, by congr 1; omega⟩
  have room := fits.1 _ isAvailable
  rw [wrappingSub_underflows Nat.zero_lt_one (by decide)] at room
  omega

end Poll

namespace Sender

/-- After every poll that did not find the ring exactly full, less than its size is copied. -/
structure Careful (size : Nat) (sender : Sender) : Prop where
  sized : sender.rb.writeSize = size
  polls : ∀ poll ∈ sender.polls, ¬ poll.ExactlyFull size → poll.copied.length < size

/-- The last poll was the one before, and it still allows a number of bytes. -/
structure HasRoom (size room : Nat) (last : Poll) (earlier : List Poll) (sender : Sender) : Prop where
  sized : sender.rb.writeSize = size
  isLast : sender.polls = last :: earlier
  room : ¬ last.ExactlyFull size → last.copied.length + room < size
  earlier : ∀ poll ∈ earlier, ¬ poll.ExactlyFull size → poll.copied.length < size

section Copies
variable {size room : Nat} {last : Poll} {earlier : List Poll} {before after : Sender}

theorem HasRoom.careful (hasRoom : HasRoom size room last earlier after) : Careful size after := by
  refine ⟨hasRoom.sized, fun poll member notFull => ?_⟩
  rw [hasRoom.isLast] at member
  rcases List.mem_cons.mp member with rfl | member
  · exact Nat.lt_of_le_of_lt (Nat.le_add_right _ room) (hasRoom.room notFull)
  · exact hasRoom.earlier poll member notFull

theorem Careful.polled (positive : 0 < size) (careful : Careful size before) :
    Careful size before.polled := by
  refine ⟨careful.sized, fun poll member notFull => ?_⟩
  rcases List.mem_cons.mp member with rfl | member
  · exact positive
  · exact careful.polls poll member notFull

theorem Careful.hasRoom {n : Nat} (word : size < usizeModulus) (careful : Careful size before)
    (run : pollWrite before = .ok n after) :
    ∃ last, HasRoom size n last before.polls after := by
  obtain ⟨isPolled, rfl⟩ := pollWrite_eq_ok.mp run
  refine ⟨_, careful.sized, rfl, fun notFull => ?_, careful.polls⟩
  have isAvailable : Poll.available size
      ⟨before.rb.privateOffsetW, (before.peer before.loads).offsetR, []⟩ = some n := by
    rw [← careful.sized]
    exact isPolled
  have exact := Poll.available_eq word notFull isAvailable
  simp only [List.length_nil]
  omega

theorem HasRoom.write {bytes : List UInt8} (hasRoom : HasRoom size room last earlier before)
    (fits : bytes.length ≤ room) (run : Exec.Ends (write bytes) before after) :
    HasRoom size (room - bytes.length) { last with copied := last.copied ++ bytes } earlier after := by
  obtain ⟨isNoted, sameSize⟩ := ends_write run
  refine ⟨sameSize.trans hasRoom.sized, ?_, fun notFull => ?_, hasRoom.earlier⟩
  · rw [isNoted, hasRoom.isLast]
    rfl
  · have below := hasRoom.room notFull
    simp only [List.length_append]
    omega

theorem Careful.ofRing : OfRing (Careful size) := by
  intro first second same careful
  have sameRb : first.rb = second.rb := congrArg (fun ring => ring.1) same
  have samePolls : first.polls = second.polls := congrArg (fun ring => ring.2.2.1) same
  exact ⟨sameRb ▸ careful.sized, samePolls ▸ careful.polls⟩

/-- The check that both attempts begin with. -/
theorem attempt_careful {need : Nat} {body : Exec Fault Sender Bool} (positive : 0 < size)
    (word : size < usizeModulus)
    (careful : ∀ {room last earlier before after}, HasRoom size room last earlier before →
      need ≤ room → Exec.Ends body before after → Careful size after) :
    Exec.Maintains (Careful size) (do
      let n ← pollWrite
      if n < need then pure false else body) := by
  intro before after run carefulBefore
  rcases Exec.ends_bind.mp run with failed | ⟨n, middle, isPolled, rest⟩
  · rw [← ends_pollWrite (.inr failed)]
    exact carefulBefore.polled positive
  obtain ⟨last, hasRoom⟩ := carefulBefore.hasRoom word isPolled
  split at rest
  · rw [← Exec.ends_pure.mp rest]
    exact hasRoom.careful
  · next fits => exact careful hasRoom (Nat.le_of_not_lt fits) rest

/-- The note that both attempts end with. -/
theorem noteSent_maintains {invariant : Sender → Prop} (buf : List UInt8)
    (keeps : ∀ sender sent, invariant sender → invariant { sender with sent := sent }) :
    Exec.Maintains invariant (do
      noteSent buf
      pure true) := by
  refine Exec.Maintains.bind (.modify ?_) fun _ => .of_spares (.pure _)
  exact fun sender holds => keeps sender (sender.sent ++ [buf]) holds

theorem sent_careful (buf : List UInt8) : Exec.Maintains (Careful size) (do
    noteSent buf
    pure true) :=
  noteSent_maintains buf fun _ _ careful => ⟨careful.sized, careful.polls⟩

theorem writeWhole_careful (positive : 0 < size) (word : size < usizeModulus) (buf : List UInt8) :
    Exec.Maintains (Careful size) (writeWhole buf) := by
  apply attempt_careful positive word
  intro room last earlier before after hasRoom fits run
  rcases Exec.ends_bind.mp run with failed | ⟨_, middle, isWritten, rest⟩
  · exact (hasRoom.write fits (.inr failed)).careful
  · exact sent_careful buf _ _ rest (hasRoom.write fits (.inl ⟨_, isWritten⟩)).careful

theorem writePacket_careful (positive : 0 < size) (word : size < usizeModulus) (buf : List UInt8) :
    Exec.Maintains (Careful size) (writePacket buf) := by
  apply attempt_careful positive word
  intro room last earlier before after hasRoom fits run
  have isHeader : (PacketRingBuffer.serializeHeader buf.length).length =
      PacketRingBuffer.headerSize := length_leBytes _ _
  unfold PacketRingBuffer.packetSize at fits
  rcases Exec.ends_bind.mp run with failed | ⟨_, middle, isWritten, rest⟩
  · exact (hasRoom.write (by omega) (.inr failed)).careful
  have roomLeft := hasRoom.write (by omega) (.inl ⟨_, isWritten⟩)
  rcases Exec.ends_bind.mp rest with failed | ⟨_, last, isWritten, rest⟩
  · exact (roomLeft.write (by omega) (.inr failed)).careful
  · exact sent_careful buf _ _ rest (roomLeft.write (by omega) (.inl ⟨_, isWritten⟩)).careful

end Copies

/-- The calls that go by `poll_write`. -/
inductive Polls : {α : Type} → Exec Fault Sender α → Prop where
  | pollWrite : Polls pollWrite
  | flushTx : Polls Buffered.flushTx
  | txCallback : Polls Buffered.txCallback
  | tx (buf : List UInt8) : Polls (Buffered.tx buf)
  | packet (buf : List UInt8) : Polls (writePacket buf)
  | packetFlushTx : Polls BufferedPacket.flushTx
  | packetTxCallback : Polls BufferedPacket.txCallback
  | packetTx (buf : List UInt8) : Polls (BufferedPacket.tx buf)

theorem Polls.maintains {α : Type} {call : Exec Fault Sender α} {invariant : Sender → Prop}
    (polls : Polls call) (ofRing : OfRing invariant)
    (polled : ∀ sender, invariant sender → invariant sender.polled)
    (whole : ∀ buf, Exec.Maintains invariant (writeWhole buf))
    (packet : ∀ buf, Exec.Maintains invariant (writePacket buf)) :
    Exec.Maintains invariant call := by
  cases polls with
  | pollWrite =>
      intro before after run holds
      rw [← ends_pollWrite run]
      exact polled before holds
  | flushTx => exact flush_maintains ofRing whole
  | txCallback => exact flushAndNotify_maintains ofRing whole
  | tx buf => exact flushAndPass_maintains ofRing whole buf
  | packet buf => exact packet buf
  | packetFlushTx => exact flush_maintains ofRing packet
  | packetTxCallback => exact flushAndNotify_maintains ofRing packet
  | packetTx buf => exact flushAndPass_maintains ofRing packet buf

theorem Polls.careful {α : Type} {size : Nat} {call : Exec Fault Sender α} (polls : Polls call)
    (positive : 0 < size) (word : size < usizeModulus) : Exec.Maintains (Careful size) call :=
  polls.maintains Careful.ofRing (fun _ careful => careful.polled positive)
    (writeWhole_careful positive word) (writePacket_careful positive word)

/-! ## What is copied is in the memory -/

/-- The memory holds what has been copied, unless more than the size was to be copied after one poll. -/
def Tracked (start : Nat) (sender : Sender) : Prop :=
  sender.rb.Holds sender.buf start sender.copied ∨
    ∃ poll ∈ sender.polls, sender.rb.writeSize < poll.copied.length

section Tracked
variable {start : Nat} {before after : Sender}

theorem Tracked.ofRing : OfRing (Tracked start) := by
  intro first second same tracked
  simp only [ringSide, Prod.mk.injEq] at same
  obtain ⟨sameRb, sameBuf, samePolls, _⟩ := same
  unfold Tracked copied at tracked ⊢
  rwa [sameRb, sameBuf, samePolls] at tracked

theorem Tracked.polled (tracked : Tracked start before) : Tracked start before.polled := by
  rcases tracked with holds | ⟨poll, member, tooMuch⟩
  · refine .inl ?_
    rw [copied_polled]
    exact holds
  · exact .inr ⟨poll, List.mem_cons_of_mem _ member, tooMuch⟩

/-- Only a copy that is longer than the memory fails. -/
theorem write_fails {bytes : List UInt8} {error : Fault}
    (holds : before.rb.Holds before.buf start before.copied)
    (run : write bytes before = .err error after) : before.rb.writeSize < bytes.length := by
  by_contra fits
  rw [holds.sized, Nat.not_lt] at fits
  obtain ⟨result, isWritten, _⟩ := RingBuffer.write_eq_some holds.sized holds.positive fits
  rw [write_eq, isWritten] at run
  simp at run

theorem Tracked.write {bytes : List UInt8} (notNil : before.polls ≠ [])
    (tracked : Tracked start before) (run : Exec.Ends (write bytes) before after) :
    Tracked start after ∧ after.polls ≠ [] := by
  obtain ⟨isNoted, sameSize⟩ := ends_write run
  obtain ⟨last, earlier, isPolls⟩ := List.exists_cons_of_ne_nil notNil
  rw [isPolls, noteCopied] at isNoted
  refine ⟨?_, by simp [isNoted]⟩
  rcases tracked with holds | ⟨poll, member, tooMuch⟩
  · rcases run with ⟨⟨⟩, run⟩ | ⟨error, run⟩
    · obtain ⟨isCopied, _, _, _, isWritten⟩ := write_copied notNil run
      rw [Tracked, isCopied]
      exact .inl (holds.write isWritten)
    · have tooMuch := write_fails holds run
      refine .inr ⟨_, isNoted ▸ List.mem_cons_self, ?_⟩
      rw [sameSize, List.length_append]
      omega
  · rw [isPolls] at member
    rcases List.mem_cons.mp member with rfl | member
    · refine .inr ⟨_, isNoted ▸ List.mem_cons_self, ?_⟩
      rw [sameSize, List.length_append]
      omega
    · exact .inr ⟨poll, isNoted ▸ List.mem_cons_of_mem _ member, sameSize ▸ tooMuch⟩

theorem attempt_tracked {need : Nat} {body : Exec Fault Sender Bool}
    (tracked : ∀ {before after : Sender}, before.polls ≠ [] → Tracked start before →
      Exec.Ends body before after → Tracked start after) :
    Exec.Maintains (Tracked start) (do
      let n ← pollWrite
      if n < need then pure false else body) := by
  intro before after run trackedBefore
  rcases Exec.ends_bind.mp run with failed | ⟨n, middle, isPolled, rest⟩
  · rw [← ends_pollWrite (.inr failed)]
    exact trackedBefore.polled
  · obtain ⟨_, rfl⟩ := pollWrite_eq_ok.mp isPolled
    split at rest
    · rw [← Exec.ends_pure.mp rest]
      exact trackedBefore.polled
    · exact tracked (List.cons_ne_nil _ _) trackedBefore.polled rest

theorem sent_tracked (buf : List UInt8) : Exec.Maintains (Tracked start) (do
    noteSent buf
    pure true) :=
  noteSent_maintains buf fun _ _ tracked => tracked

theorem writeWhole_tracked (buf : List UInt8) : Exec.Maintains (Tracked start) (writeWhole buf) := by
  apply attempt_tracked
  intro before after notNil tracked run
  rcases Exec.ends_bind.mp run with failed | ⟨_, middle, isWritten, rest⟩
  · exact (tracked.write notNil (.inr failed)).1
  · exact sent_tracked buf _ _ rest (tracked.write notNil (.inl ⟨_, isWritten⟩)).1

theorem writePacket_tracked (buf : List UInt8) : Exec.Maintains (Tracked start) (writePacket buf) := by
  apply attempt_tracked
  intro before after notNil tracked run
  rcases Exec.ends_bind.mp run with failed | ⟨_, middle, isWritten, rest⟩
  · exact (tracked.write notNil (.inr failed)).1
  obtain ⟨tracked, notNil⟩ := tracked.write notNil (.inl ⟨_, isWritten⟩)
  rcases Exec.ends_bind.mp rest with failed | ⟨_, last, isWritten, rest⟩
  · exact (tracked.write notNil (.inr failed)).1
  · exact sent_tracked buf _ _ rest (tracked.write notNil (.inl ⟨_, isWritten⟩)).1

/-- As long as no more than the size is copied after each poll, the memory holds what is copied. -/
theorem Polls.holds {α : Type} {call : Exec Fault Sender α} (polls : Polls call)
    (sized : before.rb.writeSize = before.buf.length) (positive : 0 < before.buf.length)
    (isWord : before.rb.privateOffsetW < usizeModulus)
    (run : Exec.Ends call { before with polls := [] } after)
    (fits : ∀ poll ∈ after.polls, poll.copied.length ≤ after.rb.writeSize) :
    after.rb.Holds after.buf before.rb.privateOffsetW after.copied := by
  have tracked : Tracked before.rb.privateOffsetW after :=
    polls.maintains Tracked.ofRing (fun _ tracked => tracked.polled) writeWhole_tracked
      writePacket_tracked _ _ run (.inl (RingBuffer.Holds.empty sized positive isWord))
  rcases tracked with holds | ⟨poll, member, tooMuch⟩
  · exact holds
  · exact absurd (fits poll member) (Nat.not_le.mpr tooMuch)

end Tracked

/-- However a call ends, and whatever the peer stores meanwhile: the polls it makes return what is
left, and no more than the size is copied after each, exactly when none of them finds the ring full
to the last byte.  Then the memory holds what is copied. -/
theorem polls_fit_iff {α : Type} {call : Exec Fault Sender α} {before after : Sender}
    (polls : Polls call) (positive : 0 < before.rb.writeSize)
    (word : before.rb.writeSize < usizeModulus)
    (run : Exec.Ends call { before with polls := [] } after) :
    ((∀ poll ∈ after.polls, poll.Fits before.rb.writeSize) ↔
      ∀ poll ∈ after.polls, ¬ poll.ExactlyFull before.rb.writeSize) ∧
    (before.rb.writeSize = before.buf.length → before.rb.privateOffsetW < usizeModulus →
      (∀ poll ∈ after.polls, poll.Fits before.rb.writeSize) →
        after.rb.Holds after.buf before.rb.privateOffsetW after.copied) := by
  have careful := polls.careful positive word _ _ run ⟨rfl, by simp⟩
  refine ⟨?_, fun sized isWord fits => polls.holds sized (sized ▸ positive) isWord run
    fun poll member => careful.sized.symm ▸ (fits poll member).2⟩
  constructor
  · intro fits poll member full
    exact Poll.not_fits_of_exactlyFull full (fits poll member)
  · intro notFull poll member
    exact ⟨fun n => Poll.available_eq word (notFull poll member),
      Nat.le_of_lt (careful.polls poll member (notFull poll member))⟩

/-- Over a buffer of four bytes, with as many written; the loads find one value. -/
def fourWritten (offsetR : Nat) : Sender := {
  rb := ⟨4, 4, 0, 4⟩
  buf := [0, 0, 0, 0]
  ctrl := ⟨0, 4, 0⟩
  q := []
  kicks := 0
  peer := fun _ => ⟨offsetR, 0, 0⟩
  loads := 0
  polls := []
  sent := [] }

theorem polls_fit_iff_fourWritten : ∃ after, Exec.Ends (Buffered.tx [7]) (fourWritten 3) after ∧
    after.polls = [⟨4, 3, [7]⟩] ∧
    ((∀ poll ∈ after.polls, poll.Fits 4) ↔ ∀ poll ∈ after.polls, ¬ poll.ExactlyFull 4) ∧
    after.rb.Holds after.buf 4 [7] := by
  have run : ∃ after, Exec.Ends (Buffered.tx [7]) (fourWritten 3) after ∧
      after.polls = [⟨4, 3, [7]⟩] := ⟨_, .inl ⟨true, rfl⟩, rfl⟩
  obtain ⟨after, ends, isPolls⟩ := run
  have positive : 0 < (fourWritten 3).rb.writeSize := by decide
  obtain ⟨fits, holds⟩ := polls_fit_iff (.tx [7]) positive (by decide) ends
  have notFull : ∀ poll ∈ after.polls, ¬ poll.ExactlyFull 4 := by
    intro poll member
    rw [isPolls, List.mem_singleton] at member
    rw [member, Poll.ExactlyFull]
    decide
  have isHeld := holds rfl (by decide) (fits.mpr notFull)
  rw [copied, isPolls] at isHeld
  exact ⟨after, ends, isPolls, fits, isHeld⟩

def nineBytes : List UInt8 := [1, 2, 3, 4, 5, 6, 7, 8, 9]

/-- The peer takes back what it has shown as read, so that every buffer seems to fit, and the copy
goes beyond the end. -/
theorem exactly_full_underflows : ∃ after,
    Buffered.tx nineBytes (fourWritten 0) = .err .outOfBounds after ∧
    after.polls = [⟨4, 0, nineBytes⟩] ∧ Poll.available 4 ⟨4, 0, []⟩ = some (2 ^ 64 - 1) ∧
    ¬ ∀ poll ∈ after.polls, poll.Fits 4 := by
  have run : ∃ after, Buffered.tx nineBytes (fourWritten 0) = .err .outOfBounds after ∧
      after.polls = [⟨4, 0, nineBytes⟩] := ⟨_, rfl, rfl⟩
  obtain ⟨after, isErr, isPolls⟩ := run
  refine ⟨after, isErr, isPolls, by decide, fun fits => ?_⟩
  have copied := (fits ⟨4, 0, nineBytes⟩ (by simp [isPolls])).2
  revert copied
  decide

end Sender

end IceCap.Ring
