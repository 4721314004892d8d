import IceCap.Ring.Queued

/-!
# Queues in front of a drained ring

When the peer has consumed all that was written, the ring has room for all but
one of its bytes.  A buffer that is longer stays at the front of the queue, and
all others behind it.
-/

set_option autoImplicit false

namespace IceCap.Ring

open IceCap.Library
open PacketRingBuffer (headerSize packetSize serializeHeader)

/-- A write changes no size. -/
theorem RingBuffer.write_length {rb next : RingBuffer} {dst bytes result : List UInt8}
    (isWritten : rb.write dst bytes = some (result, next)) : result.length = dst.length := by
  simp only [write, Option.bind_eq_bind] at isWritten
  split at isWritten
  · obtain ⟨copied, isCopied, isResult⟩ := Option.bind_eq_some_iff.mp isWritten
    rw [← (Prod.mk.inj (Option.some.inj isResult)).1]
    exact copyIn_length isCopied
  · obtain ⟨first, isFirst, rest⟩ := Option.bind_eq_some_iff.mp isWritten
    obtain ⟨second, isSecond, isResult⟩ := Option.bind_eq_some_iff.mp rest
    rw [← (Prod.mk.inj (Option.some.inj isResult)).1, copyIn_length isSecond]
    exact copyIn_length isFirst

namespace Sender

/-- The ring and its buffer have the size they were made with. -/
structure Sized (size : Nat) (sender : Sender) : Prop where
  ring : sender.rb.writeSize = size
  buf : sender.buf.length = size

/-- What the next load finds is that the peer has consumed everything. -/
def PeerDone (sender : Sender) : Prop :=
  (sender.peer sender.loads).offsetR = sender.rb.privateOffsetW

section Attempts
variable {size : Nat} {before after : Sender}

theorem Sized.ofRing : OfRing (Sized size) := by
  intro first second same sized
  have sameRb : first.rb = second.rb := congrArg (fun ring => ring.1) same
  have sameBuf : first.buf = second.buf := congrArg (fun ring => ring.2.1) same
  exact ⟨sameRb ▸ sized.ring, sameBuf ▸ sized.buf⟩

theorem pollWrite_sized : Exec.Maintains (Sized size) pollWrite := by
  intro before after run sized
  rw [← ends_pollWrite run]
  exact ⟨sized.ring, sized.buf⟩

/-- However a write ends, it has changed the ring, the buffer and the record only. -/
theorem ends_write_sized {bytes : List UInt8} (run : Exec.Ends (write bytes) before after) :
    ∃ rb buf, rb.writeSize = before.rb.writeSize ∧ buf.length = before.buf.length ∧
      after = { before with polls := noteCopied bytes before.polls, rb := rb, buf := buf } := by
  have sameSize := (ends_write run).2
  unfold Exec.Ends at run
  rw [write_eq] at run
  cases isWritten : before.rb.write before.buf bytes with
  | none =>
      simp [isWritten] at run
      exact ⟨before.rb, before.buf, rfl, rfl, run.symm⟩
  | some result =>
      simp [isWritten] at run
      refine ⟨result.2, result.1, ?_, RingBuffer.write_length isWritten, run.symm⟩
      rw [← run] at sameSize
      exact sameSize

theorem write_sized (bytes : List UInt8) : Exec.Maintains (Sized size) (write bytes) := by
  intro before after run sized
  obtain ⟨rb, buf, sameSize, sameLength, rfl⟩ := ends_write_sized run
  exact ⟨sameSize.trans sized.ring, sameLength.trans sized.buf⟩

theorem sent_sized (buf : List UInt8) : Exec.Maintains (Sized size) (do
    noteSent buf
    pure true) := by
  refine Exec.Maintains.bind (.modify ?_) fun _ => .of_spares (.pure _)
  exact fun _ sized => ⟨sized.ring, sized.buf⟩

theorem writeWhole_sized (buf : List UInt8) : Exec.Maintains (Sized size) (writeWhole buf) :=
  pollWrite_sized.bind fun _ => .ite (.of_spares (.pure _))
    ((write_sized _).bind fun _ => sent_sized _)

theorem writePacket_sized (buf : List UInt8) : Exec.Maintains (Sized size) (writePacket buf) :=
  pollWrite_sized.bind fun _ => .ite (.of_spares (.pure _))
    ((write_sized _).bind fun _ => (write_sized _).bind fun _ => sent_sized _)

/-- All but one byte is left. -/
theorem pollWrite_peerDone (sized : Sized size before) (positive : 0 < size)
    (word : size < usizeModulus) (peerDone : PeerDone before) :
    pollWrite before = .ok (size - 1) before.polled := by
  refine pollWrite_eq_ok.mpr ⟨?_, rfl⟩
  rw [peerDone, RingBuffer.pollWrite, if_pos ⟨Nat.le_refl _, by simp⟩, Nat.sub_self, Nat.sub_zero,
    sized.ring, Nat.zero_max, wrappingSub_eq positive word]

theorem write_fits {bytes : List UInt8} (sized : Sized size before) (positive : 0 < size)
    (fits : bytes.length ≤ size) : ∃ after, write bytes before = .ok () after := by
  obtain ⟨result, isWritten, _⟩ := @RingBuffer.write_eq_some before.rb before.buf bytes
    (sized.ring.trans sized.buf.symm) (by rwa [sized.buf]) (by rwa [sized.buf])
  rw [write_eq, isWritten]
  exact ⟨_, rfl⟩

theorem write_total (bytes : List UInt8) (sender : Sender) : write bytes sender ≠ .panic := by
  rw [write_eq]
  cases sender.rb.write sender.buf bytes <;> simp

theorem pollWrite_total (sender : Sender) : pollWrite sender ≠ .panic := by
  rw [pollWrite_eq]
  cases sender.rb.pollWrite (sender.peer sender.loads).offsetR <;> simp

end Attempts

/-- Over a drained ring, an attempt takes the buffers that need less than its size. -/
structure TakesBelow (attempt : List UInt8 → Exec Fault Sender Bool) (need : List UInt8 → Nat)
    (size : Nat) : Prop where
  sized : ∀ buf, Exec.Maintains (Sized size) (attempt buf)
  keepsQ : ∀ buf, Exec.Spares Sender.q (attempt buf)
  total : ∀ buf before, attempt buf before ≠ .panic
  takes : ∀ buf before, Sized size before → PeerDone before → need buf < size →
    ∃ after, attempt buf before = .ok true after
  refuses : ∀ buf before, Sized size before → PeerDone before → size ≤ need buf →
    ∃ after, attempt buf before = .ok false after

section Takes
variable {size : Nat} {bytes buf : List UInt8}

theorem pollWrite_keepsQ : Exec.Spares Sender.q pollWrite := by
  intro before after run
  rw [← ends_pollWrite run]
  rfl

theorem write_keepsQ : Exec.Spares Sender.q (write bytes) := by
  intro before after run
  obtain ⟨rb, buf, _, _, rfl⟩ := ends_write_sized run
  rfl

theorem sent_keepsQ : Exec.Spares Sender.q (do
    noteSent buf
    pure true) := by
  refine Exec.Spares.bind (.modify ?_) fun _ => .pure _
  exact fun _ => rfl

/-- A whole buffer has to fit. -/
theorem writeWhole_takesBelow (positive : 0 < size) (word : size < usizeModulus) :
    TakesBelow writeWhole List.length size where
  sized := writeWhole_sized
  keepsQ _ := pollWrite_keepsQ.bind fun _ => .ite (.pure _) (write_keepsQ.bind fun _ => sent_keepsQ)
  total buf before panics := by
    rcases Exec.bind_eq_panic.mp panics with polls | ⟨n, middle, _, panics⟩
    · exact pollWrite_total _ polls
    · split at panics
      · simp at panics
      · rcases Exec.bind_eq_panic.mp panics with writes | ⟨_, _, _, panics⟩
        · exact write_total _ _ writes
        · simp [noteSent, Exec.bind_eq_panic] at panics
  takes buf before sized peerDone needs := by
    have polls := pollWrite_peerDone sized positive word peerDone
    obtain ⟨after, writes⟩ := @write_fits size before.polled buf ⟨sized.ring, sized.buf⟩ positive
      (Nat.le_of_lt needs)
    have fits : ¬ size - 1 < buf.length := by omega
    rw [writeWhole, Exec.bind_of_ok polls, if_neg fits, Exec.bind_of_ok writes]
    exact ⟨_, rfl⟩
  refuses buf before sized peerDone needs := by
    have polls := pollWrite_peerDone sized positive word peerDone
    have outside : size - 1 < buf.length := by omega
    rw [writeWhole, Exec.bind_of_ok polls, if_pos outside]
    exact ⟨_, rfl⟩

/-- A packet has to fit with its header. -/
theorem writePacket_takesBelow (positive : 0 < size) (word : size < usizeModulus) :
    TakesBelow writePacket packetSize size where
  sized := writePacket_sized
  keepsQ _ := pollWrite_keepsQ.bind fun _ => .ite (.pure _)
    (write_keepsQ.bind fun _ => write_keepsQ.bind fun _ => sent_keepsQ)
  total buf before panics := by
    rcases Exec.bind_eq_panic.mp panics with polls | ⟨n, middle, _, panics⟩
    · exact pollWrite_total _ polls
    · split at panics
      · simp at panics
      · rcases Exec.bind_eq_panic.mp panics with writes | ⟨_, _, _, panics⟩
        · exact write_total _ _ writes
        · rcases Exec.bind_eq_panic.mp panics with writes | ⟨_, _, _, panics⟩
          · exact write_total _ _ writes
          · simp [noteSent, Exec.bind_eq_panic] at panics
  takes buf before sized peerDone needs := by
    have polls := pollWrite_peerDone sized positive word peerDone
    have isHeader : (serializeHeader buf.length).length = headerSize := length_leBytes _ _
    have isNeed : packetSize buf = headerSize + buf.length := rfl
    obtain ⟨headed, heads⟩ := @write_fits size before.polled (serializeHeader buf.length)
      ⟨sized.ring, sized.buf⟩ positive (by omega)
    obtain ⟨after, writes⟩ := @write_fits size headed buf
      (write_sized _ _ _ (.inl ⟨_, heads⟩) ⟨sized.ring, sized.buf⟩) positive (by omega)
    have fits : ¬ size - 1 < packetSize buf := by omega
    rw [writePacket, Exec.bind_of_ok polls, if_neg fits, Exec.bind_of_ok heads,
      Exec.bind_of_ok writes]
    exact ⟨_, rfl⟩
  refuses buf before sized peerDone needs := by
    have polls := pollWrite_peerDone sized positive word peerDone
    have outside : size - 1 < packetSize buf := by omega
    rw [writePacket, Exec.bind_of_ok polls, if_pos outside]
    exact ⟨_, rfl⟩

end Takes

/-! ## Progress -/

/-- However a flush ends, at least one buffer has left the queue. -/
def Progresses (attempt : List UInt8 → Exec Fault Sender Bool) (before : Sender) : Prop :=
  (∃ after, Exec.Ends (flush attempt) before after) ∧
    ∀ after, Exec.Ends (flush attempt) before after → after.q.length < before.q.length

section Progress
variable {attempt : List UInt8 → Exec Fault Sender Bool} {need : List UInt8 → Nat} {size : Nat}
  {before : Sender}

theorem flushFrom_total (total : ∀ buf sender, attempt buf sender ≠ .panic)
    (q : List (List UInt8)) : ∀ sender, flushFrom attempt q sender ≠ .panic := by
  induction q with
  | nil =>
      intro sender panics
      simp [flushFrom] at panics
  | cons buf rest ih =>
      intro sender panics
      rcases Exec.bind_eq_panic.mp panics with attempts | ⟨isWritten, middle, _, panics⟩
      · exact total _ _ attempts
      · cases isWritten with
        | false => simp at panics
        | true =>
            rcases Exec.bind_eq_panic.mp panics with modifies | ⟨_, _, _, panics⟩
            · simp at modifies
            · rcases Exec.bind_eq_panic.mp panics with later | ⟨_, _, _, panics⟩
              · exact ih _ later
              · simp at panics

/-- The loop takes buffers from the queue only. -/
theorem flushFrom_atMost (keepsQ : ∀ buf, Exec.Spares Sender.q (attempt buf)) (bound : Nat)
    (q : List (List UInt8)) :
    Exec.Maintains (fun sender => sender.q.length ≤ bound) (flushFrom attempt q) := by
  induction q with
  | nil => exact .of_spares (.pure _)
  | cons buf rest ih =>
      have attempts : Exec.Maintains (fun sender : Sender => sender.q.length ≤ bound)
          (attempt buf) := by
        intro before after run less
        rw [keepsQ buf _ _ run]
        exact less
      refine attempts.bind fun isWritten => .ite ?_ (.of_spares (.pure _))
      refine Exec.Maintains.bind (.modify ?_) fun _ => ih.bind fun _ => .of_spares (.pure _)
      intro sender less
      simp only [List.length_tail]
      omega

theorem flush_progresses_iff {first : List UInt8} {rest : List (List UInt8)}
    (below : TakesBelow attempt need size) (sized : Sized size before)
    (peerDone : PeerDone before) (isQ : before.q = first :: rest) :
    Progresses attempt before ↔ need first < size := by
  have isFlush : flush attempt before = flushFrom attempt (first :: rest) before := by
    rw [← isQ]
    rfl
  constructor
  · intro progresses
    by_contra outside
    obtain ⟨after, refused⟩ := below.refuses first before sized peerDone (Nat.le_of_not_lt outside)
    have run : flush attempt before = .ok false after := by
      rw [isFlush]
      exact Exec.bind_eq_ok.mpr ⟨_, _, refused, rfl⟩
    have same : after.q = before.q := below.keepsQ first _ _ (.inl ⟨_, refused⟩)
    have shorter := progresses.2 after (.inl ⟨_, run⟩)
    rw [same] at shorter
    exact Nat.lt_irrefl _ shorter
  · intro needs
    obtain ⟨middle, taken⟩ := below.takes first before sized peerDone needs
    have same : middle.q = before.q := below.keepsQ first _ _ (.inl ⟨_, taken⟩)
    constructor
    · cases result : flush attempt before with
      | ok value after => exact ⟨after, .inl ⟨value, result⟩⟩
      | err error after => exact ⟨after, .inr ⟨error, result⟩⟩
      | panic =>
          rw [isFlush] at result
          exact absurd result (flushFrom_total below.total _ _)
    · intro after ends
      have popped : { middle with q := middle.q.tail }.q.length ≤ rest.length := by
        simp [same, isQ]
      have later : Exec.Ends (flushFrom attempt rest >>= fun _ => pure true)
          { middle with q := middle.q.tail } after := by
        rw [Exec.ends_congr isFlush, flushFrom, Exec.ends_congr (Exec.bind_of_ok taken)] at ends
        exact ends
      have atMost := (flushFrom_atMost below.keepsQ rest.length rest).bind
        (fun _ => .of_spares (.pure true)) _ _ later popped
      rw [isQ]
      exact Nat.lt_succ_of_le atMost

theorem performAll_sized (each : ∀ buf, Exec.Maintains (Sized size) (attempt buf))
    (calls : List Call) : Exec.Maintains (Sized size) (performAll attempt calls) := by
  refine Exec.Maintains.forEach fun call _ => ?_
  refine Exec.Maintains.bind ?_ fun _ => .of_spares (.pure _)
  cases call with
  | flushTx => exact flush_maintains Sized.ofRing each
  | txCallback => exact flushAndNotify_maintains Sized.ofRing each
  | tx buf => exact flushAndPass_maintains Sized.ofRing each buf

/-- After any calls, and whatever the peer has shown: once it has consumed everything that was
written, a flush takes a buffer from the queue exactly if the first one fits into the ring with one
byte to spare, as a packet with its header. -/
theorem run_progresses_iff {rb : RingBuffer} {buf : List UInt8} {peer : Nat → CtrlBlock}
    {calls : List Call} {first : List UInt8} {rest : List (List UInt8)}
    (sized : rb.writeSize = buf.length) (positive : 0 < buf.length)
    (word : buf.length < usizeModulus) (peerDone : PeerDone before)
    (isQ : before.q = first :: rest) :
    (performAll writeWhole calls (ofRingBuffer rb buf peer) = .ok () before →
      (Progresses writeWhole before ↔ first.length < buf.length)) ∧
    (performAll writePacket calls (ofRingBuffer rb buf peer) = .ok () before →
      (Progresses writePacket before ↔ headerSize + first.length < buf.length)) := by
  have start : Sized buf.length (ofRingBuffer rb buf peer) := ⟨sized, rfl⟩
  constructor
  · intro run
    have sizedBefore := performAll_sized writeWhole_sized calls _ _ (.inl ⟨_, run⟩) start
    exact flush_progresses_iff (writeWhole_takesBelow positive word) sizedBefore peerDone isQ
  · intro run
    have sizedBefore := performAll_sized writePacket_sized calls _ _ (.inl ⟨_, run⟩) start
    exact flush_progresses_iff (writePacket_takesBelow positive word) sizedBefore peerDone isQ

end Progress

/-- Over a ring of six bytes.  The peer has consumed nothing in the first three loads, and then what
is given. -/
def overSix (offsetR : Nat) : Sender :=
  ofRingBuffer ⟨6, 6, 0, 0⟩ [0, 0, 0, 0, 0, 0] fun load => ⟨if load < 3 then 0 else offsetR, 0, 0⟩

theorem run_progresses_iff_overSix :
    ∃ before, performAll writeWhole [.tx [1, 2, 3], .tx [4, 5, 6]] (overSix 3) = .ok () before ∧
      before.q = [[4, 5, 6]] ∧ Progresses writeWhole before := by
  obtain ⟨before, run, peerDone, isQ⟩ : ∃ before,
      performAll writeWhole [.tx [1, 2, 3], .tx [4, 5, 6]] (overSix 3) = .ok () before ∧
        PeerDone before ∧ before.q = [[4, 5, 6]] := ⟨_, rfl, rfl, rfl⟩
  refine ⟨before, run, isQ, ?_⟩
  exact ((run_progresses_iff rfl (by decide) (by decide) peerDone isQ).1 run).mpr (by decide)

/-- A buffer of six bytes is never sent over a ring of six, nor is a packet of two, and what is passed
after it waits behind it. -/
theorem flush_stalls :
    (∃ before, performAll writeWhole [.tx [1, 2, 3, 4, 5, 6], .tx [7]] (overSix 0) =
        .ok () before ∧
      PeerDone before ∧ before.q = [[1, 2, 3, 4, 5, 6], [7]] ∧ ¬ Progresses writeWhole before) ∧
    ∃ before, performAll writePacket [.tx [1, 2], .tx [7]] (overSix 0) = .ok () before ∧
      PeerDone before ∧ before.q = [[1, 2], [7]] ∧ ¬ Progresses writePacket before := by
  constructor
  · refine ⟨_, rfl, rfl, rfl, fun progresses => ?_⟩
    exact absurd (progresses.2 _ (.inl ⟨false, rfl⟩)) (by decide)
  · refine ⟨_, rfl, rfl, rfl, fun progresses => ?_⟩
    exact absurd (progresses.2 _ (.inl ⟨false, rfl⟩)) (by decide)

end Sender

end IceCap.Ring
