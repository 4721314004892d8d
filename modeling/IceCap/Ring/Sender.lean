import IceCap.Library.Exec
import IceCap.Ring.Packet

/-!
# The side that sends

`BufferedRingBuffer` and `BufferedPacketRingBuffer`, as far as they send: the
ring buffer, the buffer it writes to and the queue in front of it.  The peer may
store anything in its control block at any time, so every load from there finds
a block of its own, and what is stored there need not be found again.  A call
that fails keeps what it has done.

The fields from `polls` on are not in the source.  They record the polls, the
last one first, with what has been copied into the buffer after each, and the
buffers that have been sent.
-/

set_option autoImplicit false

namespace IceCap.Ring

open IceCap.Library

inductive Fault where
  | assertion
  | outOfBounds
  deriving DecidableEq, Repr

/-- What `poll_write` goes by, the private offset and what is loaded, and the bytes that are copied
before the next one. -/
structure Poll where
  offsetW : Nat
  offsetR : Nat
  copied : List UInt8
  deriving DecidableEq, Repr

/-- More has been copied since the last poll. -/
def noteCopied (bytes : List UInt8) : List Poll → List Poll
  | [] => []
  | poll :: earlier => { poll with copied := poll.copied ++ bytes } :: earlier

structure Sender where
  rb : RingBuffer
  buf : List UInt8
  ctrl : CtrlBlock
  q : List (List UInt8)
  kicks : Nat
  /-- What the loads from the peer's control block find, and how many there have been. -/
  peer : Nat → CtrlBlock
  loads : Nat
  polls : List Poll
  sent : List (List UInt8)

namespace Sender

def load : Exec Fault Sender CtrlBlock := do
  let sender ← Exec.get
  Exec.modify fun sender => { sender with loads := sender.loads + 1 }
  pure (sender.peer sender.loads)

/-! ## The ring buffer -/

def pollWrite : Exec Fault Sender Nat := do
  let peer ← load
  let sender ← Exec.get
  Exec.modify fun sender =>
    { sender with polls := ⟨sender.rb.privateOffsetW, peer.offsetR, []⟩ :: sender.polls }
  match sender.rb.pollWrite peer.offsetR with
  | some n => pure n
  | none => Exec.fail .assertion

def write (bytes : List UInt8) : Exec Fault Sender Unit := do
  let sender ← Exec.get
  Exec.modify fun sender => { sender with polls := noteCopied bytes sender.polls }
  match sender.rb.write sender.buf bytes with
  | some (buf, rb) => Exec.modify fun sender => { sender with buf, rb }
  | none => Exec.fail .outOfBounds

/-- The second load is that of `modify`. -/
def notifyWrite : Exec Fault Sender Unit := do
  Exec.modify fun sender =>
    { sender with ctrl := { sender.ctrl with offsetW := sender.rb.privateOffsetW } }
  let peer ← load
  if Status.notifyRead.read peer.status then do
    let _ ← load
    Exec.modify fun sender => { sender with kicks := sender.kicks + 1 }
  else pure ()

/-- Note that all of the buffer has been written. -/
def noteSent (buf : List UInt8) : Exec Fault Sender Unit :=
  Exec.modify fun sender => { sender with sent := sender.sent ++ [buf] }

/-- What `BufferedRingBuffer` does with a buffer if there is room for it. -/
def writeWhole (buf : List UInt8) : Exec Fault Sender Bool := do
  let n ← pollWrite
  if n < buf.length then pure false
  else do
    write buf
    noteSent buf
    pure true

/-- `PacketRingBuffer::write`. -/
def writePacket (buf : List UInt8) : Exec Fault Sender Bool := do
  let n ← pollWrite
  if n < PacketRingBuffer.packetSize buf then pure false
  else do
    write (PacketRingBuffer.serializeHeader buf.length)
    write buf
    noteSent buf
    pure true

/-! ## The queue -/

section Queue
variable (attempt : List UInt8 → Exec Fault Sender Bool)

/-- The loop of `flush_tx`, over what is in the queue. -/
def flushFrom : List (List UInt8) → Exec Fault Sender Bool
  | [] => pure false
  | buf :: rest => do
      let isWritten ← attempt buf
      if isWritten then do
        Exec.modify fun sender => { sender with q := sender.q.tail }
        let _ ← flushFrom rest
        pure true
      else pure false

def flush : Exec Fault Sender Bool := do
  let sender ← Exec.get
  flushFrom attempt sender.q

def notifyIf (notify : Bool) : Exec Fault Sender Bool :=
  if notify then do
    notifyWrite
    pure notify
  else pure notify

def flushAndNotify : Exec Fault Sender Bool := do
  let notify ← flush attempt
  notifyIf notify

/-- Straight to the ring, unless others wait. -/
def attemptFirst (buf : List UInt8) : Exec Fault Sender Bool := do
  let sender ← Exec.get
  if sender.q = [] then attempt buf else pure false

/-- To the end of the queue if the ring does not take it. -/
def pass (buf : List UInt8) : Exec Fault Sender Bool := do
  let isWritten ← attemptFirst attempt buf
  if isWritten then pure true
  else do
    Exec.modify fun sender => { sender with q := sender.q ++ [buf] }
    pure false

def flushAndPass (buf : List UInt8) : Exec Fault Sender Bool := do
  let flushed ← flush attempt
  let passed ← pass attempt buf
  notifyIf (flushed || passed)

end Queue

/-! ## The methods -/

namespace Buffered

def flushTx : Exec Fault Sender Bool := flush writeWhole

def txCallback : Exec Fault Sender Bool := flushAndNotify writeWhole

def tx (buf : List UInt8) : Exec Fault Sender Bool := flushAndPass writeWhole buf

end Buffered

namespace BufferedPacket

def flushTx : Exec Fault Sender Bool := flush writePacket

def txCallback : Exec Fault Sender Bool := flushAndNotify writePacket

def tx (buf : List UInt8) : Exec Fault Sender Bool := flushAndPass writePacket buf

end BufferedPacket

/-! ## Polls and copies -/

section Effects
variable {before after : Sender}

/-- After a poll, whether its assertions hold or not. -/
def polled (sender : Sender) : Sender :=
  { sender with
    loads := sender.loads + 1
    polls := ⟨sender.rb.privateOffsetW, (sender.peer sender.loads).offsetR, []⟩ :: sender.polls }

theorem pollWrite_eq (sender : Sender) : pollWrite sender =
    match sender.rb.pollWrite (sender.peer sender.loads).offsetR with
    | some n => .ok n sender.polled
    | none => .err .assertion sender.polled := by
  have isLoaded : load sender =
      .ok (sender.peer sender.loads) { sender with loads := sender.loads + 1 } := rfl
  rw [pollWrite, Exec.bind_of_ok isLoaded]
  simp only [polled, Exec.bind_apply, Exec.get, Exec.modify]
  cases sender.rb.pollWrite (sender.peer sender.loads).offsetR <;> rfl

theorem write_eq (bytes : List UInt8) (sender : Sender) : write bytes sender =
    match sender.rb.write sender.buf bytes with
    | some (buf, rb) =>
        .ok () { sender with polls := noteCopied bytes sender.polls, buf, rb }
    | none => .err .outOfBounds { sender with polls := noteCopied bytes sender.polls } := by
  simp only [write, Exec.bind_apply, Exec.get, Exec.modify]
  cases sender.rb.write sender.buf bytes <;> rfl

theorem pollWrite_eq_ok {n : Nat} : pollWrite before = .ok n after ↔
    before.rb.pollWrite (before.peer before.loads).offsetR = some n ∧ before.polled = after := by
  rw [pollWrite_eq]
  cases before.rb.pollWrite (before.peer before.loads).offsetR <;> simp

theorem ends_pollWrite (run : Exec.Ends pollWrite before after) : before.polled = after := by
  unfold Exec.Ends at run
  rw [pollWrite_eq] at run
  cases isPolled : before.rb.pollWrite (before.peer before.loads).offsetR <;> simp_all

/-- Whether the copy succeeds or not, it is noted, and the sizes stay. -/
theorem ends_write {bytes : List UInt8} (run : Exec.Ends (write bytes) before after) :
    after.polls = noteCopied bytes before.polls ∧ after.rb.writeSize = before.rb.writeSize := by
  unfold Exec.Ends at run
  rw [write_eq] at run
  cases isWritten : before.rb.write before.buf bytes with
  | none =>
      rw [isWritten] at run
      simp at run
      rw [← run]
      exact ⟨rfl, rfl⟩
  | some result =>
      rw [isWritten] at run
      have offsets := RingBuffer.write_offsets isWritten
      simp at run
      rw [← run]
      exact ⟨rfl, by rw [offsets]⟩

end Effects

/-! ## What the attempts are responsible for -/

section Maintains

/-- What the queue and the notifications do not touch. -/
def ringSide (sender : Sender) : RingBuffer × List UInt8 × List Poll × List (List UInt8) :=
  (sender.rb, sender.buf, sender.polls, sender.sent)

/-- What a notification does not touch. -/
def Unnotified {ν : Type} (view : Sender → ν) : Prop :=
  ∀ sender ctrl kicks loads,
    view { sender with ctrl := ctrl, kicks := kicks, loads := loads } = view sender

theorem ringSide_unnotified : Unnotified ringSide := fun _ _ _ _ => rfl

section Notify
variable {ν : Type} {view : Sender → ν}

theorem load_spares (unnotified : Unnotified view) : Exec.Spares view load := by
  apply Exec.Spares.get.bind
  intro sender
  refine Exec.Spares.bind (.modify ?_) fun _ => .pure _
  exact fun sender => unnotified sender sender.ctrl sender.kicks (sender.loads + 1)

theorem notifyWrite_spares (unnotified : Unnotified view) : Exec.Spares view notifyWrite := by
  refine Exec.Spares.bind (.modify ?_) fun _ => ?_
  · intro sender
    exact unnotified sender { sender.ctrl with offsetW := sender.rb.privateOffsetW } sender.kicks
      sender.loads
  apply (load_spares unnotified).bind
  intro peer
  refine Exec.Spares.ite ((load_spares unnotified).bind fun _ => .modify ?_) (.pure _)
  exact fun sender => unnotified sender sender.ctrl (sender.kicks + 1) sender.loads

theorem notifyIf_spares (unnotified : Unnotified view) (notify : Bool) :
    Exec.Spares view (notifyIf notify) :=
  .ite ((notifyWrite_spares unnotified).bind fun _ => .pure _) (.pure _)

end Notify

/-- An invariant of the ring buffer and the records. -/
def OfRing (invariant : Sender → Prop) : Prop :=
  ∀ first second, ringSide first = ringSide second → invariant first → invariant second

variable {invariant : Sender → Prop} {attempt : List UInt8 → Exec Fault Sender Bool}

theorem modifyQ_maintains (ofRing : OfRing invariant) (update : Sender → List (List UInt8)) :
    Exec.Maintains invariant
      (Exec.modify (fun sender => { sender with q := update sender }) : Exec Fault Sender Unit) := by
  apply Exec.Maintains.modify
  intro sender holds
  exact ofRing sender { sender with q := update sender } rfl holds

theorem notifyIf_maintains (ofRing : OfRing invariant) (notify : Bool) :
    Exec.Maintains invariant (notifyIf notify) :=
  fun before after run holds => ofRing before after (notifyIf_spares ringSide_unnotified notify _ _ run).symm holds

theorem flush_maintains (ofRing : OfRing invariant)
    (each : ∀ buf, Exec.Maintains invariant (attempt buf)) :
    Exec.Maintains invariant (flush attempt) := by
  have loop : ∀ q, Exec.Maintains invariant (flushFrom attempt q) := by
    intro q
    induction q with
    | nil => exact .of_spares (.pure _)
    | cons buf rest ih =>
        apply (each buf).bind
        intro isWritten
        refine Exec.Maintains.ite ?_ (.of_spares (.pure _))
        exact (modifyQ_maintains ofRing _).bind fun _ => ih.bind fun _ => .of_spares (.pure _)
  exact .bind (.of_spares .get) fun sender => loop sender.q

theorem pass_maintains (ofRing : OfRing invariant)
    (each : ∀ buf, Exec.Maintains invariant (attempt buf)) (buf : List UInt8) :
    Exec.Maintains invariant (pass attempt buf) := by
  have first : Exec.Maintains invariant (attemptFirst attempt buf) :=
    .bind (.of_spares .get) fun sender => .ite (each buf) (.of_spares (.pure _))
  apply first.bind
  intro isWritten
  refine Exec.Maintains.ite (.of_spares (.pure _)) ?_
  exact (modifyQ_maintains ofRing _).bind fun _ => .of_spares (.pure _)

theorem flushAndNotify_maintains (ofRing : OfRing invariant)
    (each : ∀ buf, Exec.Maintains invariant (attempt buf)) :
    Exec.Maintains invariant (flushAndNotify attempt) :=
  (flush_maintains ofRing each).bind (notifyIf_maintains ofRing)

theorem flushAndPass_maintains (ofRing : OfRing invariant)
    (each : ∀ buf, Exec.Maintains invariant (attempt buf)) (buf : List UInt8) :
    Exec.Maintains invariant (flushAndPass attempt buf) :=
  (flush_maintains ofRing each).bind fun _ =>
    (pass_maintains ofRing each buf).bind fun _ => notifyIf_maintains ofRing _

end Maintains

end Sender

end IceCap.Ring
