import IceCap.Library.Framing
import IceCap.Ring.Sender

/-!
# What has been sent and what waits

The buffers passed to `tx` are in one of two places, and in order: first those
that have been written to the ring, then those in the queue.  Nothing is said
about the peer, which may show anything.  The ring's memory has as much of what
was written as there is memory, and the write offset has moved over all of it.
-/

set_option autoImplicit false

namespace IceCap.Ring

open IceCap.Library

namespace Sender

/-- A call of one of the methods that send. -/
inductive Call where
  | flushTx
  | txCallback
  | tx (buf : List UInt8)
  deriving DecidableEq, Repr

def Call.perform (attempt : List UInt8 → Exec Fault Sender Bool) : Call → Exec Fault Sender Bool
  | flushTx => flush attempt
  | txCallback => flushAndNotify attempt
  | tx buf => flushAndPass attempt buf

def performAll (attempt : List UInt8 → Exec Fault Sender Bool) (calls : List Call) :
    Exec Fault Sender Unit :=
  Exec.forEach calls fun call => do
    let _ ← call.perform attempt
    pure ()

/-- The buffers that are passed to `tx`. -/
def passed : List Call → List (List UInt8)
  | [] => []
  | .tx buf :: calls => buf :: passed calls
  | _ :: calls => passed calls

/-- Everything that has been copied into the ring. -/
def copied (sender : Sender) : List UInt8 := (sender.polls.map Poll.copied).reverse.flatten

def ofRingBuffer (rb : RingBuffer) (buf : List UInt8) (peer : Nat → CtrlBlock) : Sender :=
  { rb, buf, ctrl := ⟨0, 0, 0⟩, q := [], kicks := 0, peer, loads := 0, polls := [], sent := [] }

/-! ## What an attempt does -/

section Attempts
variable {before after : Sender} {bytes : List UInt8}

theorem copied_polled : before.polled.copied = before.copied := by
  simp [copied, polled]

theorem flatten_noteCopied {polls : List Poll} (notNil : polls ≠ []) :
    ((noteCopied bytes polls).map Poll.copied).reverse.flatten =
      (polls.map Poll.copied).reverse.flatten ++ bytes := by
  cases polls with
  | nil => exact absurd rfl notNil
  | cons poll earlier => simp [noteCopied]

theorem noteCopied_ne_nil {polls : List Poll} (notNil : polls ≠ []) :
    noteCopied bytes polls ≠ [] := by
  cases polls with
  | nil => exact absurd rfl notNil
  | cons poll earlier => simp [noteCopied]

/-- What a write that returns has copied. -/
theorem write_copied (notNil : before.polls ≠ []) (run : write bytes before = .ok () after) :
    after.copied = before.copied ++ bytes ∧ after.polls ≠ [] ∧ after.q = before.q ∧
      after.sent = before.sent ∧ before.rb.write before.buf bytes = some (after.buf, after.rb) := by
  rw [write_eq] at run
  cases isWritten : before.rb.write before.buf bytes with
  | none => simp [isWritten] at run
  | some result =>
      rw [isWritten] at run
      obtain ⟨_, rfl⟩ := Outcome.ok.inj run
      exact ⟨flatten_noteCopied notNil, noteCopied_ne_nil notNil, rfl, rfl, rfl⟩

/-- An attempt sends the whole buffer in its form on the ring, or nothing. -/
structure Sends (attempt : List UInt8 → Exec Fault Sender Bool)
    (form : List UInt8 → List UInt8) : Prop where
  sent : ∀ buf before after, attempt buf before = .ok true after →
    after.q = before.q ∧ after.sent = before.sent ++ [buf] ∧
      after.copied = before.copied ++ form buf
  held : ∀ buf before after start stream, attempt buf before = .ok true after →
    before.rb.Holds before.buf start stream → after.rb.Holds after.buf start (stream ++ form buf)
  kept : ∀ buf before after, attempt buf before = .ok false after →
    after.q = before.q ∧ after.sent = before.sent ∧ after.copied = before.copied ∧
      after.rb = before.rb ∧ after.buf = before.buf

theorem writeWhole_sends : Sends writeWhole id := by
  constructor
  · intro buf before after run
    obtain ⟨n, middle, polls, run⟩ := Exec.bind_eq_ok.mp run
    obtain ⟨_, rfl⟩ := pollWrite_eq_ok.mp polls
    split at run
    · exact absurd (Exec.pure_eq_ok.mp run).1 Bool.false_ne_true
    · obtain ⟨⟨⟩, wrote, writes, run⟩ := Exec.bind_eq_ok.mp run
      obtain ⟨⟨⟩, _, notes, run⟩ := Exec.bind_eq_ok.mp run
      obtain ⟨_, rfl⟩ := Exec.pure_eq_ok.mp run
      obtain rfl := Exec.modify_eq_ok.mp notes
      obtain ⟨isCopied, _, sameQ, sameSent, _⟩ := write_copied (by simp [polled]) writes
      rw [copied_polled] at isCopied
      exact ⟨sameQ, congrArg (· ++ [buf]) sameSent, isCopied⟩
  · intro buf before after start stream run holds
    obtain ⟨n, middle, polls, run⟩ := Exec.bind_eq_ok.mp run
    obtain ⟨_, rfl⟩ := pollWrite_eq_ok.mp polls
    split at run
    · exact absurd (Exec.pure_eq_ok.mp run).1 Bool.false_ne_true
    · obtain ⟨⟨⟩, wrote, writes, run⟩ := Exec.bind_eq_ok.mp run
      obtain ⟨⟨⟩, _, notes, run⟩ := Exec.bind_eq_ok.mp run
      obtain ⟨_, rfl⟩ := Exec.pure_eq_ok.mp run
      obtain rfl := Exec.modify_eq_ok.mp notes
      obtain ⟨_, _, _, _, isWritten⟩ := write_copied (by simp [polled]) writes
      exact holds.write isWritten
  · intro buf before after run
    obtain ⟨n, middle, polls, run⟩ := Exec.bind_eq_ok.mp run
    obtain ⟨_, rfl⟩ := pollWrite_eq_ok.mp polls
    split at run
    · obtain ⟨_, rfl⟩ := Exec.pure_eq_ok.mp run
      exact ⟨rfl, rfl, copied_polled, rfl, rfl⟩
    · obtain ⟨⟨⟩, _, _, run⟩ := Exec.bind_eq_ok.mp run
      obtain ⟨⟨⟩, _, _, run⟩ := Exec.bind_eq_ok.mp run
      exact absurd (Exec.pure_eq_ok.mp run).1.symm Bool.false_ne_true

/-- A packet is written behind its header. -/
theorem writePacket_sends : Sends writePacket (frame PacketRingBuffer.serializeHeader) := by
  constructor
  · intro buf before after run
    obtain ⟨n, middle, polls, run⟩ := Exec.bind_eq_ok.mp run
    obtain ⟨_, rfl⟩ := pollWrite_eq_ok.mp polls
    split at run
    · exact absurd (Exec.pure_eq_ok.mp run).1 Bool.false_ne_true
    · obtain ⟨⟨⟩, headed, writesHeader, run⟩ := Exec.bind_eq_ok.mp run
      obtain ⟨⟨⟩, wrote, writes, run⟩ := Exec.bind_eq_ok.mp run
      obtain ⟨⟨⟩, _, notes, run⟩ := Exec.bind_eq_ok.mp run
      obtain ⟨_, rfl⟩ := Exec.pure_eq_ok.mp run
      obtain rfl := Exec.modify_eq_ok.mp notes
      obtain ⟨isHeader, notNil, headedQ, headedSent, _⟩ :=
        write_copied (by simp [polled]) writesHeader
      obtain ⟨isCopied, _, sameQ, sameSent, _⟩ := write_copied notNil writes
      rw [isHeader, copied_polled, List.append_assoc] at isCopied
      refine ⟨sameQ.trans headedQ, ?_, isCopied⟩
      exact congrArg (· ++ [buf]) (sameSent.trans headedSent)
  · intro buf before after start stream run holds
    obtain ⟨n, middle, polls, run⟩ := Exec.bind_eq_ok.mp run
    obtain ⟨_, rfl⟩ := pollWrite_eq_ok.mp polls
    split at run
    · exact absurd (Exec.pure_eq_ok.mp run).1 Bool.false_ne_true
    · obtain ⟨⟨⟩, headed, writesHeader, run⟩ := Exec.bind_eq_ok.mp run
      obtain ⟨⟨⟩, wrote, writes, run⟩ := Exec.bind_eq_ok.mp run
      obtain ⟨⟨⟩, _, notes, run⟩ := Exec.bind_eq_ok.mp run
      obtain ⟨_, rfl⟩ := Exec.pure_eq_ok.mp run
      obtain rfl := Exec.modify_eq_ok.mp notes
      obtain ⟨_, notNil, _, _, isHeader⟩ := write_copied (by simp [polled]) writesHeader
      obtain ⟨_, _, _, _, isWritten⟩ := write_copied notNil writes
      have later := (holds.write isHeader).write isWritten
      rwa [List.append_assoc] at later
  · intro buf before after run
    obtain ⟨n, middle, polls, run⟩ := Exec.bind_eq_ok.mp run
    obtain ⟨_, rfl⟩ := pollWrite_eq_ok.mp polls
    split at run
    · obtain ⟨_, rfl⟩ := Exec.pure_eq_ok.mp run
      exact ⟨rfl, rfl, copied_polled, rfl, rfl⟩
    · obtain ⟨⟨⟩, _, _, run⟩ := Exec.bind_eq_ok.mp run
      obtain ⟨⟨⟩, _, _, run⟩ := Exec.bind_eq_ok.mp run
      obtain ⟨⟨⟩, _, _, run⟩ := Exec.bind_eq_ok.mp run
      exact absurd (Exec.pure_eq_ok.mp run).1.symm Bool.false_ne_true

end Attempts

/-! ## Accounts -/

/-- The buffers that were passed have been sent or wait, in order, and the ring holds those that
have been sent, from the write offset `start` on. -/
structure Accounts (form : List UInt8 → List UInt8) (start : Nat) (buffers : List (List UInt8))
    (sender : Sender) : Prop where
  passed : sender.sent ++ sender.q = buffers
  copied : sender.copied = sender.sent.flatMap form
  holds : sender.rb.Holds sender.buf start (sender.sent.flatMap form)

section Accounts
variable {attempt : List UInt8 → Exec Fault Sender Bool} {form : List UInt8 → List UInt8}
  {start : Nat} {buffers : List (List UInt8)} {before after : Sender}

/-- One that is sent is no longer waiting. -/
theorem Accounts.sent {buf : List UInt8} (sends : Sends attempt form)
    (accounts : Accounts form start buffers before) (run : attempt buf before = .ok true after) :
    after.copied = after.sent.flatMap form ∧
      after.rb.Holds after.buf start (after.sent.flatMap form) := by
  obtain ⟨_, isSent, isCopied⟩ := sends.sent _ _ _ run
  have isForm : after.sent.flatMap form = before.sent.flatMap form ++ form buf := by
    rw [isSent, List.flatMap_append, List.flatMap_singleton]
  constructor
  · rw [isForm, isCopied, accounts.copied]
  · rw [isForm]
    exact sends.held _ _ _ _ _ run accounts.holds

/-- The loop goes on at the front of the queue. -/
theorem flushFrom_accounts (sends : Sends attempt form) (q : List (List UInt8)) :
    ∀ {before after : Sender} {notify : Bool}, before.q = q → Accounts form start buffers before →
      flushFrom attempt q before = .ok notify after → Accounts form start buffers after := by
  induction q with
  | nil =>
      intro before after notify _ accounts run
      obtain ⟨_, rfl⟩ := Exec.pure_eq_ok.mp run
      exact accounts
  | cons buf rest ih =>
      intro before after notify isQ accounts run
      obtain ⟨isWritten, middle, attempted, run⟩ := Exec.bind_eq_ok.mp run
      have passed := accounts.passed
      cases isWritten with
      | false =>
          obtain ⟨sameQ, sameSent, sameCopied, sameRb, sameBuf⟩ := sends.kept _ _ _ attempted
          obtain ⟨_, rfl⟩ := Exec.pure_eq_ok.mp run
          refine ⟨?_, ?_, ?_⟩
          · rw [sameSent, sameQ, passed]
          · rw [sameCopied, sameSent, accounts.copied]
          · rw [sameRb, sameBuf, sameSent]
            exact accounts.holds
      | true =>
          obtain ⟨sameQ, isSent, _⟩ := sends.sent _ _ _ attempted
          obtain ⟨isCopied, holds⟩ := accounts.sent sends attempted
          obtain ⟨⟨⟩, _, modified, run⟩ := Exec.bind_eq_ok.mp run
          obtain ⟨_, last, later, run⟩ := Exec.bind_eq_ok.mp run
          obtain ⟨_, rfl⟩ := Exec.pure_eq_ok.mp run
          obtain rfl := Exec.modify_eq_ok.mp modified
          have isRest : middle.q.tail = rest := by rw [sameQ, isQ, List.tail_cons]
          have goesOn : Accounts form start buffers { middle with q := middle.q.tail } := by
            refine ⟨?_, isCopied, holds⟩
            rw [isSent, isRest, ← passed, isQ, List.append_assoc, List.singleton_append]
          exact ih isRest goesOn later

theorem flush_accounts {notify : Bool} (sends : Sends attempt form)
    (accounts : Accounts form start buffers before) (run : flush attempt before = .ok notify after) :
    Accounts form start buffers after := by
  obtain ⟨_, _, gets, run⟩ := Exec.bind_eq_ok.mp run
  obtain ⟨rfl, rfl⟩ := Exec.get_eq_ok.mp gets
  exact flushFrom_accounts sends _ rfl accounts run

/-- One more buffer has been sent, or waits behind the others. -/
theorem pass_accounts {buf : List UInt8} {isSent : Bool} (sends : Sends attempt form)
    (accounts : Accounts form start buffers before) (run : pass attempt buf before = .ok isSent after) :
    Accounts form start (buffers ++ [buf]) after := by
  obtain ⟨isWritten, middle, attempted, run⟩ := Exec.bind_eq_ok.mp run
  obtain ⟨_, _, gets, attempted⟩ := Exec.bind_eq_ok.mp attempted
  obtain ⟨rfl, rfl⟩ := Exec.get_eq_ok.mp gets
  have passed := accounts.passed
  cases isWritten with
  | true =>
      obtain ⟨_, rfl⟩ := Exec.pure_eq_ok.mp run
      split at attempted
      · next isEmpty =>
          obtain ⟨sameQ, isSent, _⟩ := sends.sent _ _ _ attempted
          obtain ⟨isCopied, holds⟩ := accounts.sent sends attempted
          refine ⟨?_, isCopied, holds⟩
          rw [isSent, sameQ, ← passed, isEmpty, List.append_nil, List.append_nil]
      · exact absurd (Exec.pure_eq_ok.mp attempted).1 Bool.false_ne_true
  | false =>
      have same : middle.q = before.q ∧ middle.sent = before.sent ∧
          middle.copied = before.copied ∧ middle.rb = before.rb ∧ middle.buf = before.buf := by
        split at attempted
        · exact sends.kept _ _ _ attempted
        · obtain ⟨_, rfl⟩ := Exec.pure_eq_ok.mp attempted
          exact ⟨rfl, rfl, rfl, rfl, rfl⟩
      obtain ⟨sameQ, sameSent, sameCopied, sameRb, sameBuf⟩ := same
      obtain ⟨⟨⟩, _, modified, run⟩ := Exec.bind_eq_ok.mp run
      obtain ⟨_, rfl⟩ := Exec.pure_eq_ok.mp run
      obtain rfl := Exec.modify_eq_ok.mp modified
      have holds := accounts.holds
      refine ⟨?_, ?_, ?_⟩
      · rw [← passed, ← sameQ, ← sameSent, List.append_assoc]
      · calc middle.copied = before.copied := sameCopied
          _ = before.sent.flatMap form := accounts.copied
          _ = middle.sent.flatMap form := by rw [sameSent]
      · rwa [← sameRb, ← sameBuf, ← sameSent] at holds

/-- A notification changes no accounts. -/
theorem notifyIf_accounts {notify notified : Bool} (accounts : Accounts form start buffers before)
    (run : notifyIf notify before = .ok notified after) : Accounts form start buffers after := by
  have unnotified : Unnotified fun sender =>
      (sender.sent, sender.q, sender.copied, sender.rb, sender.buf) := fun _ _ _ _ => rfl
  have same := notifyIf_spares unnotified notify _ _ (.inl ⟨_, run⟩)
  simp only [Prod.mk.injEq] at same
  obtain ⟨sameSent, sameQ, sameCopied, sameRb, sameBuf⟩ := same
  refine ⟨?_, ?_, ?_⟩
  · rw [sameSent, sameQ, accounts.passed]
  · rw [sameCopied, sameSent, accounts.copied]
  · rw [sameRb, sameBuf, sameSent]
    exact accounts.holds

theorem perform_accounts {answer : Bool} (sends : Sends attempt form) (call : Call)
    (accounts : Accounts form start buffers before)
    (run : call.perform attempt before = .ok answer after) :
    Accounts form start (buffers ++ passed [call]) after := by
  cases call with
  | flushTx =>
      have isPassed : passed [.flushTx] = [] := rfl
      rw [isPassed, List.append_nil]
      exact flush_accounts sends accounts run
  | txCallback =>
      have isPassed : passed [.txCallback] = [] := rfl
      rw [isPassed, List.append_nil]
      obtain ⟨notify, middle, flushed, run⟩ := Exec.bind_eq_ok.mp run
      exact notifyIf_accounts (flush_accounts sends accounts flushed) run
  | tx buf =>
      obtain ⟨_, first, flushed, run⟩ := Exec.bind_eq_ok.mp run
      obtain ⟨_, second, isPassed, run⟩ := Exec.bind_eq_ok.mp run
      exact notifyIf_accounts (pass_accounts sends (flush_accounts sends accounts flushed) isPassed)
        run

theorem passed_cons (call : Call) (calls : List Call) :
    passed (call :: calls) = passed [call] ++ passed calls := by
  cases call <;> rfl

/-- Whatever the peer shows, the calls that return pass on all buffers once and in order. -/
theorem performAll_accounts (sends : Sends attempt form) (calls : List Call) :
    ∀ {before after : Sender} {buffers : List (List UInt8)}, Accounts form start buffers before →
      performAll attempt calls before = .ok () after →
      Accounts form start (buffers ++ passed calls) after := by
  induction calls with
  | nil =>
      intro before after buffers accounts run
      obtain ⟨_, rfl⟩ := Exec.pure_eq_ok.mp run
      rw [passed, List.append_nil]
      exact accounts
  | cons call calls ih =>
      intro before after buffers accounts run
      obtain ⟨⟨⟩, middle, returns, run⟩ := Exec.bind_eq_ok.mp run
      have returns : (call.perform attempt >>= fun _ => pure ()) before = .ok () middle := returns
      obtain ⟨answer, _, performed, isPure⟩ := Exec.bind_eq_ok.mp returns
      obtain ⟨_, rfl⟩ := Exec.pure_eq_ok.mp isPure
      rw [passed_cons, ← List.append_assoc]
      exact ih (perform_accounts sends call accounts performed) run

theorem ofRingBuffer_accounts {rb : RingBuffer} {buf : List UInt8} (peer : Nat → CtrlBlock)
    (sized : rb.writeSize = buf.length) (positive : 0 < buf.length)
    (isWord : rb.privateOffsetW < usizeModulus) :
    Accounts form rb.privateOffsetW [] (ofRingBuffer rb buf peer) where
  passed := rfl
  copied := rfl
  holds := RingBuffer.Holds.empty sized positive isWord

end Accounts

end Sender

end IceCap.Ring
