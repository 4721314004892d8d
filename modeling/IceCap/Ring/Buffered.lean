import IceCap.Ring.Calls

/-!
# The buffered ring buffer

`BufferedRingBuffer`: a ring buffer with a queue for what does not fit.  Each
method of the ring buffer that it calls is a whole call, so that a method here
is a sequence of such calls.
-/

set_option autoImplicit false

namespace IceCap.Ring

open IceCap.Library

/-- Two parties, and the queue of the one of them that buffers what it sends. -/
structure Link where
  parties : Parties
  q : List (List UInt8)

/-- What the last `read` has returned. -/
def Party.lastRead (party : Party) : List UInt8 :=
  match party.consumed.getLast? with
  | some (.returned bytes) => bytes
  | _ => []

section Values

def pollRead (who : Who) : Exec Empty Parties Nat := do
  let _ ← call who .pollRead
  let parties ← Exec.get
  pure (parties who).readable

def pollWrite (who : Who) : Exec Empty Parties Nat := do
  let _ ← call who .pollWrite
  let parties ← Exec.get
  pure (parties who).writable

def read (who : Who) (n : Nat) : Exec Empty Parties (List UInt8) := do
  let _ ← call who (.read n)
  let parties ← Exec.get
  pure (parties who).lastRead

end Values

namespace BufferedRingBuffer

variable (who : Who)

/-- A method of `ring_buffer()`. -/
def ringBuffer {α : Type} (method : Exec Empty Parties α) : Exec Empty Link α :=
  Exec.focus Link.parties (fun parties link => { link with parties }) method

/-- The loop of `flush_tx`: whether anything has been written, and what is left of the queue. -/
def flushTxFrom : List (List UInt8) → Exec Empty Parties (Bool × List (List UInt8))
  | [] => pure (false, [])
  | buf :: rest => do
      let n ← pollWrite who
      if n < buf.length then pure (false, buf :: rest)
      else do
        let _ ← call who (.write buf)
        let later ← flushTxFrom rest
        pure (true, later.2)

def flushTx : Exec Empty Link Bool := do
  let link ← Exec.get
  let flushed ← ringBuffer (flushTxFrom who link.q)
  Exec.modify fun link => { link with q := flushed.2 }
  pure flushed.1

/-- The end of the methods that write. -/
def notifyIf (notify : Bool) : Exec Empty Link Bool :=
  if notify then do
    let _ ← ringBuffer (call who .notifyWrite)
    pure notify
  else pure notify

def rxCallback : Exec Empty Link Unit := pure ()

def txCallback : Exec Empty Link Bool := do
  let notify ← flushTx who
  notifyIf who notify

def poll : Exec Empty Link Nat := ringBuffer (pollRead who)

/-- The bytes put at the front of the buffer, which has `n`. -/
def rxInto (n : Nat) : Exec Empty Link (List UInt8) := do
  let available ← poll who
  let nReal := min n available
  if 0 < nReal then do
    let bytes ← ringBuffer (read who nReal)
    let _ ← ringBuffer (call who .notifyRead)
    pure bytes
  else pure []

def rx : Exec Empty Link (Option (List UInt8)) := do
  let n ← poll who
  if 0 < n then do
    let bytes ← ringBuffer (read who n)
    let _ ← ringBuffer (call who .notifyRead)
    pure (some bytes)
  else pure none

/-- Whether the buffer has to wait, behind others or for room. -/
def mustWait (buf : List UInt8) : Exec Empty Link Bool := do
  let link ← Exec.get
  if link.q ≠ [] then pure true
  else do
    let n ← ringBuffer (pollWrite who)
    pure (decide (n < buf.length))

def tx (buf : List UInt8) : Exec Empty Link Bool := do
  let flushed ← flushTx who
  let wait ← mustWait who buf
  if wait then do
    Exec.modify fun link => { link with q := link.q ++ [buf] }
    notifyIf who flushed
  else do
    let _ ← ringBuffer (call who (.write buf))
    notifyIf who true

/-! ## What they leave alone -/

section Keeps

variable {who}

/-- The part of a link that only the other party changes, except by reading or asking for
notifications. -/
def aside (who : Who) (link : Link) := Ring.aside who link.parties

theorem ringBuffer_keeps {α : Type} {method : Exec Empty Parties α}
    (keeps : Exec.Keeps (Ring.aside who) method) : Exec.Keeps (aside who) (ringBuffer method) :=
  keeps.inside fun _ _ => rfl

theorem pollRead_keeps : Exec.Keeps (Ring.aside who) (pollRead who) :=
  (call_keeps rfl rfl).bind fun _ => Exec.Keeps.get.bind fun _ => .pure _

theorem pollWrite_keeps : Exec.Keeps (Ring.aside who) (pollWrite who) :=
  (call_keeps rfl rfl).bind fun _ => Exec.Keeps.get.bind fun _ => .pure _

theorem flushTxFrom_keeps (q : List (List UInt8)) :
    Exec.Keeps (Ring.aside who) (flushTxFrom who q) := by
  induction q with
  | nil => exact .pure _
  | cons buf rest ih =>
      apply pollWrite_keeps.bind
      intro n
      apply Exec.Keeps.ite (.pure _)
      exact (call_keeps rfl rfl).bind fun _ => ih.bind fun _ => .pure _

theorem flushTx_keeps : Exec.Keeps (aside who) (flushTx who) := by
  apply Exec.Keeps.get.bind
  intro link
  apply (ringBuffer_keeps (flushTxFrom_keeps link.q)).bind
  intro result
  refine Exec.Keeps.bind (.modify ?_) fun _ => .pure _
  exact fun _ => rfl

theorem notifyIf_keeps (notify : Bool) : Exec.Keeps (aside who) (notifyIf who notify) := by
  apply Exec.Keeps.ite
  · exact (ringBuffer_keeps (call_keeps rfl rfl)).bind fun _ => .pure _
  · exact .pure _

theorem txCallback_keeps : Exec.Keeps (aside who) (txCallback who) :=
  flushTx_keeps.bind notifyIf_keeps

theorem mustWait_keeps (buf : List UInt8) : Exec.Keeps (aside who) (mustWait who buf) := by
  apply Exec.Keeps.get.bind
  intro link
  apply Exec.Keeps.ite (.pure _)
  exact (ringBuffer_keeps pollWrite_keeps).bind fun _ => .pure _

theorem tx_keeps (buf : List UInt8) : Exec.Keeps (aside who) (tx who buf) := by
  apply flushTx_keeps.bind
  intro flushed
  apply (mustWait_keeps buf).bind
  intro wait
  apply Exec.Keeps.ite
  · refine Exec.Keeps.bind (.modify ?_) fun _ => notifyIf_keeps flushed
    exact fun _ => rfl
  · exact (ringBuffer_keeps (call_keeps rfl rfl)).bind fun _ => notifyIf_keeps true

theorem poll_keeps : Exec.Keeps (aside who) (poll who) := ringBuffer_keeps pollRead_keeps

end Keeps

/-! ## What is read -/

section Reads
variable {who} {before after : Link}

theorem ringBuffer_eq_ok {α : Type} {method : Exec Empty Parties α} {value : α} :
    ringBuffer method before = .ok value after ↔
      ∃ parties, method before.parties = .ok value parties ∧ { before with parties } = after :=
  Exec.focus_eq_ok

theorem pollRead_eq_ok {parties last : Parties} {n : Nat}
    (run : pollRead who parties = .ok n last) :
    (parties who).rb.pollRead (parties who.other).ctrl.offsetW = some n ∧
      last who = { parties who with readable := n } ∧ last who.other = parties who.other := by
  simp only [pollRead, Exec.bind_eq_ok, Exec.get_eq_ok, Exec.pure_eq_ok] at run
  obtain ⟨_, middle, called, _, _, ⟨rfl, rfl⟩, rfl, rfl⟩ := run
  obtain ⟨idle, stored, performed, finished, _⟩ := call_eq_ok.mp called
  simp only [perform, modifyParty, Exec.bind_eq_ok, Exec.get_eq_ok, Exec.unwrap_eq_ok,
    Exec.modify_eq_ok] at performed
  obtain ⟨_, _, ⟨rfl, rfl⟩, result, _, ⟨found, rfl⟩, rfl⟩ := performed
  rw [finish_idle (by simpa using idle)] at finished
  obtain ⟨_, rfl⟩ := Outcome.ok.inj finished
  simpa [who.other_ne] using found

theorem read_offsetR {parties last : Parties} {n : Nat} {bytes : List UInt8}
    (run : read who n parties = .ok bytes last) :
    (last who).rb.privateOffsetR = wrappingAdd (parties who).rb.privateOffsetR n := by
  simp only [read, Exec.bind_eq_ok, Exec.get_eq_ok, Exec.pure_eq_ok] at run
  obtain ⟨_, _, called, _, _, ⟨rfl, rfl⟩, _, rfl⟩ := run
  exact (call_called called).offsetR

theorem read_keeps (n : Nat) : Exec.Keeps (peerSide who) (read who n) :=
  (call_keeps_peerSide rfl).bind fun _ => Exec.Keeps.get.bind fun _ => .pure _

theorem rxInto_keeps (n : Nat) :
    Exec.Keeps (fun link : Link => peerSide who link.parties) (rxInto who n) := by
  have same : ∀ (parties : Parties) (link : Link), { link with parties }.parties = parties :=
    fun _ _ => rfl
  apply Exec.Keeps.bind (poll_keeps.comp Prod.fst)
  intro available
  apply Exec.Keeps.ite
  · exact ((read_keeps _).inside same).bind fun _ =>
      ((call_keeps_peerSide rfl).inside same).bind fun _ => .pure _
  · exact .pure _

/-- How far `rx_into` goes on. -/
theorem rxInto_offsetR {n : Nat} {bytes : List UInt8}
    (run : rxInto who n before = .ok bytes after) :
    ∃ available, (before.parties who).rb.pollRead (before.parties who.other).ctrl.offsetW =
        some available ∧
      (after.parties who).rb.privateOffsetR = if 0 < min n available
        then wrappingAdd (before.parties who).rb.privateOffsetR (min n available)
        else (before.parties who).rb.privateOffsetR := by
  obtain ⟨available, middle, polled, rest⟩ := Exec.bind_eq_ok.mp run
  obtain ⟨parties, polledRing, rfl⟩ := ringBuffer_eq_ok.mp polled
  obtain ⟨isSome, ofWho, _⟩ := pollRead_eq_ok polledRing
  refine ⟨available, isSome, ?_⟩
  split at rest
  · next some =>
      obtain ⟨bytes, _, readRun, rest⟩ := Exec.bind_eq_ok.mp rest
      obtain ⟨parties, readRing, rfl⟩ := ringBuffer_eq_ok.mp readRun
      obtain ⟨_, _, notifyRun, last⟩ := Exec.bind_eq_ok.mp rest
      obtain ⟨notified, notifyRing, rfl⟩ := ringBuffer_eq_ok.mp notifyRun
      obtain ⟨_, rfl⟩ := Exec.pure_eq_ok.mp last
      rw [if_pos some]
      have still := (call_called notifyRing).offsetR
      have offsetR := read_offsetR readRing
      simp only [ofWho] at offsetR
      exact still.trans offsetR
  · next none =>
      obtain ⟨_, rfl⟩ := Exec.pure_eq_ok.mp rest
      rw [if_neg none]
      simp only [ofWho]

end Reads

end BufferedRingBuffer

end IceCap.Ring
