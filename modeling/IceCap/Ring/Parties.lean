import Mathlib.Logic.Relation
import IceCap.Library.Exec
import IceCap.Ring.Buffer

/-!
# Two parties over a pair of ring buffers

Each party writes to its own buffer and control block and reads those of its
peer.  Every load and store of a control block is a step of its own: a call that
makes several of them leaves a `pc` behind, and the peer may step in between.

The fields from `writable` on are not in the source.  They record what the last
polls allowed and what has been written and consumed.
-/

set_option autoImplicit false

namespace IceCap.Ring

open IceCap.Library

inductive Who where
  | a
  | b
  deriving DecidableEq, Repr

def Who.other : Who → Who
  | a => b
  | b => a

/-- What is left of a call. -/
inductive Pc where
  | idle
  /-- `notify_read` and `notify_write`, after the offset has been stored. -/
  | test (field : Status)
  /-- The `modify` of the peer's status: about to load, and about to store. -/
  | clear (field : Status)
  | cleared (field : Status) (status : BitVec 64)
  /-- `enable_notify_read` and the like: about to store the own status. -/
  | set (status : BitVec 64)
  deriving DecidableEq, Repr

inductive Chunk where
  | peeked (bytes : List UInt8)
  | skipped (n : Nat)
  | returned (bytes : List UInt8)
  deriving DecidableEq, Repr

structure Party where
  rb : RingBuffer
  ctrl : CtrlBlock
  buf : List UInt8
  pc : Pc
  kicks : List Status
  writable : Nat
  readable : Nat
  written : List UInt8
  consumed : List Chunk
  deriving DecidableEq, Repr

abbrev Parties := Who → Party

/-- Two new ring buffers over zeroed control blocks. -/
def connect (bufs : Who → List UInt8) : Parties := fun who => {
  rb := RingBuffer.new (bufs who.other).length (bufs who).length
  ctrl := ⟨0, 0, 0⟩
  buf := bufs who
  pc := .idle
  kicks := []
  writable := 0
  readable := 0
  written := []
  consumed := [] }

inductive Action where
  | pollRead
  | pollWrite
  | peek (n : Nat)
  | skip (n : Nat)
  | read (n : Nat)
  | write (buf : List UInt8)
  | notifyRead
  | notifyWrite
  /-- `enable_notify_*` and `disable_notify_*`. -/
  | setNotify (field : Status) (value : Bool)
  /-- The next access of the call under way. -/
  | proceed
  deriving DecidableEq, Repr

/-- A party makes one call at a time, writes no more than the last `poll_write` allowed, and reads
no more than the last `poll_read` did. -/
def Allowed (party : Party) : Action → Prop
  | .peek n => party.pc = .idle ∧ n ≤ party.readable
  | .skip n => party.pc = .idle ∧ n ≤ party.readable
  | .read n => party.pc = .idle ∧ n ≤ party.readable
  | .write buf => party.pc = .idle ∧ buf.length ≤ party.writable
  | .proceed => party.pc ≠ .idle
  | _ => party.pc = .idle

instance (party : Party) : (action : Action) → Decidable (Allowed party action)
  | .peek n => inferInstanceAs (Decidable (party.pc = .idle ∧ n ≤ party.readable))
  | .skip n => inferInstanceAs (Decidable (party.pc = .idle ∧ n ≤ party.readable))
  | .read n => inferInstanceAs (Decidable (party.pc = .idle ∧ n ≤ party.readable))
  | .write buf => inferInstanceAs (Decidable (party.pc = .idle ∧ buf.length ≤ party.writable))
  | .proceed => inferInstanceAs (Decidable (party.pc ≠ .idle))
  | .pollRead => inferInstanceAs (Decidable (party.pc = .idle))
  | .pollWrite => inferInstanceAs (Decidable (party.pc = .idle))
  | .notifyRead => inferInstanceAs (Decidable (party.pc = .idle))
  | .notifyWrite => inferInstanceAs (Decidable (party.pc = .idle))
  | .setNotify _ _ => inferInstanceAs (Decidable (party.pc = .idle))

def modifyParty (who : Who) (update : Party → Party) : Exec Empty Parties Unit :=
  Exec.modify fun parties => Function.update parties who (update (parties who))

/-- The status registers belong to the two control blocks. -/
def proceed (who : Who) (party peer : Party) : Exec Empty Parties Unit :=
  match party.pc with
  | .idle => pure ()
  | .test field => modifyParty who fun party =>
      { party with pc := if field.read peer.ctrl.status then .clear field else .idle }
  | .clear field => modifyParty who fun party =>
      { party with pc := .cleared field (field.modify false peer.ctrl.status) }
  | .cleared field status => do
      modifyParty who.other fun peer => { peer with ctrl := { peer.ctrl with status } }
      modifyParty who fun party => { party with pc := .idle, kicks := field :: party.kicks }
  | .set status => modifyParty who fun party =>
      { party with pc := .idle, ctrl := { party.ctrl with status } }

def perform (who : Who) (action : Action) : Exec Empty Parties Unit := do
  let parties ← Exec.get
  let party := parties who
  let peer := parties who.other
  match action with
  | .pollRead => do
      let n ← Exec.unwrap (party.rb.pollRead peer.ctrl.offsetW)
      modifyParty who fun party => { party with readable := n }
  | .pollWrite => do
      let n ← Exec.unwrap (party.rb.pollWrite peer.ctrl.offsetR)
      modifyParty who fun party => { party with writable := n }
  | .peek n => do
      let bytes ← Exec.unwrap (party.rb.peek peer.buf n)
      modifyParty who fun party => { party with consumed := party.consumed ++ [.peeked bytes] }
  | .skip n => modifyParty who fun party =>
      { party with
        rb := party.rb.skip n
        readable := party.readable - n
        consumed := party.consumed ++ [.skipped n] }
  | .read n => do
      let (bytes, rb) ← Exec.unwrap (party.rb.read peer.buf n)
      modifyParty who fun party =>
        { party with
          rb
          readable := party.readable - n
          consumed := party.consumed ++ [.returned bytes] }
  | .write bytes => do
      let (buf, rb) ← Exec.unwrap (party.rb.write party.buf bytes)
      modifyParty who fun party =>
        { party with
          rb
          buf
          writable := party.writable - bytes.length
          written := party.written ++ bytes }
  | .notifyRead => modifyParty who fun party =>
      { party with
        ctrl := { party.ctrl with offsetR := party.rb.privateOffsetR }
        pc := .test .notifyWrite }
  | .notifyWrite => modifyParty who fun party =>
      { party with
        ctrl := { party.ctrl with offsetW := party.rb.privateOffsetW }
        pc := .test .notifyRead }
  | .setNotify field value => modifyParty who fun party =>
      { party with pc := .set (field.modify value party.ctrl.status) }
  | .proceed => proceed who party peer

def Step (before after : Parties) : Prop :=
  ∃ who action, Allowed (before who) action ∧ perform who action before = .ok () after

/-- A given order of calls. -/
def performAll (calls : List (Who × Action)) : Exec Empty Parties Unit :=
  Exec.forEach calls fun call => do
    let parties ← Exec.get
    Exec.assert (Allowed (parties call.1) call.2)
    perform call.1 call.2

theorem performAll_run {calls : List (Who × Action)} {start final : Parties}
    (run : performAll calls start = .ok () final) : Relation.ReflTransGen Step start final := by
  refine Exec.forEach_preserves (Relation.ReflTransGen Step start) ?_ .refl run
  rintro ⟨who, action⟩ _ before after ⟨⟩ reached performed
  simp only [Exec.bind_eq_ok, Exec.get_eq_ok, Exec.assert_eq_ok] at performed
  obtain ⟨_, _, ⟨rfl, rfl⟩, ⟨⟩, _, ⟨allowed, rfl⟩, performed⟩ := performed
  exact reached.tail ⟨who, action, allowed, performed⟩

/-! ## What has been consumed -/

def Chunk.length : Chunk → Nat
  | peeked _ => 0
  | skipped n => n
  | returned bytes => bytes.length

def consumedLength (consumed : List Chunk) : Nat := (consumed.map Chunk.length).sum

/-- The chunks are those of the stream, in order: a peek shows the bytes that come next, a read
takes them, a skip leaves them out. -/
def Follows : List Chunk → List UInt8 → Prop
  | [], _ => True
  | .peeked bytes :: rest, stream => bytes <+: stream ∧ Follows rest stream
  | .skipped n :: rest, stream => n ≤ stream.length ∧ Follows rest (stream.drop n)
  | .returned bytes :: rest, stream =>
      bytes <+: stream ∧ Follows rest (stream.drop bytes.length)

/-- The bytes that `read` has returned. -/
def returnedBytes : List Chunk → List UInt8
  | [] => []
  | .returned bytes :: rest => bytes ++ returnedBytes rest
  | _ :: rest => returnedBytes rest

def Chunk.IsSkip : Chunk → Prop
  | skipped _ => True
  | _ => False

/-- Where nothing is skipped, the bytes returned are the first ones of the stream. -/
theorem returnedBytes_prefix {consumed : List Chunk} {stream : List UInt8}
    (follows : Follows consumed stream) (noSkip : ∀ chunk ∈ consumed, ¬ chunk.IsSkip) :
    returnedBytes consumed <+: stream := by
  induction consumed generalizing stream with
  | nil => exact List.nil_prefix
  | cons chunk rest ih =>
      have later : ∀ chunk ∈ rest, ¬ chunk.IsSkip := fun other member =>
        noSkip other (List.mem_cons_of_mem _ member)
      cases chunk with
      | peeked bytes => exact ih follows.2 later
      | skipped n => exact absurd trivial (noSkip (.skipped n) List.mem_cons_self)
      | returned bytes =>
          obtain ⟨⟨remainder, rfl⟩, follows⟩ := follows
          rw [List.drop_left] at follows
          exact (List.prefix_append_right_inj bytes).mpr (ih follows later)

theorem Follows.append {consumed : List Chunk} {stream more : List UInt8}
    (follows : Follows consumed stream) : Follows consumed (stream ++ more) := by
  induction consumed generalizing stream with
  | nil => trivial
  | cons chunk rest ih =>
      cases chunk with
      | peeked bytes => exact ⟨follows.1.trans (List.prefix_append _ _), ih follows.2⟩
      | skipped n =>
          refine ⟨by rw [List.length_append]; have := follows.1; omega, ?_⟩
          rw [List.drop_append_of_le_length follows.1]
          exact ih follows.2
      | returned bytes =>
          refine ⟨follows.1.trans (List.prefix_append _ _), ?_⟩
          rw [List.drop_append_of_le_length follows.1.length_le]
          exact ih follows.2

/-- One more chunk, taken where the others end. -/
theorem Follows.snoc {consumed : List Chunk} {stream : List UInt8} {chunk : Chunk}
    (follows : Follows consumed stream)
    (next : Follows [chunk] (stream.drop (consumedLength consumed))) :
    Follows (consumed ++ [chunk]) stream := by
  induction consumed generalizing stream with
  | nil => simpa [consumedLength] using next
  | cons first rest ih =>
      cases first with
      | peeked bytes =>
          refine ⟨follows.1, ih follows.2 ?_⟩
          simpa [consumedLength, Chunk.length] using next
      | skipped n =>
          refine ⟨follows.1, ih follows.2 ?_⟩
          simpa [consumedLength, Chunk.length] using next
      | returned bytes =>
          refine ⟨follows.1, ih follows.2 ?_⟩
          simpa [consumedLength, Chunk.length] using next

theorem consumedLength_snoc (consumed : List Chunk) (chunk : Chunk) :
    consumedLength (consumed ++ [chunk]) = consumedLength consumed + chunk.length := by
  simp [consumedLength]

end IceCap.Ring
