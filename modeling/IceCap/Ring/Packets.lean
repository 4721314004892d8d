import IceCap.Library.Framing
import IceCap.Ring.Fifo
import IceCap.Ring.Packet

/-!
# Two parties that exchange packets

The methods of `PacketRingBuffer` as sequences of calls of `RingBuffer`: every
such call is a step of its own, so that a method that makes several leaves a
`pc` behind and the peer may step in between.  `packets_invariant` keeps the
streams of the two parties in frames, whatever the order of their steps.

`accepted` and `returned` are not in the source.  They record the buffers for
which `write` has returned true and what `read` has returned.
-/

set_option autoImplicit false

namespace IceCap.Ring

open IceCap.Library
open PacketRingBuffer (headerSize packetSize serializeHeader)

/-- The next call of a method under way. -/
inductive PacketPc where
  | idle
  /-- `write`, once there is room for the packet. -/
  | writeHeader (buf : List UInt8)
  | writePayload (buf : List UInt8)
  /-- `read`, once there is a header. -/
  | peekHeader
  | pollAgain (n : Nat)
  | skipHeader (n : Nat)
  | readPayload (n : Nat)
  deriving DecidableEq, Repr

structure PacketParty where
  pc : PacketPc
  accepted : List (List UInt8)
  returned : List (List UInt8)
  deriving DecidableEq, Repr

structure PacketParties where
  parties : Parties
  packets : Who → PacketParty

def connectPackets (bufs : Who → List UInt8) : PacketParties :=
  ⟨connect bufs, fun _ => ⟨.idle, [], []⟩⟩

inductive PacketAction where
  | write (buf : List UInt8)
  | read
  | notifyRead
  | notifyWrite
  | setNotify (field : Status) (value : Bool)
  /-- The next step of the method under way. -/
  | proceed
  deriving DecidableEq, Repr

/-- What the last `peek` or `read` has put into its buffer. -/
def Party.lastBytes (party : Party) : List UInt8 :=
  match party.consumed.getLast? with
  | some (.peeked bytes) => bytes
  | some (.returned bytes) => bytes
  | _ => []

namespace PacketPc

/-- The call that is made next. -/
def access : PacketPc → Action
  | idle => .proceed
  | writeHeader buf => .write (serializeHeader buf.length)
  | writePayload buf => .write buf
  | peekHeader => .peek headerSize
  | pollAgain _ => .pollRead
  | skipHeader _ => .skip headerSize
  | readPayload n => .read n

/-- How the method goes on after that call. -/
def next (packet : PacketParty) (party : Party) : PacketPc → PacketParty
  | idle => packet
  | writeHeader buf => { packet with pc := .writePayload buf }
  | writePayload buf => { packet with pc := .idle, accepted := packet.accepted ++ [buf] }
  | peekHeader => { packet with pc := .pollAgain (ofLeBytes party.lastBytes) }
  | pollAgain n => { packet with
      pc := if wrappingSub party.readable headerSize < n then .idle else .skipHeader n }
  | skipHeader n => { packet with pc := .readPayload n }
  | readPayload _ => { packet with pc := .idle, returned := packet.returned ++ [party.lastBytes] }

end PacketPc

namespace PacketAction

/-- The first call of a method, or the next one. -/
def access (party : Party) (packet : PacketParty) : PacketAction → Action
  | write _ => .pollWrite
  | read => .pollRead
  | notifyRead => .notifyRead
  | notifyWrite => .notifyWrite
  | setNotify field value => .setNotify field value
  | proceed => if party.pc = .idle then packet.pc.access else .proceed

/-- How it goes on, given the party before and after the call. -/
def next (before after : Party) (packet : PacketParty) : PacketAction → PacketParty
  | write buf => { packet with
      pc := if after.writable < packetSize buf then .idle else .writeHeader buf }
  | read => { packet with pc := if after.readable < headerSize then .idle else .peekHeader }
  | proceed => if before.pc = .idle then packet.pc.next packet after else packet
  | _ => packet

end PacketAction

/-- A party makes one call at a time. -/
def PacketAllowed (party : Party) (packet : PacketParty) : PacketAction → Prop
  | .proceed => party.pc ≠ .idle ∨ packet.pc ≠ .idle
  | _ => party.pc = .idle ∧ packet.pc = .idle

def performPacket (who : Who) (action : PacketAction) : Exec Empty PacketParties Unit := do
  let before ← Exec.get
  Exec.focus PacketParties.parties (fun parties state => { state with parties })
    (perform who (action.access (before.parties who) (before.packets who)))
  Exec.modify fun state => { state with
    packets := Function.update state.packets who
      (action.next (before.parties who) (state.parties who) (state.packets who)) }

def PacketStep (before after : PacketParties) : Prop :=
  ∃ who action, PacketAllowed (before.parties who) (before.packets who) action ∧
    performPacket who action before = .ok () after

theorem performPacket_eq_ok {who : Who} {action : PacketAction} {before after : PacketParties} :
    performPacket who action before = .ok () after ↔
      perform who (action.access (before.parties who) (before.packets who)) before.parties =
        .ok () after.parties ∧
      after.packets = Function.update before.packets who
        (action.next (before.parties who) (after.parties who) (before.packets who)) := by
  simp only [performPacket, Exec.bind_eq_ok, Exec.get_eq_ok, Exec.focus_eq_ok, Exec.modify_eq_ok]
  constructor
  · rintro ⟨_, _, ⟨rfl, rfl⟩, _, _, ⟨parties, performed, rfl⟩, rfl⟩
    exact ⟨performed, rfl⟩
  · rintro ⟨performed, isPackets⟩
    refine ⟨_, _, ⟨rfl, rfl⟩, (), _, ⟨_, performed, rfl⟩, ?_⟩
    rw [← isPackets]

/-! ## The streams in frames -/

/-- The streams of two parties that exchange packets. -/
abbrev packetFrames (items : List (List UInt8)) : List UInt8 := frames serializeHeader items

/-- The part of a packet that has been written. -/
def PacketPc.begun : PacketPc → List UInt8
  | writePayload buf => serializeHeader buf.length
  | _ => []

/-- How much of a packet is still to be written. -/
def PacketPc.toWrite : PacketPc → Nat
  | writeHeader buf => packetSize buf
  | writePayload buf => buf.length
  | _ => 0

/-- How much of a packet has been skipped. -/
def PacketPc.skipped : PacketPc → Nat
  | readPayload _ => headerSize
  | _ => 0

/-- The next packet has this length. -/
def NextLength (accepted returned : List (List UInt8)) (n : Nat) : Prop :=
  ∃ buf, returned ++ [buf] <+: accepted ∧ buf.length = n

/-- What the reader goes by. -/
def PacketPc.Awaits (accepted returned : List (List UInt8)) (readable : Nat) : PacketPc → Prop
  | peekHeader => headerSize ≤ readable
  | pollAgain n => headerSize ≤ readable ∧ NextLength accepted returned n
  | skipHeader n => headerSize + n ≤ readable ∧ NextLength accepted returned n
  | readPayload n => n ≤ readable ∧ NextLength accepted returned n
  | _ => True

theorem PacketPc.Awaits.mono {accepted more returned : List (List UInt8)} {readable : Nat}
    {pc : PacketPc} (awaits : pc.Awaits accepted returned readable) (longer : accepted <+: more) :
    pc.Awaits more returned readable := by
  have still : ∀ {n}, NextLength accepted returned n → NextLength more returned n :=
    fun ⟨buf, isNext, length⟩ => ⟨buf, isNext.trans longer, length⟩
  cases pc with
  | idle | writeHeader buf | writePayload buf => trivial
  | peekHeader => exact awaits
  | pollAgain n | skipHeader n | readPayload n => exact ⟨awaits.1, still awaits.2⟩

/-- From one party to the other: whole packets are published, and whole packets are returned. -/
structure Framed (writer : Party) (sending : PacketParty) (reader : Party)
    (receiving : PacketParty) : Prop where
  written : writer.written = packetFrames sending.accepted ++ sending.pc.begun
  published : ∃ shown, shown <+: sending.accepted ∧
    writer.ctrl.offsetW = (packetFrames shown).length
  writable : sending.pc.toWrite ≤ writer.writable
  returned : receiving.returned <+: sending.accepted
  consumed : consumedLength reader.consumed =
    (packetFrames receiving.returned).length + receiving.pc.skipped
  awaits : receiving.pc.Awaits sending.accepted receiving.returned reader.readable

def PacketInvariant (state : PacketParties) : Prop :=
  ∀ who, Framed (state.parties who) (state.packets who) (state.parties who.other)
    (state.packets who.other)

/-- Lengths that fit into a header. -/
def Short (state : PacketParties) : Prop :=
  ∀ who, ∀ buf ∈ (state.packets who).accepted, buf.length < 2 ^ 32

theorem ofLeBytes_serializeHeader (n : Nat) : ofLeBytes (serializeHeader n) = n % 2 ^ 32 := by
  rw [serializeHeader, ofLeBytes_leBytes]
  rfl

theorem length_serializeHeader (n : Nat) : (serializeHeader n).length = headerSize :=
  length_leBytes _ _

/-! ## What the reader finds -/

section Reader
variable {writer reader : Party} {sending receiving : PacketParty}

/-- Where the reader stands between two packets and more has been published, a whole packet has
been. -/
theorem Framed.shows (framed : Framed writer sending reader receiving)
    (more : (packetFrames receiving.returned).length < writer.ctrl.offsetW) :
    ∃ buf, receiving.returned ++ [buf] <+: sending.accepted := by
  obtain ⟨shown, isShown, published⟩ := framed.published
  rw [published] at more
  obtain ⟨buf, isNext⟩ := next_of_length_lt framed.returned isShown more
  exact ⟨buf, isNext.trans isShown⟩

/-- The bytes of the next packet. -/
theorem Framed.next {buf : List UInt8} (framed : Framed writer sending reader receiving)
    (isNext : receiving.returned ++ [buf] <+: sending.accepted) :
    serializeHeader buf.length ++ buf <+:
      writer.written.drop (packetFrames receiving.returned).length := by
  rw [framed.written]
  exact frames_drop isNext

/-- The header that is peeked tells the length of the next packet. -/
theorem Framed.peeked {bytes : List UInt8} (framed : Framed writer sending reader receiving)
    (direction : Direction writer reader) (isPc : receiving.pc = .peekHeader)
    (short : ∀ buf ∈ sending.accepted, buf.length < 2 ^ 32) (length : bytes.length = headerSize)
    (isPeeked : bytes <+: writer.written.drop (consumedLength reader.consumed)) :
    NextLength sending.accepted receiving.returned (ofLeBytes bytes) := by
  have awaits := framed.awaits
  have consumed := framed.consumed
  simp only [isPc, PacketPc.Awaits, PacketPc.skipped] at awaits consumed
  have readable := direction.readable
  have positive : 0 < headerSize := by decide
  obtain ⟨buf, isNext⟩ := framed.shows (by omega)
  refine ⟨buf, isNext, ?_⟩
  have bytesNext := framed.next isNext
  rw [consumed, Nat.add_zero] at isPeeked
  have isHeader : bytes <+: serializeHeader buf.length := by
    have within : bytes <+: serializeHeader buf.length ++ buf :=
      List.prefix_of_prefix_length_le isPeeked bytesNext (by
        rw [List.length_append, length_serializeHeader, length]
        exact Nat.le_add_right _ _)
    exact List.prefix_of_prefix_length_le within (List.prefix_append _ _) (by
      rw [length_serializeHeader, length])
  rw [isHeader.eq_of_length (by rw [length_serializeHeader, length]), ofLeBytes_serializeHeader]
  exact (Nat.mod_eq_of_lt (short buf (isNext.subset (by simp)))).symm

/-- What is read behind the header is the packet. -/
theorem Framed.read {bytes : List UInt8} (framed : Framed writer sending reader receiving)
    (isPc : receiving.pc = .readPayload bytes.length)
    (isRead : bytes <+: writer.written.drop (consumedLength reader.consumed)) :
    receiving.returned ++ [bytes] <+: sending.accepted := by
  have awaits := framed.awaits
  have consumed := framed.consumed
  simp only [isPc, PacketPc.Awaits, PacketPc.skipped] at awaits consumed
  obtain ⟨_, buf, isNext, length⟩ := awaits
  have behind : buf <+: writer.written.drop (consumedLength reader.consumed) := by
    obtain ⟨later, isLater⟩ := framed.next isNext
    refine ⟨later, ?_⟩
    rw [consumed, ← List.drop_drop, ← isLater, ← length_serializeHeader buf.length,
      List.append_assoc, List.drop_left]
  rwa [(List.prefix_of_prefix_length_le isRead behind (by rw [length])).eq_of_length length.symm]

end Reader

/-! ## Call by call -/

section Steps
variable {state after : PacketParties} {who : Who}

theorem PacketInvariant.update {party : Party} {packet : PacketParty}
    (asWriter : Framed party packet (state.parties who.other) (state.packets who.other))
    (asReader : Framed (state.parties who.other) (state.packets who.other) party packet)
    (isParties : after.parties = Function.update state.parties who party)
    (isPackets : after.packets = Function.update state.packets who packet) :
    PacketInvariant after := by
  intro other
  rw [isParties, isPackets]
  rcases who.eq_or_other other with rfl | rfl
  · rw [Function.update_self, Function.update_self, Function.update_of_ne other.other_ne,
      Function.update_of_ne other.other_ne]
    exact asWriter
  · rw [Who.other_other, Function.update_self, Function.update_self,
      Function.update_of_ne who.other_ne, Function.update_of_ne who.other_ne]
    exact asReader

/-- What the rest of a notification leaves alone. -/
def streams (party : Party) : List UInt8 × Nat × Nat × Nat × List Chunk :=
  (party.written, party.ctrl.offsetW, party.writable, party.readable, party.consumed)

theorem proceed_keeps (who : Who) : Exec.Keeps (fun parties : Parties => fun other =>
    streams (parties other)) (perform who .proceed) := by
  have one : ∀ (stepping : Who) {update : Party → Party}, (∀ party, streams (update party) =
      streams party) → Exec.Keeps (fun parties : Parties => fun other => streams (parties other))
        (modifyParty stepping update) := by
    intro stepping update same
    refine Exec.Keeps.modify fun parties => funext fun other => ?_
    by_cases isStepping : other = stepping
    · rw [isStepping, Function.update_self, same]
    · rw [Function.update_of_ne isStepping]
  apply Exec.Keeps.get.bind
  intro parties
  simp only [proceed]
  split
  · exact .pure _
  · exact one who fun _ => rfl
  · exact one who fun _ => rfl
  · refine Exec.Keeps.bind (one who.other ?_) fun _ => one who ?_
    · exact fun _ => rfl
    · exact fun _ => rfl
  · exact one who fun _ => rfl

theorem Framed.of_streams {writer reader writerAfter readerAfter : Party}
    {sending receiving : PacketParty} (framed : Framed writer sending reader receiving)
    (sameWriter : streams writerAfter = streams writer)
    (sameReader : streams readerAfter = streams reader) :
    Framed writerAfter sending readerAfter receiving := by
  simp only [streams, Prod.mk.injEq] at sameWriter sameReader
  obtain ⟨written, offsetW, writable, _, _⟩ := sameWriter
  obtain ⟨_, _, _, readable, consumed⟩ := sameReader
  refine ⟨?_, ?_, ?_, framed.returned, ?_, ?_⟩
  · rw [written, framed.written]
  · rw [offsetW]
    exact framed.published
  · rw [writable]
    exact framed.writable
  · rw [consumed, framed.consumed]
  · rw [readable]
    exact framed.awaits

/-- The party has made a call, and its method goes on. -/
theorem performPacket_parties {action : PacketAction} {party : Party}
    (run : performPacket who action state = .ok () after)
    (isParty : perform who (action.access (state.parties who) (state.packets who)) state.parties =
      .ok () (Function.update state.parties who party)) :
    after.parties = Function.update state.parties who party ∧
      after.packets = Function.update state.packets who
        (action.next (state.parties who) party (state.packets who)) := by
  obtain ⟨performed, isPackets⟩ := performPacket_eq_ok.mp run
  have isParties := (Outcome.ok.inj (isParty.symm.trans performed)).2.symm
  rw [isParties, Function.update_self] at isPackets
  exact ⟨isParties, isPackets⟩

/-- A call that begins a method. -/
theorem start_framed {action : PacketAction} (invariant : Invariant state.parties)
    (framed : PacketInvariant state) (isPc : (state.packets who).pc = .idle)
    (starts : action ≠ .proceed) (run : performPacket who action state = .ok () after) :
    PacketInvariant after := by
  have asWriter := framed who
  have asReader : Framed (state.parties who.other) (state.packets who.other) (state.parties who)
      (state.packets who) := by
    simpa using framed who.other
  have written := asWriter.written
  have consumed := asReader.consumed
  simp only [isPc, PacketPc.begun, PacketPc.skipped] at written consumed
  cases action with
  | proceed => exact absurd rfl starts
  | write buf =>
      obtain ⟨n, polled, _⟩ := (invariant who).pollWrite
      obtain ⟨isParties, isPackets⟩ := performPacket_parties run (perform_pollWrite polled)
      refine .update ?_ ?_ isParties isPackets
      · simp only [PacketAction.next]
        split
        · exact { asWriter with written := written, writable := Nat.zero_le _ }
        · next room =>
            exact { asWriter with written := written, writable := Nat.le_of_not_lt room }
      · simp only [PacketAction.next]
        split
        · exact { asReader with consumed := consumed, awaits := trivial }
        · exact { asReader with consumed := consumed, awaits := trivial }
  | read =>
      obtain ⟨n, polled, _⟩ := Direction.pollRead (by simpa using invariant who.other)
      obtain ⟨isParties, isPackets⟩ := performPacket_parties run (perform_pollRead polled)
      refine .update ?_ ?_ isParties isPackets
      · simp only [PacketAction.next]
        split
        · exact { asWriter with written := written, writable := Nat.zero_le _ }
        · exact { asWriter with written := written, writable := Nat.zero_le _ }
      · simp only [PacketAction.next]
        split
        · exact { asReader with consumed := consumed, awaits := trivial }
        · next shown =>
            exact { asReader with consumed := consumed, awaits := Nat.le_of_not_lt shown }
  | notifyRead =>
      obtain ⟨isParties, isPackets⟩ := performPacket_parties run rfl
      refine .update ?_ ?_ isParties isPackets
      · exact { asWriter with }
      · exact { asReader with }
  | notifyWrite =>
      obtain ⟨isParties, isPackets⟩ := performPacket_parties run rfl
      refine .update ?_ ?_ isParties isPackets
      · have offsetW := (invariant who).offsetW
        rw [written, List.append_nil] at offsetW
        exact { asWriter with published := ⟨_, List.prefix_rfl, offsetW⟩ }
      · exact { asReader with }
  | setNotify field value =>
      obtain ⟨isParties, isPackets⟩ := performPacket_parties run rfl
      refine .update ?_ ?_ isParties isPackets
      · exact { asWriter with }
      · exact { asReader with }

/-- The next call of a method under way. -/
theorem next_framed (invariant : Invariant state.parties) (framed : PacketInvariant state)
    (short : Short state) (isIdle : (state.parties who).pc = .idle)
    (busy : (state.packets who).pc ≠ .idle) (run : performPacket who .proceed state = .ok () after) :
    PacketInvariant after := by
  have asWriter := framed who
  have asReader : Framed (state.parties who.other) (state.packets who.other) (state.parties who)
      (state.packets who) := by
    simpa using framed who.other
  have toReader : Direction (state.parties who.other) (state.parties who) := by
    simpa using invariant who.other
  have written := asWriter.written
  have writable := asWriter.writable
  have consumed := asReader.consumed
  have awaits := asReader.awaits
  have access : PacketAction.access (state.parties who) (state.packets who) .proceed =
      (state.packets who).pc.access := if_pos isIdle
  have next (party : Party) : PacketAction.next (state.parties who) party (state.packets who)
      .proceed = (state.packets who).pc.next (state.packets who) party := if_pos isIdle
  cases isPc : (state.packets who).pc with
  | idle => exact absurd isPc busy
  | writeHeader buf =>
      simp only [isPc, PacketPc.begun, PacketPc.toWrite, packetSize, List.append_nil]
        at written writable consumed
      have length := length_serializeHeader buf.length
      have fits : (serializeHeader buf.length).length ≤ (state.parties who).writable := by omega
      obtain ⟨dst, rb, isWritten, _⟩ := (invariant who).write fits
      obtain ⟨isParties, isPackets⟩ := performPacket_parties run (by
        rw [access, isPc]
        exact perform_write isWritten)
      rw [next, isPc] at isPackets
      refine .update ?_ ?_ isParties isPackets
      · refine { asWriter with written := ?_, writable := ?_ }
        · simp only [written, PacketPc.next, PacketPc.begun]
        · simp only [PacketPc.next, PacketPc.toWrite]
          omega
      · exact { asReader with consumed := consumed, awaits := trivial }
  | writePayload buf =>
      simp only [isPc, PacketPc.begun, PacketPc.toWrite] at written writable consumed
      obtain ⟨dst, rb, isWritten, _⟩ := (invariant who).write writable
      obtain ⟨isParties, isPackets⟩ := performPacket_parties run (by
        rw [access, isPc]
        exact perform_write isWritten)
      rw [next, isPc] at isPackets
      obtain ⟨shown, isShown, offsetW⟩ := asWriter.published
      have longer : (state.packets who).accepted <+: (state.packets who).accepted ++ [buf] :=
        List.prefix_append _ _
      refine .update ?_ ?_ isParties isPackets
      · refine { asWriter with
          written := ?_, published := ⟨shown, isShown.trans longer, offsetW⟩
          writable := Nat.zero_le _, returned := asWriter.returned.trans longer, awaits := ?_ }
        · simp [written, PacketPc.next, PacketPc.begun, packetFrames]
        · exact asWriter.awaits.mono longer
      · exact { asReader with consumed := consumed, awaits := trivial }
  | peekHeader =>
      simp only [isPc, PacketPc.begun, PacketPc.skipped, PacketPc.Awaits] at written consumed awaits
      obtain ⟨bytes, isPeeked, length, isNext⟩ := toReader.peek awaits
      obtain ⟨isParties, isPackets⟩ := performPacket_parties run (by
        rw [access, isPc]
        exact perform_peek isPeeked)
      rw [next, isPc] at isPackets
      refine .update ?_ ?_ isParties isPackets
      · exact { asWriter with written := written, writable := Nat.zero_le _ }
      · have nextLength := asReader.peeked toReader isPc (short who.other) length isNext
        refine { asReader with consumed := ?_, awaits := ⟨awaits, ?_⟩ }
        · rw [consumedLength_snoc]
          exact consumed
        · simpa [PacketPc.next, Party.lastBytes] using nextLength
  | pollAgain n =>
      simp only [isPc, PacketPc.begun, PacketPc.skipped, PacketPc.Awaits] at written consumed awaits
      obtain ⟨m, polled, direction⟩ := toReader.pollRead
      obtain ⟨isParties, isPackets⟩ := performPacket_parties run (by
        rw [access, isPc]
        exact perform_pollRead polled)
      rw [next, isPc] at isPackets
      refine .update ?_ ?_ isParties isPackets
      · simp only [PacketPc.next]
        split
        · exact { asWriter with written := written, writable := Nat.zero_le _ }
        · exact { asWriter with written := written, writable := Nat.zero_le _ }
      · simp only [PacketPc.next]
        split
        · exact { asReader with consumed := consumed, awaits := trivial }
        · next fits =>
            refine { asReader with consumed := consumed, awaits := ⟨?_, awaits.2⟩ }
            obtain ⟨_, _, isAvailable⟩ := RingBuffer.pollRead_eq_some.mp polled
            have ⟨_, readSized, _, small, _, offsetR, _, _, readable, _, _, _⟩ := toReader
            rw [wrappingSub_eq (by omega) (by omega)] at fits
            simp only
            omega
  | skipHeader n =>
      simp only [isPc, PacketPc.begun, PacketPc.skipped, PacketPc.Awaits] at written consumed awaits
      obtain ⟨isParties, isPackets⟩ := performPacket_parties run (by
        rw [access, isPc]
        rfl)
      rw [next, isPc] at isPackets
      refine .update ?_ ?_ isParties isPackets
      · exact { asWriter with written := written, writable := Nat.zero_le _ }
      · refine { asReader with consumed := ?_, awaits := ⟨?_, awaits.2⟩ }
        · rw [consumedLength_snoc]
          exact congrArg (· + headerSize) consumed
        · simp only
          omega
  | readPayload n =>
      simp only [isPc, PacketPc.begun, PacketPc.Awaits] at written awaits
      obtain ⟨bytes, isPeeked, rfl, isNext⟩ := toReader.peek awaits.1
      obtain ⟨isParties, isPackets⟩ := performPacket_parties run (by
        rw [access, isPc]
        exact perform_read isPeeked)
      rw [next, isPc] at isPackets
      have isReturned := asReader.read isPc isNext
      refine .update ?_ ?_ isParties isPackets
      · exact { asWriter with written := written, writable := Nat.zero_le _ }
      · refine { asReader with returned := ?_, consumed := ?_, awaits := trivial }
        · simpa [PacketPc.next, Party.lastBytes] using isReturned
        · rw [consumedLength_snoc, consumed, isPc]
          simp [PacketPc.next, PacketPc.skipped, Party.lastBytes, Chunk.length, packetFrames,
            length_serializeHeader, Nat.add_assoc]

theorem step_framed (invariant : Invariant state.parties) (framed : PacketInvariant state)
    (short : Short state) (step : PacketStep state after) : PacketInvariant after := by
  obtain ⟨who, action, allowed, run⟩ := step
  by_cases isProceed : action = .proceed
  · subst isProceed
    by_cases isIdle : (state.parties who).pc = .idle
    · exact next_framed invariant framed short isIdle
        (allowed.resolve_left fun busy => busy isIdle) run
    · obtain ⟨performed, isPackets⟩ := performPacket_eq_ok.mp run
      simp only [PacketAction.access, if_neg isIdle] at performed
      simp only [PacketAction.next, if_neg isIdle, Function.update_eq_self] at isPackets
      have same := proceed_keeps who _ _ _ performed
      intro other
      rw [isPackets]
      exact (framed other).of_streams (congrFun same other) (congrFun same other.other)
  · have isPc : (state.packets who).pc = .idle := by
      cases action with
      | proceed => exact absurd rfl isProceed
      | write | read | notifyRead | notifyWrite | setNotify => exact allowed.2
    exact start_framed invariant framed isPc isProceed run

/-- Every step is one that the contract of `RingBuffer` allows. -/
theorem step_allowed (framed : PacketInvariant state) (step : PacketStep state after) :
    Step state.parties after.parties := by
  obtain ⟨who, action, allowed, run⟩ := step
  refine ⟨who, _, ?_, (performPacket_eq_ok.mp run).1⟩
  have asReader : Framed (state.parties who.other) (state.packets who.other) (state.parties who)
      (state.packets who) := by
    simpa using framed who.other
  have writable := (framed who).writable
  have awaits := asReader.awaits
  cases action with
  | write | read | notifyRead | notifyWrite | setNotify => exact allowed.1
  | proceed =>
      by_cases isIdle : (state.parties who).pc = .idle
      · simp only [PacketAction.access, if_pos isIdle]
        cases isPc : (state.packets who).pc with
        | idle => exact absurd isPc (allowed.resolve_left fun busy => busy isIdle)
        | writeHeader buf =>
            simp only [isPc, PacketPc.toWrite, packetSize] at writable
            refine ⟨isIdle, ?_⟩
            rw [length_serializeHeader]
            omega
        | writePayload buf =>
            rw [isPc] at writable
            exact ⟨isIdle, writable⟩
        | peekHeader =>
            rw [isPc] at awaits
            exact ⟨isIdle, awaits⟩
        | pollAgain n => exact isIdle
        | skipHeader n =>
            simp only [isPc, PacketPc.Awaits] at awaits
            exact ⟨isIdle, by omega⟩
        | readPayload n =>
            rw [isPc] at awaits
            exact ⟨isIdle, awaits.1⟩
      · simp only [PacketAction.access, if_neg isIdle]
        exact isIdle

/-- A buffer that has been accepted stays so. -/
theorem step_accepted (step : PacketStep state after) (who : Who) :
    (state.packets who).accepted <+: (after.packets who).accepted := by
  obtain ⟨stepping, action, _, run⟩ := step
  rw [(performPacket_eq_ok.mp run).2]
  by_cases isStepping : who = stepping
  · subst isStepping
    rw [Function.update_self]
    cases action with
    | write | read | notifyRead | notifyWrite | setNotify => exact List.prefix_rfl
    | proceed =>
        simp only [PacketAction.next]
        split
        · cases (state.packets who).pc with
          | writePayload buf => exact List.prefix_append _ _
          | pollAgain n => rw [PacketPc.next]
          | idle | writeHeader | peekHeader | skipHeader | readPayload => exact List.prefix_rfl
        · exact List.prefix_rfl
  · rw [Function.update_of_ne isStepping]

end Steps

theorem connectPackets_invariant (bufs : Who → List UInt8) :
    PacketInvariant (connectPackets bufs) := fun _ =>
  ⟨rfl, ⟨[], List.prefix_rfl, rfl⟩, Nat.zero_le _, List.prefix_rfl, rfl, trivial⟩

/-- The invariants over whole runs. -/
theorem run_framed {bufs : Who → List UInt8} {state : PacketParties}
    (positive : ∀ who, 0 < (bufs who).length) (small : ∀ who, (bufs who).length < usizeModulus)
    (run : Relation.ReflTransGen PacketStep (connectPackets bufs) state)
    (noWrap : NoWrap state.parties) (short : Short state) :
    Relation.ReflTransGen Step (connect bufs) state.parties ∧ PacketInvariant state := by
  induction run with
  | refl => exact ⟨.refl, connectPackets_invariant bufs⟩
  | @tail middle final _ step ih =>
      have shortBefore : Short middle := fun who buf member =>
        short who buf ((step_accepted step who).subset member)
      have noWrapBefore : NoWrap middle.parties := by
        obtain ⟨stepping, action, _, run⟩ := step
        intro who
        exact Nat.lt_of_le_of_lt
          (perform_written_le (performPacket_eq_ok.mp run).1 who) (noWrap who)
      obtain ⟨ringRun, framed⟩ := ih noWrapBefore shortBefore
      have invariant := run_invariant (connect_invariant positive small) ringRun noWrapBefore
      exact ⟨ringRun.tail (step_allowed framed step),
        step_framed invariant framed shortBefore step⟩

/-- A `write` that is refused leaves everything as it is, but for what the poll has returned. -/
theorem refused_unchanged {state after : PacketParties} {who : Who} {buf : List UInt8}
    (allowed : PacketAllowed (state.parties who) (state.packets who) (.write buf))
    (run : performPacket who (.write buf) state = .ok () after)
    (refused : (after.packets who).pc = .idle) :
    after.packets = state.packets ∧ ∃ n, after.parties =
      Function.update state.parties who { state.parties who with writable := n } := by
  obtain ⟨performed, isPackets⟩ := performPacket_eq_ok.mp run
  simp only [PacketAction.access, perform, modifyParty, Exec.bind_eq_ok, Exec.get_eq_ok,
    Exec.unwrap_eq_ok, Exec.modify_eq_ok] at performed
  obtain ⟨_, _, ⟨rfl, rfl⟩, n, _, ⟨_, rfl⟩, isParties⟩ := performed
  refine ⟨?_, n, isParties.symm⟩
  rw [isPackets, Function.update_self] at refused
  have same : { state.packets who with pc := .idle } = state.packets who := by
    rw [← allowed.2]
  simp only [PacketAction.next] at refused isPackets
  rw [refused, same, Function.update_eq_self] at isPackets
  exact isPackets

end IceCap.Ring
