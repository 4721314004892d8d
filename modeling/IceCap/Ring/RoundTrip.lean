import IceCap.Ring.Packets
import IceCap.Ring.Queued

/-!
# The round trip of packets

Two parties that exchange packets: whatever the order of their steps, those that
`read` returns are the first of those that `write` has taken, as long as every
length fits into a header and the offsets do not wrap around.

A party that nobody interrupts does what the functions of `PacketRingBuffer`
compute.  That is how the runs at the end are made in which either bound is
exceeded.
-/

set_option autoImplicit false

namespace IceCap.Ring

open IceCap.Library
open PacketRingBuffer (headerSize packetSize serializeHeader)

/-- The packets that are returned are the first of those that were accepted, a refused `write`
changes nothing, and the queues pass on what they are given once and in order: what the ring's
memory and its write offset hold, and then what waits. -/
theorem run_packets {bufs : Who → List UInt8} {state : PacketParties}
    (positive : ∀ who, 0 < (bufs who).length) (small : ∀ who, (bufs who).length < usizeModulus)
    (run : Relation.ReflTransGen PacketStep (connectPackets bufs) state)
    (noWrap : NoWrap state.parties) (short : Short state) :
    (∀ who, (state.packets who.other).returned <+: (state.packets who).accepted) ∧
    (∀ who buf after, PacketAllowed (state.parties who) (state.packets who) (.write buf) →
      performPacket who (.write buf) state = .ok () after → (after.packets who).pc = .idle →
      after.packets = state.packets ∧ ∃ n, after.parties =
        Function.update state.parties who { state.parties who with writable := n }) ∧
    ∀ (rb : RingBuffer) (buf : List UInt8) (peer : Nat → CtrlBlock) (calls : List Sender.Call)
      (after : Sender), rb.writeSize = buf.length → 0 < buf.length →
      rb.privateOffsetW < usizeModulus →
      (Sender.performAll Sender.writeWhole calls (.ofRingBuffer rb buf peer) = .ok () after →
        Sender.Accounts id rb.privateOffsetW (Sender.passed calls) after) ∧
      (Sender.performAll Sender.writePacket calls (.ofRingBuffer rb buf peer) = .ok () after →
        Sender.Accounts (frame serializeHeader) rb.privateOffsetW (Sender.passed calls) after) := by
  obtain ⟨_, framed⟩ := run_framed positive small run noWrap short
  refine ⟨fun who => (framed who).returned, ?_, ?_⟩
  · intro who buf after allowed performed refused
    exact refused_unchanged allowed performed refused
  · intro rb buf peer calls after sized positive isWord
    constructor
    · intro performed
      exact Sender.performAll_accounts Sender.writeWhole_sends calls
        (Sender.ofRingBuffer_accounts peer sized positive isWord) performed
    · intro performed
      exact Sender.performAll_accounts Sender.writePacket_sends calls
        (Sender.ofRingBuffer_accounts peer sized positive isWord) performed

/-! ## Methods that nobody interrupts -/

namespace PacketParties

/-- One of the parties has changed. -/
def put (state : PacketParties) (who : Who) (party : Party) (packet : PacketParty) :
    PacketParties :=
  ⟨Function.update state.parties who party, Function.update state.packets who packet⟩

section Put
variable (state : PacketParties) (who : Who) (party next : Party) (packet later : PacketParty)

@[simp]
theorem put_party : (state.put who party packet).parties who = party :=
  Function.update_self _ _ _

@[simp]
theorem put_packet : (state.put who party packet).packets who = packet :=
  Function.update_self _ _ _

@[simp]
theorem put_peer : (state.put who party packet).parties who.other = state.parties who.other :=
  Function.update_of_ne who.other_ne _ _

@[simp]
theorem put_put : (state.put who party packet).put who next later = state.put who next later := by
  simp [put]

end Put

section Methods
variable {state : PacketParties} {who : Who}

theorem step_put (action : PacketAction) {party : Party} {packet : PacketParty}
    (allowed : PacketAllowed (state.parties who) (state.packets who) action)
    (performed : perform who (action.access (state.parties who) (state.packets who))
      state.parties = .ok () (Function.update state.parties who party))
    (isNext : action.next (state.parties who) party (state.packets who) = packet) :
    PacketStep state (state.put who party packet) := by
  refine ⟨who, action, allowed, performPacket_eq_ok.mpr ⟨performed, ?_⟩⟩
  simp [put, isNext]

/-- The next call of a method under way. -/
theorem step_proceed {party next : Party} {packet later : PacketParty} (isIdle : party.pc = .idle)
    (busy : packet.pc ≠ .idle)
    (performed : ∀ parties : Parties, parties who = party →
      parties who.other = state.parties who.other →
      perform who packet.pc.access parties = .ok () (Function.update parties who next))
    (isNext : packet.pc.next packet next = later) :
    PacketStep (state.put who party packet) (state.put who next later) := by
  have step : PacketStep (state.put who party packet)
      ((state.put who party packet).put who next later) := by
    apply step_put .proceed
    · rw [put_packet]
      exact .inr busy
    · rw [put_party, put_packet, PacketAction.access, if_pos isIdle]
      exact performed _ (put_party _ _ _ _) (put_peer _ _ _ _)
    · rw [put_party, put_packet, PacketAction.next, if_pos isIdle, isNext]
  rwa [put_put] at step

theorem step_write {party : Party} {packet later : PacketParty} {bytes dst : List UInt8}
    {rb : RingBuffer} (isIdle : party.pc = .idle) (isAccess : packet.pc.access = .write bytes)
    (isWritten : party.rb.write party.buf bytes = some (dst, rb))
    (isNext : ∀ party, packet.pc.next packet party = later) :
    PacketStep (state.put who party packet) (state.put who { party with
      rb := rb
      buf := dst
      writable := party.writable - bytes.length
      written := party.written ++ bytes } later) := by
  apply step_proceed isIdle
  · intro isPc
    simp [isPc, PacketPc.access] at isAccess
  · intro parties isParty _
    subst isParty
    rw [isAccess]
    exact perform_write isWritten
  · exact isNext _

/-- After a run, a packet is taken. -/
theorem write_run {start : PacketParties} {packet dst : List UInt8} {rb : RingBuffer}
    (before : Relation.ReflTransGen PacketStep start state)
    (isIdle : (state.parties who).pc = .idle) (isPc : (state.packets who).pc = .idle)
    (isWritten : PacketRingBuffer.write (state.parties who).rb (state.parties who).buf
      (state.parties who.other).ctrl.offsetR packet = some (true, dst, rb)) :
    ∃ writable, Relation.ReflTransGen PacketStep start (state.put who
      { state.parties who with
        rb := rb
        buf := dst
        writable := writable
        written := (state.parties who).written ++ serializeHeader packet.length ++ packet }
      { state.packets who with
        pc := .idle, accepted := (state.packets who).accepted ++ [packet] }) := by
  obtain ⟨n, headed, middle, polled, room, writesHeader, writesPayload⟩ :=
    PacketRingBuffer.write_eq_true isWritten
  have polls : PacketStep state (state.put who { state.parties who with writable := n }
      { state.packets who with pc := .writeHeader packet }) := by
    apply step_put (.write packet) ⟨isIdle, isPc⟩ (perform_pollWrite polled)
    simp [PacketAction.next, Nat.not_lt_of_le room]
  have heads := @step_write state who { state.parties who with writable := n }
    { state.packets who with pc := .writeHeader packet } _ _ _ _ isIdle rfl writesHeader
    fun _ => rfl
  have fills := @step_write state who
    { state.parties who with
      rb := middle
      buf := headed
      writable := n - (serializeHeader packet.length).length
      written := (state.parties who).written ++ serializeHeader packet.length }
    { state.packets who with pc := .writePayload packet } _ _ _ _ isIdle rfl writesPayload
    fun _ => rfl
  exact ⟨_, before.trans (.head polls (.head heads (.single fills)))⟩

/-- After a run, a packet is returned. -/
theorem read_run {start : PacketParties} {bytes : List UInt8} {rb : RingBuffer}
    (before : Relation.ReflTransGen PacketStep start state)
    (isIdle : (state.parties who).pc = .idle) (isPc : (state.packets who).pc = .idle)
    (isRead : PacketRingBuffer.read (state.parties who).rb (state.parties who.other).buf
      (state.parties who.other).ctrl.offsetW (state.parties who.other).ctrl.offsetW =
        some (some bytes, rb)) :
    ∃ readable consumed, Relation.ReflTransGen PacketStep start (state.put who
      { state.parties who with rb := rb, readable := readable, consumed := consumed }
      { state.packets who with
        pc := .idle, returned := (state.packets who).returned ++ [bytes] }) := by
  obtain ⟨_, isPolled, takes, rfl⟩ := PacketRingBuffer.read_eq_bytes.mp isRead
  obtain ⟨⟨available, isAvailable, shown⟩, ⟨header, peeks, rfl⟩, again, isAgain, fits⟩ :=
    PacketRingBuffer.poll_eq_some_iff.mp isPolled
  have polls : PacketStep state (state.put who { state.parties who with readable := available }
      { state.packets who with pc := .peekHeader }) := by
    apply step_put .read ⟨isIdle, isPc⟩ (perform_pollRead isAvailable)
    simp [PacketAction.next, Nat.not_lt_of_le shown]
  have peeked : PacketStep
      (state.put who { state.parties who with readable := available }
        { state.packets who with pc := .peekHeader })
      (state.put who
        { state.parties who with
          readable := available
          consumed := (state.parties who).consumed ++ [.peeked header] }
        { state.packets who with pc := .pollAgain (ofLeBytes header) }) := by
    refine step_proceed ?_ ?_ ?_ ?_
    · exact isIdle
    · simp
    · intro parties isParty isPeer
      have performed : perform who (.peek headerSize) parties = .ok () _ := perform_peek (by
        rw [isParty, isPeer]
        exact peeks)
      rw [isParty] at performed
      exact performed
    · simp [PacketPc.next, Party.lastBytes]
  have pollsAgain : PacketStep
      (state.put who
        { state.parties who with
          readable := available
          consumed := (state.parties who).consumed ++ [.peeked header] }
        { state.packets who with pc := .pollAgain (ofLeBytes header) })
      (state.put who
        { state.parties who with
          readable := again
          consumed := (state.parties who).consumed ++ [.peeked header] }
        { state.packets who with pc := .skipHeader (ofLeBytes header) }) := by
    refine step_proceed ?_ ?_ ?_ ?_
    · exact isIdle
    · simp
    · intro parties isParty isPeer
      have performed : perform who .pollRead parties = .ok () _ := perform_pollRead (by
        rw [isParty, isPeer]
        exact isAgain)
      rw [isParty] at performed
      exact performed
    · simp [PacketPc.next, Nat.not_lt_of_le fits]
  have skips : PacketStep
      (state.put who
        { state.parties who with
          readable := again
          consumed := (state.parties who).consumed ++ [.peeked header] }
        { state.packets who with pc := .skipHeader (ofLeBytes header) })
      (state.put who
        { state.parties who with
          rb := (state.parties who).rb.skip headerSize
          readable := again - headerSize
          consumed := (state.parties who).consumed ++ [.peeked header] ++ [.skipped headerSize] }
        { state.packets who with pc := .readPayload (ofLeBytes header) }) := by
    refine step_proceed ?_ ?_ ?_ ?_
    · exact isIdle
    · simp
    · intro parties isParty _
      have performed := @perform_skip parties who headerSize
      rw [isParty] at performed
      exact performed
    · simp [PacketPc.next]
  have reads : PacketStep
      (state.put who
        { state.parties who with
          rb := (state.parties who).rb.skip headerSize
          readable := again - headerSize
          consumed := (state.parties who).consumed ++ [.peeked header] ++ [.skipped headerSize] }
        { state.packets who with pc := .readPayload (ofLeBytes header) })
      (state.put who
        { state.parties who with
          rb := ((state.parties who).rb.skip headerSize).skip (ofLeBytes header)
          readable := again - headerSize - ofLeBytes header
          consumed := (state.parties who).consumed ++ [.peeked header] ++ [.skipped headerSize] ++
            [.returned bytes] }
        { state.packets who with
          pc := .idle, returned := (state.packets who).returned ++ [bytes] }) := by
    refine step_proceed ?_ ?_ ?_ ?_
    · exact isIdle
    · simp
    · intro parties isParty isPeer
      have performed : perform who (.read (ofLeBytes header)) parties = .ok () _ := perform_read (by
        rw [isParty, isPeer]
        exact takes)
      rw [isParty] at performed
      exact performed
    · simp [PacketPc.next, Party.lastBytes]
  exact ⟨_, _, before.trans (.head polls (.head peeked (.head pollsAgain (.head skips
    (.single reads)))))⟩

/-- A party publishes its offset where the peer has not asked to be notified. -/
theorem notify_run (action : PacketAction) {field : Status} {ctrl : CtrlBlock}
    (unset : field.read (state.parties who.other).ctrl.status = false)
    (allowed : PacketAllowed (state.parties who) (state.packets who) action)
    (performed : perform who (action.access (state.parties who) (state.packets who))
      state.parties = .ok () (Function.update state.parties who
        { state.parties who with ctrl := ctrl, pc := .test field }))
    (isNext : ∀ party, action.next (state.parties who) party (state.packets who) =
      state.packets who) :
    Relation.ReflTransGen PacketStep state
      (state.put who { state.parties who with ctrl := ctrl, pc := .idle } (state.packets who)) := by
  have published : PacketStep state (state.put who
      { state.parties who with ctrl := ctrl, pc := .test field } (state.packets who)) :=
    step_put action allowed performed (isNext _)
  have tested : PacketStep
      (state.put who { state.parties who with ctrl := ctrl, pc := .test field } (state.packets who))
      ((state.put who { state.parties who with ctrl := ctrl, pc := .test field }
        (state.packets who)).put who { state.parties who with ctrl := ctrl, pc := .idle }
          (state.packets who)) := by
    apply step_put .proceed
    · rw [put_party]
      exact .inl (by simp)
    · have performed : perform who .proceed (state.put who
          { state.parties who with ctrl := ctrl, pc := .test field }
          (state.packets who)).parties = .ok () _ := perform_test (by rw [put_party]) (by
        rw [put_peer]
        exact unset)
      rw [put_party] at performed
      simpa [PacketAction.access] using performed
    · simp [PacketAction.next]
  rw [put_put] at tested
  exact .head published (.single tested)

theorem notifyWrite_run (isIdle : (state.parties who).pc = .idle)
    (isPc : (state.packets who).pc = .idle)
    (unset : Status.notifyRead.read (state.parties who.other).ctrl.status = false) :
    Relation.ReflTransGen PacketStep state (state.put who { state.parties who with
      ctrl := { (state.parties who).ctrl with
        offsetW := (state.parties who).rb.privateOffsetW }
      pc := .idle } (state.packets who)) :=
  notify_run .notifyWrite unset ⟨isIdle, isPc⟩ rfl fun _ => rfl

theorem notifyRead_run (isIdle : (state.parties who).pc = .idle)
    (isPc : (state.packets who).pc = .idle)
    (unset : Status.notifyWrite.read (state.parties who.other).ctrl.status = false) :
    Relation.ReflTransGen PacketStep state (state.put who { state.parties who with
      ctrl := { (state.parties who).ctrl with
        offsetR := (state.parties who).rb.privateOffsetR }
      pc := .idle } (state.packets who)) :=
  notify_run .notifyRead unset ⟨isIdle, isPc⟩ rfl fun _ => rfl

/-- After a run, a packet is taken and published. -/
theorem writeAndNotify_run {start : PacketParties} {packet dst : List UInt8} {rb : RingBuffer}
    (before : Relation.ReflTransGen PacketStep start state)
    (isIdle : (state.parties who).pc = .idle) (isPc : (state.packets who).pc = .idle)
    (unset : Status.notifyRead.read (state.parties who.other).ctrl.status = false)
    (isWritten : PacketRingBuffer.write (state.parties who).rb (state.parties who).buf
      (state.parties who.other).ctrl.offsetR packet = some (true, dst, rb)) :
    ∃ writable, Relation.ReflTransGen PacketStep start (state.put who
      { state.parties who with
        rb := rb
        ctrl := { (state.parties who).ctrl with offsetW := rb.privateOffsetW }
        buf := dst
        pc := .idle
        writable := writable
        written := (state.parties who).written ++ serializeHeader packet.length ++ packet }
      { state.packets who with
        pc := .idle, accepted := (state.packets who).accepted ++ [packet] }) := by
  obtain ⟨writable, wrote⟩ := write_run before isIdle isPc isWritten
  have published := @notifyWrite_run (state.put who
    { state.parties who with
      rb := rb
      buf := dst
      writable := writable
      written := (state.parties who).written ++ serializeHeader packet.length ++ packet }
    { state.packets who with
      pc := .idle, accepted := (state.packets who).accepted ++ [packet] }) who
    (by rw [put_party]; exact isIdle) (by rw [put_packet]) (by rw [put_peer]; exact unset)
  rw [put_put, put_party, put_packet] at published
  exact ⟨writable, wrote.trans published⟩

/-- After a run, a packet is returned, and the peer is told so. -/
theorem readAndNotify_run {start : PacketParties} {bytes : List UInt8} {rb : RingBuffer}
    (before : Relation.ReflTransGen PacketStep start state)
    (isIdle : (state.parties who).pc = .idle) (isPc : (state.packets who).pc = .idle)
    (unset : Status.notifyWrite.read (state.parties who.other).ctrl.status = false)
    (isRead : PacketRingBuffer.read (state.parties who).rb (state.parties who.other).buf
      (state.parties who.other).ctrl.offsetW (state.parties who.other).ctrl.offsetW =
        some (some bytes, rb)) :
    ∃ readable consumed, Relation.ReflTransGen PacketStep start (state.put who
      { state.parties who with
        rb := rb
        ctrl := { (state.parties who).ctrl with offsetR := rb.privateOffsetR }
        pc := .idle
        readable := readable
        consumed := consumed }
      { state.packets who with
        pc := .idle, returned := (state.packets who).returned ++ [bytes] }) := by
  obtain ⟨readable, consumed, reads⟩ := read_run before isIdle isPc isRead
  have published := @notifyRead_run (state.put who
    { state.parties who with rb := rb, readable := readable, consumed := consumed }
    { state.packets who with
      pc := .idle, returned := (state.packets who).returned ++ [bytes] }) who
    (by rw [put_party]; exact isIdle) (by rw [put_packet]) (by rw [put_peer]; exact unset)
  rw [put_put, put_party, put_packet] at published
  exact ⟨readable, consumed, reads.trans published⟩

end Methods

end PacketParties

/-! ## Rings full of zeros -/

section Zeros
variable {rb : RingBuffer} {size n : Nat}

theorem eq_zeros {bytes : List UInt8} (length : bytes.length = n)
    (isZero : ∀ k < n, bytes[k]? = some 0) : bytes = List.replicate n 0 := by
  apply List.eq_replicate_iff.mpr
  refine ⟨length, fun byte member => ?_⟩
  obtain ⟨k, isAt⟩ := List.mem_iff_getElem?.mp member
  have less := (List.getElem?_eq_some_iff.mp isAt).1
  exact Option.some.inj (isAt.symm.trans (isZero k (length ▸ less)))

theorem getElem?_zeros {k : Nat} (less : k < size) :
    (List.replicate size (0 : UInt8))[k]? = some 0 := by
  rw [List.getElem?_replicate, if_pos less]

theorem peek_zeros (sized : rb.readSize = size) (positive : 0 < size) (fits : n ≤ size) :
    rb.peek (List.replicate size 0) n = some (List.replicate n 0) := by
  have length : (List.replicate size (0 : UInt8)).length = size := List.length_replicate
  obtain ⟨bytes, peeks, isLong, taken⟩ := @RingBuffer.peek_eq_some rb
    (List.replicate size 0) n (by rw [sized, length]) (by rwa [length])
    (by rwa [length])
  rw [peeks, eq_zeros isLong]
  intro k less
  rw [taken k less, length]
  exact getElem?_zeros (Nat.mod_lt _ positive)

theorem write_zeros (sized : rb.writeSize = size) (positive : 0 < size) (fits : n ≤ size) :
    rb.write (List.replicate size 0) (List.replicate n 0) = some (List.replicate size 0,
      { rb with privateOffsetW := wrappingAdd rb.privateOffsetW n }) := by
  have length : (List.replicate size (0 : UInt8)).length = size := List.length_replicate
  have wrote : (List.replicate n (0 : UInt8)).length = n := List.length_replicate
  obtain ⟨result, writes, isLong, isPut, unchanged⟩ := @RingBuffer.write_eq_some rb
    (List.replicate size 0) (List.replicate n 0) (by rw [sized, length])
    (by rwa [length]) (by rwa [wrote, length])
  rw [writes, wrote, eq_zeros (isLong.trans length)]
  intro position less
  by_cases elsewhere : ∀ k < n, position ≠ (rb.privateOffsetW + k) % size
  · rw [unchanged position (by rwa [wrote, length]), getElem?_zeros less]
  · simp only [not_forall, not_not] at elsewhere
    obtain ⟨k, inside, rfl⟩ := elsewhere
    have isZero := isPut k (by rwa [wrote])
    rwa [length, getElem?_zeros inside] at isZero

/-- A packet of zeros whose header is zero too. -/
theorem writePacket_zeros (sized : rb.writeSize = size) (small : size < usizeModulus)
    (fits : headerSize + n < size) (header : serializeHeader n = List.replicate headerSize 0) :
    PacketRingBuffer.write rb (List.replicate size 0) rb.privateOffsetW (List.replicate n 0) =
      some (true, List.replicate size 0, { rb with
        privateOffsetW := wrappingAdd (wrappingAdd rb.privateOffsetW headerSize) n }) := by
  have positive : 0 < size := Nat.zero_lt_of_lt fits
  have polled : rb.pollWrite rb.privateOffsetW = some (size - 1) := by
    rw [RingBuffer.pollWrite, if_pos ⟨Nat.le_refl _, by simp⟩, Nat.sub_self, Nat.sub_zero, sized,
      Nat.zero_max, wrappingSub_eq positive small]
  have room : ¬ size - 1 < packetSize (List.replicate n (0 : UInt8)) := by
    rw [packetSize, List.length_replicate]
    omega
  have heads := @write_zeros rb size headerSize sized positive (by omega)
  have fills := @write_zeros
    { rb with privateOffsetW := wrappingAdd rb.privateOffsetW headerSize } size n sized positive
    (by omega)
  simp only [PacketRingBuffer.write, polled, Option.bind_eq_bind, Option.bind_some, if_neg room,
    List.length_replicate, header, heads, fills]

/-- Such a packet is read as an empty one. -/
theorem readPacket_zeros {offsetW : Nat} (sized : rb.readSize = size)
    (shown : rb.privateOffsetR + headerSize ≤ offsetW)
    (fits : offsetW - rb.privateOffsetR ≤ size) :
    PacketRingBuffer.read rb (List.replicate size 0) offsetW offsetW =
      some (some [], (rb.skip headerSize).skip 0) := by
  have isHeader : headerSize = 4 := rfl
  have polled : rb.pollRead offsetW = some (offsetW - rb.privateOffsetR) :=
    RingBuffer.pollRead_eq_some.mpr ⟨by omega, by rwa [sized], rfl⟩
  have isEmpty : ofLeBytes (List.replicate headerSize 0) = 0 := by decide
  have peeks := @peek_zeros rb size headerSize sized (by omega) (by omega)
  have skipped : (rb.skip headerSize).readSize = size := by simp only [RingBuffer.skip, sized]
  have takes := @peek_zeros (rb.skip headerSize) size 0 skipped (by omega) (Nat.zero_le _)
  have isPolled := PacketRingBuffer.poll_eq_some_iff.mpr
    ⟨⟨_, polled, by omega⟩, ⟨_, peeks, isEmpty⟩, _, polled, Nat.zero_le _⟩
  exact PacketRingBuffer.read_eq_bytes.mpr ⟨0, isPolled, takes, rfl⟩

end Zeros

/-! ## Any number of packets -/

namespace PacketParties

/-- Party `a` has written and published so many empty packets over rings of zeros, and party `b` has
read them and said so. -/
def settled (size packets writable readable : Nat) (written : List UInt8) (consumed : List Chunk) :
    PacketParties where
  parties
    | .a => {
        rb := ⟨size, size, 0, headerSize * packets⟩
        ctrl := ⟨0, headerSize * packets, 0⟩
        buf := List.replicate size 0
        pc := .idle
        kicks := []
        writable
        readable := 0
        written
        consumed := [] }
    | .b => {
        rb := ⟨size, size, headerSize * packets, 0⟩
        ctrl := ⟨headerSize * packets, 0, 0⟩
        buf := List.replicate size 0
        pc := .idle
        kicks := []
        writable := 0
        readable
        written := []
        consumed }
  packets
    | .a => ⟨.idle, List.replicate packets [], []⟩
    | .b => ⟨.idle, [], List.replicate packets []⟩

theorem connectPackets_settled (size : Nat) :
    connectPackets (fun _ => List.replicate size 0) = settled size 0 0 0 [] [] := by
  simp only [connectPackets, settled, PacketParties.mk.injEq]
  constructor
  · funext who
    cases who <;> simp [connect, RingBuffer.new]
  · funext who
    cases who <;> rfl

section Settled
variable {size packets writable readable : Nat} {written : List UInt8} {consumed : List Chunk}

/-- One more packet goes through. -/
theorem settled_next {start : PacketParties} (fits : headerSize < size)
    (small : size < usizeModulus) (noWrap : headerSize * (packets + 1) < usizeModulus)
    (before : Relation.ReflTransGen PacketStep start
      (settled size packets writable readable written consumed)) :
    ∃ writable' readable' written' consumed', Relation.ReflTransGen PacketStep start
      (settled size (packets + 1) writable' readable' written' consumed') := by
  have next : headerSize * packets + headerSize = headerSize * (packets + 1) := rfl
  have noOffset : headerSize * (packets + 1) + 0 < usizeModulus := noWrap
  have writes := @writePacket_zeros ⟨size, size, 0, headerSize * packets⟩ size 0 rfl small fits
    (by decide)
  rw [wrappingAdd_eq (by omega : headerSize * packets + headerSize < usizeModulus), next,
    wrappingAdd_eq noOffset] at writes
  obtain ⟨writable', wrote⟩ := @writeAndNotify_run
    (settled size packets writable readable written consumed) .a _ _ _ _ before rfl rfl
    (read_zero .notifyRead) writes
  have left : headerSize * (packets + 1) - headerSize * packets ≤ size := by omega
  have reads := @readPacket_zeros ⟨size, size, headerSize * packets, 0⟩ size
    (headerSize * (packets + 1)) rfl (Nat.le_refl _) left
  have skipped : (RingBuffer.skip (RingBuffer.skip ⟨size, size, headerSize * packets, 0⟩ headerSize)
      0) = ⟨size, size, headerSize * (packets + 1), 0⟩ := by
    simp only [RingBuffer.skip]
    rw [wrappingAdd_eq (by omega : headerSize * packets + headerSize < usizeModulus), next,
      wrappingAdd_eq noOffset, Nat.add_zero]
  rw [skipped] at reads
  obtain ⟨readable', consumed', after⟩ := @readAndNotify_run _ .b _ _ _ wrote rfl rfl
    (read_zero .notifyWrite) reads
  refine ⟨writable', readable', written ++ serializeHeader 0 ++ [], consumed', ?_⟩
  have oneMore : List.replicate (packets + 1) ([] : List UInt8) = List.replicate packets [] ++ [[]] :=
    List.replicate_succ'
  convert after using 1
  simp only [settled, put, PacketParties.mk.injEq, oneMore]
  constructor
  · funext who
    cases who <;> rfl
  · funext who
    cases who <;> rfl

/-- As many packets as the offsets count go through. -/
theorem settled_run (fits : headerSize < size) (small : size < usizeModulus) (packets : Nat)
    (noWrap : headerSize * packets < usizeModulus) :
    ∃ writable readable written consumed, Relation.ReflTransGen PacketStep
      (connectPackets fun _ => List.replicate size 0)
      (settled size packets writable readable written consumed) := by
  induction packets with
  | zero => exact ⟨0, 0, [], [], by rw [connectPackets_settled]⟩
  | succ packets ih =>
      have less := Nat.mul_le_mul_left headerSize (Nat.le_succ packets)
      obtain ⟨_, _, _, _, run⟩ := ih (Nat.lt_of_le_of_lt less noWrap)
      exact settled_next fits small noWrap run

end Settled

/-- A packet of zeros whose length the header does not tell is read as an empty one. -/
theorem reads_empty {size n : Nat} (small : size < usizeModulus) (fits : headerSize + n < size)
    (positive : 0 < n) (header : serializeHeader n = List.replicate headerSize 0) :
    ∃ state, Relation.ReflTransGen PacketStep (connectPackets fun _ => List.replicate size 0)
        state ∧ ¬ (state.packets .b).returned <+: (state.packets .a).accepted := by
  have writes := @writePacket_zeros ⟨size, size, 0, headerSize * 0⟩ size n rfl small fits header
  rw [Nat.mul_zero, wrappingAdd_eq (by omega : 0 + headerSize < usizeModulus), Nat.zero_add,
    wrappingAdd_eq (by omega)] at writes
  have started : Relation.ReflTransGen PacketStep (connectPackets fun _ => List.replicate size 0)
      (settled size 0 0 0 [] []) := by rw [connectPackets_settled]
  obtain ⟨_, wrote⟩ := @writeAndNotify_run _ .a _ _ _ _ started rfl rfl (read_zero .notifyRead)
    writes
  have reads := @readPacket_zeros ⟨size, size, 0, 0⟩ size (headerSize + n) rfl (by simp)
    (by simp only; omega)
  obtain ⟨_, _, run⟩ := @readAndNotify_run _ .b _ _ _ wrote rfl rfl (read_zero .notifyWrite) reads
  refine ⟨_, run, fun isPrefix => ?_⟩
  have returned : [[]] <+: [List.replicate n (0 : UInt8)] := isPrefix
  have same := returned.eq_of_length rfl
  simp only [List.cons.injEq, and_true] at same
  have length := congrArg List.length same
  rw [List.length_replicate] at length
  exact absurd length (Nat.ne_of_lt positive)

/-- Where the offset wraps around between header and payload, the payload goes to another place. -/
theorem reads_other {packets : Nat} (isLast : headerSize * packets = usizeModulus - 8) :
    ∃ state, Relation.ReflTransGen PacketStep (connectPackets fun _ => List.replicate 11 0) state ∧
      ¬ (state.packets .b).returned <+: (state.packets .a).accepted := by
  obtain ⟨_, _, _, _, settled⟩ := @settled_run 11 (by decide) (by decide) packets (by
    rw [isLast]
    decide)
  -- The first packet is published and not read.
  have first : PacketRingBuffer.write ⟨11, 11, 0, usizeModulus - 8⟩ (List.replicate 11 0)
      (usizeModulus - 8) [7] = some (true, [0, 7, 0, 0, 0, 0, 0, 0, 1, 0, 0],
        ⟨11, 11, 0, usizeModulus - 3⟩) := by decide +kernel
  have second : PacketRingBuffer.write ⟨11, 11, 0, usizeModulus - 3⟩
      [0, 7, 0, 0, 0, 0, 0, 0, 1, 0, 0] (usizeModulus - 8) [9] =
        some (true, [0, 9, 1, 0, 0, 0, 0, 0, 1, 0, 0], ⟨11, 11, 0, 2⟩) := by decide +kernel
  have reads : PacketRingBuffer.read ⟨11, 11, usizeModulus - 8, 0⟩
      [0, 9, 1, 0, 0, 0, 0, 0, 1, 0, 0] (usizeModulus - 3) (usizeModulus - 3) =
        some (some [9], ⟨11, 11, usizeModulus - 3, 0⟩) := by decide +kernel
  rw [← isLast] at first second reads
  obtain ⟨_, published⟩ := @writeAndNotify_run _ .a _ _ _ _ settled rfl rfl
    (read_zero .notifyRead) first
  obtain ⟨_, wrote⟩ := @write_run _ .a _ _ _ _ published rfl rfl second
  obtain ⟨_, _, run⟩ := @readAndNotify_run _ .b _ _ _ wrote rfl rfl
    (read_zero .notifyWrite) reads
  refine ⟨_, run, fun isPrefix => ?_⟩
  have returned : List.replicate packets [] ++ [[(9 : UInt8)]] <+:
      List.replicate packets [] ++ [[7]] ++ [[9]] := isPrefix
  rw [List.append_assoc, List.prefix_append_right_inj] at returned
  exact absurd returned (by decide)

end PacketParties

/-- A sender over a ring of eleven bytes that passes on two packets, of which the peer leaves room
for one. -/
def twoPackets : Sender :=
  { rb := ⟨11, 11, 0, 5⟩
    buf := [1, 0, 0, 0, 7, 0, 0, 0, 0, 0, 0]
    ctrl := ⟨0, 5, 0⟩
    q := [[8, 9]]
    kicks := 0
    peer := fun _ => ⟨0, 0, 0⟩
    loads := 3
    polls := [⟨5, 0, []⟩, ⟨0, 0, [1, 0, 0, 0, 7]⟩]
    sent := [[7]] }

theorem run_packets_onePacket :
    (∃ state, Relation.ReflTransGen PacketStep (connectPackets fun _ => List.replicate 11 0) state ∧
      (state.packets .a).accepted = [[7]] ∧ (state.packets .b).returned = [[7]] ∧
      (state.packets .b).returned <+: (state.packets .a).accepted) ∧
    Sender.performAll Sender.writePacket [.tx [7], .tx [8, 9]]
      (.ofRingBuffer (.new 11 11) (List.replicate 11 0) fun _ => ⟨0, 0, 0⟩) = .ok () twoPackets ∧
    twoPackets.rb.Holds twoPackets.buf 0 [1, 0, 0, 0, 7] := by
  have writes : PacketRingBuffer.write ⟨11, 11, 0, 0⟩ (List.replicate 11 0) 0 [7] =
      some (true, [1, 0, 0, 0, 7, 0, 0, 0, 0, 0, 0], ⟨11, 11, 0, 5⟩) := by decide
  have reads : PacketRingBuffer.read ⟨11, 11, 0, 0⟩ [1, 0, 0, 0, 7, 0, 0, 0, 0, 0, 0] 5 5 =
      some (some [7], ⟨11, 11, 5, 0⟩) := by decide
  obtain ⟨_, wrote⟩ := @PacketParties.writeAndNotify_run
    (connectPackets fun _ => List.replicate 11 0) .a _ _ _ _ .refl rfl rfl (read_zero .notifyRead)
    writes
  obtain ⟨_, _, run⟩ := @PacketParties.readAndNotify_run _ .b _ _ _ wrote rfl rfl
    (read_zero .notifyWrite) reads
  have performed : Sender.performAll Sender.writePacket [.tx [7], .tx [8, 9]]
      (.ofRingBuffer (.new 11 11) (List.replicate 11 0) fun _ => ⟨0, 0, 0⟩) = .ok () twoPackets := rfl
  have both := run_packets (fun _ => by decide) (fun _ => by decide) run ?_ ?_
  · refine ⟨⟨_, run, rfl, rfl, both.1 .a⟩, performed, ?_⟩
    obtain ⟨_, packets⟩ := both.2.2 (.new 11 11) (List.replicate 11 0) _ _ _ rfl (by decide)
      (by decide)
    exact (packets performed).holds
  · intro who
    cases who with
    | a => exact (by decide : 5 < usizeModulus)
    | b => exact (by decide : 0 < usizeModulus)
  · intro who buf member
    cases who with
    | a =>
        obtain rfl := List.mem_singleton.mp member
        decide
    | b => exact absurd member List.not_mem_nil

/-- The header of a packet of `2 ^ 32` bytes says that it is empty.  Where the offset wraps around
between header and payload, the payload goes to another place, and here that is the place of a
packet that has not been read. -/
theorem header_and_offset_wrap :
    (∃ state, Relation.ReflTransGen PacketStep
        (connectPackets fun _ => List.replicate (2 ^ 32 + 6) 0) state ∧
      ¬ (state.packets .b).returned <+: (state.packets .a).accepted) ∧
    ∃ state, Relation.ReflTransGen PacketStep (connectPackets fun _ => List.replicate 11 0) state ∧
      ¬ (state.packets .b).returned <+: (state.packets .a).accepted := by
  constructor
  · exact @PacketParties.reads_empty _ (2 ^ 32) (by decide) (by decide) (by decide) (by decide)
  · exact @PacketParties.reads_other 4611686018427387902 (by decide)

end IceCap.Ring
