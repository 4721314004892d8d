import IceCap.Ring.Parties

/-!
# The ring buffers are queues

`Direction` relates the private offsets of the two parties, the copies they have
published, and the buffer between them.  Every call the contract allows succeeds
and keeps it, in both directions at once, as long as the offsets do not wrap
around.
-/

set_option autoImplicit false

namespace IceCap.Ring

open IceCap.Library

/-- From one party to the other: what has been consumed is behind what has been published, and
what has been written is less than a turn ahead of what is known to be consumed. -/
structure Direction (writer reader : Party) : Prop where
  writeSized : writer.rb.writeSize = writer.buf.length
  readSized : reader.rb.readSize = writer.buf.length
  positive : 0 < writer.buf.length
  small : writer.buf.length < usizeModulus
  offsetW : writer.rb.privateOffsetW = writer.written.length
  offsetR : reader.rb.privateOffsetR = consumedLength reader.consumed
  publishedW : writer.ctrl.offsetW ≤ writer.written.length
  publishedR : reader.ctrl.offsetR ≤ consumedLength reader.consumed
  readable : consumedLength reader.consumed + reader.readable ≤ writer.ctrl.offsetW
  writable : writer.written.length + writer.writable + 1 ≤ reader.ctrl.offsetR + writer.buf.length
  window : Window writer.buf writer.written (consumedLength reader.consumed) writer.written.length
  follows : Follows reader.consumed writer.written

def Invariant (parties : Parties) : Prop := ∀ who, Direction (parties who) (parties who.other)

def NoWrap (parties : Parties) : Prop := ∀ who, (parties who).written.length < usizeModulus

theorem Who.other_ne (who : Who) : who.other ≠ who := by cases who <;> decide

@[simp]
theorem Who.other_other (who : Who) : who.other.other = who := by cases who <;> rfl

theorem Who.eq_or_other (who other : Who) : other = who ∨ other = who.other := by
  cases who <;> cases other <;> decide

theorem connect_invariant {bufs : Who → List UInt8} (positive : ∀ who, 0 < (bufs who).length)
    (small : ∀ who, (bufs who).length < usizeModulus) : Invariant (connect bufs) := by
  intro who
  refine ⟨rfl, ?_, positive who, small who, rfl, rfl, Nat.le_refl _, Nat.le_refl _, Nat.le_refl _,
    ?_, ?_, trivial⟩
  · simp [connect, RingBuffer.new]
  · have := positive who
    simp only [connect, List.length_nil]
    omega
  · intro i _ below
    simp [connect] at below

/-- One party steps. -/
theorem Invariant.update {parties : Parties} {who : Who} {party : Party}
    (asWriter : Direction party (parties who.other))
    (asReader : Direction (parties who.other) party) :
    Invariant (Function.update parties who party) := by
  intro other
  rcases who.eq_or_other other with rfl | rfl
  · rw [Function.update_self, Function.update_of_ne other.other_ne]
    exact asWriter
  · rw [Who.other_other, Function.update_self, Function.update_of_ne who.other_ne]
    exact asReader

/-! ## One direction, call by call -/

section Calls
variable {writer reader : Party}

theorem Direction.pollRead (direction : Direction writer reader) :
    ∃ n, reader.rb.pollRead writer.ctrl.offsetW = some n ∧
      Direction writer { reader with readable := n } := by
  have ⟨_, sized, _, _, _, offsetR, publishedW, publishedR, readable, writable, _, _⟩ := direction
  have assertions : reader.rb.privateOffsetR ≤ writer.ctrl.offsetW ∧
      writer.ctrl.offsetW - reader.rb.privateOffsetR ≤ reader.rb.readSize := by
    rw [sized, offsetR]
    omega
  refine ⟨_, if_pos assertions, { direction with readable := ?_ }⟩
  simp only
  omega

theorem Direction.pollWrite (direction : Direction writer reader) :
    ∃ n, writer.rb.pollWrite reader.ctrl.offsetR = some n ∧
      Direction { writer with writable := n } reader := by
  have ⟨sized, _, _, small, offsetW, _, publishedW, publishedR, readable, writable, _, _⟩ :=
    direction
  have assertions : reader.ctrl.offsetR ≤ writer.rb.privateOffsetW ∧
      writer.rb.privateOffsetW - reader.ctrl.offsetR ≤ writer.rb.writeSize := by
    rw [sized, offsetW]
    omega
  have difference : max 0 (wrappingSub (writer.rb.writeSize -
      (writer.rb.privateOffsetW - reader.ctrl.offsetR)) 1) =
      writer.buf.length - (writer.written.length - reader.ctrl.offsetR) - 1 := by
    rw [sized, offsetW, Nat.zero_max]
    exact wrappingSub_eq (by omega) (by omega)
  refine ⟨writer.buf.length - (writer.written.length - reader.ctrl.offsetR) - 1, ?_,
    { direction with writable := ?_ }⟩
  · rw [RingBuffer.pollWrite, if_pos assertions, difference]
  · simp only
    omega

theorem Direction.peek {n : Nat} (direction : Direction writer reader) (allowed : n ≤ reader.readable) :
    ∃ bytes, reader.rb.peek writer.buf n = some bytes ∧ bytes.length = n ∧
      bytes <+: writer.written.drop (consumedLength reader.consumed) := by
  have ⟨_, sized, positive, _, _, offsetR, publishedW, publishedR, readable, writable, window, _⟩ :=
    direction
  have fits : n ≤ writer.buf.length := by omega
  obtain ⟨bytes, peeked, length, taken⟩ := RingBuffer.peek_eq_some sized positive fits
  refine ⟨bytes, peeked, length, ?_⟩
  rw [offsetR] at taken
  rw [window.taken (by omega) length taken]
  exact List.take_prefix _ _

/-- A chunk of the bytes that come next is consumed. -/
theorem Direction.consume {rb : RingBuffer} (direction : Direction writer reader) (chunk : Chunk)
    (noWrap : writer.written.length < usizeModulus)
    (allowed : chunk.length ≤ reader.readable)
    (next : Follows [chunk] (writer.written.drop (consumedLength reader.consumed)))
    (isSkip : rb = reader.rb.skip chunk.length) :
    Direction writer { reader with
      rb := rb
      readable := reader.readable - chunk.length
      consumed := reader.consumed ++ [chunk] } := by
  have ⟨_, _, _, _, _, offsetR, publishedW, publishedR, readable, writable, window, follows⟩ :=
    direction
  subst isSkip
  refine { direction with
    offsetR := ?_, publishedR := ?_, readable := ?_, window := ?_, follows := follows.snoc next }
  · rw [RingBuffer.skip, consumedLength_snoc, offsetR]
    exact wrappingAdd_eq (by omega)
  · rw [consumedLength_snoc]
    exact Nat.le_add_right_of_le publishedR
  · rw [consumedLength_snoc]
    simp only
    omega
  · rw [consumedLength_snoc]
    exact window.narrow (Nat.le_add_right _ _)

/-- A peek consumes nothing. -/
theorem Direction.peeked {bytes : List UInt8} (direction : Direction writer reader)
    (next : bytes <+: writer.written.drop (consumedLength reader.consumed)) :
    Direction writer { reader with consumed := reader.consumed ++ [.peeked bytes] } := by
  have same : consumedLength (reader.consumed ++ [.peeked bytes]) =
      consumedLength reader.consumed := by
    rw [consumedLength_snoc]
    rfl
  refine { direction with
    offsetR := ?_, publishedR := ?_, readable := ?_, window := ?_,
    follows := direction.follows.snoc ⟨next, trivial⟩ }
  · rw [same]
    exact direction.offsetR
  · rw [same]
    exact direction.publishedR
  · rw [same]
    exact direction.readable
  · rw [same]
    exact direction.window

theorem Direction.write {bytes : List UInt8} (direction : Direction writer reader)
    (allowed : bytes.length ≤ writer.writable) :
    ∃ buf rb, writer.rb.write writer.buf bytes = some (buf, rb) ∧
      rb.readSize = writer.rb.readSize ∧ rb.privateOffsetR = writer.rb.privateOffsetR ∧
      ((writer.written ++ bytes).length < usizeModulus →
        Direction { writer with
          rb := rb
          buf := buf
          writable := writer.writable - bytes.length
          written := writer.written ++ bytes } reader) := by
  have ⟨writeSized, readSized, positive, small, offsetW, offsetR, publishedW, publishedR, readable,
    writable, window, follows⟩ := direction
  have fits : bytes.length ≤ writer.buf.length := by omega
  obtain ⟨buf, isWritten, length, isPut, unchanged⟩ :=
    RingBuffer.write_eq_some writeSized positive fits
  refine ⟨buf, _, isWritten, rfl, rfl, fun noWrap => ?_⟩
  rw [offsetW] at isPut unchanged
  have total : (writer.written ++ bytes).length = writer.written.length + bytes.length :=
    List.length_append
  refine ⟨writeSized.trans length.symm, readSized.trans length.symm, ?_, ?_, ?_, offsetR, ?_,
    publishedR, readable, ?_, window.put (by omega) length isPut unchanged, follows.append⟩
  · rw [length]
    exact positive
  · rw [length]
    exact small
  · rw [offsetW, total]
    exact wrappingAdd_eq (by omega)
  · simp only
    omega
  · simp only [length]
    omega

theorem Direction.publishW (direction : Direction writer reader) {pc : Pc} :
    Direction { writer with
      ctrl := { writer.ctrl with offsetW := writer.rb.privateOffsetW }, pc := pc } reader := by
  have offsetW := direction.offsetW
  have publishedW := direction.publishedW
  have readable := direction.readable
  refine { direction with publishedW := ?_, readable := ?_ }
  · simp only
    omega
  · simp only
    omega

theorem Direction.publishR (direction : Direction writer reader) {pc : Pc} :
    Direction writer { reader with
      ctrl := { reader.ctrl with offsetR := reader.rb.privateOffsetR }, pc := pc } := by
  have offsetR := direction.offsetR
  have publishedR := direction.publishedR
  have writable := direction.writable
  refine { direction with publishedR := ?_, writable := ?_ }
  · simp only
    omega
  · simp only
    omega

end Calls

/-! ## Both directions -/

theorem proceed_ok {parties : Parties} (who : Who) (invariant : Invariant parties) :
    ∃ after, proceed who (parties who) (parties who.other) parties = .ok () after ∧
      Invariant after := by
  have asWriter := invariant who
  have asReader : Direction (parties who.other) (parties who) := by
    simpa using invariant who.other
  unfold proceed
  cases (parties who).pc with
  | idle => exact ⟨parties, rfl, invariant⟩
  | test field => exact ⟨_, rfl, .update { asWriter with } { asReader with }⟩
  | clear field => exact ⟨_, rfl, .update { asWriter with } { asReader with }⟩
  | cleared field status =>
      refine ⟨_, rfl, .update ?_ ?_⟩
      · simp only [Function.update_self, Function.update_of_ne who.other_ne.symm]
        exact { asWriter with }
      · simp only [Function.update_self, Function.update_of_ne who.other_ne.symm]
        exact { asReader with }
  | set status => exact ⟨_, rfl, .update { asWriter with } { asReader with }⟩

section Performed
variable {parties : Parties} {who : Who}

theorem perform_pollRead {n : Nat}
    (polled : (parties who).rb.pollRead (parties who.other).ctrl.offsetW = some n) :
    perform who .pollRead parties =
      .ok () (Function.update parties who { parties who with readable := n }) := by
  simp [perform, modifyParty, polled]

theorem perform_pollWrite {n : Nat}
    (polled : (parties who).rb.pollWrite (parties who.other).ctrl.offsetR = some n) :
    perform who .pollWrite parties =
      .ok () (Function.update parties who { parties who with writable := n }) := by
  simp [perform, modifyParty, polled]

theorem perform_peek {n : Nat} {bytes : List UInt8}
    (peeked : (parties who).rb.peek (parties who.other).buf n = some bytes) :
    perform who (.peek n) parties = .ok () (Function.update parties who
      { parties who with consumed := (parties who).consumed ++ [.peeked bytes] }) := by
  simp [perform, modifyParty, peeked]

theorem perform_skip (n : Nat) :
    perform who (.skip n) parties = .ok () (Function.update parties who { parties who with
      rb := (parties who).rb.skip n
      readable := (parties who).readable - n
      consumed := (parties who).consumed ++ [.skipped n] }) := rfl

theorem perform_read {n : Nat} {bytes : List UInt8}
    (peeked : (parties who).rb.peek (parties who.other).buf n = some bytes) :
    perform who (.read n) parties = .ok () (Function.update parties who { parties who with
      rb := (parties who).rb.skip n
      readable := (parties who).readable - n
      consumed := (parties who).consumed ++ [.returned bytes] }) := by
  simp [perform, modifyParty, RingBuffer.read, peeked]

theorem perform_write {bytes buf : List UInt8} {rb : RingBuffer}
    (isWritten : (parties who).rb.write (parties who).buf bytes = some (buf, rb)) :
    perform who (.write bytes) parties = .ok () (Function.update parties who { parties who with
      rb := rb
      buf := buf
      writable := (parties who).writable - bytes.length
      written := (parties who).written ++ bytes }) := by
  simp [perform, modifyParty, isWritten]

/-- A notification nobody has asked for. -/
theorem perform_test {field : Status} (isPc : (parties who).pc = .test field)
    (unset : field.read (parties who.other).ctrl.status = false) :
    perform who .proceed parties =
      .ok () (Function.update parties who { parties who with pc := .idle }) := by
  simp [perform, proceed, modifyParty, isPc, unset]

end Performed

/-- A call that is allowed succeeds and keeps the invariant. -/
theorem perform_ok {parties : Parties} {who : Who} {action : Action}
    (invariant : Invariant parties) (noWrap : NoWrap parties)
    (allowed : Allowed (parties who) action) :
    ∃ after, perform who action parties = .ok () after ∧ (NoWrap after → Invariant after) := by
  have asWriter := invariant who
  have asReader : Direction (parties who.other) (parties who) := by
    simpa using invariant who.other
  cases action with
  | pollRead =>
      obtain ⟨n, polled, kept⟩ := asReader.pollRead
      exact ⟨_, perform_pollRead polled, fun _ => .update { asWriter with } kept⟩
  | pollWrite =>
      obtain ⟨n, polled, kept⟩ := asWriter.pollWrite
      exact ⟨_, perform_pollWrite polled, fun _ => .update kept { asReader with }⟩
  | peek n =>
      obtain ⟨bytes, peeked, _, next⟩ := asReader.peek allowed.2
      exact ⟨_, perform_peek peeked, fun _ => .update { asWriter with } (asReader.peeked next)⟩
  | skip n =>
      have next : Follows [.skipped n]
          ((parties who.other).written.drop (consumedLength (parties who).consumed)) := by
        obtain ⟨_, _, length, next⟩ := asReader.peek allowed.2
        exact ⟨length ▸ next.length_le, trivial⟩
      have kept := asReader.consume (.skipped n) (noWrap who.other) allowed.2 next rfl
      exact ⟨_, rfl, fun _ => .update { asWriter with } kept⟩
  | read n =>
      obtain ⟨bytes, peeked, rfl, next⟩ := asReader.peek allowed.2
      have kept := asReader.consume (.returned bytes) (noWrap who.other) allowed.2
        ⟨next, trivial⟩ rfl
      exact ⟨_, perform_read peeked, fun _ => .update { asWriter with } kept⟩
  | write bytes =>
      obtain ⟨buf, rb, isWritten, sameSize, sameOffset, kept⟩ := asWriter.write allowed.2
      refine ⟨_, perform_write isWritten, fun noWrap => ?_⟩
      have less := noWrap who
      rw [Function.update_self] at less
      exact .update (kept less) { asReader with
        readSized := sameSize.trans asReader.readSized
        offsetR := sameOffset.trans asReader.offsetR }
  | notifyRead => exact ⟨_, rfl, fun _ => .update { asWriter with } asReader.publishR⟩
  | notifyWrite => exact ⟨_, rfl, fun _ => .update asWriter.publishW { asReader with }⟩
  | setNotify field value =>
      exact ⟨_, rfl, fun _ => .update { asWriter with } { asReader with }⟩
  | proceed =>
      obtain ⟨after, run, kept⟩ := proceed_ok who invariant
      exact ⟨after, run, fun _ => kept⟩

/-- What has been written stays so. -/
theorem perform_written_le {before after : Parties} {stepping : Who} {action : Action}
    (run : perform stepping action before = .ok () after) (who : Who) :
    (before who).written.length ≤ (after who).written.length := by
  have kept : ∀ {party : Party}, (before stepping).written.length ≤ party.written.length →
      (before who).written.length ≤ (Function.update before stepping party who).written.length := by
    intro party less
    rcases stepping.eq_or_other who with rfl | rfl
    · rwa [Function.update_self]
    · rw [Function.update_of_ne stepping.other_ne]
  cases action with
  | pollRead | pollWrite | peek n =>
      simp only [perform, modifyParty, Exec.bind_eq_ok, Exec.get_eq_ok, Exec.unwrap_eq_ok,
        Exec.modify_eq_ok] at run
      obtain ⟨_, _, ⟨rfl, rfl⟩, _, _, ⟨_, rfl⟩, rfl⟩ := run
      exact kept (Nat.le_refl _)
  | skip n | notifyRead | notifyWrite | setNotify field value =>
      simp only [perform, modifyParty, Exec.bind_eq_ok, Exec.get_eq_ok, Exec.modify_eq_ok] at run
      obtain ⟨_, _, ⟨rfl, rfl⟩, rfl⟩ := run
      exact kept (Nat.le_refl _)
  | read n =>
      simp only [perform, modifyParty, Exec.bind_eq_ok, Exec.get_eq_ok, Exec.unwrap_eq_ok,
        Exec.modify_eq_ok] at run
      obtain ⟨_, _, ⟨rfl, rfl⟩, ⟨bytes, rb⟩, _, ⟨_, rfl⟩, rfl⟩ := run
      exact kept (Nat.le_refl _)
  | write bytes =>
      simp only [perform, modifyParty, Exec.bind_eq_ok, Exec.get_eq_ok, Exec.unwrap_eq_ok,
        Exec.modify_eq_ok] at run
      obtain ⟨_, _, ⟨rfl, rfl⟩, ⟨buf, rb⟩, _, ⟨_, rfl⟩, rfl⟩ := run
      exact kept (by simp)
  | proceed =>
      simp only [perform, Exec.bind_eq_ok, Exec.get_eq_ok] at run
      obtain ⟨_, _, ⟨rfl, rfl⟩, run⟩ := run
      unfold proceed at run
      cases isPc : (before stepping).pc with
      | idle =>
          rw [isPc] at run
          obtain rfl := (Exec.pure_eq_ok.mp run).2
          exact Nat.le_refl _
      | test field | clear field | set status =>
          rw [isPc] at run
          obtain rfl := Exec.modify_eq_ok.mp run
          exact kept (Nat.le_refl _)
      | cleared field status =>
          rw [isPc] at run
          simp only [modifyParty, Exec.bind_eq_ok, Exec.modify_eq_ok] at run
          obtain ⟨_, _, rfl, rfl⟩ := run
          cases stepping <;> cases who <;> exact Nat.le_refl _

theorem Step.written_le {before after : Parties} (step : Step before after) (who : Who) :
    (before who).written.length ≤ (after who).written.length := by
  obtain ⟨stepping, action, _, run⟩ := step
  exact perform_written_le run who

/-- The invariant over whole runs. -/
theorem run_invariant {start parties : Parties} (invariant : Invariant start)
    (run : Relation.ReflTransGen Step start parties) (noWrap : NoWrap parties) :
    Invariant parties := by
  induction run with
  | refl => exact invariant
  | @tail middle final _ step ih =>
      have noWrapBefore : NoWrap middle := fun who =>
        Nat.lt_of_le_of_lt (step.written_le who) (noWrap who)
      obtain ⟨who, action, allowed, performed⟩ := step
      obtain ⟨after, run, kept⟩ := perform_ok (ih noWrapBefore) noWrapBefore allowed
      obtain ⟨_, rfl⟩ := Outcome.ok.inj (run.symm.trans performed)
      exact kept noWrap

/-- As long as fewer than `2 ^ 64` bytes have been written in each direction, no call that is
allowed fails, and what a party consumes is what its peer has written, in order. -/
theorem run_fifo {bufs : Who → List UInt8} {parties : Parties}
    (positive : ∀ who, 0 < (bufs who).length) (small : ∀ who, (bufs who).length < usizeModulus)
    (run : Relation.ReflTransGen Step (connect bufs) parties) (noWrap : NoWrap parties) :
    (∀ who action, Allowed (parties who) action → perform who action parties ≠ .panic) ∧
    (∀ who, Follows (parties who).consumed (parties who.other).written) ∧
    ∀ who, (∀ chunk ∈ (parties who).consumed, ¬ chunk.IsSkip) →
      returnedBytes (parties who).consumed <+: (parties who.other).written := by
  have invariant := run_invariant (connect_invariant positive small) run noWrap
  have follows : ∀ who, Follows (parties who).consumed (parties who.other).written := by
    intro who
    have direction := invariant who.other
    rw [Who.other_other] at direction
    exact direction.follows
  refine ⟨?_, follows, fun who noSkip => returnedBytes_prefix (follows who) noSkip⟩
  intro who action allowed panicked
  obtain ⟨after, run, _⟩ := perform_ok invariant noWrap allowed
  rw [panicked] at run
  simp at run

/-- What is found after some calls over buffers of four bytes. -/
def exampleAfter {α : Type} (calls : List (Who × Action)) (find : Parties → α) : Option α :=
  match performAll calls (connect fun _ => [0, 0, 0, 0]) with
  | .ok () parties => some (find parties)
  | _ => none

theorem exampleAfter_eq_some {α : Type} {calls : List (Who × Action)} {find : Parties → α}
    {value : α} (found : exampleAfter calls find = some value) :
    ∃ parties, Relation.ReflTransGen Step (connect fun _ => [0, 0, 0, 0]) parties ∧
      find parties = value := by
  unfold exampleAfter at found
  split at found
  · next parties run => exact ⟨parties, performAll_run run, Option.some.inj found⟩
  · simp at found

def writesTwo : List (Who × Action) :=
  [(.a, .pollWrite), (.a, .write [1, 2]), (.a, .notifyWrite), (.b, .pollRead)]

theorem run_fifo_writesTwo :
    ∃ parties, Relation.ReflTransGen Step (connect fun _ => [0, 0, 0, 0]) parties ∧
      returnedBytes (parties .b).consumed = [1] ∧
      returnedBytes (parties .b).consumed <+: (parties .a).written := by
  have found : exampleAfter (writesTwo ++ [(.b, .read 1)]) (fun parties =>
      ((parties .a).written, (parties .b).written, (parties .b).consumed)) =
        some ([1, 2], [], [.returned [1]]) := by decide +kernel
  obtain ⟨parties, run, isFound⟩ := exampleAfter_eq_some found
  simp only [Prod.mk.injEq] at isFound
  obtain ⟨isWritten, noneWritten, isConsumed⟩ := isFound
  have noWrap : NoWrap parties := by
    intro who
    cases who with
    | a => rw [isWritten]; decide
    | b => rw [noneWritten]; decide
  refine ⟨parties, run, by rw [isConsumed]; rfl, ?_⟩
  apply (run_fifo (fun _ => by decide) (fun _ => by decide) run noWrap).2.2 .b
  intro chunk member
  rw [isConsumed, List.mem_singleton] at member
  subst member
  exact id

/-! ## Where it ends -/

/-- Two parties over buffers of two bytes, of which one has written and the other has read a number
of zero bytes. -/
def traffic (written publishedW consumed publishedR writable readable : Nat) (pcA pcB : Pc) :
    Parties
  | .a => {
      rb := ⟨2, 2, 0, written % usizeModulus⟩
      ctrl := ⟨0, publishedW, 0⟩
      buf := [0, 0]
      pc := pcA
      kicks := []
      writable
      readable := 0
      written := List.replicate written 0
      consumed := [] }
  | .b => {
      rb := ⟨2, 2, consumed, 0⟩
      ctrl := ⟨publishedR, 0, 0⟩
      buf := [0, 0]
      pc := pcB
      kicks := []
      writable := 0
      readable
      written := []
      consumed := List.replicate consumed (.returned [0]) }

theorem write_zero {k : Nat} (less : k < usizeModulus) :
    RingBuffer.write ⟨2, 2, 0, k % usizeModulus⟩ [0, 0] [0] =
      some ([0, 0], ⟨2, 2, 0, (k + 1) % usizeModulus⟩) := by
  have copied : ∀ offset < 2, copyIn [0, 0] offset [(0 : UInt8)] = some [0, 0] := by decide
  have offset : k % 2 < 2 := Nat.mod_lt _ (by decide)
  simp only [RingBuffer.write, Nat.mod_eq_of_lt less, List.length_singleton]
  rw [if_pos (by omega), copied _ offset]
  rfl

theorem peek_zero (k : Nat) : RingBuffer.peek ⟨2, 2, k, 0⟩ [0, 0] 1 = some [0] := by
  have copied : ∀ offset < 2, copyOut [(0 : UInt8), 0] offset 1 = some [0] := by decide
  have offset : k % 2 < 2 := Nat.mod_lt _ (by decide)
  simp only [RingBuffer.peek]
  rw [if_pos (by omega), copied _ offset]

theorem read_zero (field : Status) : field.read 0 = false := by
  cases field <;> decide

/-- A byte is written and published. -/
theorem traffic_write {k : Nat} (less : k < usizeModulus) :
    Relation.ReflTransGen Step (traffic k k k k 0 0 .idle .idle)
      (traffic (k + 1) ((k + 1) % usizeModulus) k k 0 0 .idle .idle) := by
  have polled : Step (traffic k k k k 0 0 .idle .idle) (traffic k k k k 1 0 .idle .idle) := by
    refine ⟨.a, .pollWrite, rfl, ?_⟩
    have isPolled : (traffic k k k k 0 0 .idle .idle .a).rb.pollWrite k = some 1 := by
      simp only [traffic, RingBuffer.pollWrite, Nat.mod_eq_of_lt less, Nat.sub_self]
      simp
      rfl
    rw [perform_pollWrite isPolled]
    congr 1
    funext who
    cases who <;> rfl
  have wrote : Step (traffic k k k k 1 0 .idle .idle) (traffic (k + 1) k k k 0 0 .idle .idle) := by
    refine ⟨.a, .write [0], ⟨rfl, Nat.le_refl _⟩, ?_⟩
    rw [perform_write (write_zero less)]
    congr 1
    funext who
    cases who with
    | a => simp [traffic, List.replicate_succ']
    | b => rfl
  have published : Step (traffic (k + 1) k k k 0 0 .idle .idle)
      (traffic (k + 1) ((k + 1) % usizeModulus) k k 0 0 (.test .notifyRead) .idle) := by
    refine ⟨.a, .notifyWrite, rfl, ?_⟩
    refine congrArg (Outcome.ok ()) (funext fun who => ?_)
    cases who <;> rfl
  have tested : Step (traffic (k + 1) ((k + 1) % usizeModulus) k k 0 0 (.test .notifyRead) .idle)
      (traffic (k + 1) ((k + 1) % usizeModulus) k k 0 0 .idle .idle) := by
    refine ⟨.a, .proceed, by simp [Allowed, traffic], ?_⟩
    rw [perform_test rfl (read_zero .notifyRead)]
    refine congrArg (Outcome.ok ()) (funext fun who => ?_)
    cases who <;> rfl
  exact .head polled (.head wrote (.head published (.single tested)))

/-- The byte is read, and the reader says so. -/
theorem traffic_read {k : Nat} (less : k + 1 < usizeModulus) :
    Relation.ReflTransGen Step (traffic (k + 1) (k + 1) k k 0 0 .idle .idle)
      (traffic (k + 1) (k + 1) (k + 1) (k + 1) 0 0 .idle .idle) := by
  have polled : Step (traffic (k + 1) (k + 1) k k 0 0 .idle .idle)
      (traffic (k + 1) (k + 1) k k 0 1 .idle .idle) := by
    refine ⟨.b, .pollRead, rfl, ?_⟩
    have isPolled : (traffic (k + 1) (k + 1) k k 0 0 .idle .idle .b).rb.pollRead (k + 1) =
        some 1 := by
      simp [traffic, RingBuffer.pollRead]
    rw [perform_pollRead isPolled]
    congr 1
    funext who
    cases who <;> rfl
  have taken : Step (traffic (k + 1) (k + 1) k k 0 1 .idle .idle)
      (traffic (k + 1) (k + 1) (k + 1) k 0 0 .idle .idle) := by
    refine ⟨.b, .read 1, ⟨rfl, Nat.le_refl _⟩, ?_⟩
    rw [perform_read (peek_zero k)]
    congr 1
    funext who
    cases who with
    | a => rfl
    | b => simp [traffic, RingBuffer.skip, wrappingAdd_eq less, List.replicate_succ']
  have published : Step (traffic (k + 1) (k + 1) (k + 1) k 0 0 .idle .idle)
      (traffic (k + 1) (k + 1) (k + 1) (k + 1) 0 0 .idle (.test .notifyWrite)) := by
    refine ⟨.b, .notifyRead, rfl, ?_⟩
    refine congrArg (Outcome.ok ()) (funext fun who => ?_)
    cases who <;> rfl
  have tested : Step (traffic (k + 1) (k + 1) (k + 1) (k + 1) 0 0 .idle (.test .notifyWrite))
      (traffic (k + 1) (k + 1) (k + 1) (k + 1) 0 0 .idle .idle) := by
    refine ⟨.b, .proceed, by simp [Allowed, traffic], ?_⟩
    rw [perform_test rfl (read_zero .notifyWrite)]
    refine congrArg (Outcome.ok ()) (funext fun who => ?_)
    cases who <;> rfl
  exact .head polled (.head taken (.head published (.single tested)))

/-- One byte at a time, any number of bytes below `2 ^ 64` goes through. -/
theorem traffic_run (k : Nat) (less : k < usizeModulus) :
    Relation.ReflTransGen Step (connect fun _ => [0, 0]) (traffic k k k k 0 0 .idle .idle) := by
  induction k with
  | zero =>
      have isStart : (connect fun _ => [0, 0]) = traffic 0 0 0 0 0 0 .idle .idle := by
        funext who
        cases who <;> rfl
      rw [isStart]
  | succ k ih =>
      have written := traffic_write (Nat.lt_of_succ_lt less)
      rw [Nat.mod_eq_of_lt less] at written
      exact ((ih (Nat.lt_of_succ_lt less)).trans written).trans (traffic_read less)

/-- A skip leaves a gap in what `read` returns, and after `2 ^ 64` bytes the published offset has
wrapped around and the reader's assertion fails. -/
theorem skip_gap_and_wrap :
    (∃ parties, Relation.ReflTransGen Step (connect fun _ => [0, 0, 0, 0]) parties ∧
      returnedBytes (parties .b).consumed = [2] ∧ (parties .a).written = [1, 2]) ∧
    ∃ parties, Relation.ReflTransGen Step (connect fun _ => [0, 0]) parties ∧
      Allowed (parties .b) .pollRead ∧ perform .b .pollRead parties = .panic := by
  constructor
  · have found : exampleAfter (writesTwo ++ [(.b, .skip 1), (.b, .read 1)]) (fun parties =>
        (returnedBytes (parties .b).consumed, (parties .a).written)) = some ([2], [1, 2]) := by
      decide +kernel
    obtain ⟨parties, run, isFound⟩ := exampleAfter_eq_some found
    obtain ⟨isReturned, isWritten⟩ := Prod.mk.inj isFound
    exact ⟨parties, run, isReturned, isWritten⟩
  · have last : usizeModulus - 1 < usizeModulus := by decide
    have written := traffic_write last
    have wrapped : (usizeModulus - 1 + 1) % usizeModulus = 0 := by decide
    rw [wrapped] at written
    refine ⟨_, (traffic_run _ last).trans written, rfl, ?_⟩
    have fails : RingBuffer.pollRead ⟨2, 2, usizeModulus - 1, 0⟩ 0 = none := by decide
    simp only [perform, Exec.bind_eq_panic, Exec.get_eq_ok, Exec.get_ne_panic, false_or]
    refine ⟨_, _, ⟨rfl, rfl⟩, .inl ?_⟩
    exact Exec.unwrap_eq_panic.mpr fails

end IceCap.Ring
