import IceCap.Serial.System

/-!
# The output of the serial server

The device shows every byte under the color that was set last, and no two
clients have the same color.  What is shown under the color of a client and what
is in its buffer make up what the client has sent: every method that puts bytes
to the device takes them from the front of a buffer, under the color of its
client.
-/

set_option autoImplicit false

namespace IceCap.Serial

variable {n : Nat}

/-! ## What the device shows -/

/-- The bytes of the clients, each under the color that was set last. -/
def shownFrom (color : Option Color) : List Put → List (Option Color × UInt8)
  | [] => []
  | .char c :: rest => (color, c) :: shownFrom color rest
  | .set color :: rest => shownFrom (some color) rest
  | .clear :: rest => shownFrom none rest
  | .message _ :: rest => shownFrom color rest

def lastColorFrom (color : Option Color) : List Put → Option Color
  | [] => color
  | .char _ :: rest => lastColorFrom color rest
  | .set color :: rest => lastColorFrom (some color) rest
  | .clear :: rest => lastColorFrom none rest
  | .message _ :: rest => lastColorFrom color rest

def shown (dev : List Put) : List (Option Color × UInt8) := shownFrom none dev

def lastColor (dev : List Put) : Option Color := lastColorFrom none dev

def shownUnder (color : Color) (dev : List Put) : List UInt8 :=
  (shown dev).filterMap fun entry => if entry.1 = some color then some entry.2 else none

theorem shownFrom_append (color : Option Color) (first second : List Put) :
    shownFrom color (first ++ second) =
      shownFrom color first ++ shownFrom (lastColorFrom color first) second := by
  induction first generalizing color with
  | nil => rfl
  | cons put first ih => cases put <;> simp [shownFrom, lastColorFrom, ih]

theorem lastColorFrom_append (color : Option Color) (first second : List Put) :
    lastColorFrom color (first ++ second) = lastColorFrom (lastColorFrom color first) second := by
  induction first generalizing color with
  | nil => rfl
  | cons put first ih => cases put <;> simp [lastColorFrom, ih]

theorem shownFrom_chars (color : Option Color) (bytes : List UInt8) :
    shownFrom color (bytes.map .char) = bytes.map (color, ·) := by
  induction bytes with
  | nil => rfl
  | cons c bytes ih => simp [shownFrom, ih]

theorem lastColorFrom_chars (color : Option Color) (bytes : List UInt8) :
    lastColorFrom color (bytes.map .char) = color := by
  induction bytes with
  | nil => rfl
  | cons c bytes ih => simp [lastColorFrom, ih]

/-- Bytes are shown under the color that was set last. -/
theorem shownUnder_chars (color : Color) (dev : List Put) (bytes : List UInt8) :
    shownUnder color (dev ++ bytes.map .char) =
      shownUnder color dev ++ if lastColor dev = some color then bytes else [] := by
  have under : shown (dev ++ bytes.map .char) = shown dev ++ bytes.map (lastColor dev, ·) := by
    rw [shown, shownFrom_append, shownFrom_chars]
    rfl
  rw [shownUnder, under, List.filterMap_append, List.filterMap_map]
  by_cases same : lastColor dev = some color
  · simp [shownUnder, same]
  · simp [shownUnder, same]

/-- A put that shows nothing. -/
theorem shown_silent {put : Put} (silent : ∀ c, put ≠ .char c) (dev : List Put) :
    shown (dev ++ [put]) = shown dev := by
  rw [shown, shownFrom_append]
  cases put with
  | char c => exact absurd rfl (silent c)
  | set color | clear | message text => exact List.append_nil _

theorem color_injective {first second : Fin n} (few : n ≤ maxNumClients)
    (same : SerialServer.color first = SerialServer.color second) : first = second := by
  have firstLess : first.val < colors.length := Nat.lt_of_lt_of_le first.isLt few
  have secondLess : second.val < colors.length := Nat.lt_of_lt_of_le second.isLt few
  have distinct : colors.Nodup := by decide
  have atIndex : colors[first.val] = colors[second.val] := by
    simpa [SerialServer.color, List.getD_eq_getElem?_getD, firstLess, secondLess] using same
  exact Fin.ext ((List.Nodup.getElem_inj_iff distinct).mp atIndex)

namespace SerialServer

/-! ## Every byte is accounted for -/

/-- What has been received from each client is what has been shown under its color and what is
still in its buffer; nothing else has been shown. -/
structure Accounted (received : Fin n → List UInt8) (server : SerialServer n) : Prop where
  current : lastColor server.dev = server.lastOutputClient.map color
  bytes : ∀ client, shownUnder (color client) server.dev ++ server.buffers client = received client
  attributed : ∀ entry ∈ shown server.dev, ∃ client : Fin n, entry.1 = some (color client)

/-- What the methods do that put the bytes of clients to the device. -/
structure Drained (before after : SerialServer n) : Prop where
  accounted : ∀ {received}, Accounted received before → Accounted received after
  suffix : ∀ client, after.buffers client <:+ before.buffers client

namespace Drained

theorem refl (server : SerialServer n) : Drained server server :=
  ⟨id, fun _ => List.suffix_rfl⟩

theorem trans {before middle after : SerialServer n} (first : Drained before middle)
    (second : Drained middle after) : Drained before after :=
  ⟨fun accounted => second.accounted (first.accounted accounted),
    fun client => (second.suffix client).trans (first.suffix client)⟩

theorem ite {before first second : SerialServer n} {condition : Prop} [Decidable condition]
    (isFirst : Drained before first) (isSecond : Drained before second) :
    Drained before (if condition then first else second) := by
  split
  · exact isFirst
  · exact isSecond

theorem foldl {clients : List (Fin n)} {turn : SerialServer n → Fin n → SerialServer n}
    (drained : ∀ server client, Drained server (turn server client)) (server : SerialServer n) :
    Drained server (clients.foldl turn server) := by
  induction clients generalizing server with
  | nil => exact refl server
  | cons client clients ih => exact (drained server client).trans (ih _)

end Drained

section Methods
variable {server : SerialServer n} {received : Fin n → List UInt8}

theorem setOutputClient_drained (client : Fin n) : Drained server (server.setOutputClient client) := by
  unfold setOutputClient
  split
  · exact .refl server
  · refine ⟨fun accounted => ?_, fun _ => List.suffix_rfl⟩
    have same : shown (server.dev ++ [.set (color client)]) = shown server.dev :=
      shown_silent (fun c => by simp) _
    refine ⟨?_, fun other => ?_, ?_⟩
    · simp [put, lastColor, lastColorFrom_append, lastColorFrom]
    · have bytes := accounted.bytes other
      simpa only [put, shownUnder, same] using bytes
    · have attributed := accounted.attributed
      simpa only [put, same] using attributed

theorem setOutputClient_last (client : Fin n) :
    (server.setOutputClient client).lastOutputClient = some client := by
  unfold setOutputClient
  split
  · next isLast => exact isLast
  · rfl

/-- The bytes go under the color of their client, which has been set before. -/
theorem drain_drained (few : n ≤ maxNumClients) (client : Fin n) (count : Nat) :
    Drained server (server.drain client count) := by
  refine (setOutputClient_drained client).trans ⟨fun {received} accounted => ?_, fun other => ?_⟩
  · have isCurrent : lastColor (server.setOutputClient client).dev = some (color client) := by
      rw [accounted.current, setOutputClient_last]
      rfl
    refine ⟨?_, fun other => ?_, fun entry member => ?_⟩
    · have current := accounted.current
      simpa only [drain, put, lastColor, lastColorFrom_append, lastColorFrom_chars] using current
    · have bytes := accounted.bytes other
      simp only [drain, put, shownUnder_chars, isCurrent]
      by_cases same : other = client
      · subst same
        rw [if_pos rfl, Function.update_self, List.append_assoc, List.take_append_drop, bytes]
      · have apart : ¬ some (color client) = some (color other) := by
          intro sameColor
          exact same (color_injective few (Option.some.inj sameColor)).symm
        rw [if_neg apart, List.append_nil, Function.update_of_ne same, bytes]
    · simp only [drain, put, shown, shownFrom_append, shownFrom_chars, List.mem_append] at member
      rcases member with before | isNew
      · exact accounted.attributed entry before
      · obtain ⟨_, _, rfl⟩ := List.mem_map.mp isNew
        exact ⟨client, isCurrent⟩
  · simp only [drain, put]
    by_cases same : other = client
    · subst same
      rw [Function.update_self]
      exact List.drop_suffix _ _
    · rw [Function.update_of_ne same]

theorem flush_drained (few : n ≤ maxNumClients) (client : Fin n) :
    Drained server (server.flush client) := by
  unfold flush
  split
  · exact .refl server
  · exact drain_drained few client _

theorem flushLine_drained (few : n ≤ maxNumClients) (client : Fin n) :
    Drained server (server.flushLine client).2 := by
  unfold flushLine
  split
  · exact .refl server
  · exact drain_drained few client _

theorem flushEach_drained (few : n ≤ maxNumClients) : Drained server server.flushEach :=
  .foldl (fun _ client => flush_drained few client) server

theorem flushTurns_drained (few : n ≤ maxNumClients) (clients : List (Fin n))
    (result : Bool × SerialServer n) : Drained result.2 (clients.foldl flushTurn result).2 := by
  induction clients generalizing result with
  | nil => exact .refl result.2
  | cons client clients ih => exact (flushLine_drained few client).trans (ih (flushTurn result client))

theorem flushRounds_drained (few : n ≤ maxNumClients) (fuel : Nat) :
    Drained server (server.flushRounds fuel).2 := by
  induction fuel generalizing server with
  | zero => exact .refl server
  | succ fuel ih =>
      have round : Drained server server.flushEachLine.2 :=
        flushTurns_drained few (List.finRange n) (false, server)
      rw [flushRounds]
      split
      · exact round.trans ih
      · exact round

theorem flushLines_drained (few : n ≤ maxNumClients) : Drained server server.flushLines.2 :=
  flushRounds_drained few _

theorem flush_buffer (client : Fin n) : (server.flush client).buffers client = [] := by
  unfold flush
  split
  · next isEmpty => exact isEmpty
  · rw [drain_buffers, Function.update_self, List.drop_length]

/-- A buffer between two events. -/
def Waiting (server : SerialServer n) : Prop :=
  ∀ client, (server.buffers client).length < bufferLimit ∧ lineFeed ∉ server.buffers client

theorem Drained.waiting {before after : SerialServer n} (drained : Drained before after)
    (waiting : Waiting before) : Waiting after := by
  intro client
  have shorter := (drained.suffix client).length_le
  exact ⟨Nat.lt_of_le_of_lt shorter (waiting client).1,
    fun member => (waiting client).2 ((drained.suffix client).subset member)⟩

/-! ## Event by event -/

theorem Drained.unchanged {after : SerialServer n} (sameDev : after.dev = server.dev)
    (sameLast : after.lastOutputClient = server.lastOutputClient)
    (sameBuffers : after.buffers = server.buffers) : Drained server after := by
  refine ⟨fun accounted => ⟨?_, ?_, ?_⟩, fun client => ?_⟩
  · rw [sameDev, sameLast, accounted.current]
  · intro client
    rw [sameDev, sameBuffers, accounted.bytes]
  · rw [sameDev]
    exact accounted.attributed
  · rw [sameBuffers]

theorem clearOutputClient_drained : Drained server server.clearOutputClient := by
  unfold clearOutputClient
  split
  · have silent : shown (server.dev ++ [.clear]) = shown server.dev :=
      shown_silent (fun c => by simp) _
    refine ⟨fun accounted => ⟨?_, fun client => ?_, ?_⟩, fun _ => List.suffix_rfl⟩
    · simp [put, lastColor, lastColorFrom_append, lastColorFrom]
    · have bytes := accounted.bytes client
      simpa only [put, shownUnder, silent] using bytes
    · have attributed := accounted.attributed
      simpa only [put, silent] using attributed
  · exact .refl server

theorem message_drained (text : String) : Drained server (server.put [.message text]) := by
  have silent : shown (server.dev ++ [.message text]) = shown server.dev :=
    shown_silent (fun c => by simp) _
  refine ⟨fun accounted => ⟨?_, fun client => ?_, ?_⟩, fun _ => List.suffix_rfl⟩
  · have current := accounted.current
    simpa only [put, lastColor, lastColorFrom_append, lastColorFrom] using current
  · have bytes := accounted.bytes client
    simpa only [put, shownUnder, silent] using bytes
  · have attributed := accounted.attributed
    simpa only [put, silent] using attributed

theorem notice_drained (text : String) :
    Drained server (server.clearOutputClient.put [.message text]) :=
  clearOutputClient_drained.trans (message_drained text)

theorem setInputClient_drained (client : Fin n) : Drained server (server.setInputClient client) := by
  unfold setInputClient
  exact (notice_drained _).trans (.unchanged rfl rfl rfl)

theorem handleChar_drained (c : UInt8) : Drained server (server.handleChar c).2 := by
  unfold handleChar
  split
  · exact .unchanged rfl rfl rfl
  · by_cases isEscape : c = escape
    · rw [if_pos isEscape]
      exact .unchanged rfl rfl rfl
    · rw [if_neg isEscape]
      exact .unchanged rfl rfl rfl
  · by_cases isEscape : c = escape
    · rw [if_pos isEscape]
      exact .unchanged rfl rfl rfl
    rw [if_neg isEscape]
    by_cases isHelp : c = 63
    · rw [if_pos isHelp]
      exact (notice_drained (help n)).trans (.unchanged rfl rfl rfl)
    rw [if_neg isHelp]
    split
    · next client _ => exact (setInputClient_drained client).trans (.unchanged rfl rfl rfl)
    · exact .unchanged rfl rfl rfl

theorem handleTimeout_drained (few : n ≤ maxNumClients) : Drained server server.handleTimeout := by
  unfold handleTimeout
  split
  · exact .unchanged rfl rfl rfl
  · simp only
    split
    · exact flushLines_drained few
    · exact (flushLines_drained few).trans (flushEach_drained few)

/-- A byte that arrives, before anything is flushed. -/
def push (client : Fin n) (c : UInt8) (server : SerialServer n) : SerialServer n :=
  { server with
    buffers := Function.update server.buffers client (server.buffers client ++ [c]) }

theorem push_self (client : Fin n) (c : UInt8) :
    (server.push client c).buffers client = server.buffers client ++ [c] :=
  Function.update_self ..

theorem push_of_ne {client other : Fin n} (apart : other ≠ client) (c : UInt8) :
    (server.push client c).buffers other = server.buffers other :=
  Function.update_of_ne apart ..

theorem Accounted.push (client : Fin n) (c : UInt8) (accounted : Accounted received server) :
    Accounted (Function.update received client (received client ++ [c])) (server.push client c) := by
  refine ⟨accounted.current, fun other => ?_, accounted.attributed⟩
  have bytes := accounted.bytes other
  by_cases same : other = client
  · subst same
    rw [push_self, Function.update_self, ← List.append_assoc]
    exact congrArg (· ++ [c]) bytes
  · rw [push_of_ne same, Function.update_of_ne same]
    exact bytes

/-- What follows on a full buffer that has been flushed. -/
def makeRoom (client : Fin n) (server : SerialServer n) : SerialServer n :=
  let server := match server.lastOutputClient with
    | some last => (server.flushLine last).2
    | none => server
  let server := server.flushLines.2
  let server := if (server.buffers client).length = bufferLimit then server.flushEach else server
  server.setOutputClient client

theorem makeRoom_drained (few : n ≤ maxNumClients) (client : Fin n) :
    Drained server (server.makeRoom client) := by
  have first : Drained server (match server.lastOutputClient with
      | some last => (server.flushLine last).2
      | none => server) := by
    split
    · exact flushLine_drained few _
    · exact .refl server
  have lines := first.trans (flushLines_drained few)
  exact .trans (.ite (lines.trans (flushEach_drained few)) lines) (setOutputClient_drained client)

/-- Either the client's buffer is flushed, or its last byte may wait there. -/
theorem handleClientChar_cases (few : n ≤ maxNumClients) (client : Fin n) (c : UInt8) :
    Drained ((server.push client c).flush client) (server.handleClientChar client c) ∨
      server.handleClientChar client c = server.push client c ∧ c ≠ lineFeed ∧
        ((server.push client c).buffers client).length ≠ bufferLimit := by
  by_cases full : ((server.push client c).buffers client).length = bufferLimit
  · have isRoom : server.handleClientChar client c =
        ((server.push client c).flush client).makeRoom client := if_pos full
    rw [isRoom]
    exact .inl (makeRoom_drained few client)
  · have isElse : server.handleClientChar client c = if c = lineFeed ∨
        ((server.push client c).lastOutputClient = some client ∧
          ((List.finRange n).any fun other => decide (other ≠ client) &&
            !((server.push client c).buffers other).isEmpty) = false)
        then (server.push client c).flush client else server.push client c := if_neg full
    rw [isElse]
    split
    · exact .inl (.refl _)
    · next waits => exact .inr ⟨rfl, fun isLine => waits (.inl isLine), full⟩

theorem handleClientChar_drained (few : n ≤ maxNumClients) (client : Fin n) (c : UInt8) :
    Drained (server.push client c) (server.handleClientChar client c) := by
  rcases handleClientChar_cases few client c with drained | ⟨same, _, _⟩
  · exact (flush_drained few client).trans drained
  · rw [same]
    exact .refl _

theorem handleClientChar_waiting (few : n ≤ maxNumClients) (client : Fin n) (c : UInt8)
    (waiting : Waiting server) : Waiting (server.handleClientChar client c) := by
  intro other
  by_cases isClient : other = client
  · subst isClient
    rcases handleClientChar_cases few other c with drained | ⟨same, notLine, notFull⟩
    · have suffix := drained.suffix other
      rw [flush_buffer, List.suffix_nil] at suffix
      rw [suffix]
      exact ⟨by decide, List.not_mem_nil⟩
    · have ⟨short, noLine⟩ := waiting other
      rw [push_self, List.length_append, List.length_singleton] at notFull
      rw [same, push_self, List.length_append, List.length_singleton, List.mem_append,
        List.mem_singleton]
      exact ⟨by omega, fun member => member.elim noLine (notLine ∘ Eq.symm)⟩
  · have drained : Drained (server.push client c) (server.handleClientChar client c) :=
      handleClientChar_drained few client c
    have suffix := drained.suffix other
    rw [push_of_ne isClient] at suffix
    have ⟨short, noLine⟩ := waiting other
    exact ⟨Nat.lt_of_le_of_lt suffix.length_le short, fun member => noLine (suffix.subset member)⟩

end Methods

/-! ## All events -/

inductive Input (n : Nat) where
  | clientChar (client : Fin n) (c : UInt8)
  | char (c : UInt8)
  | timeout
  deriving DecidableEq, Repr

def handle (server : SerialServer n) : Input n → SerialServer n
  | .clientChar client c => server.handleClientChar client c
  | .char c => (server.handleChar c).2
  | .timeout => server.handleTimeout

def handleAll (server : SerialServer n) (inputs : List (Input n)) : SerialServer n :=
  inputs.foldl handle server

/-- The bytes that a client has sent. -/
def receivedFrom (inputs : List (Input n)) (client : Fin n) : List UInt8 :=
  inputs.filterMap fun
    | .clientChar other c => if other = client then some c else none
    | _ => none

section Runs
variable {server : SerialServer n}

theorem receivedFrom_clientChar (inputs : List (Input n)) (client : Fin n) (c : UInt8) :
    receivedFrom (inputs ++ [.clientChar client c]) =
      Function.update (receivedFrom inputs) client (receivedFrom inputs client ++ [c]) := by
  funext other
  by_cases same : other = client
  · subst same
    simp [receivedFrom]
  · simp [receivedFrom, Function.update_of_ne same, Ne.symm same]

theorem handle_accounted (few : n ≤ maxNumClients) (inputs : List (Input n)) (input : Input n)
    (accounted : Accounted (receivedFrom inputs) server) :
    Accounted (receivedFrom (inputs ++ [input])) (server.handle input) := by
  have silent : (∀ client, receivedFrom (inputs ++ [input]) client = receivedFrom inputs client) →
      Accounted (receivedFrom (inputs ++ [input])) server := by
    intro same
    rw [funext same]
    exact accounted
  cases input with
  | clientChar client c =>
      rw [receivedFrom_clientChar]
      exact (handleClientChar_drained few client c).accounted (accounted.push client c)
  | char c => exact (handleChar_drained c).accounted (silent fun client => by simp [receivedFrom])
  | timeout =>
      exact (handleTimeout_drained few).accounted (silent fun client => by simp [receivedFrom])

theorem handle_waiting (few : n ≤ maxNumClients) (input : Input n) (waiting : Waiting server) :
    Waiting (server.handle input) := by
  cases input with
  | clientChar client c => exact handleClientChar_waiting few client c waiting
  | char c => exact (handleChar_drained c).waiting waiting
  | timeout => exact (handleTimeout_drained few).waiting waiting

end Runs

theorem new_accounted {server : SerialServer n} (created : SerialServer.new n = some server) :
    Accounted (receivedFrom []) server ∧ Waiting server := by
  unfold SerialServer.new at created
  split at created
  · obtain rfl := Option.some.inj created
    refine ⟨⟨rfl, fun _ => rfl, fun entry member => ?_⟩, fun _ => ⟨Nat.zero_lt_succ _, List.not_mem_nil⟩⟩
    exact absurd member List.not_mem_nil
  · simp at created

theorem handleAll_accounted {server : SerialServer n} (created : SerialServer.new n = some server)
    (inputs : List (Input n)) :
    Accounted (receivedFrom inputs) (server.handleAll inputs) ∧ Waiting (server.handleAll inputs) := by
  have few : n ≤ maxNumClients := by
    unfold SerialServer.new at created
    split at created
    · assumption
    · simp at created
  induction inputs using List.reverseRecOn with
  | nil => exact new_accounted created
  | append_singleton inputs input ih =>
      have last : server.handleAll (inputs ++ [input]) = (server.handleAll inputs).handle input := by
        simp [handleAll]
      rw [last]
      exact ⟨handle_accounted few inputs input ih.1, handle_waiting few input ih.2⟩

end SerialServer

/-! ## With the clients at work -/

namespace System

open IceCap.Library
open SerialServer (Input)

/-- The server of the system is where the events it has handled have brought it. -/
def HasHandled (start : SerialServer n) (system : System n) : Prop :=
  ∃ inputs, system.server = start.handleAll inputs

section Handled
variable {start : SerialServer n} {α : Type}

theorem HasHandled.of_keeps {call : Exec Empty (System n) α}
    (keeps : Exec.Keeps System.server call) : Exec.Maintains (HasHandled start) call := by
  intro before after run handled
  rcases run with ⟨value, run⟩ | ⟨error, _⟩
  · unfold HasHandled
    rw [keeps _ _ _ run]
    exact handled
  · exact error.elim

theorem HasHandled.handle {before after : System n} (handled : HasHandled start before)
    (input : Input n) (isHandle : after.server = before.server.handle input) :
    HasHandled start after := by
  obtain ⟨inputs, isServer⟩ := handled
  refine ⟨inputs ++ [input], ?_⟩
  rw [isHandle, isServer]
  simp [SerialServer.handleAll]

theorem HasHandled.modify {update : System n → System n} (input : System n → Input n)
    (isHandle : ∀ system, (update system).server = system.server.handle (input system)) :
    Exec.Maintains (HasHandled start) (Exec.modify update : Exec Empty (System n) Unit) := by
  apply Exec.Maintains.modify
  intro system handled
  exact handled.handle (input system) (isHandle system)

theorem onLink_server (client : Fin n) (method : Exec Empty Ring.Link α) :
    Exec.Keeps System.server (onLink client method) :=
  .focus fun _ _ => rfl

theorem schedule_server (tasks : List (Task n)) : Exec.Keeps System.server (schedule tasks) :=
  .modify fun _ => rfl

theorem runTask_handles (char : Option UInt8) (task : Task n) :
    Exec.Maintains (HasHandled start) (runTask char task) := by
  cases task with
  | enableNotifyRead client | enableNotifyWrite client | txCallback client | tx client buf =>
      exact .of_keeps ((onLink_server client _).bind fun _ => .pure _)
  | rxCallback client =>
      exact .of_keeps ((onLink_server client _).bind fun _ => .modify fun _ => rfl)
  | poll client => exact .of_keeps ((onLink_server client _).bind fun _ => schedule_server _)
  | rxInto client =>
      refine (HasHandled.of_keeps (onLink_server client _)).bind fun bytes => ?_
      exact HasHandled.modify (fun system => .clientChar client (bytes.headD system.buf))
        fun _ => rfl
  | getChar =>
      cases char with
      | none => exact .of_keeps (.pure _)
      | some c =>
          intro before after run handled
          rcases run with ⟨⟨⟩, run⟩ | ⟨error, _⟩
          · simp only [runTask, schedule, Exec.bind_eq_ok, Exec.get_eq_ok, Exec.modify_eq_ok] at run
            obtain ⟨_, _, ⟨rfl, rfl⟩, _, _, rfl, rfl⟩ := run
            exact handled.handle (.char c) rfl
          · exact error.elim

theorem receive_handles (event : Event n) :
    Exec.Maintains (HasHandled start) (receive event) := by
  cases event with
  | interrupt | con client => exact .of_keeps (schedule_server _)
  | timeout => exact HasHandled.modify (fun _ => .timeout) fun _ => rfl

theorem move_handles (event : Move n) : Exec.Maintains (HasHandled start) (move event) := by
  cases event with
  | client client action =>
      refine (HasHandled.of_keeps (onLink_server client _)).bind fun kicked => ?_
      exact .ite (.of_keeps (.modify fun _ => rfl)) (.of_keeps (.pure _))
  | send event =>
      exact .of_keeps ((Exec.Keeps.assert _).bind fun _ => .modify fun _ => rfl)
  | work char =>
      refine (HasHandled.of_keeps .get).bind fun system => ?_
      refine (HasHandled.of_keeps (.unwrap _)).bind fun task => ?_
      refine Exec.Maintains.bind (.of_keeps (.modify ?_)) fun _ => runTask_handles char task
      exact fun _ => rfl
  | recv =>
      refine (HasHandled.of_keeps .get).bind fun system => ?_
      refine (HasHandled.of_keeps (.assert _)).bind fun _ => ?_
      refine (HasHandled.of_keeps (.unwrap _)).bind fun event => ?_
      refine Exec.Maintains.bind (.of_keeps (.modify ?_)) fun _ => receive_handles event
      exact fun _ => rfl

end Handled

/-- In every run of the server with its clients, the server has handled some inputs. -/
theorem run_handles {bufs : Fin n → Ring.Who → List UInt8} {server : SerialServer n}
    {first final : System n} {taken : List (System n × Move n)}
    (created : SerialServer.new n = some server) (started : System.new bufs = some first)
    (run : Recorded Step first taken final) : ∃ inputs, final.server = server.handleAll inputs := by
  obtain ⟨other, isOther, rfl⟩ := Option.map_eq_some_iff.mp started
  obtain rfl := Option.some.inj (created.symm.trans isOther)
  have handled : HasHandled server final :=
    run.always ⟨[], rfl⟩ fun event before after handled moved =>
      move_handles event before after (.inl ⟨(), moved⟩) handled
  exact handled

end System

namespace SerialServer

open IceCap.Library

/-- However the bytes of the clients, the characters typed and the timeouts are mixed: for each
client, what has been shown under its color and what is in its buffer are the bytes received from
it, nothing is shown under another color, and no buffer is full or has a line.  In the runs of the
server with its clients they are mixed in some way, too. -/
theorem output_lossless {server : SerialServer n} (created : SerialServer.new n = some server) :
    (∀ inputs : List (Input n),
      (∀ client, shownUnder (color client) (server.handleAll inputs).dev ++
        (server.handleAll inputs).buffers client = receivedFrom inputs client) ∧
      (∀ entry ∈ shown (server.handleAll inputs).dev, ∃ client : Fin n,
        entry.1 = some (color client)) ∧
      ∀ client, ((server.handleAll inputs).buffers client).length < bufferLimit ∧
        lineFeed ∉ (server.handleAll inputs).buffers client) ∧
    ∀ (bufs : Fin n → Ring.Who → List UInt8) (first final : System n)
      (taken : List (System n × System.Move n)),
      System.new bufs = some first → Recorded System.Step first taken final →
        ∃ inputs, final.server = server.handleAll inputs := by
  refine ⟨fun inputs => ?_, fun _ _ _ _ started run => System.run_handles created started run⟩
  have ⟨accounted, waiting⟩ := handleAll_accounted created inputs
  exact ⟨accounted.bytes, accounted.attributed, waiting⟩

/-- Two clients in the middle of their lines, and a timeout, which flushes both. -/
def twoLines : List (Input 2) := [.clientChar 0 97, .clientChar 1 98, .timeout]

theorem output_lossless_twoLines : ∃ server : SerialServer 2, SerialServer.new 2 = some server ∧
    (server.handleAll twoLines).dev =
      [.set (color (0 : Fin 2)), .char 97, .set (color (1 : Fin 2)), .char 98] ∧
    ∀ client, shownUnder (color client) (server.handleAll twoLines).dev ++
      (server.handleAll twoLines).buffers client = receivedFrom twoLines client :=
  ⟨_, rfl, by decide +kernel, ((output_lossless rfl).1 twoLines).1⟩

end SerialServer

end IceCap.Serial
