import IceCap.Library.Recorded
import IceCap.Serial.Server

/-!
# The serial server and its clients

The server makes one call after another and takes the next event when none is
left; in between, every client may call its own ring buffer.  A client whose
call kicks the server puts a `con` into the server's queue of events.

Of the two parties of a link, `a` is the server and `b` the client.
-/

set_option autoImplicit false

namespace IceCap.Serial

open IceCap.Library
open IceCap.Ring (Link Parties Who Action Status call BufferedRingBuffer.ringBuffer)

variable {n : Nat}

inductive Event (n : Nat) where
  | interrupt
  | timeout
  | con (client : Fin n)
  deriving DecidableEq, Repr

/-- A call the server still has to make. -/
inductive Task (n : Nat) where
  | enableNotifyRead (client : Fin n)
  | enableNotifyWrite (client : Fin n)
  | rxCallback (client : Fin n)
  /-- The bound of the loop of `handle_rx`. -/
  | poll (client : Fin n)
  /-- A round of that loop. -/
  | rxInto (client : Fin n)
  | txCallback (client : Fin n)
  | tx (client : Fin n) (buf : List UInt8)
  /-- A round of the loop that follows an interrupt. -/
  | getChar
  deriving DecidableEq, Repr

def handleRx (client : Fin n) : List (Task n) :=
  [.rxCallback client, .poll client, .enableNotifyRead client]

def handleTx (client : Fin n) : List (Task n) := [.txCallback client, .enableNotifyWrite client]

structure System (n : Nat) where
  links : Fin n → Link
  server : SerialServer n
  /-- The buffer of one byte that `handle_rx` reads into. -/
  buf : UInt8
  agenda : List (Task n)
  events : List (Event n)

namespace System

/-- What `run` does before it waits for events. -/
def startUp (n : Nat) : List (Task n) :=
  (List.finRange n).flatMap fun client =>
    [.enableNotifyRead client, .enableNotifyWrite client] ++ handleRx client ++ handleTx client

def new (bufs : Fin n → Who → List UInt8) : Option (System n) :=
  (SerialServer.new n).map fun server => {
    links := fun client => ⟨Ring.connect (bufs client), []⟩
    server
    buf := 0
    agenda := startUp n
    events := [] }

/-- A call on the ring buffer of a client. -/
def onLink {α : Type} (client : Fin n) (method : Exec Empty Link α) : Exec Empty (System n) α :=
  Exec.focus (fun system => system.links client)
    (fun link system => { system with links := Function.update system.links client link }) method

/-- The next calls, ahead of the rest. -/
def schedule (tasks : List (Task n)) : Exec Empty (System n) Unit :=
  Exec.modify fun system => { system with agenda := tasks ++ system.agenda }

open Ring.BufferedRingBuffer in
/-- One call of the server.  `char` is what the device answers to `get_char`. -/
def runTask (char : Option UInt8) : Task n → Exec Empty (System n) Unit
  | .enableNotifyRead client => do
      let _ ← onLink client (ringBuffer (call .a (.setNotify .notifyRead true)))
  | .enableNotifyWrite client => do
      let _ ← onLink client (ringBuffer (call .a (.setNotify .notifyWrite true)))
  | .rxCallback client => do
      onLink client rxCallback
      Exec.modify fun system => { system with buf := 0 }
  | .poll client => do
      let count ← onLink client (poll .a)
      schedule (List.replicate count (.rxInto client))
  | .rxInto client => do
      let bytes ← onLink client (rxInto .a 1)
      Exec.modify fun system =>
        let buf := bytes.headD system.buf
        { system with buf, server := system.server.handleClientChar client buf }
  | .txCallback client => do
      let _ ← onLink client (txCallback .a)
  | .tx client buf => do
      let _ ← onLink client (tx .a buf)
  | .getChar =>
      match char with
      | none => pure ()
      | some c => do
          let system ← Exec.get
          let handled := system.server.handleChar c
          Exec.modify fun system => { system with server := handled.2 }
          schedule (handled.1.map (fun forwarded => .tx forwarded.1 [forwarded.2]) ++ [.getChar])

/-- The tasks of an event. -/
def receive : Event n → Exec Empty (System n) Unit
  | .interrupt => schedule [.getChar]
  | .timeout => Exec.modify fun system => { system with server := system.server.handleTimeout }
  | .con client => schedule (handleRx client ++ handleTx client)

inductive Move (n : Nat) where
  /-- A client calls a method of its ring buffer. -/
  | client (client : Fin n) (action : Action)
  /-- The device or the timer sends an event. -/
  | send (event : Event n)
  /-- The server makes its next call. -/
  | work (char : Option UInt8)
  /-- The server, with nothing left to do, takes the next event. -/
  | recv
  deriving DecidableEq, Repr

open Ring.BufferedRingBuffer in
def move : Move n → Exec Empty (System n) Unit
  | .client client action => do
      let kicked ← onLink client (ringBuffer (call .b action))
      if kicked then
        Exec.modify fun system => { system with events := system.events ++ [.con client] }
      else pure ()
  | .send event => do
      Exec.assert (event = .interrupt ∨ event = .timeout)
      Exec.modify fun system => { system with events := system.events ++ [event] }
  | .work char => do
      let system ← Exec.get
      let task ← Exec.unwrap system.agenda.head?
      Exec.modify fun system => { system with agenda := system.agenda.tail }
      runTask char task
  | .recv => do
      let system ← Exec.get
      Exec.assert (system.agenda = [])
      let event ← Exec.unwrap system.events.head?
      Exec.modify fun system => { system with events := system.events.tail }
      receive event

/-- A run of the server and its clients, call by call. -/
def Step (event : Move n) (before after : System n) : Prop := move event before = .ok () after

end System

end IceCap.Serial
