import Mathlib.Data.List.FinRange
import Mathlib.Algebra.Order.BigOperators.Group.Finset
import IceCap.Ring.Buffered

/-!
# The serial server

`SerialServer` keeps, for each client, the bytes that are to go to the device.
Its methods that only concern these and the device are functions; the device is
what has been put to it so far.  The methods that use the clients' ring buffers
are lists of tasks, one for each call, for the clients go on in between.
-/

set_option autoImplicit false

namespace IceCap.Serial

open IceCap.Library

inductive BaseColor where
  | black | red | green | yellow | blue | magenta | cyan | white
  deriving DecidableEq, Repr

inductive Style where
  | normal
  | bold
  deriving DecidableEq, Repr

structure Color where
  base : BaseColor
  style : Style
  deriving DecidableEq, Repr

def colors : List Color := [
  ⟨.red, .normal⟩, ⟨.green, .normal⟩, ⟨.blue, .normal⟩, ⟨.magenta, .normal⟩, ⟨.yellow, .normal⟩,
  ⟨.cyan, .normal⟩, ⟨.red, .bold⟩, ⟨.green, .bold⟩, ⟨.blue, .bold⟩, ⟨.magenta, .bold⟩,
  ⟨.yellow, .bold⟩, ⟨.cyan, .bold⟩]

def maxNumClients : Nat := colors.length

def bufferLimit : Nat := 0x1000

def escape : UInt8 := 64

def lineFeed : UInt8 := 10

def carriageReturn : UInt8 := 13

inductive InputState where
  | start
  | newLine
  | escape
  deriving DecidableEq, Repr

/-- What is put to the device: a client's byte, the sequences that set and clear the color, or one
of the server's own messages. -/
inductive Put where
  | char (c : UInt8)
  | set (color : Color)
  | clear
  | message (text : String)
  deriving DecidableEq, Repr

structure SerialServer (n : Nat) where
  buffers : Fin n → List UInt8
  activeInputClient : Option (Fin n)
  lastOutputClient : Option (Fin n)
  outputSinceLastTimeout : Bool
  inputState : InputState
  dev : List Put

namespace SerialServer

variable {n : Nat}

def new (n : Nat) : Option (SerialServer n) :=
  if n ≤ maxNumClients then some {
    buffers := fun _ => []
    activeInputClient := (List.finRange n).head?
    lastOutputClient := none
    outputSinceLastTimeout := false
    inputState := .start
    dev := [] }
  else none

def put (server : SerialServer n) (puts : List Put) : SerialServer n :=
  { server with dev := server.dev ++ puts }

/-- `new` has checked that there is a color for every client. -/
def color (client : Fin n) : Color := colors.getD client ⟨.white, .normal⟩

def setOutputClient (client : Fin n) (server : SerialServer n) : SerialServer n :=
  if server.lastOutputClient = some client then server
  else { server with lastOutputClient := some client }.put [.set (color client)]

def clearOutputClient (server : SerialServer n) : SerialServer n :=
  if server.lastOutputClient.isSome then { server with lastOutputClient := none }.put [.clear]
  else server

/-- The first bytes of a client's buffer go to the device. -/
def drain (client : Fin n) (count : Nat) (server : SerialServer n) : SerialServer n :=
  let server := server.setOutputClient client
  { server with
    buffers := Function.update server.buffers client ((server.buffers client).drop count)
    outputSinceLastTimeout := true }.put (((server.buffers client).take count).map .char)

def flush (client : Fin n) (server : SerialServer n) : SerialServer n :=
  if server.buffers client = [] then server
  else server.drain client (server.buffers client).length

def flushLine (client : Fin n) (server : SerialServer n) : Bool × SerialServer n :=
  match (server.buffers client).findIdx? (· == lineFeed) with
  | none => (false, server)
  | some i => (true, server.drain client (i + 1))

/-- A client's turn in a round that notes whether any line was flushed. -/
def flushTurn (result : Bool × SerialServer n) (client : Fin n) : Bool × SerialServer n :=
  let flushed := result.2.flushLine client
  (result.1 || flushed.1, flushed.2)

def flushEachLine (server : SerialServer n) : Bool × SerialServer n :=
  (List.finRange n).foldl flushTurn (false, server)

/-- Rounds until one flushes nothing.  Every other round flushes at least one byte. -/
def flushRounds : Nat → SerialServer n → Bool × SerialServer n
  | 0, server => (false, server)
  | fuel + 1, server =>
      let round := server.flushEachLine
      if round.1 then (true, (flushRounds fuel round.2).2) else round

def buffered (server : SerialServer n) : Nat := ∑ client, (server.buffers client).length

def flushLines (server : SerialServer n) : Bool × SerialServer n :=
  server.flushRounds (server.buffered + 1)

def flushEach (server : SerialServer n) : SerialServer n :=
  (List.finRange n).foldl (fun server client => server.flush client) server

def handleClientChar (client : Fin n) (c : UInt8) (server : SerialServer n) : SerialServer n :=
  let server : SerialServer n := { server with
    buffers := Function.update server.buffers client (server.buffers client ++ [c]) }
  if (server.buffers client).length = bufferLimit then
    let server := server.flush client
    let server := match server.lastOutputClient with
      | some last => (server.flushLine last).2
      | none => server
    let server := server.flushLines.2
    let server := if (server.buffers client).length = bufferLimit then server.flushEach else server
    server.setOutputClient client
  else
    let anyElse := (List.finRange n).any fun other =>
      decide (other ≠ client) && !(server.buffers other).isEmpty
    if c = lineFeed ∨ (server.lastOutputClient = some client ∧ anyElse = false) then
      server.flush client
    else server

def handleTimeout (server : SerialServer n) : SerialServer n :=
  if server.outputSinceLastTimeout then { server with outputSinceLastTimeout := false }
  else
    let flushed := server.flushLines
    if flushed.1 then flushed.2 else flushed.2.flushEach

def setInputClient (client : Fin n) (server : SerialServer n) : SerialServer n :=
  { server.clearOutputClient.put [.message ("Switching input to " ++ toString client.val ++ "\n")] with
    activeInputClient := some client }

def help (n : Nat) : String :=
  "--- SerialServer help ---\nEscape char: " ++ toString escape.toNat ++ "\n0 - " ++
    toString (wrappingPred n) ++ " switches input to that client\n?      shows this help\n"
where
  /-- `self.clients.len() - 1`, in the release profile. -/
  wrappingPred (n : Nat) : Nat := Ring.wrappingSub n 1

/-- The client that an escaped character stands for. -/
def selected (n : Nat) (c : UInt8) : Option (Fin n) :=
  let id := Ring.wrappingSub c.toNat 48
  if less : id < n then some ⟨id, less⟩ else none

def raw (c : UInt8) : InputState :=
  if c = carriageReturn ∨ c = lineFeed then .newLine else .start

/-- The bytes to forward to the active client. -/
def forward (server : SerialServer n) (bytes : List UInt8) : List (Fin n × UInt8) :=
  match server.activeInputClient with
  | some client => bytes.map (client, ·)
  | none => []

def handleChar (c : UInt8) (server : SerialServer n) : List (Fin n × UInt8) × SerialServer n :=
  match server.inputState with
  | .start => (server.forward [c], { server with inputState := raw c })
  | .newLine =>
      if c = escape then ([], { server with inputState := .escape })
      else (server.forward [c], { server with inputState := raw c })
  | .escape =>
      if c = escape then (server.forward [c], { server with inputState := .start })
      else if c = 63 then
        ([], { server.clearOutputClient.put [.message (help n)] with inputState := .newLine })
      else match selected n c with
        | some client => ([], { server.setInputClient client with inputState := .newLine })
        | none => (server.forward [escape, c], { server with inputState := .start })

/-! ## Buffers -/

section Buffers
variable {server : SerialServer n}

theorem setOutputClient_buffers (client : Fin n) :
    (server.setOutputClient client).buffers = server.buffers := by
  unfold setOutputClient
  split <;> rfl

theorem drain_buffers (client : Fin n) (count : Nat) : (server.drain client count).buffers =
    Function.update server.buffers client ((server.buffers client).drop count) := by
  simp [drain, put, setOutputClient_buffers]

end Buffers

end SerialServer

end IceCap.Serial
