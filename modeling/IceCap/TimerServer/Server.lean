import Mathlib.Algebra.Group.Int.Defs
import Mathlib.Data.Finset.Basic
import Mathlib.Logic.Relation
import IceCap.Library.Exec
import IceCap.Library.Sorted
import IceCap.Sel4

/-!
# The timer server

`timer-server/src/server.rs`.  The timers of all clients wait in one vector,
sorted by `compare`, and the device is armed for the first of them.

Ticks are `i64` and, as in a release build, their sums wrap.  Two loops need
not end: that of `update_timers`, where a period is not positive, and that
through `update_device`, where the device refuses every deadline.  A method
that contains one is given fuel, and has not returned where the fuel is short.
`signalled` has the notifications that were signalled, in order.
-/

set_option autoImplicit false

namespace IceCap.TimerServer

open IceCap.Library IceCap.Sel4

abbrev ClientId := Nat

abbrev TimerId := Int64

abbrev Nanosecond := Int64

abbrev Tick := Int64

instance Tick.linearOrder : LinearOrder Int64 where
  le_refl := Int64.le_refl
  le_trans _ _ _ := Int64.le_trans
  lt_iff_le_not_ge _ _ :=
    ⟨fun less => ⟨Int64.le_of_lt less, Int64.not_le.mpr less⟩, fun both => Int64.not_le.mp both.2⟩
  le_antisymm _ _ := Int64.le_antisymm
  le_total := Int64.le_total
  toDecidableLE := inferInstance

/-- What the server is run against.  A call may change the device, and so may the time that passes
between two calls. -/
structure TimerDevice (δ : Type) where
  getFreq : δ → UInt32
  setEnable : Bool → δ → δ
  getCount : δ → UInt64 × δ
  setCompare : UInt64 → δ → Bool × δ
  clearInterrupt : δ → δ
  elapses : δ → δ → Prop

namespace TimerDevice

variable {δ : Type} {device : TimerDevice δ} {first before middle after : δ} {count : Tick}

/-- What the calls and the time do to the device. -/
inductive Changes (device : TimerDevice δ) : δ → δ → Prop
  | getCount {state : δ} : Changes device state (device.getCount state).2
  | setCompare {state : δ} (compare : UInt64) :
      Changes device state (device.setCompare compare state).2
  | setEnable {state : δ} (enabled : Bool) : Changes device state (device.setEnable enabled state)
  | clearInterrupt {state : δ} : Changes device state (device.clearInterrupt state)
  | elapses {state later : δ} : device.elapses state later → Changes device state later

abbrev Evolves (device : TimerDevice δ) : δ → δ → Prop := Relation.ReflTransGen device.Changes

/-- The counter reads so much at some time in between. -/
def Reaches (device : TimerDevice δ) (count : Tick) (before after : δ) : Prop :=
  ∃ middle, device.Evolves before middle ∧ device.Evolves middle after ∧
    count ≤ (device.getCount middle).1.toInt64

theorem Reaches.earlier (reaches : device.Reaches count before after)
    (evolves : device.Evolves first before) : device.Reaches count first after := by
  obtain ⟨middle, toMiddle, fromMiddle, isReached⟩ := reaches
  exact ⟨middle, evolves.trans toMiddle, fromMiddle, isReached⟩

theorem Reaches.later (reaches : device.Reaches count first before)
    (evolves : device.Evolves before after) : device.Reaches count first after := by
  obtain ⟨middle, toMiddle, fromMiddle, isReached⟩ := reaches
  exact ⟨middle, toMiddle, fromMiddle.trans evolves, isReached⟩

end TimerDevice

structure Timer where
  client : ClientId
  timer : TimerId
  compare : Tick
  period : Option Tick
  deriving DecidableEq, Repr

/-- The timers that `remove_timer` drains. -/
def Timer.isFor (timer : Timer) (cid : ClientId) (tid : TimerId) : Bool :=
  timer.client = cid ∧ timer.timer = tid

abbrev Timers := List Timer

structure Server (δ : Type) where
  clients : List CPtr
  timersPerClient : TimerId
  completed : ClientId → Option (Finset TimerId)
  outstanding : Timers
  device : δ
  freq : UInt32
  signalled : List CPtr

def nsInS : Int := 1000000000

/-- How the server is run: the device, and the `binary_search` of the vector. -/
structure Platform (δ : Type) where
  device : TimerDevice δ
  binary : BinarySearch Timer.compare

/-- `insert` of the vector panics at an index beyond its end. -/
def Timers.insert (binary : BinarySearch Timer.compare) (timers : Timers) (timer : Timer) :
    Option Timers :=
  let pos := binary.position timers timer
  if pos ≤ timers.length then some (insertAt timers pos timer) else none

def Timers.compare (timers : Timers) : Option Tick := timers.head?.map Timer.compare

namespace Server

variable {δ : Type} (platform : Platform δ)

def new (clients : List CPtr) (timersPerClient : TimerId) (device : δ) : Option (Server δ) :=
  if clients.length ≤ 64 ∧ timersPerClient ≤ 64 then
    some {
      clients := clients
      timersPerClient := timersPerClient
      completed := fun client => if client < clients.length then some ∅ else none
      outstanding := []
      device := device
      freq := platform.device.getFreq device
      signalled := [] }
  else none

/-- The product is an `i128`, which does not overflow, and the cast to `i64` truncates. -/
def nsToTick (server : Server δ) (ns : Nanosecond) : Tick :=
  Int64.ofInt ((ns.toInt * server.freq.toNat).tdiv nsInS)

/-! ## Calls on the device and on the clients -/

def getCount : Exec Unit (Server δ) UInt64 := fun server =>
  let (count, device) := platform.device.getCount server.device
  .ok count { server with device }

def nowTick : Exec Unit (Server δ) Tick := do
  let count ← getCount platform
  pure count.toInt64

def setCompare (compare : UInt64) : Exec Unit (Server δ) Bool := fun server =>
  let (accepted, device) := platform.device.setCompare compare server.device
  .ok accepted { server with device }

def setEnable (enabled : Bool) : Exec Unit (Server δ) Unit :=
  Exec.modify fun server => { server with device := platform.device.setEnable enabled server.device }

def clearInterrupt : Exec Unit (Server δ) Unit :=
  Exec.modify fun server => { server with device := platform.device.clearInterrupt server.device }

def signal (client : ClientId) : Exec Unit (Server δ) Unit := do
  let nfn ← Exec.reads fun server => server.clients[client]?
  Exec.modify fun server => { server with signalled := server.signalled ++ [nfn] }

/-! ## The queue -/

def insert (timer : Timer) : Exec Unit (Server δ) Unit := do
  let outstanding ← Exec.reads fun server => Timers.insert platform.binary server.outstanding timer
  Exec.modify fun server => { server with outstanding }

/-- `self.completed.get_mut(&client).unwrap()`, changed. -/
def updateCompleted (client : ClientId) (change : Finset TimerId → Finset TimerId) :
    Exec Unit (Server δ) Unit := do
  let completed ← Exec.reads fun server => server.completed client
  Exec.modify fun server =>
    { server with completed := Function.update server.completed client (some (change completed)) }

/-- A periodic timer goes back into the queue. -/
def rearm (timer : Timer) : Exec Unit (Server δ) Unit :=
  match timer.period with
  | some period => insert platform { timer with compare := timer.compare + period }
  | none => pure ()

/-- The body of the loop, for the timer that was first in the queue. -/
def expire (timer : Timer) : Exec Unit (Server δ) Unit := do
  updateCompleted timer.client (Insert.insert timer.timer)
  rearm platform timer
  signal timer.client

def updateTimers (count : Tick) : Nat → Exec Unit (Server δ) Unit
  | 0 => Exec.panic
  | fuel + 1 => do
      let server ← Exec.get
      match server.outstanding with
      | [] => pure ()
      | timer :: rest =>
          if timer.compare ≤ count then do
            Exec.modify fun server => { server with outstanding := rest }
            expire platform timer
            updateTimers count fuel
          else pure ()

/-- `update` is handed in, since the two call each other. -/
def updateDevice (update : Tick → Exec Unit (Server δ) Unit) : Exec Unit (Server δ) Unit := do
  let server ← Exec.get
  match Timers.compare server.outstanding with
  | some t => do
      let accepted ← setCompare platform t.toUInt64
      if accepted then setEnable platform true
      else do
        let now ← nowTick platform
        update now
  | none => setEnable platform false

def update : Nat → Tick → Exec Unit (Server δ) Unit
  | 0, _ => Exec.panic
  | fuel + 1, count => do
      updateTimers platform count fuel
      updateDevice platform (update fuel)

def guardTid (tid : TimerId) : Exec Unit (Server δ) Unit := do
  let server ← Exec.get
  Exec.ensure (tid ≤ server.timersPerClient) ()

/-- What is drained is taken out of `completed`, too. -/
def removeTimer (cid : ClientId) (tid : TimerId) : Exec Unit (Server δ) Unit := do
  let server ← Exec.get
  let drained := server.outstanding.filter fun timer => timer.isFor cid tid
  Exec.modify fun server => { server with
    outstanding := server.outstanding.filter fun timer => !timer.isFor cid tid }
  Exec.forEach drained fun _ => updateCompleted cid fun done => done.erase tid

def setTimer (timer : Timer) : Exec Unit (Server δ) Unit := do
  removeTimer timer.client timer.timer
  insert platform timer

/-! ## The calls of the clients and the interrupt -/

variable (fuel : Nat)

def handleInterrupt : Exec Unit (Server δ) Unit := do
  clearInterrupt platform
  let now ← nowTick platform
  update platform fuel now

def oneshotRelative (cid : ClientId) (tid : TimerId) (ns : Nanosecond) :
    Exec Unit (Server δ) Unit := do
  guardTid tid
  let now ← nowTick platform
  let server ← Exec.get
  setTimer platform ⟨cid, tid, now + server.nsToTick ns, none⟩
  update platform fuel now

def oneshotAbsolute (cid : ClientId) (tid : TimerId) (ns : Nanosecond) :
    Exec Unit (Server δ) Unit := do
  guardTid tid
  let now ← nowTick platform
  let server ← Exec.get
  setTimer platform ⟨cid, tid, server.nsToTick ns, none⟩
  update platform fuel now

def periodic (cid : ClientId) (tid : TimerId) (ns : Nanosecond) : Exec Unit (Server δ) Unit := do
  guardTid tid
  let now ← nowTick platform
  let server ← Exec.get
  let period := server.nsToTick ns
  setTimer platform ⟨cid, tid, now + period, some period⟩
  update platform fuel now

def stop (cid : ClientId) (tid : TimerId) : Exec Unit (Server δ) Unit := do
  guardTid tid
  removeTimer cid tid

end Server

inductive Call where
  | oneshotRelative (cid : ClientId) (tid : TimerId) (ns : Nanosecond)
  | oneshotAbsolute (cid : ClientId) (tid : TimerId) (ns : Nanosecond)
  | periodic (cid : ClientId) (tid : TimerId) (ns : Nanosecond)
  | stop (cid : ClientId) (tid : TimerId)
  | handleInterrupt
  deriving DecidableEq, Repr

/-- The client that makes the call. -/
def Call.client : Call → Option ClientId
  | .oneshotRelative cid _ _ => some cid
  | .oneshotAbsolute cid _ _ => some cid
  | .periodic cid _ _ => some cid
  | .stop cid _ => some cid
  | .handleInterrupt => none

def Server.call {δ : Type} (platform : Platform δ) (fuel : Nat) : Call → Exec Unit (Server δ) Unit
  | .oneshotRelative cid tid ns => oneshotRelative platform fuel cid tid ns
  | .oneshotAbsolute cid tid ns => oneshotAbsolute platform fuel cid tid ns
  | .periodic cid tid ns => periodic platform fuel cid tid ns
  | .stop cid tid => stop cid tid
  | .handleInterrupt => handleInterrupt platform fuel

/-- The states between the calls of a run, also of calls that are refused. -/
inductive Reached {δ : Type} (platform : Platform δ) : Server δ → Prop
  | new {clients : List CPtr} {timersPerClient : TimerId} {device : δ} {server : Server δ} :
      Server.new platform clients timersPerClient device = some server → Reached platform server
  | call {before after : Server δ} (fuel : Nat) (call : Call) :
      Reached platform before → Exec.Ends (Server.call platform fuel call) before after →
      Reached platform after
  | elapse {server : Server δ} {device : δ} :
      Reached platform server → platform.device.elapses server.device device →
      Reached platform { server with device }

namespace Server

variable {δ : Type} {platform : Platform δ} {server final : Server δ} {fuel : Nat}

@[simp]
theorem nowTick_eq_ok {now : Tick} :
    nowTick platform server = .ok now final ↔
      (platform.device.getCount server.device).1.toInt64 = now ∧
        { server with device := (platform.device.getCount server.device).2 } = final := by
  simp [nowTick, getCount, and_comm]

@[simp]
theorem setCompare_eq_ok {compare : UInt64} {accepted : Bool} :
    setCompare platform compare server = .ok accepted final ↔
      (platform.device.setCompare compare server.device).1 = accepted ∧
        { server with device := (platform.device.setCompare compare server.device).2 } = final := by
  simp [setCompare]

/-! ## Errors -/

theorem getCount_infallible : Exec.Infallible (getCount platform) := by
  intro server error final failed
  simp [getCount] at failed

theorem setCompare_infallible {compare : UInt64} :
    Exec.Infallible (setCompare platform compare) := by
  intro server error final failed
  simp [setCompare] at failed

theorem nowTick_infallible : Exec.Infallible (nowTick platform) :=
  getCount_infallible.bind fun _ => .pure _

theorem insert_infallible {timer : Timer} : Exec.Infallible (insert platform timer) :=
  (Exec.Infallible.reads _).bind fun _ => .modify _

theorem updateCompleted_infallible {client : ClientId} {change : Finset TimerId → Finset TimerId} :
    Exec.Infallible (updateCompleted client change : Exec Unit (Server δ) Unit) :=
  (Exec.Infallible.reads _).bind fun _ => .modify _

theorem rearm_infallible {timer : Timer} : Exec.Infallible (rearm platform timer) := by
  unfold rearm
  cases timer.period with
  | none => exact .pure _
  | some period => exact insert_infallible

theorem expire_infallible {timer : Timer} : Exec.Infallible (expire platform timer) :=
  updateCompleted_infallible.bind fun _ => rearm_infallible.bind fun _ =>
    (Exec.Infallible.reads _).bind fun _ => .modify _

theorem updateTimers_infallible {count : Tick} :
    Exec.Infallible (updateTimers platform count fuel) := by
  induction fuel with
  | zero => exact .panic
  | succ fuel ih =>
      refine Exec.Infallible.get.bind fun server => ?_
      cases server.outstanding with
      | nil => exact .pure _
      | cons timer rest =>
          apply Exec.Infallible.ite _ (.pure _)
          exact (Exec.Infallible.modify _).bind fun _ => expire_infallible.bind fun _ => ih

theorem update_infallible {count : Tick} : Exec.Infallible (update platform fuel count) := by
  induction fuel generalizing count with
  | zero => exact .panic
  | succ fuel ih =>
      refine updateTimers_infallible.bind fun _ => Exec.Infallible.get.bind fun server => ?_
      cases Timers.compare server.outstanding with
      | none => exact .modify _
      | some t =>
          refine setCompare_infallible.bind fun accepted => ?_
          apply Exec.Infallible.ite (.modify _)
          exact nowTick_infallible.bind fun _ => ih

theorem removeTimer_infallible {cid : ClientId} {tid : TimerId} :
    Exec.Infallible (removeTimer cid tid : Exec Unit (Server δ) Unit) :=
  Exec.Infallible.get.bind fun _ => (Exec.Infallible.modify _).bind fun _ =>
    .forEach fun _ => updateCompleted_infallible

theorem setTimer_infallible {timer : Timer} : Exec.Infallible (setTimer platform timer) :=
  removeTimer_infallible.bind fun _ => insert_infallible

/-- A call that is refused has changed nothing. -/
theorem guarded_failsClean {tid : TimerId} {rest : Exec Unit (Server δ) Unit}
    (infallible : Exec.Infallible rest) :
    Exec.FailsClean (do guardTid tid; rest) := by
  intro server error final failed
  rcases Exec.bind_eq_err.mp failed with refused | ⟨_, middle, _, failed⟩
  · simp only [guardTid, Exec.bind_eq_err, Exec.get_ne_err, Exec.get_eq_ok, Exec.ensure] at refused
    obtain ⟨_, _, ⟨rfl, rfl⟩, refused⟩ := refused.resolve_left id
    split at refused
    · cases refused
    · cases refused
      rfl
  · exact absurd failed (infallible middle error final)

theorem call_failsClean {call : Call} : Exec.FailsClean (Server.call platform fuel call) := by
  cases call with
  | oneshotRelative cid tid ns =>
      exact guarded_failsClean (nowTick_infallible.bind fun _ => Exec.Infallible.get.bind fun _ =>
        setTimer_infallible.bind fun _ => update_infallible)
  | oneshotAbsolute cid tid ns =>
      exact guarded_failsClean (nowTick_infallible.bind fun _ => Exec.Infallible.get.bind fun _ =>
        setTimer_infallible.bind fun _ => update_infallible)
  | periodic cid tid ns =>
      exact guarded_failsClean (nowTick_infallible.bind fun _ => Exec.Infallible.get.bind fun _ =>
        setTimer_infallible.bind fun _ => update_infallible)
  | stop cid tid => exact guarded_failsClean removeTimer_infallible
  | handleInterrupt =>
      apply Exec.Infallible.failsClean
      exact (Exec.Infallible.modify _).bind fun _ => nowTick_infallible.bind fun _ =>
        update_infallible

end Server

/-! ## A counter of a gigahertz -/

/-- It has 63 bits, and accepts a deadline that is not yet reached. -/
def counter : TimerDevice UInt64 where
  getFreq _ := 1000000000
  setEnable _ count := count
  getCount count := (count % 9223372036854775808, count)
  setCompare compare count := (count ≤ compare, count)
  clearInterrupt count := count
  elapses count later := count ≤ later

def counterPlatform : Platform UInt64 := ⟨counter, firstSearch Timer.compare⟩

end IceCap.TimerServer
