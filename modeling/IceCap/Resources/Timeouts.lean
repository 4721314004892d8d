import IceCap.Sel4.Notification
import IceCap.TimerServer.Clients
import IceCap.Resources.Scheduling

/-!
# Slices and their timeouts

The resource server with the timer server.  A slice that is lent with a timeout
has a one-shot timer; when the counter has reached its deadline, the timer
server signals the notification that is bound to the thread of the node.  What is signalled waits there until
the thread receives it, and a badge that has been received waits until the
thread has the lock.  The event server signals the same notification.  The
badge of a host event has all bits of that of a timeout, so of two signals that
wait together the thread sees a host event.
-/

set_option autoImplicit false

namespace IceCap.Resources

open IceCap.Library IceCap.Sel4 IceCap.Dyndl
open IceCap.TimerServer (ClientId OneShot Unarmed Owned Progress Queue)

def badgeHostEvent : Badge := 0x101

def badgeTimeout : Badge := 0x100

/-- Which client of the timer server a node is, and which node's thread a capability of the timer
server notifies. -/
structure Wiring where
  clients : List CPtr
  client : PhysicalNodeIndex → ClientId
  notified : CPtr → Option PhysicalNodeIndex
  distinct : ∀ {node other}, client node = client other → node = other
  owned : ∀ {node other cap}, clients[other]? = some cap → notified cap = some node →
    other = client node

/-- The timer server and the notifications of the nodes. -/
structure Clock (δ : Type) where
  timerServer : TimerServer.Server δ
  pending : PhysicalNodeIndex → Notification

/-- A kernel with the clock next to it. -/
structure Timed (K δ : Type) where
  kernel : K
  clock : Clock δ

/-- What the two servers are run against. -/
structure TimedServices (K E δ : Type) where
  services : Services K E
  platform : TimerServer.Platform δ
  fuel : Nat
  wiring : Wiring

variable {K E δ : Type}

def Wiring.deliver (wiring : Wiring) (sent : List CPtr)
    (pending : PhysicalNodeIndex → Notification) : PhysicalNodeIndex → Notification :=
  match sent with
  | [] => pending
  | cap :: sent =>
      match wiring.notified cap with
      | none => wiring.deliver sent pending
      | some node =>
          wiring.deliver sent (Function.update pending node ((pending node).signal badgeTimeout))

namespace TimedServices

variable (env : TimedServices K E δ)

/-- A call of the timer server, with the signals it sends; `none` where it fails or does not
return. -/
def serve (call : TimerServer.Call) (clock : Clock δ) : Option (Clock δ) :=
  (TimerServer.Server.call env.platform env.fuel call clock.timerServer).returned.map fun next =>
    { timerServer := next
      pending := env.wiring.deliver (next.signalled.drop clock.timerServer.signalled.length)
        clock.pending }

/-- The request as the timer server gets it, with the casts of the message. -/
def toCall (node : PhysicalNodeIndex) : TimerRequest → TimerServer.Call
  | .oneshotRelative tid ns =>
      .oneshotRelative (env.wiring.client node) (Int64.ofNat tid) (Int64.ofNat ns)
  | .stop tid => .stop (env.wiring.client node) (Int64.ofNat tid)

def timedKernel : Kernel (Timed K δ) where
  invoke invocation timed :=
    let (refused, kernel) := env.services.platform.kernel.invoke invocation timed.kernel
    (refused, { timed with kernel })

/-- The services of a resource server whose timer calls are answered by the timer server. -/
def timed : Services (Timed K δ) E where
  platform := {
    sizes := env.services.platform.sizes
    kernel := env.timedKernel
    rawCapData := env.services.platform.rawCapData
    sha256 := env.services.platform.sha256 }
  resources := env.services.resources
  decodeModel := env.services.decodeModel
  timer node request timed :=
    match env.serve (env.toCall node request) timed.clock with
    | some clock => (true, { timed with clock })
    | none => (false, timed)
  eventServer node request eventServer timed :=
    (env.services.eventServer node request eventServer timed.kernel).map fun answer =>
      (answer.1, { timed with kernel := answer.2 })
  numActiveCores := env.services.numActiveCores

end TimedServices

/-- The servers, and the badges that the threads have received and not yet handled. -/
structure TimedSystem (K E δ : Type) where
  server : ResourceServer (Timed K δ) E
  received : PhysicalNodeIndex → Option Badge

def ResourceServer.clock (server : ResourceServer (Timed K δ) E) : Clock δ :=
  server.realizer.machine.kernel.clock

namespace TimedSystem

def clock (system : TimedSystem K E δ) : Clock δ := system.server.clock

def withClock (clock : Clock δ) (system : TimedSystem K E δ) : TimedSystem K E δ :=
  let timed := { system.server.realizer.machine.kernel with clock }
  { system with server := ResourceServer.withKernel timed system.server }

def lent (system : TimedSystem K E δ) (node : PhysicalNodeIndex) : Bool :=
  system.server.placement.lent node

/-- A timeout of the node has been signalled and not yet been handled. -/
def TimeoutPending (system : TimedSystem K E δ) (node : PhysicalNodeIndex) : Prop :=
  system.clock.pending node = ⟨some badgeTimeout⟩ ∨ system.received node = some badgeTimeout

end TimedSystem

/-! ## Steps -/

/-- A thread serves a yield, whichever node it names; one of the parties signals; or a thread
receives what is pending, and handles it when it has the lock. -/
inductive TimedEvent (δ : Type) where
  | yieldTo (thread : Nat) (physicalNode : PhysicalNodeIndex) (realmId : RealmId)
      (virtualNode : VirtualNodeIndex) (timeout : Option Nanoseconds)
  | hostEvent (node : PhysicalNodeIndex)
  | interrupt
  | otherClient (call : TimerServer.Call)
  | elapse (device : δ)
  | receive (node : PhysicalNodeIndex)
  | handle (node : PhysicalNodeIndex)
  deriving DecidableEq, Repr

def TimedEvent.yieldsTo (node : PhysicalNodeIndex) : TimedEvent δ → Bool
  | .yieldTo _ other _ _ _ => other == node
  | _ => false

/-- The arm of the dispatch loop for a badge of the notification. -/
def ofBadge (badge : Badge) : Option Request :=
  if badge = badgeHostEvent then some .hostEvent
  else if badge = badgeTimeout then some .timeout
  else none

variable (env : TimedServices K E δ)

inductive TimedStep : TimedEvent δ → TimedSystem K E δ → TimedSystem K E δ → Prop where
  | yieldTo {thread : Nat} {physicalNode : PhysicalNodeIndex} {realmId : RealmId}
      {virtualNode : VirtualNodeIndex} {timeout : Option Nanoseconds}
      {before : TimedSystem K E δ} {server : ResourceServer (Timed K δ) E}
      (isIdle : before.received thread = none)
      (run : ResourceServer.dispatch env.timed thread
        (.yieldTo physicalNode realmId virtualNode timeout) before.server = .ok () server) :
      TimedStep (.yieldTo thread physicalNode realmId virtualNode timeout) before
        { before with server }
  | hostEvent {node : PhysicalNodeIndex} {before : TimedSystem K E δ} :
      TimedStep (.hostEvent node) before (before.withClock { before.clock with
        pending := Function.update before.clock.pending node
          ((before.clock.pending node).signal badgeHostEvent) })
  | interrupt {before : TimedSystem K E δ} {clock : Clock δ}
      (serves : env.serve .handleInterrupt before.clock = some clock) :
      TimedStep .interrupt before (before.withClock clock)
  | otherClient {call : TimerServer.Call} {before : TimedSystem K E δ} {clock : Clock δ}
      (isOther : ∀ node, call.client ≠ some (env.wiring.client node))
      (serves : env.serve call before.clock = some clock) :
      TimedStep (.otherClient call) before (before.withClock clock)
  | elapse {device : δ} {before : TimedSystem K E δ}
      (elapses : env.platform.device.elapses before.clock.timerServer.device device) :
      TimedStep (.elapse device) before (before.withClock { before.clock with
        timerServer := { before.clock.timerServer with device } })
  | receive {node : PhysicalNodeIndex} {badge : Badge} {left : Notification}
      {before : TimedSystem K E δ} (isIdle : before.received node = none)
      (waits : (before.clock.pending node).wait = some (badge, left)) :
      TimedStep (.receive node) before { (before.withClock { before.clock with
          pending := Function.update before.clock.pending node left }) with
        received := Function.update before.received node (some badge) }
  | handle {node : PhysicalNodeIndex} {badge : Badge} {request : Request}
      {before : TimedSystem K E δ} {server : ResourceServer (Timed K δ) E}
      (isReceived : before.received node = some badge) (isRequest : ofBadge badge = some request)
      (run : ResourceServer.dispatch env.timed node request before.server = .ok () server) :
      TimedStep (.handle node) before
        { server, received := Function.update before.received node none }

/-! ## What a step does to the clock -/

namespace ResourceServer

variable {env : TimedServices K E δ} {server final : ResourceServer (Timed K δ) E}

theorem onKernel_clock {invocation : Invocation} :
    Exec.Keeps clock (onKernel env.timed invocation) := by
  intro server value final run
  simp only [onKernel, onRealizer, Realizer.onKernel, Realizer.onMachine, Allocator.onKernel,
    Exec.focus_eq_ok, Kernel.call] at run
  obtain ⟨_, ⟨_, ⟨kernel, run, rfl⟩, rfl⟩, rfl⟩ := run
  split at run
  · next next invoked =>
      cases run
      exact congrArg (fun answer => Timed.clock answer.2) invoked.symm
  · cases run

theorem callEventServer_clock {node : Nat} {request : EventServerRequest} :
    Exec.Keeps clock (callEventServer env.timed node request) := by
  intro server value final run
  obtain ⟨eventServer, kernel, answered, rfl⟩ := callEventServer_eq_ok run
  obtain ⟨answer, _, isAnswer⟩ := Option.map_eq_some_iff.mp answered
  exact (congrArg (fun answer => Timed.clock answer.2) isAnswer).symm

theorem callTimer_clock {node : Nat} {request : TimerRequest}
    (run : callTimer env.timed node request server = .ok () final) :
    env.serve (env.toCall node request) server.clock = some final.clock := by
  simp only [callTimer, local_, Exec.bind_eq_ok, Exec.reads_eq_ok, Exec.runs_eq_ok] at run
  obtain ⟨_, _, ⟨_, rfl⟩, run⟩ := run
  cases served : env.serve (env.toCall node request) server.realizer.machine.kernel.clock with
  | none =>
      have refused : env.timed.timer node request server.realizer.machine.kernel =
          (false, server.realizer.machine.kernel) := by
        simp only [TimedServices.timed, served]
      simp [refused] at run
  | some clock =>
      have answered : env.timed.timer node request server.realizer.machine.kernel =
          (true, { server.realizer.machine.kernel with clock }) := by
        simp only [TimedServices.timed, served]
      simp only [answered, Option.some.injEq, Prod.mk.injEq, true_and] at run
      rw [← run]
      exact served

theorem scheduleAll_clock {tcbs : List CPtr} {node : Option Nat} :
    Exec.Keeps clock (scheduleAll env.timed tcbs node) := .forEach fun _ => onKernel_clock

theorem suspend_clock {slice : RealmId × VirtualNodeIndex} :
    Exec.Keeps clock (suspend env.timed slice) :=
  .bind (.reads _) fun _ => .bind (.modify fun _ => rfl) fun _ => scheduleAll_clock

theorem resumeHost_clock {physicalNode : PhysicalNodeIndex} {condition : ResumeHostCondition} :
    Exec.Keeps clock
      (resumeHost physicalNode condition : Exec Failure (ResourceServer (Timed K δ) E) Unit) := by
  refine .bind (.reads _) fun _ => ?_
  cases condition with
  | timeout => exact .modify fun _ => rfl
  | hostEvent => exact .modify fun _ => rfl
  | realmYieldedBack condition => exact .panic

theorem timeout_clock {physicalNode : PhysicalNodeIndex} :
    Exec.Keeps clock (timeout env.timed physicalNode) := by
  refine .bind .get fun _ => .bind (.unwrap _) fun slice => .bind (.modify fun _ => rfl) fun _ => ?_
  cases slice with
  | none => exact .pure _
  | some slice =>
      exact .bind suspend_clock fun _ => .bind callEventServer_clock fun _ => resumeHost_clock

/-- A host event stops the timer of the slice it ends. -/
theorem hostEvent_clock {physicalNode : PhysicalNodeIndex}
    (run : hostEvent env.timed physicalNode server = .ok () final) :
    (server.physicalNodes[physicalNode]? = some none ∧ final.clock = server.clock) ∨
      env.serve (.stop (env.wiring.client physicalNode) 0) server.clock = some final.clock := by
  simp only [hostEvent, Exec.bind_eq_ok, Exec.get_eq_ok, Exec.unwrap_eq_ok, setSlice,
    Exec.modify_eq_ok] at run
  obtain ⟨_, _, ⟨rfl, rfl⟩, slice, _, ⟨isSlice, rfl⟩, ⟨⟩, _, rfl, run⟩ := run
  cases slice with
  | none =>
      obtain ⟨-, rfl⟩ := Exec.pure_eq_ok.mp run
      exact .inl ⟨isSlice, rfl⟩
  | some slice =>
      simp only [Exec.bind_eq_ok] at run
      obtain ⟨⟨⟩, first, suspended, ⟨⟩, second, notified, ⟨⟩, third, timed, resumed⟩ := run
      have before := (callEventServer_clock _ _ _ notified).trans (suspend_clock _ _ _ suspended)
      have stopped := callTimer_clock timed
      rw [before] at stopped
      rw [resumeHost_clock _ _ _ resumed]
      exact .inr stopped

/-- A yield with a timeout sets the timer of its node. -/
theorem yieldTo_clock {physicalNode : PhysicalNodeIndex} {realmId : RealmId}
    {virtualNode : VirtualNodeIndex} {ns : Option Nanoseconds}
    (run : yieldTo env.timed physicalNode realmId virtualNode ns server = .ok () final) :
    match ns with
    | none => final.clock = server.clock
    | some ns =>
        env.serve (.oneshotRelative (env.wiring.client physicalNode) 0 (Int64.ofNat ns))
          server.clock = some final.clock := by
  simp only [yieldTo, Exec.bind_eq_ok, Exec.get_eq_ok, Exec.unwrap_eq_ok, Exec.assert_eq_ok,
    local_, getVirtualNode, Exec.reads_eq_ok, setSlice, setPhysicalNode, Exec.modify_eq_ok] at run
  obtain ⟨_, _, ⟨_, rfl⟩, _, _, ⟨rfl, rfl⟩, ⟨⟩, saved, saveRun, slice, _, ⟨isSlice, rfl⟩, ⟨⟩, _,
    ⟨rfl, rfl⟩, ⟨⟩, _, rfl, node, _, ⟨isNode, rfl⟩, ⟨⟩, _, ⟨isIdle, rfl⟩, ⟨⟩, _, rfl, ⟨⟩, first,
    scheduled, ⟨⟩, second, notified, timed⟩ := run
  have before : second.clock = server.clock := by
    rw [callEventServer_clock _ _ _ notified, scheduleAll_clock _ _ _ scheduled]
    exact (onKernel_clock _ _ _ saveRun : saved.clock = server.clock)
  cases ns with
  | none => exact (Exec.pure_eq_ok.mp timed).2 ▸ before
  | some ns => exact before ▸ callTimer_clock timed

end ResourceServer

/-! ## Signals -/

namespace TimedServices

variable {env : TimedServices K E δ} {node : PhysicalNodeIndex} {clock next : Clock δ}
  {call : TimerServer.Call}

/-- The capability leads to the notification of the node. -/
def mine (env : TimedServices K E δ) (node : PhysicalNodeIndex) (cap : CPtr) : Bool :=
  env.wiring.notified cap == some node

theorem deliver_quiet {sent : List CPtr} {pending : PhysicalNodeIndex → Notification}
    (quiet : sent.countP (env.mine node) = 0) : env.wiring.deliver sent pending node = pending node := by
  induction sent generalizing pending with
  | nil => rfl
  | cons cap sent ih =>
      obtain ⟨notMine, quiet⟩ : env.mine node cap = false ∧ sent.countP (env.mine node) = 0 := by
        rw [List.countP_cons] at quiet
        split at quiet <;> simp_all
      cases isOther : env.wiring.notified cap with
      | none =>
          simp only [Wiring.deliver, isOther]
          exact ih quiet
      | some other =>
          have differs : node ≠ other := by
            intro isNode
            simp [mine, isOther, isNode] at notMine
          simp only [Wiring.deliver, isOther]
          rw [ih quiet, Function.update_of_ne differs]

/-- What is always true of the timer server: every node has one-shot timers of id 0. -/
structure Kept (env : TimedServices K E δ) (timerServer : TimerServer.Server δ) : Prop where
  clients : timerServer.clients = env.wiring.clients
  queue : Queue timerServer.outstanding
  oneShot : ∀ node, OneShot (env.wiring.client node) 0 timerServer.outstanding

theorem Kept.owned (kept : env.Kept clock.timerServer) (node : PhysicalNodeIndex) :
    Owned (env.wiring.client node) (env.mine node) clock.timerServer.clients := by
  intro other cap isCap isMine
  rw [kept.clients] at isCap
  exact env.wiring.owned isCap (by simpa [mine] using isMine)

theorem serve_run (served : env.serve call clock = some next) :
    TimerServer.Server.call env.platform env.fuel call clock.timerServer = .ok () next.timerServer ∧
      next.pending = env.wiring.deliver
        (next.timerServer.signalled.drop clock.timerServer.signalled.length) clock.pending := by
  obtain ⟨timerServer, returned, rfl⟩ := Option.map_eq_some_iff.mp served
  obtain ⟨⟨⟩, run⟩ := Outcome.returned_eq_some.mp returned
  exact ⟨run, rfl⟩

/-- Without a signal for the node, its notification stays as it is. -/
theorem serve_pending (served : env.serve call clock = some next)
    (appended : clock.timerServer.signalled <+: next.timerServer.signalled)
    (same : next.timerServer.signals (env.mine node) = clock.timerServer.signals (env.mine node)) :
    next.pending node = clock.pending node := by
  obtain ⟨sent, isSent⟩ := appended
  rw [(serve_run served).2, ← isSent, List.drop_left]
  apply deliver_quiet
  simp only [TimerServer.Server.signals, ← isSent, List.countP_append] at same
  omega

/-- A call in the name of another client. -/
theorem serve_progress (kept : env.Kept clock.timerServer)
    (isOther : call.client ≠ some (env.wiring.client node))
    (served : env.serve call clock = some next) :
    Progress env.platform (env.wiring.client node) (env.mine node) clock.timerServer next.timerServer :=
  TimerServer.Server.call_progress (kept.owned node) kept.queue (kept.oneShot node) isOther
    (serve_run served).1

/-- A call that the resource server makes for a node, or one that no node makes. -/
def Fits (env : TimedServices K E δ) (call : TimerServer.Call) : Prop :=
  ∀ node, call.client = some (env.wiring.client node) →
    (∃ ns, call = .oneshotRelative (env.wiring.client node) 0 ns) ∨
      call = .stop (env.wiring.client node) 0

theorem serve_kept (kept : env.Kept clock.timerServer) (fits : env.Fits call)
    (served : env.serve call clock = some next) : env.Kept next.timerServer := by
  have run := (serve_run served).1
  have each : ∀ node, next.timerServer.clients = clock.timerServer.clients ∧
      OneShot (env.wiring.client node) 0 next.timerServer.outstanding := by
    intro node
    by_cases isOwn : call.client = some (env.wiring.client node)
    · rcases fits node isOwn with ⟨ns, rfl⟩ | rfl
      · obtain ⟨clients, _, oneShot, _, _, _⟩ := TimerServer.Server.oneshotRelative_client
          (kept.owned node) kept.queue (kept.oneShot node) run
        exact ⟨clients, oneShot⟩
      · obtain ⟨clients, _, unarmed⟩ := TimerServer.Server.stop_client (kept.oneShot node) run
        exact ⟨clients, fun timer member isClient => absurd isClient (unarmed timer member)⟩
    · have progress := serve_progress kept isOwn served
      exact ⟨progress.clients, progress.oneShot (kept.oneShot node)⟩
  exact ⟨(each 0).1.trans kept.clients, TimerServer.Server.call_queue kept.queue run,
    fun node => (each node).2⟩

end TimedServices

/-! ## The slice of a node -/

variable {env : TimedServices K E δ} {node : PhysicalNodeIndex}
  {taken : List (TimedSystem K E δ × TimedEvent δ)} {before after system : TimedSystem K E δ}

/-- How often the timer server has signalled the node. -/
def TimedSystem.signals (env : TimedServices K E δ) (node : PhysicalNodeIndex)
    (system : TimedSystem K E δ) : Nat := system.clock.timerServer.signals (env.mine node)

/-- The last yield for the node. -/
def began (node : PhysicalNodeIndex) (taken : List (TimedSystem K E δ × TimedEvent δ)) :
    Option (TimedSystem K E δ × TimedEvent δ) :=
  taken.reverse.find? fun entry => entry.2.yieldsTo node

theorem began_step {entry : TimedSystem K E δ × TimedEvent δ} :
    began node (taken ++ [entry]) =
      if entry.2.yieldsTo node then some entry else began node taken := by
  rw [began, List.reverse_append, List.reverse_singleton, List.singleton_append, List.find?_cons]
  cases entry.2.yieldsTo node <;> rfl

def TimedSystem.device (system : TimedSystem K E δ) : δ := system.clock.timerServer.device

/-- The count at which a timeout is over that begins now. -/
def TimedSystem.deadline (env : TimedServices K E δ) (timeout : Nanoseconds)
    (system : TimedSystem K E δ) : Nat :=
  (env.platform.device.getCount system.device).1.toNat +
    timeout * system.clock.timerServer.freq.toNat / 1000000000

/-- The counter has read so much since that the timeout is over. -/
def TimedSystem.Expired (env : TimedServices K E δ) (start : TimedSystem K E δ)
    (timeout : Nanoseconds) (system : TimedSystem K E δ) : Prop :=
  ∃ device, env.platform.device.Evolves start.device device ∧
    env.platform.device.Evolves device system.device ∧
    start.deadline env timeout ≤ (env.platform.device.getCount device).1.toNat

/-- A timer with the deadline of the timeout. -/
def TimedSystem.IsDue (env : TimedServices K E δ) (start : TimedSystem K E δ)
    (timeout : Nanoseconds) (timer : TimerServer.Timer) : Prop :=
  timer.compare.toInt = (start.deadline env timeout : Nat)

/-- A node is free and has no timer, or its slice waits for its timeout, if it has one, or the timer
server has signalled that timeout. -/
inductive Held (env : TimedServices K E δ) (node : PhysicalNodeIndex)
    (taken : List (TimedSystem K E δ × TimedEvent δ)) (system : TimedSystem K E δ) : Prop where
  | free (isFree : system.lent node = false)
      (unarmed : Unarmed (env.wiring.client node) system.clock.timerServer.outstanding)
  | waiting {start : TimedSystem K E δ} {thread : Nat} {realmId : RealmId}
      {virtualNode : VirtualNodeIndex} {timeout : Option Nanoseconds}
      (isLent : system.lent node = true)
      (isStart : began node taken = some (start, .yieldTo thread node realmId virtualNode timeout))
      (same : system.signals env node = start.signals env node)
      (notPending : ¬ system.TimeoutPending node)
      (evolves : env.platform.device.Evolves start.device system.device)
      (untimed : timeout = none →
        Unarmed (env.wiring.client node) system.clock.timerServer.outstanding)
      (timed : ∀ ns ∈ timeout, ∀ timer ∈ system.clock.timerServer.outstanding,
        timer.client = env.wiring.client node → start.IsDue env ns timer)
  | expired {start : TimedSystem K E δ} {thread : Nat} {realmId : RealmId}
      {virtualNode : VirtualNodeIndex} {timeout : Nanoseconds}
      (isLent : system.lent node = true)
      (isStart : began node taken =
        some (start, .yieldTo thread node realmId virtualNode (some timeout)))
      (signalled : start.signals env node < system.signals env node)
      (reached : start.Expired env timeout system)
      (unarmed : Unarmed (env.wiring.client node) system.clock.timerServer.outstanding)

theorem TimedSystem.Expired.later {start : TimedSystem K E δ} {timeout : Nanoseconds}
    (expired : start.Expired env timeout before)
    (evolves : env.platform.device.Evolves before.device after.device) :
    start.Expired env timeout after := by
  obtain ⟨device, toDevice, fromDevice, reached⟩ := expired
  exact ⟨device, toDevice, fromDevice.trans evolves, reached⟩

/-- The counter has reached the deadline of the timer. -/
theorem TimedSystem.IsDue.expired {start : TimedSystem K E δ} {timeout : Nanoseconds}
    {timer : TimerServer.Timer} (isDue : start.IsDue env timeout timer)
    (reaches : env.platform.device.Reaches timer.compare start.device system.device) :
    start.Expired env timeout system := by
  obtain ⟨device, toDevice, fromDevice, reached⟩ := reaches
  exact ⟨device, toDevice, fromDevice, TimerServer.reached_toNat isDue reached⟩

/-- A step that neither begins nor ends the slice of the node. -/
theorem Held.quiet {longer : List (TimedSystem K E δ × TimedEvent δ)}
    (held : Held env node taken before) (sameLent : after.lent node = before.lent node)
    (sameStart : began node longer = began node taken)
    (progress : Progress env.platform (env.wiring.client node) (env.mine node) before.clock.timerServer
      after.clock.timerServer)
    (notNew : after.signals env node = before.signals env node → after.TimeoutPending node →
      before.TimeoutPending node) : Held env node longer after := by
  cases held with
  | free isFree unarmed => exact .free (sameLent.trans isFree) (progress.unarmed unarmed)
  | @waiting start thread realmId virtualNode timeout isLent isStart same notPending evolves untimed
      timed =>
      rcases progress.signals with quiet | ⟨more, ⟨timer, member, isClient, reaches⟩, gone⟩
      · refine .waiting (sameLent.trans isLent) (sameStart.trans isStart) (quiet.trans same) ?_
          (evolves.trans progress.evolves) (fun isNone => progress.unarmed (untimed isNone)) ?_
        · exact fun pending => notPending (notNew quiet pending)
        · intro ns isSome timer member isClient
          exact timed ns isSome timer (progress.fewer timer member isClient) isClient
      · cases timeout with
        | none => exact absurd isClient (untimed rfl timer member)
        | some timeout =>
            have fewer : start.signals env node < after.signals env node := same ▸ more
            have isDue := timed timeout rfl timer member isClient
            exact .expired (sameLent.trans isLent) (sameStart.trans isStart) fewer
              (isDue.expired (reaches.earlier evolves)) gone
  | @expired start thread realmId virtualNode timeout isLent isStart signalled reached unarmed =>
      refine .expired (sameLent.trans isLent) (sameStart.trans isStart) ?_
        (reached.later progress.evolves) (progress.unarmed unarmed)
      rcases progress.signals with quiet | ⟨_, ⟨timer, member, isClient, _⟩, _⟩
      · change after.signals env node = before.signals env node at quiet
        omega
      · exact absurd isClient (unarmed timer member)

theorem progress_same (same : after.clock = before.clock) :
    Progress env.platform (env.wiring.client node) (env.mine node) before.clock.timerServer
      after.clock.timerServer := by
  rw [same]
  exact .of_quiet rfl .refl rfl fun _ member _ => member

/-! ## Runs -/

/-- The words of the timer server hold the timeout and its deadline. -/
def TimedSystem.Holds (env : TimedServices K E δ) (system : TimedSystem K E δ)
    (timeout : Nanoseconds) : Prop :=
  timeout < 2 ^ 63 ∧ system.deadline env timeout < 2 ^ 63

/-- A yield is served only while no timeout of its node is pending, and its timeout is one that the
timer server can hold. -/
def Settled (env : TimedServices K E δ) (system : TimedSystem K E δ) : TimedEvent δ → Prop
  | .yieldTo _ node _ _ timeout =>
      ¬ system.TimeoutPending node ∧ ∀ ns ∈ timeout, system.Holds env ns
  | _ => True

instance (system : TimedSystem K E δ) (node : PhysicalNodeIndex) :
    Decidable (system.TimeoutPending node) :=
  inferInstanceAs (Decidable (_ ∨ _))

instance (system : TimedSystem K E δ) (timeout : Nanoseconds) :
    Decidable (system.Holds env timeout) :=
  inferInstanceAs (Decidable (_ ∧ _))

instance (system : TimedSystem K E δ) :
    (event : TimedEvent δ) → Decidable (Settled env system event)
  | .yieldTo _ node _ _ timeout =>
      inferInstanceAs (Decidable (¬ system.TimeoutPending node ∧ ∀ ns ∈ timeout, system.Holds env ns))
  | .hostEvent _ => .isTrue trivial
  | .interrupt => .isTrue trivial
  | .otherClient _ => .isTrue trivial
  | .elapse _ => .isTrue trivial
  | .receive _ => .isTrue trivial
  | .handle _ => .isTrue trivial

theorem lent_set {physicalNode : PhysicalNodeIndex}
    {entry old : Option (RealmId × VirtualNodeIndex)}
    (isOld : before.server.physicalNodes[physicalNode]? = some old)
    (isSet : after.server.placement.physicalNodes =
      before.server.physicalNodes.set physicalNode entry) :
    after.lent node = if node = physicalNode then entry.isSome else before.lent node := by
  obtain ⟨inRange, _⟩ := List.getElem?_eq_some_iff.mp isOld
  rw [TimedSystem.lent, Placement.lent, isSet]
  split
  · next same => simp [same, inRange]
  · next differs => rw [List.getElem?_set_ne (Ne.symm differs)]; rfl

theorem yieldTo_held {thread : Nat} {physicalNode : PhysicalNodeIndex} {realmId : RealmId}
    {virtualNode : VirtualNodeIndex} {timeout : Option Nanoseconds}
    {server : ResourceServer (Timed K δ) E} (kept : env.Kept before.clock.timerServer)
    (held : ∀ node, Held env node taken before) (notPending : ¬ before.TimeoutPending physicalNode)
    (holds : ∀ ns ∈ timeout, before.Holds env ns)
    (run : ResourceServer.yieldTo env.timed physicalNode realmId virtualNode timeout before.server =
      .ok () server) :
    env.Kept server.clock.timerServer ∧ ∀ node, Held env node
      (taken ++ [(before, .yieldTo thread physicalNode realmId virtualNode timeout)])
      { before with server } := by
  obtain ⟨realm, virtual, isFree, _, _, _, placed⟩ := ResourceServer.yieldTo_placement run
  have placed := congrArg Placement.physicalNodes placed
  have lent : ∀ node, TimedSystem.lent { before with server } node =
      if node = physicalNode then true else before.lent node :=
    fun _ => (lent_set isFree placed).trans rfl
  have wasFree : before.lent physicalNode = false := by
    simp [TimedSystem.lent, Placement.lent, ResourceServer.placement, isFree]
  have unarmed : Unarmed (env.wiring.client physicalNode) before.clock.timerServer.outstanding := by
    cases held physicalNode with
    | free isFree unarmed => exact unarmed
    | waiting isLent => simp [wasFree] at isLent
    | expired isLent => simp [wasFree] at isLent
  have clock := ResourceServer.yieldTo_clock run
  have isStart : began physicalNode
      (taken ++ [(before, .yieldTo thread physicalNode realmId virtualNode timeout)]) =
      some (before, .yieldTo thread physicalNode realmId virtualNode timeout) := by
    simp [began_step, TimedEvent.yieldsTo]
  have others : ∀ node, node ≠ physicalNode → began node
      (taken ++ [(before, .yieldTo thread physicalNode realmId virtualNode timeout)]) =
      began node taken := by
    intro node differs
    simp [began_step, TimedEvent.yieldsTo, Ne.symm differs]
  cases timeout with
  | none =>
      change server.clock = before.clock at clock
      refine ⟨clock ▸ kept, fun node => ?_⟩
      by_cases isNode : node = physicalNode
      · subst isNode
        refine .waiting (by simp [lent]) isStart ?_ ?_ ?_ (fun _ => ?_) (by simp)
        · rw [TimedSystem.signals, TimedSystem.clock, clock]
          rfl
        · rw [TimedSystem.TimeoutPending, TimedSystem.clock, clock]
          exact notPending
        · have sameDevice : server.clock.timerServer.device = before.device := by
            rw [clock]
            rfl
          exact sameDevice ▸ .refl
        · rw [TimedSystem.clock, clock]
          exact unarmed
      · refine (held node).quiet (by simp [lent, isNode]) (others node isNode) ?_ ?_
        · exact progress_same clock
        · rw [TimedSystem.TimeoutPending, TimedSystem.clock, clock]
          exact fun _ pending => pending
  | some ns =>
      have run := (TimedServices.serve_run clock).1
      obtain ⟨clients, appended, oneShot, evolves, deadlines, signals⟩ :=
        TimerServer.Server.oneshotRelative_client (kept.owned physicalNode) kept.queue
          (kept.oneShot physicalNode) run
      obtain ⟨small, less⟩ := holds ns rfl
      have isDue : ∀ timer : TimerServer.Timer,
          timer.compare = before.clock.timerServer.deadline env.platform (Int64.ofNat ns) →
          before.IsDue env ns timer := by
        intro timer isDeadline
        rw [TimedSystem.IsDue, isDeadline]
        exact TimerServer.Server.deadline_toInt small less
      have fits : env.Fits (.oneshotRelative (env.wiring.client physicalNode) 0 (Int64.ofNat ns)) := by
        intro node isClient
        have isNode := env.wiring.distinct (Option.some.inj isClient)
        exact .inl ⟨_, by rw [isNode]⟩
      refine ⟨TimedServices.serve_kept kept fits clock, fun node => ?_⟩
      by_cases isNode : node = physicalNode
      · subst isNode
        rcases signals with same | ⟨more, gone, device, toDevice, fromDevice, reached⟩
        · refine .waiting (by simp [lent]) isStart same ?_ evolves (by simp) ?_
          · have quiet := TimedServices.serve_pending clock appended same
            rw [TimedSystem.TimeoutPending, TimedSystem.clock, quiet]
            exact notPending
          · intro other isSome timer member isClient
            obtain rfl := Option.some.inj isSome
            exact isDue timer (deadlines timer member isClient)
        · refine .expired (by simp [lent]) isStart more ⟨device, toDevice, fromDevice, ?_⟩ gone
          exact TimerServer.reached_toNat (TimerServer.Server.deadline_toInt small less) reached
      · have isOther : TimerServer.Call.client
            (.oneshotRelative (env.wiring.client physicalNode) 0 (Int64.ofNat ns)) ≠
            some (env.wiring.client node) := by
          intro isClient
          exact isNode (env.wiring.distinct (Option.some.inj isClient)).symm
        have progress := TimedServices.serve_progress kept isOther clock
        refine (held node).quiet (by simp [lent, isNode]) (others node isNode) progress ?_
        intro same pending
        have quiet := TimedServices.serve_pending clock progress.appended same
        rw [TimedSystem.TimeoutPending, TimedSystem.clock, quiet] at pending
        exact pending

/-- The end of a slice leaves the other nodes alone. -/
theorem lent_ended {physicalNode : PhysicalNodeIndex} {condition : ResumeHostCondition}
    (ends : (before.server.physicalNodes[physicalNode]? = some none ∧
        after.server.placement = before.server.placement) ∨
      ∃ slice, before.server.physicalNodes[physicalNode]? = some (some slice) ∧
        after.server.placement =
          ResourceServer.ended before.server.placement physicalNode slice condition) :
    after.lent node = if node = physicalNode then false else before.lent node := by
  rcases ends with ⟨isFree, same⟩ | ⟨slice, isSlice, ended⟩
  · rw [TimedSystem.lent, same]
    split
    · next isNode => simp [isNode, Placement.lent, ResourceServer.placement, isFree]
    · rfl
  · exact lent_set isSlice (congrArg Placement.physicalNodes ended)

/-- A badge that has been received is not received any more when it has been handled. -/
theorem handled_pending {received : PhysicalNodeIndex → Option Badge}
    {server : ResourceServer (Timed K δ) E} {other : PhysicalNodeIndex}
    (samePending : server.clock.pending node = before.clock.pending node)
    (isReceived : before.received = received)
    (pending : TimedSystem.TimeoutPending ⟨server, Function.update received other none⟩ node) :
    before.TimeoutPending node := by
  rcases pending with pending | pending
  · exact .inl (samePending ▸ pending)
  · refine .inr ?_
    by_cases isOther : node = other
    · simp [isOther] at pending
    · simpa [isReceived, Function.update_of_ne isOther] using pending

theorem hostEvent_held {physicalNode : PhysicalNodeIndex}
    {server : ResourceServer (Timed K δ) E} {longer : List (TimedSystem K E δ × TimedEvent δ)}
    (kept : env.Kept before.clock.timerServer) (held : ∀ node, Held env node taken before)
    (sameStart : ∀ node, began node longer = began node taken)
    (run : ResourceServer.hostEvent env.timed physicalNode before.server = .ok () server) :
    env.Kept server.clock.timerServer ∧ ∀ node, Held env node longer
      ⟨server, Function.update before.received physicalNode none⟩ := by
  have lent : ∀ node, TimedSystem.lent
      ⟨server, Function.update before.received physicalNode none⟩ node =
        if node = physicalNode then false else before.lent node :=
    fun _ => lent_ended (ResourceServer.hostEvent_placement run)
  rcases ResourceServer.hostEvent_clock run with ⟨isFree, same⟩ | stopped
  · refine ⟨same ▸ kept, fun node => (held node).quiet ?_ (sameStart node) ?_ fun _ => ?_⟩
    · rw [lent]
      split
      · next isNode =>
          simp [isNode, TimedSystem.lent, Placement.lent, ResourceServer.placement, isFree]
      · rfl
    · exact progress_same same
    · exact handled_pending (congrFun (congrArg Clock.pending same) node) rfl
  · have run := (TimedServices.serve_run stopped).1
    have fits : env.Fits (.stop (env.wiring.client physicalNode) 0) := by
      intro node isClient
      have isNode := env.wiring.distinct (Option.some.inj isClient)
      exact .inr (by rw [isNode])
    refine ⟨TimedServices.serve_kept kept fits stopped, fun node => ?_⟩
    by_cases isNode : node = physicalNode
    · subst isNode
      obtain ⟨_, _, unarmed⟩ := TimerServer.Server.stop_client (kept.oneShot node) run
      exact .free (by simp [lent]) unarmed
    · have isOther : TimerServer.Call.client (.stop (env.wiring.client physicalNode) 0) ≠
          some (env.wiring.client node) := by
        intro isClient
        exact isNode (env.wiring.distinct (Option.some.inj isClient)).symm
      have progress := TimedServices.serve_progress kept isOther stopped
      refine (held node).quiet (by simp [lent, isNode]) (sameStart node) progress fun same => ?_
      exact handled_pending (TimedServices.serve_pending stopped progress.appended same) rfl

theorem timeout_held {physicalNode : PhysicalNodeIndex}
    {server : ResourceServer (Timed K δ) E} {longer : List (TimedSystem K E δ × TimedEvent δ)}
    (kept : env.Kept before.clock.timerServer) (held : ∀ node, Held env node taken before)
    (sameStart : ∀ node, began node longer = began node taken)
    (isReceived : before.received physicalNode = some badgeTimeout)
    (run : ResourceServer.timeout env.timed physicalNode before.server = .ok () server) :
    env.Kept server.clock.timerServer ∧ ∀ node, Held env node longer
      ⟨server, Function.update before.received physicalNode none⟩ := by
  have same := ResourceServer.timeout_clock _ _ _ run
  have lent : ∀ node, TimedSystem.lent
      ⟨server, Function.update before.received physicalNode none⟩ node =
        if node = physicalNode then false else before.lent node :=
    fun _ => lent_ended (ResourceServer.timeout_placement run)
  refine ⟨same ▸ kept, fun node => ?_⟩
  by_cases isNode : node = physicalNode
  · subst isNode
    refine .free (by simp [lent]) ?_
    rw [TimedSystem.clock, same]
    cases held node with
    | free isFree unarmed => exact unarmed
    | waiting isLent isStart quiet notPending => exact absurd (.inr isReceived) notPending
    | expired isLent isStart signalled reached unarmed => exact unarmed
  · refine (held node).quiet (by simp [lent, isNode]) (sameStart node) ?_ fun _ => ?_
    · exact progress_same same
    · exact handled_pending (congrFun (congrArg Clock.pending same) node) rfl

/-- A host event that is signalled hides a timeout, and does not look like one. -/
theorem hostEvent_notTimeout (nfn : Notification) :
    nfn.signal badgeHostEvent ≠ ⟨some badgeTimeout⟩ := by
  intro isTimeout
  have badges := Option.some.inj (congrArg Notification.pending isTimeout)
  have bit := congrArg (fun badge => badge.getLsbD 0) badges
  simp [badgeHostEvent, badgeTimeout] at bit

/-- The timer server serves a call that no node has made. -/
theorem served_held {call : TimerServer.Call} {clock : Clock δ}
    {longer : List (TimedSystem K E δ × TimedEvent δ)}
    (kept : env.Kept before.clock.timerServer) (held : ∀ node, Held env node taken before)
    (sameStart : ∀ node, began node longer = began node taken)
    (isOther : ∀ node, call.client ≠ some (env.wiring.client node))
    (serves : env.serve call before.clock = some clock) :
    env.Kept clock.timerServer ∧ ∀ node, Held env node longer (before.withClock clock) := by
  have fits : env.Fits call := fun node isClient => absurd isClient (isOther node)
  refine ⟨TimedServices.serve_kept kept fits serves, fun node => ?_⟩
  have progress := TimedServices.serve_progress kept (isOther node) serves
  refine (held node).quiet rfl (sameStart node) progress fun same pending => ?_
  have unchanged := TimedServices.serve_pending serves progress.appended same
  exact pending.imp_left fun isTimeout => unchanged.symm.trans isTimeout

theorem TimedStep.held {event : TimedEvent δ} (kept : env.Kept before.clock.timerServer)
    (held : ∀ node, Held env node taken before) (settled : Settled env before event)
    (step : TimedStep env event before after) :
    env.Kept after.clock.timerServer ∧
      ∀ node, Held env node (taken ++ [(before, event)]) after := by
  have quiet : (∀ node, event.yieldsTo node = false) →
      ∀ node, began node (taken ++ [(before, event)]) = began node taken := by
    intro notYield node
    simp [began_step, notYield]
  cases step with
  | yieldTo isIdle run => exact yieldTo_held kept held settled.1 settled.2 run
  | @hostEvent node _ =>
      refine ⟨kept, fun other => (held other).quiet rfl (quiet (fun _ => rfl) other)
        (.of_quiet rfl .refl rfl fun _ member _ => member) fun _ pending => ?_⟩
      rcases pending with pending | pending
      · change Function.update before.clock.pending node
          ((before.clock.pending node).signal badgeHostEvent) other = ⟨some badgeTimeout⟩ at pending
        by_cases isNode : other = node
        · rw [isNode, Function.update_self] at pending
          exact absurd pending (hostEvent_notTimeout _)
        · rw [Function.update_of_ne isNode] at pending
          exact .inl pending
      · exact .inr pending
  | interrupt serves =>
      exact served_held kept held (quiet fun _ => rfl) (by simp [TimerServer.Call.client]) serves
  | otherClient isOther serves => exact served_held kept held (quiet fun _ => rfl) isOther serves
  | elapse elapses =>
      exact ⟨⟨kept.clients, kept.queue, kept.oneShot⟩, fun node => (held node).quiet rfl
        (quiet (fun _ => rfl) node)
        (.of_quiet rfl (.single (.elapses elapses)) rfl fun _ member _ => member)
        fun _ pending => pending⟩
  | @receive node badge left _ isIdle waits =>
      obtain ⟨isPending, rfl⟩ := Notification.wait_eq_some.mp waits
      refine ⟨kept, fun other => (held other).quiet rfl (quiet (fun _ => rfl) other)
        (.of_quiet rfl .refl rfl fun _ member _ => member) fun _ pending => ?_⟩
      by_cases isNode : other = node
      · subst isNode
        rcases pending with pending | pending
        · change Function.update before.clock.pending other Notification.empty other = _ at pending
          rw [Function.update_self] at pending
          simp [Notification.empty] at pending
        · change Function.update before.received other (some badge) other = _ at pending
          rw [Function.update_self] at pending
          refine .inl ?_
          rw [Option.some.inj pending] at isPending
          cases isWord : before.clock.pending other
          simp_all
      · rcases pending with pending | pending
        · change Function.update before.clock.pending node Notification.empty other = _ at pending
          rw [Function.update_of_ne isNode] at pending
          exact .inl pending
        · change Function.update before.received node (some badge) other = _ at pending
          rw [Function.update_of_ne isNode] at pending
          exact .inr pending
  | @handle node badge request _ server isReceived isRequest run =>
      unfold ofBadge at isRequest
      split at isRequest
      · cases isRequest
        exact hostEvent_held kept held (quiet fun _ => rfl) run
      · split at isRequest
        · next isTimeout =>
            cases isRequest
            exact timeout_held kept held (quiet fun _ => rfl) (isTimeout ▸ isReceived) run
        · cases isRequest

/-- No node is lent, and the timer server has just been started. -/
structure Fresh (env : TimedServices K E δ) (system : TimedSystem K E δ) : Prop where
  idle : ∀ node, system.lent node = false
  started : ∃ timersPerClient device, TimerServer.Server.new env.platform env.wiring.clients
    timersPerClient device = some system.clock.timerServer

theorem Fresh.held (fresh : Fresh env system) :
    env.Kept system.clock.timerServer ∧ ∀ node, Held env node [] system := by
  obtain ⟨timersPerClient, device, isNew⟩ := fresh.started
  have queue := (TimerServer.Reached.new isNew).queue
  unfold TimerServer.Server.new at isNew
  split at isNew
  · have isServer := Option.some.inj isNew
    have none : system.clock.timerServer.outstanding = [] := by rw [← isServer]
    refine ⟨⟨by rw [← isServer], queue, fun node => ?_⟩, fun node => .free (fresh.idle node) ?_⟩
    · simp [OneShot, none]
    · simp [Unarmed, none]
  · cases isNew

theorem run_held (fresh : Fresh env system) {final : TimedSystem K E δ}
    (run : Recorded (TimedStep env) system taken final)
    (settled : ∀ entry ∈ taken, Settled env entry.1 entry.2) :
    env.Kept final.clock.timerServer ∧ ∀ node, Held env node taken final := by
  induction run with
  | start => exact fresh.held
  | @step taken event before after run moved ih =>
      obtain ⟨kept, held⟩ := ih fun entry member => settled entry (List.mem_append_left _ member)
      exact moved.held kept held (settled (before, event) (by simp))

/-- The slice of the node was lent with a timeout, the counter has reached its end since, and the timer
server has signalled it. -/
def OwnTimeout (env : TimedServices K E δ) (node : PhysicalNodeIndex)
    (earlier : List (TimedSystem K E δ × TimedEvent δ)) (system : TimedSystem K E δ) : Prop :=
  ∃ start thread realmId virtualNode timeout,
    began node earlier = some (start, .yieldTo thread node realmId virtualNode (some timeout)) ∧
      start.signals env node < system.signals env node ∧ start.Expired env timeout system

/-- Whenever the badge of a timeout is handled on a node that is lent, the slice that ends has
expired. -/
def TimeoutsOwn (env : TimedServices K E δ)
    (taken : List (TimedSystem K E δ × TimedEvent δ)) : Prop :=
  ∀ earlier before node rest, taken = earlier ++ (before, .handle node) :: rest →
    before.received node = some badgeTimeout → before.lent node = true →
    OwnTimeout env node earlier before

/-- A timeout ends its own slice only, and only when it is over, in every run in which no yield is
served while a timeout of its node is pending and the timer server can hold every timeout. -/
theorem run_timeoutsOwn (fresh : Fresh env system) {final : TimedSystem K E δ}
    (run : Recorded (TimedStep env) system taken final)
    (settled : ∀ entry ∈ taken, Settled env entry.1 entry.2) : TimeoutsOwn env taken := by
  intro earlier before node rest isTaken isReceived isLent
  have isPrefix : earlier ++ [(before, .handle node)] <+: taken := ⟨rest, by simp [isTaken]⟩
  have earlierRun := (run.entry isPrefix).1
  obtain ⟨_, held⟩ := run_held fresh earlierRun fun entry member =>
    settled entry (isPrefix.subset (List.mem_append_left _ member))
  cases held node with
  | free isFree => simp [isLent] at isFree
  | waiting _ isStart same notPending => exact absurd (.inr isReceived) notPending
  | expired _ isStart signalled reached => exact ⟨_, _, _, _, _, isStart, signalled, reached⟩

/-! ## Two nodes -/

/-- The step of an event, where there is one. -/
def TimedEvent.serve (env : TimedServices K E δ)
    [∀ device later, Decidable (env.platform.device.elapses device later)] :
    TimedEvent δ → TimedSystem K E δ → Option (TimedSystem K E δ)
  | .yieldTo thread physicalNode realmId virtualNode timeout, system =>
      if system.received thread = none then
        (ResourceServer.dispatch env.timed thread
          (.yieldTo physicalNode realmId virtualNode timeout) system.server).returned.map fun server =>
            { system with server }
      else none
  | .hostEvent node, system => some (system.withClock { system.clock with
      pending := Function.update system.clock.pending node
        ((system.clock.pending node).signal badgeHostEvent) })
  | .interrupt, system => (env.serve .handleInterrupt system.clock).map fun clock =>
      system.withClock clock
  | .otherClient _, _ => none
  | .elapse device, system =>
      if env.platform.device.elapses system.clock.timerServer.device device then
        some (system.withClock { system.clock with
          timerServer := { system.clock.timerServer with device } })
      else none
  | .receive node, system =>
      if system.received node = none then
        (system.clock.pending node).wait.map fun waited =>
          { (system.withClock { system.clock with
              pending := Function.update system.clock.pending node waited.2 }) with
            received := Function.update system.received node (some waited.1) }
      else none
  | .handle node, system =>
      (system.received node).bind fun badge => (ofBadge badge).bind fun request =>
        (ResourceServer.dispatch env.timed node request system.server).returned.map fun server =>
          { server, received := Function.update system.received node none }

theorem TimedEvent.serve_step
    [∀ device later, Decidable (env.platform.device.elapses device later)] (event : TimedEvent δ)
    (before after : TimedSystem K E δ) (serves : event.serve env before = some after) :
    TimedStep env event before after := by
  cases event with
  | yieldTo thread physicalNode realmId virtualNode timeout =>
      simp only [serve] at serves
      split at serves
      · next isIdle =>
          obtain ⟨server, returned, rfl⟩ := Option.map_eq_some_iff.mp serves
          obtain ⟨⟨⟩, run⟩ := Outcome.returned_eq_some.mp returned
          exact .yieldTo isIdle run
      · cases serves
  | hostEvent node => exact Option.some.inj serves ▸ .hostEvent
  | interrupt =>
      obtain ⟨clock, served, rfl⟩ := Option.map_eq_some_iff.mp serves
      exact .interrupt served
  | otherClient call => cases serves
  | elapse device =>
      simp only [serve] at serves
      split at serves
      · next elapses => exact Option.some.inj serves ▸ .elapse elapses
      · cases serves
  | receive node =>
      simp only [serve] at serves
      split at serves
      · next isIdle =>
          obtain ⟨⟨badge, left⟩, waits, rfl⟩ := Option.map_eq_some_iff.mp serves
          exact .receive isIdle waits
      · cases serves
  | handle node =>
      obtain ⟨badge, isReceived, serves⟩ := Option.bind_eq_some_iff.mp serves
      obtain ⟨request, isRequest, serves⟩ := Option.bind_eq_some_iff.mp serves
      obtain ⟨server, returned, rfl⟩ := Option.map_eq_some_iff.mp serves
      obtain ⟨⟨⟩, run⟩ := Outcome.returned_eq_some.mp returned
      exact .handle isReceived isRequest run

/-- The nodes are the only clients of the timer server. -/
def pairWiring : Wiring where
  clients := [10, 11]
  client node := node
  notified cap := if cap = 10 then some 0 else if cap = 11 then some 1 else none
  distinct same := same
  owned := by
    intro node other cap isCap isNode
    match other with
    | 0 => simp_all
    | 1 =>
        obtain rfl : 11 = cap := by simpa using isCap
        exact Option.some.inj isNode
    | other + 2 => simp at isCap

def pairServices : TimedServices Unit Unit UInt64 where
  services := exampleServices
  platform := TimerServer.counterPlatform
  fuel := 9
  wiring := pairWiring

instance (device later : UInt64) :
    Decidable (pairServices.platform.device.elapses device later) :=
  inferInstanceAs (Decidable (device ≤ later))

def pairRealm : Realm := ⟨[⟨[9], none⟩], ⟨[⟨[⟨9, true⟩]⟩], ⟨0, 12⟩, [], ∅⟩⟩

/-- A realm with one virtual node is there, and the counter reads five. -/
def pairSystem (allocator : Allocator) : TimedSystem Unit Unit UInt64 where
  server := {
    realizer := {
      machine := {
        allocator
        kernel := ⟨(), {
          timerServer := {
            clients := [10, 11]
            timersPerClient := 1
            completed := fun client => if client < 2 then some ∅ else none
            outstanding := []
            device := 5
            freq := 1000000000
            signalled := [] }
          pending := fun _ => Notification.empty }⟩ }
      externs := ∅
      frames := fun _ _ => 0 }
    realms := Std.TreeMap.ofList [(0, pairRealm)]
    partialSpecs := ∅
    partialRealms := ∅
    physicalNodes := [none, none]
    cnode := 5
    nodeLocal := [⟨6⟩, ⟨7⟩]
    resumed := []
    eventServer := () }
  received := fun _ => none

theorem pairSystem_fresh (allocator : Allocator) : Fresh pairServices (pairSystem allocator) where
  idle node := by
    match node with
    | 0 => rfl
    | 1 => rfl
    | node + 2 => rfl
  started := ⟨1, 5, rfl⟩

/-- A timeout expires, and its slice ends with it. -/
def expiringSlice : List (TimedEvent UInt64) :=
  [.yieldTo 0 0 0 0 (some 10), .elapse 50, .interrupt, .receive 0, .handle 0]

/-- The timeout expires after the host event has been received. -/
def crossedYield : List (TimedEvent UInt64) :=
  [.yieldTo 0 0 0 0 (some 10), .elapse 50, .hostEvent 0, .receive 0, .interrupt, .handle 0,
    .yieldTo 1 0 0 0 none, .receive 0, .handle 0]

/-- The deadline of the timeout wraps around, and is long past. -/
def farYield : List (TimedEvent UInt64) :=
  [.yieldTo 0 0 0 0 (some 9223372036854775807), .receive 0, .handle 0]

theorem pairSystem_run (events : List (TimedEvent UInt64))
    (check : List (TimedSystem Unit Unit UInt64 × TimedEvent UInt64) × TimedSystem Unit Unit UInt64 →
      Bool)
    (evaluates : (exampleServerBuilder.build.bind fun allocator =>
      Recorded.record (TimedEvent.serve pairServices) events (pairSystem allocator)).any check =
        true) :
    ∃ allocator taken system,
      Recorded (TimedStep pairServices) (pairSystem allocator) taken system ∧
      taken.map Prod.snd = events ∧ check (taken, system) = true := by
  obtain ⟨⟨taken, system⟩, isRun, checked⟩ := (Option.any_eq_true _ _).mp evaluates
  obtain ⟨allocator, _, evaluates⟩ := Option.bind_eq_some_iff.mp isRun
  exact ⟨allocator, taken, system, Recorded.ofRecord TimedEvent.serve_step .start evaluates,
    Recorded.record_events evaluates, checked⟩

theorem run_timeoutsOwn_expiringSlice : ∃ allocator taken system,
    Recorded (TimedStep pairServices) (pairSystem allocator) taken system ∧
      taken.map Prod.snd = expiringSlice ∧ system.server.resumed = [(0, .timeout)] ∧
      TimeoutsOwn pairServices taken := by
  obtain ⟨allocator, taken, system, run, isSlice, checked⟩ := pairSystem_run expiringSlice
    (fun run => (run.1.all fun entry => Settled pairServices entry.1 entry.2) &&
      decide (run.2.server.resumed = [(0, .timeout)]))
    (by decide +kernel)
  obtain ⟨settled, resumed⟩ := Bool.and_eq_true_iff.mp checked
  refine ⟨allocator, taken, system, run, isSlice, of_decide_eq_true resumed,
    run_timeoutsOwn (pairSystem_fresh allocator) run ?_⟩
  simpa using settled

/-- The last step handles a timeout, and the slice that it ends has none, or one that the counter
does not reach. -/
def endsForeign (taken : List (TimedSystem Unit Unit UInt64 × TimedEvent UInt64)) : Bool :=
  match taken.reverse with
  | (before, .handle node) :: earlier =>
      decide (before.received node = some badgeTimeout) && before.lent node &&
        (earlier.find? fun entry => entry.2.yieldsTo node).any fun entry =>
          match entry.2 with
          | .yieldTo _ _ _ _ none => true
          | .yieldTo _ _ _ _ (some ns) => decide (2 ^ 63 ≤ entry.1.deadline pairServices ns)
          | _ => false
  | _ => false

theorem endsForeign_not_own {taken : List (TimedSystem Unit Unit UInt64 × TimedEvent UInt64)}
    (foreign : endsForeign taken = true) : ¬ TimeoutsOwn pairServices taken := by
  intro own
  unfold endsForeign at foreign
  split at foreign
  · next before node earlier isReverse =>
      have isTaken : taken = earlier.reverse ++ (before, .handle node) :: [] := by
        rw [← List.reverse_reverse taken, isReverse, List.reverse_cons]
      simp only [Bool.and_eq_true, decide_eq_true_eq, Option.any_eq_true] at foreign
      obtain ⟨⟨isReceived, isLent⟩, entry, isStart, isForeign⟩ := foreign
      obtain ⟨start, thread, realmId, virtualNode, timeout, began, _, device, _, _, reached⟩ :=
        own _ before node [] isTaken isReceived isLent
      rw [IceCap.Resources.began, List.reverse_reverse, isStart] at began
      rw [Option.some.inj began, decide_eq_true_eq] at isForeign
      have notReached : 2 ^ 63 ≤ start.deadline pairServices timeout := isForeign
      have isCount : (pairServices.platform.device.getCount device).1.toNat =
          device.toNat % 9223372036854775808 := UInt64.toNat_mod device 9223372036854775808
      omega
  · cases foreign

/-- A timeout that crosses a host event ends the slice that comes after it, and one that the timer
server cannot hold ends its slice at once. -/
theorem crossedYield_foreign : ∃ allocator, Fresh pairServices (pairSystem allocator) ∧
    (∃ taken system, Recorded (TimedStep pairServices) (pairSystem allocator) taken system ∧
      taken.map Prod.snd = crossedYield ∧
      system.server.resumed = [(0, .timeout), (0, .hostEvent)] ∧
      ¬ TimeoutsOwn pairServices taken) ∧
    ∃ allocator taken system, Recorded (TimedStep pairServices) (pairSystem allocator) taken system ∧
      taken.map Prod.snd = farYield ∧ system.server.resumed = [(0, .timeout)] ∧
      ¬ TimeoutsOwn pairServices taken := by
  obtain ⟨allocator, taken, system, run, isSlice, checked⟩ := pairSystem_run crossedYield
    (fun run => endsForeign run.1 &&
      decide (run.2.server.resumed = [(0, .timeout), (0, .hostEvent)]))
    (by decide +kernel)
  obtain ⟨foreign, resumed⟩ := Bool.and_eq_true_iff.mp checked
  refine ⟨allocator, pairSystem_fresh allocator,
    ⟨taken, system, run, isSlice, of_decide_eq_true resumed, endsForeign_not_own foreign⟩, ?_⟩
  obtain ⟨allocator, taken, system, run, isSlice, checked⟩ := pairSystem_run farYield
    (fun run => endsForeign run.1 && decide (run.2.server.resumed = [(0, .timeout)]))
    (by decide +kernel)
  obtain ⟨foreign, resumed⟩ := Bool.and_eq_true_iff.mp checked
  exact ⟨allocator, taken, system, run, isSlice, of_decide_eq_true resumed,
    endsForeign_not_own foreign⟩

end IceCap.Resources
