import IceCap.Vmm.Effects
import IceCap.Vmm.Frames

/-!
# The cpus of the guest

What the nodes of a VMM are for its guest: cpus that are off until another one
turns them on, and that then begin where that one says.  A cpu that runs changes
its own registers and turns others on, each of them once, and does nothing else
to them.  Whatever the nodes do, and in whatever order, is a run of these cpus.
-/

set_option autoImplicit false

namespace IceCap.Vmm

open IceCap.Library IceCap.Gic IceCap.Sel4 Exec

variable {ε E α γ : Type}

/-! ## Cpus -/

inductive Power where
  | absent
  | off
  | booting
  | starting (entry ctxId : UInt64)
  | on
  deriving DecidableEq, Repr

structure Cpus where
  power : Nat → Power
  context : Nat → UserContext

/-- The registers a cpu begins with. -/
def UserContext.entered (entry ctxId : UInt64) (ctx : UserContext) : UserContext :=
  { ctx with pc := entry, x := Function.update ctx.x 0 ctxId }

namespace Cpus

inductive Event where
  | enter (cpu : Nat)
  | cpuOn (caller target : Nat) (entry ctxId : UInt64)
  | run (cpu : Nat)
  deriving DecidableEq, Repr

/-- The cpu that is turned on. -/
def Event.target? : Event → Option Nat
  | .cpuOn _ target _ _ => some target
  | _ => none

def turned (cpus : Cpus) (cpu : Nat) (power : Power) : Cpus :=
  { cpus with power := Function.update cpus.power cpu power }

def ran (cpus : Cpus) (cpu : Nat) (ctx : UserContext) : Cpus :=
  { cpus with context := Function.update cpus.context cpu ctx }

section
variable {cpus : Cpus} {cpu other : Nat} {power : Power}

@[simp] theorem turned_self : (cpus.turned cpu power).power cpu = power := Function.update_self _ _ _

theorem turned_of_ne (differs : other ≠ cpu) :
    (cpus.turned cpu power).power other = cpus.power other := Function.update_of_ne differs _ _

theorem turned_same (isPower : cpus.power cpu = power) : cpus.turned cpu power = cpus := by
  have same : Function.update cpus.power cpu power = cpus.power :=
    isPower ▸ Function.update_eq_self cpu cpus.power
  rw [turned, same]

theorem ran_same : cpus.ran cpu (cpus.context cpu) = cpus :=
  congrArg (Cpus.mk cpus.power) (Function.update_eq_self cpu cpus.context)

end

inductive Step : Event → Cpus → Cpus → Prop where
  | boot {cpus : Cpus} {cpu : Nat} (isBooting : cpus.power cpu = .booting) :
      Step (.enter cpu) cpus (cpus.turned cpu .on)
  | start {cpus : Cpus} {cpu : Nat} {entry ctxId : UInt64}
      (isStarting : cpus.power cpu = .starting entry ctxId) :
      Step (.enter cpu) cpus ((cpus.turned cpu .on).ran cpu ((cpus.context cpu).entered entry ctxId))
  | cpuOn {cpus : Cpus} {caller target : Nat} {entry ctxId : UInt64} {ctx : UserContext}
      (isOn : cpus.power caller = .on) (isOff : cpus.power target = .off) :
      Step (.cpuOn caller target entry ctxId) cpus
        ((cpus.turned target (.starting entry ctxId)).ran caller ctx)
  | run {cpus : Cpus} {cpu : Nat} {ctx : UserContext} (isOn : cpus.power cpu = .on) :
      Step (.run cpu) cpus (cpus.ran cpu ctx)

/-- The first cpu is booted, and the others are off. -/
def initial (numNodes : Nat) (context : Nat → UserContext) : Cpus where
  power i := if i = 0 then .booting else if i < numNodes then .off else .absent
  context := context

section Runs
variable {first final : Cpus} {taken : List (Cpus × Event)}

/-- The cpus that have been turned on so far. -/
def targets (taken : List (Cpus × Event)) : List Nat := taken.filterMap fun entry => entry.2.target?

theorem Step.target_off {event : Event} {before after : Cpus} {cpu : Nat}
    (step : Step event before after) (isTarget : event.target? = some cpu) :
    before.power cpu = .off := by
  cases step with
  | boot | start | run => simp [Event.target?] at isTarget
  | cpuOn _ isOff =>
      obtain rfl := Option.some.inj isTarget
      exact isOff

/-- A cpu is off until it is turned on, and nothing turns it off. -/
theorem Step.off_iff {event : Event} {before after : Cpus} (step : Step event before after)
    (cpu : Nat) : after.power cpu = .off ↔ before.power cpu = .off ∧ event.target? ≠ some cpu := by
  have turns : ∀ (other : Nat) (power : Power), power ≠ .off →
      (Function.update before.power other power cpu = .off ↔ before.power cpu = .off ∧ cpu ≠ other) := by
    intro other power notOff
    by_cases same : cpu = other
    · simp [same, notOff]
    · simp [same]
  have enters : ∀ other, before.power other ≠ .off → (Function.update before.power other .on cpu =
      .off ↔ before.power cpu = .off ∧ (Event.enter other).target? ≠ some cpu) := by
    intro other isUp
    refine (turns other .on (by simp)).trans (and_congr_right fun isOff => ?_)
    have differs : cpu ≠ other := fun same => isUp (same ▸ isOff)
    simp [Event.target?, differs]
  cases step with
  | boot isBooting => exact enters _ (by simp [isBooting])
  | start isStarting => exact enters _ (by simp [isStarting])
  | cpuOn =>
      refine (turns _ _ (by simp)).trans (and_congr_right fun _ => ?_)
      rw [Event.target?, ne_eq, ne_eq, Option.some.injEq, eq_comm]
  | run => simp [ran, Event.target?]

theorem targets_concat {entry : Cpus × Event} :
    targets (taken ++ [entry]) = targets taken ++ entry.2.target?.toList := by
  rw [targets, List.filterMap_append]
  cases isTarget : entry.2.target? <;> simp [targets, isTarget]

theorem off_iff_not_target (run : Recorded Step first taken final) (cpu : Nat) :
    final.power cpu = .off ↔ first.power cpu = .off ∧ cpu ∉ targets taken := by
  induction run with
  | start => simp [targets]
  | step run moved ih =>
      rw [moved.off_iff, ih, targets_concat, List.mem_append, and_assoc]
      simp

/-- A cpu is turned on once at most, and only one that was off at first. -/
theorem run_once (run : Recorded Step first taken final) :
    (targets taken).Nodup ∧ ∀ cpu ∈ targets taken, first.power cpu = .off := by
  induction run with
  | start => exact ⟨List.nodup_nil, fun _ member => absurd member List.not_mem_nil⟩
  | @step taken event before after run moved ih =>
      rw [targets_concat]
      cases isTarget : event.target? with
      | none => simpa [isTarget] using ih
      | some target =>
          obtain ⟨isFirstOff, isNew⟩ := (off_iff_not_target run target).mp (moved.target_off isTarget)
          refine ⟨List.nodup_append.mpr ⟨ih.1, List.nodup_singleton _, ?_⟩, fun cpu member => ?_⟩
          · intro cpu isEarlier other isLast
            rw [List.mem_singleton.mp isLast]
            exact fun same => isNew (same ▸ isEarlier)
          · rcases List.mem_append.mp member with isEarlier | isLast
            · exact ih.2 cpu isEarlier
            · rwa [List.mem_singleton.mp isLast]

end Runs

end Cpus

/-! ## Registers -/

/-- What the registers are when the guest goes on. -/
def Phase.entered : Phase → UserContext → UserContext
  | .closure entry ctxId, ctx => ctx.entered entry ctxId
  | .run, ctx | .looping, ctx => ctx

/-- What the extension does is no matter of registers. -/
structure VMMExtension.Distant (extension : VMMExtension ε E) : Prop where
  wf : ∀ node, Keeps World.contexts (extension.handleWf node)
  syscall : ∀ node fault, Keeps World.contexts (extension.handleSyscall node fault)
  putchar : ∀ node c, Keeps World.contexts (extension.handlePutchar node c)

theorem Realm.extension_distant : (Realm.extension : VMMExtension ε Unit).Distant where
  wf _ := .panic
  syscall _ _ := .panic
  putchar _ _ := .modify fun _ => rfl

theorem advanceAndReply_contexts {fault : UnknownSyscall} :
    Keeps World.contexts (fault.advanceAndReply : Exec ε World Unit) := by
  apply Keeps.bind
  · exact .modify fun _ => rfl
  · exact fun _ => .modify fun _ => rfl

theorem Host.extension_distant {platform : Platform ε} : (Host.extension platform).Distant where
  wf _ := .panic
  syscall _ _ := by
    refine .ite ?_ .panic
    refine Keeps.bind (.mapEach fun _ => .unwrap _) fun parameters => ?_
    refine Keeps.bind (.bind .get fun _ => .bind (.modify fun _ => rfl) fun _ => .pure _) fun r => ?_
    refine (Keeps.assert _).bind fun _ => Keeps.bind (.modify fun _ => rfl) fun _ => ?_
    apply Keeps.bind
    · exact .forEach fun _ => .modify fun _ => rfl
    · exact fun _ => advanceAndReply_contexts
  putchar _ _ := .modify fun _ => rfl

section Registers
variable {platform : Platform ε} {extension : VMMExtension ε E} {config : VMMConfig E}
  {numNodes : Nat} {node : VMMNode E} {other : CPtr}

theorem context_hidden {tcb : CPtr} (differs : other ≠ tcb) :
    World.Hides (fun world => world.contexts other) tcb where
  record _ _ _ := rfl
  listReg _ _ _ _ := rfl
  context _ _ := Function.update_of_ne differs _ _

theorem sysPsci_context {fault : UnknownSyscall} :
    Keeps (VMM.seen fun world => world.contexts other)
      (VMMNode.sysPsci platform fault : Exec (Failure ε) (VMM E numNodes) Unit) := by
  refine (Keeps.unwrap _).bind fun call => Keeps.bind ?_ fun ret => ?_
  · cases call with
    | version | features | migrateInfoType => exact .pure _
    | cpuOn target entry ctxId =>
        refine Keeps.bind ?_ fun _ => .pure _
        intro vmm _ final run
        obtain ⟨found, _, rfl⟩ := cpuOn_eq_ok.mp run
        rfl
  · apply Keeps.bind
    · exact onWorld_keeps (.modify fun _ => rfl)
    · exact fun _ => onWorld_keeps (advanceAndReply_contexts.comp (· other))

/-- A handler does not change the registers of other threads. -/
theorem handle_context {message : Message} (distant : extension.Distant)
    (differs : other ≠ node.tcb) :
    Keeps (VMM.seen fun world => world.contexts other)
      (VMM.handle platform extension config node message :
        Exec (Failure ε) (VMM E numNodes) Unit) := by
  have hides := context_hidden differs
  have replies : Keeps (VMM.seen fun world => world.contexts other)
      (VMMNode.onWorld (reply 0) : Exec (Failure ε) (VMM E numNodes) Unit) :=
    onWorld_keeps (.modify fun _ => rfl)
  cases message with
  | events badge words => exact handleEvents_keeps hides
  | fault ctx fault =>
      cases fault with
      | nullFault | capFault | userException => exact .panic
      | vmFault fault => exact (handlePageFault_keeps hides).bind fun _ => replies
      | vgicMaintenance idx =>
          refine (Keeps.unwrap _).bind fun _ => (onGic_keeps fun shown => ?_).bind fun _ => replies
          exact GIC.handleMaintenance_embeds (callbacks_keep_view hides shown)
      | vppiEvent irq =>
          refine (onGic_keeps fun shown => ?_).bind fun _ => replies
          exact GIC.handleIrq_embeds (callbacks_keep_view hides shown)
      | vcpuFault hsr => exact .ite (onWorld_keeps ((distant.wf node).comp (· other))) .panic
      | unknownSyscall fault =>
          refine .ite sysPsci_context (.ite ?_ ?_)
          · exact (onWorld_keeps ((distant.putchar node _).comp (· other))).bind fun _ =>
              onWorld_keeps (advanceAndReply_contexts.comp (· other))
          · exact onWorld_keeps ((distant.syscall node fault).comp (· other))

theorem deliver_context {world : World} {message : Message} (differs : other ≠ node.tcb) :
    (VMM.deliver node world message).contexts other = world.contexts other := by
  cases message with
  | events => rfl
  | fault ctx fault =>
      have same : (world.setContext node.tcb ctx).contexts other = world.contexts other :=
        Function.update_of_ne differs _ _
      cases fault with
      | vgicMaintenance idx => cases idx <;> exact same
      | _ => exact same

theorem enter_contexts : Keeps World.contexts (node.enter platform) := by
  have invokes : ∀ effect, Keeps World.contexts (invoke platform effect) := by
    intro effect world _ final run
    obtain ⟨_, rfl⟩ := (invoke_eq_ok platform).mp run
    rfl
  exact (invokes _).bind fun _ => invokes _

/-- A thread puts into the registers of its own guest thread what the closure says. -/
theorem begin_contexts {thread : NodeThread E} {world final : World} {value : Unit}
    (begun : thread.begin platform world = .ok value final) :
    thread.phase ≠ .looping ∧ final.contexts = Function.update world.contexts thread.node.tcb
      (thread.phase.entered (world.contexts thread.node.tcb)) := by
  unfold NodeThread.begin at begun
  cases isPhase : thread.phase with
  | looping => simp [isPhase] at begun
  | run =>
      simp only [isPhase] at begun
      refine ⟨by simp, (enter_contexts _ _ _ begun).trans ?_⟩
      exact (Function.update_eq_self _ _).symm
  | closure entry ctxId =>
      simp only [isPhase, VMMNode.callClosure, readAllRegisters, writeAllRegisters, bind_eq_ok,
        orPanic_eq_ok, invoke_eq_ok, reads_eq_ok, modify_eq_ok, unwrap_eq_ok, Option.some.injEq]
        at begun
      obtain ⟨ctx, read, ⟨_, _, ⟨_, rfl⟩, rfl, rfl⟩, changed, _, ⟨isChanged, rfl⟩, _, written,
        ⟨_, _, ⟨_, rfl⟩, rfl⟩, entered⟩ := begun
      refine ⟨by simp, (enter_contexts _ _ _ entered).trans ?_⟩
      obtain rfl := Option.some.inj isChanged
      rfl

end Registers

/-! ## The nodes as cpus -/

def Phase.power : Phase → Power
  | .closure entry ctxId => .starting entry ctxId
  | .run => .booting
  | .looping => .on

theorem Phase.power_ne_off (phase : Phase) : phase.power ≠ .off := by
  cases phase <;> simp [Phase.power]

namespace VMM

/-- The number of the node that a thread runs. -/
def nodeOf {numNodes : Nat} (vmm : VMM E numNodes) (position : Nat) : Nat :=
  (vmm.threads[position]?).elim 0 fun thread => thread.node.nodeIndex

/-- What a step is for the cpus. -/
def event {numNodes : Nat} (taken : VMM E numNodes × Step) : Cpus.Event :=
  match taken.2 with
  | .begin position => .enter (taken.1.nodeOf position)
  | .recv position message =>
      match message.cpuOn? with
      | some (target, entry, ctxId) => .cpuOn (taken.1.nodeOf position) target entry ctxId
      | none => .run (taken.1.nodeOf position)

/-- The nodes in the table are off, and each other one is run by one thread. -/
structure Shows (config : VMMConfig E) (vmm : VMM E config.nodes.length) (cpus : Cpus) : Prop where
  table : ∀ i : Fin config.nodes.length,
    vmm.nodes.get i = if cpus.power i = .off then some (config.node i) else none
  threads : ∀ (position : Nat) (thread : NodeThread E), vmm.threads[position]? = some thread →
    ∃ i, thread.node = (config.node i).2 ∧ cpus.power i = thread.phase.power
  distinct : ∀ (first second : Nat) (thread other : NodeThread E),
    vmm.threads[first]? = some thread → vmm.threads[second]? = some other →
    thread.node.nodeIndex = other.node.nodeIndex → first = second
  contexts : ∀ i : Fin config.nodes.length,
    cpus.context i = vmm.gic.callbacks.contexts (config.node i).2.tcb

end VMM

section Steps
variable {platform : Platform ε} {extension : VMMExtension ε E} {config : VMMConfig E}
  {vmm final : VMM E config.nodes.length} {cpus : Cpus} {position : Nat}

theorem start_shows {world : World} {first : VMM E config.nodes.length} {context : Nat → UserContext}
    (started : config.start world = some first)
    (contexts : ∀ i : Fin config.nodes.length, context i = world.contexts (config.node i).2.tcb) :
    first.Shows config (Cpus.initial config.nodes.length context) := by
  unfold VMMConfig.start at started
  split at started
  · next isNode =>
      obtain rfl := Option.some.inj started
      have isFirst : ∀ (position : Nat) (thread : NodeThread E),
          [(⟨(config.node ⟨0, isNode.1⟩).2, .run⟩ : NodeThread E)][position]? = some thread →
            position = 0 ∧ thread = ⟨(config.node ⟨0, isNode.1⟩).2, .run⟩ := by
        intro position thread isThread
        rw [List.getElem?_singleton] at isThread
        split at isThread
        · next isZero => exact ⟨isZero, (Option.some.inj isThread).symm⟩
        · simp at isThread
      refine ⟨fun i => ?_, fun position thread isThread => ?_, ?_, contexts⟩
      · change ((Vector.ofFn fun i => some (config.node i)).set 0 none isNode.1)[(i : Nat)] = _
        by_cases isZero : (i : Nat) = 0
        · simp [isZero, Cpus.initial]
        · simp [isZero, Cpus.initial, Ne.symm isZero]
      · obtain ⟨_, rfl⟩ := isFirst position thread isThread
        exact ⟨⟨0, isNode.1⟩, rfl, rfl⟩
      · intro position second thread other isThread isOther _
        exact (isFirst position thread isThread).1.trans (isFirst second other isOther).1.symm
  · simp at started

theorem tcb_injective (distinct : (config.nodes.map VMMNodeConfig.tcb).Nodup)
    {i j : Fin config.nodes.length} (same : (config.node i).2.tcb = (config.node j).2.tcb) : i = j := by
  apply Fin.ext
  have isMap : ∀ k : Fin config.nodes.length, (config.nodes.map VMMNodeConfig.tcb)[(k : Nat)]? =
      some (config.node k).2.tcb := fun k => by simp [VMMConfig.node]
  refine (List.getElem?_inj ?_ distinct).mp ((isMap i).trans ((congrArg some same).trans (isMap j).symm))
  rw [List.length_map]
  exact i.isLt

/-- A thread goes on to its loop, and changes no registers but those of its own guest thread. -/
theorem shows_ran (distinct : (config.nodes.map VMMNodeConfig.tcb).Nodup)
    (shows : vmm.Shows config cpus) {thread : NodeThread E} {i : Fin config.nodes.length}
    (isThread : vmm.threads[position]? = some thread) (isNode : thread.node = (config.node i).2)
    (sameNodes : final.nodes = vmm.nodes)
    (isSet : final.threads = vmm.threads.set position { thread with phase := .looping })
    (others : ∀ other, other ≠ thread.node.tcb →
      final.gic.callbacks.contexts other = vmm.gic.callbacks.contexts other) :
    final.Shows config
      ((cpus.turned i .on).ran i (final.gic.callbacks.contexts thread.node.tcb)) := by
  have isUp : cpus.power i ≠ .off := by
    obtain ⟨j, isOther, isPower⟩ := shows.threads position thread isThread
    have same : j = i := Fin.ext (congrArg VMMNode.nodeIndex (isOther.symm.trans isNode))
    rw [← same, isPower]
    exact thread.phase.power_ne_off
  have stays : ∀ j : Fin config.nodes.length, j ≠ i →
      (cpus.turned i .on).power j = cpus.power j := fun j differs =>
    Cpus.turned_of_ne fun same => differs (Fin.ext same)
  -- The threads are the same but for the phase of one.
  have isOld : ∀ (other : Nat) (found : NodeThread E), final.threads[other]? = some found →
      ∃ before, vmm.threads[other]? = some before ∧ before.node = found.node ∧
        (other = position ∧ found.phase = .looping ∨ other ≠ position ∧ before = found) := by
    intro other found isFound
    rw [isSet, List.getElem?_set] at isFound
    split at isFound
    · next same =>
        split at isFound
        · obtain rfl := Option.some.inj isFound
          exact ⟨thread, same ▸ isThread, rfl, .inl ⟨same.symm, rfl⟩⟩
        · simp at isFound
    · next differs => exact ⟨found, isFound, rfl, .inr ⟨fun same => differs same.symm, rfl⟩⟩
  constructor
  case table =>
    intro j
    rw [sameNodes, shows.table j]
    by_cases same : j = i
    · rw [same]
      change _ = if (cpus.turned i .on).power i = .off then _ else _
      rw [if_neg isUp, Cpus.turned_self, if_neg (by simp)]
    · change _ = if (cpus.turned i .on).power j = .off then _ else _
      rw [stays j same]
  case threads =>
    intro other found isFound
    obtain ⟨before, isBefore, sameNode, isCase⟩ := isOld other found isFound
    obtain ⟨j, isOther, isPower⟩ := shows.threads other before isBefore
    refine ⟨j, sameNode.symm.trans isOther, ?_⟩
    change (cpus.turned i .on).power j = _
    rcases isCase with ⟨isPosition, isLooping⟩ | ⟨notPosition, rfl⟩
    · rw [isPosition, isThread] at isBefore
      obtain rfl := Option.some.inj isBefore
      have same : j = i := Fin.ext (congrArg VMMNode.nodeIndex (isOther.symm.trans isNode))
      rw [same, Cpus.turned_self, isLooping]
      rfl
    · rw [stays j, isPower]
      intro same
      have sameIndex : before.node.nodeIndex = thread.node.nodeIndex := by
        rw [isOther, isNode, same]
      exact notPosition (shows.distinct other position before thread isBefore isThread sameIndex)
  case distinct =>
    intro first second one other isOne isOther sameIndex
    obtain ⟨before, isBefore, sameNode, _⟩ := isOld first one isOne
    obtain ⟨former, isFormer, sameOther, _⟩ := isOld second other isOther
    exact shows.distinct first second before former isBefore isFormer
      (by rw [sameNode, sameOther, sameIndex])
  case contexts =>
    intro j
    have isTcb : thread.node.tcb = (config.node i).2.tcb := congrArg VMMNode.tcb isNode
    by_cases same : j = i
    · rw [same, ← isTcb]
      exact Function.update_self _ _ _
    · have differs : (config.node j).2.tcb ≠ thread.node.tcb := fun sameTcb =>
        same (tcb_injective distinct (sameTcb.trans isTcb))
      rw [others _ differs, ← shows.contexts j]
      exact Function.update_of_ne (fun sameIndex => same (Fin.ext sameIndex)) _ _

/-- A node that is in the table is moved to a new thread. -/
theorem shows_cpuOn (shows : vmm.Shows config cpus) {target : Nat} {entry ctxId : UInt64}
    {found : CPtr × VMMNode E} (isFound : vmm.nodes[target]? = some (some found))
    (isTaken : final.nodes = vmm.nodes.setIfInBounds target none)
    (isMoved : final.threads = vmm.threads ++ [⟨found.2, .closure entry ctxId⟩])
    (same : final.gic.callbacks.contexts = vmm.gic.callbacks.contexts) :
    cpus.power target = .off ∧
      final.Shows config (cpus.turned target (.starting entry ctxId)) := by
  obtain ⟨inTable, isEntry⟩ := Vector.getElem?_eq_some_iff.mp isFound
  have isTable := shows.table ⟨target, inTable⟩
  change vmm.nodes[target] = _ at isTable
  rw [isEntry] at isTable
  have isOff : cpus.power target = .off := by
    by_contra isUp
    rw [if_neg isUp] at isTable
    exact absurd isTable (by simp)
  rw [if_pos isOff] at isTable
  obtain rfl := Option.some.inj isTable
  have isOld : ∀ (other : Nat) (thread : NodeThread E), final.threads[other]? = some thread →
      vmm.threads[other]? = some thread ∧ thread.node.nodeIndex ≠ target ∨
        other = vmm.threads.length ∧ thread = ⟨(config.node ⟨target, inTable⟩).2, .closure entry ctxId⟩ := by
    intro other thread isThread
    rw [isMoved, List.getElem?_append] at isThread
    split at isThread
    · refine .inl ⟨isThread, fun sameIndex => ?_⟩
      obtain ⟨j, isNode, isPower⟩ := shows.threads other thread isThread
      have isIndex : (j : Nat) = target := (congrArg VMMNode.nodeIndex isNode).symm.trans sameIndex
      rw [isIndex, isOff] at isPower
      exact absurd isPower.symm thread.phase.power_ne_off
    · rw [List.getElem?_singleton] at isThread
      split at isThread
      · exact .inr ⟨by omega, (Option.some.inj isThread).symm⟩
      · simp at isThread
  refine ⟨isOff, ?table, ?threads, ?distinct, ?contexts⟩
  case table =>
    intro j
    change final.nodes[(j : Nat)] = _
    by_cases isTarget : (j : Nat) = target
    · obtain rfl : j = ⟨target, inTable⟩ := Fin.ext isTarget
      rw [Cpus.turned_self, if_neg (by simp)]
      simp [isTaken]
    · rw [Cpus.turned_of_ne isTarget, ← shows.table j]
      change _ = vmm.nodes[(j : Nat)]
      simp [isTaken, Ne.symm isTarget]
  case threads =>
    intro other thread isThread
    rcases isOld other thread isThread with ⟨isBefore, notTarget⟩ | ⟨_, rfl⟩
    · obtain ⟨j, isNode, isPower⟩ := shows.threads other thread isBefore
      refine ⟨j, isNode, (Cpus.turned_of_ne fun isTarget => notTarget ?_).trans isPower⟩
      rw [isNode]
      exact isTarget
    · exact ⟨⟨target, inTable⟩, rfl, Cpus.turned_self⟩
  case distinct =>
    intro first second one other isOne isOther sameIndex
    rcases isOld first one isOne with ⟨isBefore, notTarget⟩ | ⟨isLast, rfl⟩
    · rcases isOld second other isOther with ⟨isFormer, _⟩ | ⟨_, rfl⟩
      · exact shows.distinct first second one other isBefore isFormer sameIndex
      · exact absurd sameIndex notTarget
    · rcases isOld second other isOther with ⟨_, notTarget⟩ | ⟨isLastToo, _⟩
      · exact absurd sameIndex.symm notTarget
      · rw [isLast, isLastToo]
  case contexts =>
    intro j
    rw [same]
    exact shows.contexts j

theorem nodeOf_eq {thread : NodeThread E} (isThread : vmm.threads[position]? = some thread) :
    vmm.nodeOf position = thread.node.nodeIndex := by
  rw [VMM.nodeOf, isThread]
  rfl

theorem begin_shows (distinct : (config.nodes.map VMMNodeConfig.tcb).Nodup)
    (shows : vmm.Shows config cpus)
    (returns : VMM.Returns platform extension config (.begin position) vmm final) :
    ∃ next, Cpus.Step (.enter (vmm.nodeOf position)) cpus next ∧ final.Shows config next := by
  obtain ⟨thread, world, isThread, begun, rfl⟩ := VMM.begin_eq_ok.mp returns
  obtain ⟨notLooping, areContexts⟩ := begin_contexts begun
  obtain ⟨i, isNode, isPower⟩ := shows.threads position thread isThread
  have isIndex : vmm.nodeOf position = i := by
    rw [nodeOf_eq isThread, isNode]
    rfl
  have isTcb : thread.node.tcb = (config.node i).2.tcb := congrArg VMMNode.tcb isNode
  have isContext : world.contexts thread.node.tcb = thread.phase.entered (cpus.context i) := by
    rw [areContexts, Function.update_self, shows.contexts i, ← isTcb]
  rw [isIndex]
  refine ⟨(cpus.turned i .on).ran i (world.contexts thread.node.tcb), ?_, ?_⟩
  · rw [isContext]
    cases isPhase : thread.phase with
    | looping => exact absurd isPhase notLooping
    | run =>
        rw [isPhase] at isPower
        have same : (cpus.turned i .on).ran i (cpus.context i) = cpus.turned i .on := Cpus.ran_same
        rw [Phase.entered, same]
        exact .boot isPower
    | closure entry ctxId =>
        rw [isPhase] at isPower
        exact .start isPower
  · exact shows_ran distinct shows isThread isNode rfl rfl fun other differs =>
      (congrFun areContexts other).trans (Function.update_of_ne differs _ _)

theorem sysPsci_cpuOn {fault : UnknownSyscall} {target : Nat} {entry ctxId : UInt64} {value : Unit}
    (isCall : Psci.Call.parse fault = some (.cpuOn target entry ctxId))
    (run : (VMMNode.sysPsci platform fault : Exec (Failure ε) _ Unit) vmm = .ok value final) :
    ∃ found, vmm.nodes[target]? = some (some found) ∧
      final.nodes = vmm.nodes.setIfInBounds target none ∧
      final.threads = vmm.threads ++ [⟨found.2, .closure entry ctxId⟩] := by
  obtain ⟨call, _, parsed, rest⟩ := bind_eq_ok.mp run
  obtain ⟨isParsed, rfl⟩ := unwrap_eq_ok.mp parsed
  obtain rfl := Option.some.inj (isParsed.symm.trans isCall)
  obtain ⟨ret, _, called, rest⟩ := bind_eq_ok.mp rest
  obtain ⟨_, _, started, returned⟩ := bind_eq_ok.mp called
  obtain ⟨rfl, rfl⟩ := pure_eq_ok.mp returned
  obtain ⟨found, isFound, rfl⟩ := cpuOn_eq_ok.mp started
  obtain ⟨sameNodes, sameThreads⟩ := Prod.mk.inj
    ((onWorld_layout.bind fun _ => onWorld_layout) _ _ _ rest)
  exact ⟨found, isFound, sameNodes, sameThreads⟩

/-- What is left of the table after a call that starts a node. -/
theorem handle_cpuOn {node : VMMNode E} {message : Message} {target : Nat} {entry ctxId : UInt64}
    {value : Unit} (isCall : message.cpuOn? = some (target, entry, ctxId))
    (run : VMM.handle platform extension config node message vmm = .ok value final) :
    ∃ found, vmm.nodes[target]? = some (some found) ∧
      final.nodes = vmm.nodes.setIfInBounds target none ∧
      final.threads = vmm.threads ++ [⟨found.2, .closure entry ctxId⟩] ∧
      final.gic.callbacks.contexts = vmm.gic.callbacks.contexts := by
  cases message with
  | events => simp [Message.cpuOn?] at isCall
  | fault ctx fault =>
      cases fault with
      | unknownSyscall fault =>
          simp only [Message.cpuOn?] at isCall
          split at isCall
          · next isPsci =>
              change node.handleSyscall platform extension fault vmm = _ at run
              rw [VMMNode.handleSyscall, if_pos isPsci] at run
              have isParsed : Psci.Call.parse fault = some (.cpuOn target entry ctxId) := by
                split at isCall
                · next isParsed =>
                    obtain ⟨rfl, rfl, rfl⟩ := by simpa using isCall
                    exact isParsed
                · simp at isCall
              obtain ⟨found, isFound, isTaken, isMoved⟩ := sysPsci_cpuOn isParsed run
              exact ⟨found, isFound, isTaken, isMoved,
                funext fun other => @sysPsci_context _ _ platform _ other _ _ _ _ run⟩
          · simp at isCall
      | _ => simp [Message.cpuOn?] at isCall

/-- What the thread of a node does with a message. -/
theorem recv_shows {message : Message} (distant : extension.Distant)
    (distinct : (config.nodes.map VMMNodeConfig.tcb).Nodup) (shows : vmm.Shows config cpus)
    (returns : VMM.Returns platform extension config (.recv position message) vmm final) :
    ∃ next, Cpus.Step (VMM.event (vmm, .recv position message)) cpus next ∧
      final.Shows config next := by
  obtain ⟨thread, isThread, isLooping, handled⟩ := VMM.recv_eq_ok.mp returns
  obtain ⟨i, isNode, isPower⟩ := shows.threads position thread isThread
  rw [isLooping] at isPower
  have isIndex : vmm.nodeOf position = i := by
    rw [nodeOf_eq isThread, isNode]
    rfl
  have sameThreads : vmm.threads = vmm.threads.set position { thread with phase := .looping } := by
    have sameThread : { thread with phase := .looping } = thread := by rw [← isLooping]
    rw [sameThread]
    obtain ⟨inside, isAt⟩ := List.getElem?_eq_some_iff.mp isThread
    rw [← isAt, List.set_getElem_self]
  have sameCpus : cpus.turned i .on = cpus := Cpus.turned_same isPower
  cases isCall : message.cpuOn? with
  | none =>
      obtain ⟨sameNodes, sameAfter⟩ := Prod.mk.inj (handle_layout isCall _ _ _ handled)
      have after := shows_ran distinct shows isThread isNode sameNodes (sameAfter.trans sameThreads)
        fun other differs => (handle_context distant differs _ _ _ handled).trans
          (deliver_context differs)
      rw [sameCpus] at after
      refine ⟨_, ?_, after⟩
      simp only [VMM.event, isCall, isIndex]
      exact .run isPower
  | some call =>
      obtain ⟨target, entry, ctxId⟩ := call
      obtain ⟨found, isFound, isTaken, isMoved, sameContexts⟩ := handle_cpuOn isCall handled
      have delivered : VMM.Shows config { vmm with gic := { vmm.gic with
          callbacks := VMM.deliver thread.node vmm.gic.callbacks message } } _ :=
        shows_ran distinct shows isThread isNode rfl sameThreads fun other differs =>
          deliver_context differs
      rw [sameCpus] at delivered
      obtain ⟨isOff, after⟩ := shows_cpuOn delivered isFound isTaken isMoved sameContexts
      refine ⟨_, ?_, after⟩
      simp only [VMM.event, isCall, isIndex]
      exact .cpuOn isPower isOff

theorem step_shows {step : VMM.Step} (distant : extension.Distant)
    (distinct : (config.nodes.map VMMNodeConfig.tcb).Nodup) (shows : vmm.Shows config cpus)
    (returns : VMM.Returns platform extension config step vmm final) :
    ∃ next, Cpus.Step (VMM.event (vmm, step)) cpus next ∧ final.Shows config next := by
  cases step with
  | begin position => exact begin_shows distinct shows returns
  | recv position message => exact recv_shows distant distinct shows returns

end Steps

/-! ## Runs -/

/-- The registers of the guest's threads, by the numbers of the nodes. -/
def VMMConfig.contexts (config : VMMConfig E) (world : World) (i : Nat) : UserContext :=
  world.contexts ((config.nodes[i]?).elim 0 VMMNodeConfig.tcb)

/-- Whatever the nodes of a VMM do, and in whatever order, is a run of the cpus, of which each is
turned on once at most and the one that is booted never. -/
theorem run_cpus {platform : Platform ε} {extension : VMMExtension ε E} {config : VMMConfig E}
    {world : World} {first final : VMM E config.nodes.length}
    {taken : List (VMM E config.nodes.length × VMM.Step)} (distant : extension.Distant)
    (distinct : (config.nodes.map VMMNodeConfig.tcb).Nodup)
    (started : config.start world = some first)
    (run : Recorded (VMM.Returns platform extension config) first taken final) :
    ∃ trace cpus,
      Recorded Cpus.Step (Cpus.initial config.nodes.length (config.contexts world)) trace cpus ∧
      trace.map Prod.snd = taken.map VMM.event ∧ final.Shows config cpus ∧
      (Cpus.targets trace).Nodup ∧
      ∀ target ∈ Cpus.targets trace, 0 < target ∧ target < config.nodes.length := by
  have starts : first.Shows config (Cpus.initial config.nodes.length (config.contexts world)) :=
    start_shows started fun i => by simp [VMMConfig.contexts, VMMConfig.node]
  obtain ⟨trace, cpus, isRun, isTrace, shows⟩ := Recorded.simulated
    (fun _ _ _ _ shows returns => step_shows distant distinct shows returns) starts run
  obtain ⟨once, areOff⟩ := Cpus.run_once isRun
  refine ⟨trace, cpus, isRun, isTrace, shows, once, fun target isTarget => ?_⟩
  have isOff := areOff target isTarget
  simp only [Cpus.initial] at isOff
  split at isOff
  · simp at isOff
  · next notZero =>
      split at isOff
      · next isNode => exact ⟨Nat.pos_of_ne_zero notZero, isNode⟩
      · simp at isOff

/-- A run of the host's, and the runs of the realms'. -/
theorem run_cpus_exampleHost : (∃ (first final : VMM Host.Extension 2) (taken : List _),
    exampleHost.start exampleWorld = some first ∧
    Recorded (VMM.Returns examplePlatform (Host.extension examplePlatform) exampleHost) first taken
      final ∧
    taken.map VMM.event = [.enter 0, .cpuOn 0 1 0x80000 7, .enter 1, .run 1, .run 0, .run 0, .run 0,
      .run 0] ∧
    ∃ trace cpus,
      Recorded Cpus.Step (Cpus.initial 2 (exampleHost.contexts exampleWorld)) trace cpus ∧
      trace.map Prod.snd = taken.map VMM.event ∧ final.Shows exampleHost cpus ∧
      (Cpus.targets trace).Nodup ∧ ∀ target ∈ Cpus.targets trace, 0 < target ∧ target < 2) ∧
    ∀ (config : VMMConfig Unit) (first final : VMM Unit config.nodes.length) (taken : List _),
      (config.nodes.map VMMNodeConfig.tcb).Nodup → config.start exampleWorld = some first →
        Recorded (VMM.Returns examplePlatform Realm.extension config) first taken final →
          ∃ trace cpus,
            Recorded Cpus.Step (Cpus.initial config.nodes.length (config.contexts exampleWorld))
              trace cpus ∧
            trace.map Prod.snd = taken.map VMM.event ∧ final.Shows config cpus ∧
            (Cpus.targets trace).Nodup ∧
            ∀ target ∈ Cpus.targets trace, 0 < target ∧ target < config.nodes.length := by
  refine ⟨?_, fun _ _ _ _ distinct started run =>
    run_cpus Realm.extension_distant distinct started run⟩
  obtain ⟨first, taken, final, started, run, _, checked⟩ := exampleHost_run
    (fun run => run.1.map VMM.event == [.enter 0, .cpuOn 0 1 0x80000 7, .enter 1, .run 1, .run 0,
      .run 0, .run 0, .run 0]) (by decide +kernel)
  exact ⟨first, final, taken, started, run, beq_iff_eq.mp checked,
    run_cpus Host.extension_distant (by decide) started run⟩

end IceCap.Vmm
