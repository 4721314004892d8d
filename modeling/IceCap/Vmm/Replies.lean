import Mathlib.Data.List.Forall2
import IceCap.Library.Loop
import IceCap.Vmm.Effects
import IceCap.Vmm.Frames

/-!
# What the guest is answered

A fault is answered once, by the thread that received it, before it receives the
next message; an event is not answered.  After a call the guest goes on behind
it, with the registers it made the call with but for those that hold the result.
One call leaves two others changed: the message of `CPU_ON` has been used for
the closure that is sent to the started thread.
-/

set_option autoImplicit false

namespace IceCap.Vmm

open IceCap.Library IceCap.Gic IceCap.Sel4 Exec

variable {ε E α : Type}

/-- The replies so far. -/
def World.replies (world : World) : List (List UInt64) := world.effects.filterMap Effect.reply?

/-- The registers after a call, and where the guest goes on. -/
def UnknownSyscall.resumed (fault : UnknownSyscall) (x : Fin 8 → UInt64) : List UInt64 :=
  List.ofFn x ++ [fault.faultIp + 4]

/-- The answer to a PSCI call. -/
def Psci.Answered (fault : UnknownSyscall) (values : List UInt64) : Psci.Call → Prop
  | .version => values = fault.resumed (Function.update fault.x 0 0x10001)
  | .features qfid => values = fault.resumed
      (Function.update fault.x 0 (if qfid = FID_CPU_ON then 0 else 0xffffffffffffffff))
  | .cpuOn _ _ _ => ∃ closure, values = fault.resumed
      (Function.update (Function.update (Function.update fault.x 0 0) 1 closure) 2 0)
  | .migrateInfoType => values = fault.resumed (Function.update fault.x 0 0xffffffffffffffff)

/-- The answer to a fault, with the calls that are passed to the extension. -/
def Answered (passed : UnknownSyscall → List UInt64 → Prop) : Fault → List UInt64 → Prop
  | .unknownSyscall fault, values =>
      if fault.syscall = Psci.SYS_PSCI then
        ∃ call, Psci.Call.parse fault = some call ∧ Psci.Answered fault values call
      else if fault.syscall = SYS_PUTCHAR then values = fault.resumed fault.x
      else passed fault values
  | .vmFault _, values | .vgicMaintenance _, values | .vppiEvent _, values => values = []
  | .vcpuFault _, _ | .nullFault, _ | .capFault, _ | .userException, _ => False

/-- The message registers are those of the call. -/
def World.Holds (world : World) (fault : UnknownSyscall) : Prop :=
  ∀ i : Fin 8, world.mrs i = fault.x i

/-- How an extension answers the calls that are passed to it. -/
structure VMMExtension.Answers (extension : VMMExtension ε E)
    (passed : UnknownSyscall → List UInt64 → Prop) : Prop where
  wf : ∀ node world value final, extension.handleWf node world ≠ .ok value final
  syscall : ∀ node fault world value final, world.Holds fault →
    extension.handleSyscall node fault world = .ok value final →
    ∃ values, passed fault values ∧ final.replies = world.replies ++ [values]
  putchar : ∀ node c, Keeps (fun world : World => (world.replies, world.mrs))
    (extension.handlePutchar node c)

/-! ## Replies -/

section World
variable {platform : Platform ε} {world final : World} {value : Unit}

theorem replies_record {effect : Effect} (notReply : effect.reply? = none) :
    (world.record effect).replies = world.replies := by
  simp [World.replies, World.record, notReply]

theorem reply_replies {length : Nat}
    (run : (reply length : Exec ε World Unit) world = .ok value final) :
    final.replies = world.replies ++ [(List.range length).map world.mrs] := by
  rw [← modify_eq_ok.mp run]
  simp [World.replies, World.record, Effect.reply?]

theorem advanceAndReply_replies {fault : UnknownSyscall}
    (run : (fault.advanceAndReply : Exec ε World Unit) world = .ok value final) :
    final.replies = world.replies ++ [fault.resumed fun i => world.mrs i] := by
  obtain ⟨_, middle, advanced, replied⟩ := bind_eq_ok.mp run
  rw [reply_replies replied, ← modify_eq_ok.mp advanced]
  have registers : (List.range UnknownSyscall.numRegsForGprsAndPc).map
      (world.setMr UnknownSyscall.mrPc (fault.faultIp + 4)).mrs =
        fault.resumed fun i => world.mrs i := by
    simp [UnknownSyscall.numRegsForGprsAndPc, UnknownSyscall.resumed, UnknownSyscall.mrPc,
      World.setMr, List.range_succ, List.ofFn_succ, Function.update_of_ne]
  rw [registers]
  rfl

theorem replies_hidden (tcb : CPtr) : World.Hides World.replies tcb where
  record _ _ notReply := replies_record notReply
  listReg _ _ _ _ := rfl
  context _ _ := rfl

end World

/-! ## What a handler replies -/

section Handlers
variable {platform : Platform ε} {extension : VMMExtension ε E} {config : VMMConfig E}
  {passed : UnknownSyscall → List UInt64 → Prop} {numNodes : Nat} {node : VMMNode E}
  {vmm final : VMM E numNodes}

def VMM.replies (vmm : VMM E numNodes) : List (List UInt64) := vmm.seen World.replies

/-- What is answered after the fault has been handled. -/
theorem replies_after {call : Exec (Failure ε) (VMM E numNodes) Unit} {value : Unit}
    (keeps : Keeps VMM.replies call)
    (run : (call >>= fun _ => VMMNode.onWorld (reply 0)) vmm = .ok value final) :
    final.replies = vmm.replies ++ [[]] := by
  obtain ⟨_, middle, handled, replied⟩ := bind_eq_ok.mp run
  obtain ⟨world, called, rfl⟩ := onWorld_eq_ok.mp replied
  exact (reply_replies called).trans (congrArg (· ++ [[]]) (keeps _ _ _ handled))

/-- The registers of the message after the result has been put into the first. -/
theorem ofFn_setMr {world : World} {fault : UnknownSyscall} (holds : world.Holds fault)
    (value : UInt64) :
    (fun i : Fin 8 => (world.setMr 0 value).mrs i) = Function.update fault.x 0 value := by
  funext i
  by_cases isFirst : i = 0
  · rw [isFirst, Function.update_self]
    rfl
  · have notZero : (i : Nat) ≠ 0 := fun isZero => isFirst (Fin.ext isZero)
    rw [Function.update_of_ne isFirst, ← holds]
    exact Function.update_of_ne notZero _ _

/-- The message that the closure has been sent with. -/
theorem ofFn_started {world : World} {fault : UnknownSyscall} (holds : world.Holds fault)
    (thread : CPtr) :
    (fun i : Fin 8 => ((world.started platform thread).setMr 0 0).mrs i) =
      Function.update (Function.update (Function.update fault.x 0 0) 1 (platform.intoRaw world)) 2 0 := by
  have rest : ∀ i : Fin 8, 3 ≤ (i : Nat) →
      ((world.started platform thread).setMr 0 0).mrs i = fault.x i := by
    intro i isRest
    rw [← holds]
    simp only [World.started, World.setMr, World.record]
    rw [Function.update_of_ne (by omega), Function.update_of_ne (by omega),
      Function.update_of_ne (by omega), Function.update_of_ne (by omega)]
  funext i
  by_cases isRest : 3 ≤ (i : Nat)
  · rw [rest i isRest, Function.update_of_ne, Function.update_of_ne, Function.update_of_ne]
    · exact fun isFirst => by simp [isFirst] at isRest
    · exact fun isSecond => by simp [isSecond] at isRest
    · exact fun isThird => by simp [isThird] at isRest
  · have isCase : i = 0 ∨ i = 1 ∨ i = 2 := by omega
    rcases isCase with rfl | rfl | rfl <;> rfl

theorem sysPsci_replies {fault : UnknownSyscall} {value : Unit}
    (holds : vmm.gic.callbacks.Holds fault)
    (run : (VMMNode.sysPsci platform fault : Exec (Failure ε) _ Unit) vmm = .ok value final) :
    ∃ call values, Psci.Call.parse fault = some call ∧ Psci.Answered fault values call ∧
      final.replies = vmm.replies ++ [values] := by
  obtain ⟨call, _, parsed, rest⟩ := bind_eq_ok.mp run
  obtain ⟨isCall, rfl⟩ := unwrap_eq_ok.mp parsed
  obtain ⟨ret, middle, answered, rest⟩ := bind_eq_ok.mp rest
  obtain ⟨_, _, isSet, rest⟩ := bind_eq_ok.mp rest
  obtain ⟨world, modified, rfl⟩ := onWorld_eq_ok.mp isSet
  obtain rfl := modify_eq_ok.mp modified
  obtain ⟨last, replied, rfl⟩ := onWorld_eq_ok.mp rest
  have isReply : last.replies = middle.replies ++ [fault.resumed fun i =>
      (middle.gic.callbacks.setMr 0 (signExtend ret)).mrs i] := advanceAndReply_replies replied
  cases call with
  | version =>
      obtain ⟨rfl, rfl⟩ := pure_eq_ok.mp answered
      rw [ofFn_setMr holds] at isReply
      exact ⟨_, _, isCall, rfl, isReply⟩
  | features qfid =>
      obtain ⟨rfl, rfl⟩ := pure_eq_ok.mp answered
      have isRet : signExtend (if qfid = Psci.FID_CPU_ON then 0 else Psci.RET_NOT_SUPPORTED) =
          if qfid = Psci.FID_CPU_ON then 0 else 0xffffffffffffffff := by
        split <;> rfl
      rw [ofFn_setMr holds, isRet] at isReply
      exact ⟨_, _, isCall, rfl, isReply⟩
  | migrateInfoType =>
      obtain ⟨rfl, rfl⟩ := pure_eq_ok.mp answered
      rw [ofFn_setMr holds] at isReply
      exact ⟨_, _, isCall, rfl, isReply⟩
  | cpuOn target entry ctxId =>
      obtain ⟨_, _, started, returned⟩ := bind_eq_ok.mp answered
      obtain ⟨rfl, rfl⟩ := pure_eq_ok.mp returned
      obtain ⟨found, _, rfl⟩ := cpuOn_eq_ok.mp started
      have isZero : signExtend Psci.RET_SUCCESS = 0 := rfl
      rw [isZero, ofFn_started holds] at isReply
      have sameReplies : (vmm.gic.callbacks.started platform found.1).replies = vmm.replies :=
        replies_record rfl
      exact ⟨_, _, isCall, ⟨platform.intoRaw vmm.gic.callbacks, rfl⟩,
        isReply.trans (congrArg (· ++ _) sameReplies)⟩

theorem handleSyscall_replies {fault : UnknownSyscall} {value : Unit}
    (answers : extension.Answers passed) (holds : vmm.gic.callbacks.Holds fault)
    (run : (node.handleSyscall platform extension fault : Exec (Failure ε) _ Unit) vmm =
      .ok value final) :
    ∃ values, Answered passed (.unknownSyscall fault) values ∧
      final.replies = vmm.replies ++ [values] := by
  unfold VMMNode.handleSyscall at run
  split at run
  · next isPsci =>
      obtain ⟨call, values, isCall, answered, isReply⟩ := sysPsci_replies holds run
      refine ⟨values, ?_, isReply⟩
      simp only [Answered, if_pos isPsci]
      exact ⟨call, isCall, answered⟩
  next notPsci =>
  split at run
  · next isPutchar =>
      obtain ⟨_, middle, printed, rest⟩ := bind_eq_ok.mp run
      obtain ⟨world, called, rfl⟩ := onWorld_eq_ok.mp printed
      obtain ⟨last, replied, rfl⟩ := onWorld_eq_ok.mp rest
      obtain ⟨sameReplies, sameMrs⟩ := Prod.mk.inj (answers.putchar node _ _ _ _ called)
      have registers : (fun i : Fin 8 => world.mrs i) = fault.x := by
        funext i
        rw [sameMrs, holds]
      have isReply : last.replies = world.replies ++ [fault.resumed fun i => world.mrs i] :=
        advanceAndReply_replies replied
      rw [registers, sameReplies] at isReply
      refine ⟨_, ?_, isReply⟩
      simp only [Answered, if_neg notPsci, if_pos isPutchar]
  · next notPutchar =>
      obtain ⟨world, called, rfl⟩ := onWorld_eq_ok.mp run
      obtain ⟨values, answered, isReply⟩ := answers.syscall node fault _ _ _ holds called
      refine ⟨values, ?_, isReply⟩
      simp only [Answered, if_neg notPsci, if_neg notPutchar]
      exact answered

/-- What is in the message registers when a fault has been delivered. -/
def World.Delivered (world : World) : Fault → Prop
  | .unknownSyscall fault => world.Holds fault
  | _ => True

theorem handleFault_replies {fault : Fault} {value : Unit} (answers : extension.Answers passed)
    (delivered : vmm.gic.callbacks.Delivered fault)
    (run : (node.handleFault platform extension config fault : Exec (Failure ε) _ Unit) vmm =
      .ok value final) :
    ∃ values, Answered passed fault values ∧ final.replies = vmm.replies ++ [values] := by
  cases fault with
  | nullFault | capFault | userException => simp [VMMNode.handleFault] at run
  | unknownSyscall fault => exact handleSyscall_replies answers delivered run
  | vmFault fault => exact ⟨[], rfl, replies_after (handlePageFault_keeps (replies_hidden _)) run⟩
  | vgicMaintenance idx =>
      obtain ⟨_, _, found, rest⟩ := bind_eq_ok.mp run
      obtain ⟨_, rfl⟩ := unwrap_eq_ok.mp found
      refine ⟨[], rfl, replies_after (onGic_keeps fun shown => ?_) rest⟩
      exact GIC.handleMaintenance_embeds (callbacks_keep_view (replies_hidden 0) shown)
  | vppiEvent irq =>
      refine ⟨[], rfl, replies_after (onGic_keeps fun shown => ?_) run⟩
      exact GIC.handleIrq_embeds (callbacks_keep_view (replies_hidden 0) shown)
  | vcpuFault hsr =>
      simp only [VMMNode.handleFault] at run
      split at run
      · obtain ⟨world, called, _⟩ := onWorld_eq_ok.mp run
        exact absurd called (answers.wf _ _ _ _)
      · simp at run

end Handlers

/-! ## The extensions -/

theorem putchar_replies (c : UInt8) : Keeps (fun world : World => (world.replies, world.mrs))
    (modify (World.record (.putchar c)) : Exec ε World Unit) :=
  .modify fun world => congrArg (·, world.mrs) (replies_record rfl)

theorem Realm.extension_answers :
    (Realm.extension : VMMExtension ε Unit).Answers fun _ _ => False where
  wf _ _ _ _ run := by simp [Realm.extension] at run
  syscall _ _ _ _ _ _ run := by simp [Realm.extension] at run
  putchar _ c := putchar_replies c

namespace Host

variable {platform : Platform ε}

/-- As many registers behind the first as that one says. -/
def parameters (fault : UnknownSyscall) : List UInt64 :=
  (List.ofFn fault.x).tail.take (fault.x 0).toNat

/-- The length of a response and the values in it, and `x7`. -/
def answer (fault : UnknownSyscall) (response : List UInt64) (i : Fin 8) : UInt64 :=
  if i = 0 then UInt64.ofNat response.length
  else if i = 7 then fault.x 7 else (response[(i : Nat) - 1]?).getD 0

/-- A call is passed to the resource server, and so is what it responds. -/
def Passed (platform : Platform ε) (fault : UnknownSyscall) (values : List UInt64) : Prop :=
  fault.syscall = RESOURCE_SERVER_PASSTHRU ∧ (fault.x 0).toNat ≤ 7 ∧
    ∃ world, (platform.answer world (parameters fault)).length ≤ 6 ∧
      values = fault.resumed (answer fault (platform.answer world (parameters fault)))

theorem parameters_eq {fault : UnknownSyscall} {values : List UInt64}
    (found : (List.range (fault.x 0).toNat).map (fun i => fault.gpr (i + 1)) = values.map some) :
    (fault.x 0).toNat ≤ 7 ∧ values = parameters fault := by
  have sameLength : (fault.x 0).toNat = values.length := by simpa using congrArg List.length found
  have isRegister : ∀ i, i < (fault.x 0).toNat → fault.gpr (i + 1) = values[i]? := by
    intro i inside
    have isAt := congrArg (·[i]?) found
    simpa [List.getElem?_range inside, List.getElem?_eq_getElem (sameLength ▸ inside)] using isAt
  have few : (fault.x 0).toNat ≤ 7 := by
    by_contra many
    have inside : 7 < values.length := by omega
    have noRegister := isRegister 7 (by omega)
    rw [List.getElem?_eq_getElem inside] at noRegister
    simp [UnknownSyscall.gpr] at noRegister
  refine ⟨few, List.ext_getElem? fun i => ?_⟩
  unfold parameters
  rw [List.getElem?_take]
  split
  · next inside =>
      rw [← isRegister i inside, List.getElem?_tail, List.getElem?_ofFn]
      simp [UnknownSyscall.gpr]
  · next outside => exact List.getElem?_eq_none (by omega)

theorem setMr_of_ne {world : World} {i j : Nat} {value : UInt64} (differs : j ≠ i) :
    (world.setMr i value).mrs j = world.mrs j := Function.update_of_ne differs _ _

/-- The message registers behind the first are set one by one. -/
theorem forEach_setMr {items : List Nat} {values : Nat → UInt64} {world final : World} {value : Unit}
    (run : (forEach items (fun i => modify (World.setMr (i + 1) (values i))) : Exec ε World Unit)
      world = .ok value final) :
    final.replies = world.replies ∧ (∀ i ∈ items, final.mrs (i + 1) = values i) ∧
      ∀ j, (∀ i ∈ items, j ≠ i + 1) → final.mrs j = world.mrs j := by
  induction items generalizing world with
  | nil =>
      obtain ⟨_, rfl⟩ := pure_eq_ok.mp run
      exact ⟨rfl, fun i member => absurd member List.not_mem_nil, fun _ _ => rfl⟩
  | cons item items ih =>
      obtain ⟨_, middle, isSet, rest⟩ := bind_eq_ok.mp run
      obtain rfl := modify_eq_ok.mp isSet
      obtain ⟨sameReplies, areSet, others⟩ := ih rest
      refine ⟨sameReplies, fun i member => ?_, fun j differs => ?_⟩
      · by_cases isLater : i ∈ items
        · exact areSet i isLater
        · obtain rfl : i = item := (List.mem_cons.mp member).resolve_right isLater
          rw [others (i + 1) fun later isItem same => isLater (Nat.succ.inj same ▸ isItem)]
          exact Function.update_self _ _ _
      · rw [others j fun i member => differs i (List.mem_cons_of_mem _ member)]
        exact setMr_of_ne (differs item List.mem_cons_self)

theorem userspaceSyscall_replies {node : VMMNode Extension} {world final : World}
    {fault : UnknownSyscall} {value : Unit} (holds : world.Holds fault)
    (run : userspaceSyscall node fault (callResourceServer platform) world = .ok value final) :
    (fault.x 0).toNat ≤ 7 ∧ (platform.answer world (parameters fault)).length ≤ 6 ∧
      final.replies = world.replies ++
        [fault.resumed (answer fault (platform.answer world (parameters fault)))] := by
  obtain ⟨values, _, collected, rest⟩ := bind_eq_ok.mp run
  obtain ⟨found, rfl⟩ := mapEach_unwrap_found collected
  obtain ⟨few, rfl⟩ := parameters_eq found
  have areFew : (parameters fault).length ≤ 7 := by simp [parameters]
  obtain ⟨response, called, answered, rest⟩ := bind_eq_ok.mp rest
  obtain ⟨_, _, isGet, answered⟩ := bind_eq_ok.mp answered
  obtain ⟨rfl, rfl⟩ := get_eq_ok.mp isGet
  obtain ⟨_, _, isCalled, returned⟩ := bind_eq_ok.mp answered
  obtain ⟨rfl, rfl⟩ := pure_eq_ok.mp returned
  obtain ⟨_, _, asserted, rest⟩ := bind_eq_ok.mp rest
  obtain ⟨short, rfl⟩ := assert_eq_ok.mp asserted
  obtain ⟨_, first, isLength, rest⟩ := bind_eq_ok.mp rest
  obtain ⟨_, last, areSet, replied⟩ := bind_eq_ok.mp rest
  obtain ⟨sameReplies, registers⟩ : last.replies = world.replies ∧
      (fun i : Fin 8 => last.mrs i) = answer fault (platform.answer world (parameters fault)) := by
    obtain ⟨sameReplies, areSet, others⟩ := forEach_setMr areSet
    rw [← modify_eq_ok.mp isLength, ← modify_eq_ok.mp isCalled] at sameReplies others
    refine ⟨sameReplies.trans (replies_record rfl), funext fun i => ?_⟩
    unfold answer
    by_cases isZero : i = 0
    · rw [if_pos isZero, isZero]
      exact others 0 fun j _ => (Nat.succ_ne_zero j).symm
    have notZero : (i : Nat) ≠ 0 := fun same => isZero (Fin.ext same)
    rw [if_neg isZero]
    by_cases isLast : i = 7
    · rw [if_pos isLast, isLast]
      change last.mrs 7 = _
      rw [others 7 fun j inside => by have below := List.mem_range.mp inside; omega,
        setMr_of_ne (by decide)]
      change (platform.answer world (parameters fault))[7]?.getD
        ((parameters fault)[7]?.getD (world.mrs 7)) = fault.x 7
      rw [List.getElem?_eq_none (by omega), List.getElem?_eq_none areFew]
      exact holds 7
    · have isNext : (i : Nat) = (i : Nat) - 1 + 1 := by omega
      rw [if_neg isLast, isNext]
      exact areSet _ (List.mem_range.mpr (by omega))
  refine ⟨few, short, ?_⟩
  rw [advanceAndReply_replies replied, registers, sameReplies]
theorem extension_answers : (extension platform).Answers (Passed platform) where
  wf _ _ _ _ run := by simp [extension] at run
  syscall node fault world value final holds run := by
    simp only [extension] at run
    split at run
    · next isPassed =>
        obtain ⟨few, short, isReply⟩ := userspaceSyscall_replies holds run
        exact ⟨_, ⟨isPassed, few, world, short, rfl⟩, isReply⟩
    · simp at run
  putchar _ c := putchar_replies c

end Host

/-! ## Runs -/

section Runs
variable {platform : Platform ε} {extension : VMMExtension ε E} {config : VMMConfig E}
  {passed : UnknownSyscall → List UInt64 → Prop} {numNodes : Nat} {node : VMMNode E}
  {vmm final : VMM E numNodes}

def VMM.Step.fault? : VMM.Step → Option Fault
  | .recv _ (.fault _ fault) => some fault
  | _ => none

theorem deliver_delivered (node : VMMNode E) (world : World) (ctx : UserContext) (fault : Fault) :
    (VMM.deliver node world (.fault ctx fault)).Delivered fault := by
  cases fault with
  | unknownSyscall fault =>
      intro i
      have isMessage : fault.message[(i : Nat)]? = some (fault.x i) := by
        unfold UnknownSyscall.message
        rw [List.getElem?_append_left (by simp), List.getElem?_ofFn]
        simp
      exact congrArg (Option.getD · _) isMessage
  | _ => trivial

theorem deliver_replies (node : VMMNode E) (world : World) (message : Message) :
    (VMM.deliver node world message).replies = world.replies := by
  cases message with
  | events => rfl
  | fault ctx fault =>
      cases fault with
      | vgicMaintenance idx => cases idx <;> rfl
      | _ => rfl

/-- A step replies to the fault it handles, if there is one. -/
theorem step_replies {step : VMM.Step} (answers : extension.Answers passed)
    (returns : VMM.Returns platform extension config step vmm final) :
    ∃ answered, List.Forall₂ (Answered passed) step.fault?.toList answered ∧
      final.replies = vmm.replies ++ answered := by
  cases step with
  | begin position =>
      refine ⟨[], .nil, ?_⟩
      obtain ⟨thread, world, _, begun, rfl⟩ := VMM.begin_eq_ok.mp returns
      rw [List.append_nil]
      exact begin_keeps (replies_hidden _) _ _ _ begun
  | recv position message =>
      obtain ⟨thread, _, _, rest⟩ := VMM.recv_eq_ok.mp returns
      have same := deliver_replies thread.node vmm.gic.callbacks message
      cases message with
      | events badge words =>
          refine ⟨[], .nil, ?_⟩
          rw [List.append_nil]
          exact (handleEvents_keeps (replies_hidden 0) _ _ _ rest).trans same
      | fault ctx fault =>
          obtain ⟨values, answered, isReply⟩ :=
            handleFault_replies answers (deliver_delivered thread.node _ ctx fault) rest
          exact ⟨[values], .cons answered .nil, isReply.trans (congrArg (· ++ [values]) same)⟩

/-- In every run of a VMM the faults of its guest are answered one by one, each with what is
prescribed for it, and nothing else is answered. -/
theorem run_answers {first final : VMM E numNodes} {taken : List (VMM E numNodes × VMM.Step)}
    (answers : extension.Answers passed) (nothing : first.replies = [])
    (run : Recorded (VMM.Returns platform extension config) first taken final) :
    List.Forall₂ (Answered passed) (taken.filterMap fun entry => entry.2.fault?) final.replies := by
  induction run with
  | start =>
      rw [nothing]
      exact .nil
  | @step taken step before after run returns ih =>
      obtain ⟨answered, prescribed, isReply⟩ := step_replies answers returns
      rw [isReply, List.filterMap_append]
      refine List.rel_append ih ?_
      cases isFault : step.fault? with
      | none =>
          rw [isFault] at prescribed
          simpa [isFault] using prescribed
      | some fault =>
          rw [isFault] at prescribed
          simpa [isFault] using prescribed

end Runs

/-- A run of the host's, and the runs of the realms', which pass no call on. -/
theorem run_answers_exampleHost :
    (∃ (first : VMM Host.Extension 2) (taken : List _) (final : _),
      Recorded (VMM.Returns examplePlatform (Host.extension examplePlatform) exampleHost) first taken
        final ∧
      taken.map Prod.snd = exampleSteps ∧ final.replies.length = 5 ∧
      List.Forall₂ (Answered (Host.Passed examplePlatform))
        (taken.filterMap fun entry => entry.2.fault?) final.replies) ∧
    ∀ (config : VMMConfig Unit) (first final : VMM Unit config.nodes.length) (taken : List _),
      first.replies = [] →
        Recorded (VMM.Returns examplePlatform Realm.extension config) first taken final →
          List.Forall₂ (Answered fun _ _ => False) (taken.filterMap fun entry => entry.2.fault?)
            final.replies := by
  refine ⟨?_, fun _ _ _ _ nothing run => run_answers Realm.extension_answers nothing run⟩
  obtain ⟨first, taken, final, started, run, isTaken, checked⟩ := exampleHost_run
    (fun run => run.2.replies.length == 5) (by decide +kernel)
  have nothing : first.replies = [] := by
    obtain rfl := Option.some.inj started
    rfl
  exact ⟨first, taken, final, run, isTaken, beq_iff_eq.mp checked,
    run_answers Host.extension_answers nothing run⟩

end IceCap.Vmm
