import Mathlib.Data.Nat.Notation
import Mathlib.Algebra.Group.Nat.Defs
import IceCap.Library.Exec

/-!
# Capability pointers, blueprints and the kernel

The parts of `icecap-sel4` the object allocator is written against.  The kernel
itself is not part of the repository: `Kernel` is an arbitrary state machine
that answers invocations, each with success or with one of the seL4 errors.
The object sizes come from the generated bindings of the kernel and are the
parameter `Sizes`.
-/

set_option autoImplicit false

namespace IceCap.Sel4

open IceCap.Library

inductive Error where
  | invalidArgument
  | invalidCapability
  | illegalOperation
  | rangeError
  | alignmentError
  | failedLookup
  | truncatedMessage
  | deleteFirst
  | revokeFirst
  | notEnoughMemory
  deriving DecidableEq, Repr

/-- `icecap_failure::Error`: a kernel error passed up by `?`, or a message from `bail!` and
`ensure!`. -/
inductive Failure where
  | sel4 (error : Error)
  | message (text : String)
  deriving DecidableEq, Repr

abbrev CPtr := UInt64

structure CPtrWithDepth where
  cptr : CPtr
  depth : Nat
  deriving DecidableEq, Repr

namespace CPtrWithDepth

def deep (cptr : CPtr) : CPtrWithDepth := ⟨cptr, 64⟩

/-- `assert_eq!(self.depth, 64)`. -/
def localCPtr (path : CPtrWithDepth) : Option CPtr :=
  if path.depth = 64 then some path.cptr else none

def localCPtrHack (path : CPtrWithDepth) : CPtr :=
  path.cptr <<< (64 - UInt64.ofNat path.depth)

end CPtrWithDepth

structure RelativeCPtr where
  root : CPtr
  path : CPtrWithDepth
  deriving DecidableEq, Repr

/-- `CNode::relative` of a local capability, which has depth 64. -/
def relative (cnode cptr : CPtr) : RelativeCPtr := ⟨cnode, .deep cptr⟩

inductive ObjectBlueprint where
  | untyped (sizeBits : Nat)
  | endpoint
  | notification
  | cnode (sizeBits : Nat)
  | tcb
  | vcpu
  | smallPage
  | largePage
  | hugePage
  | pt
  | pd
  | pud
  | pgd
  deriving DecidableEq, Repr

/-- The size constants of `icecap_sel4::sys`, generated from the kernel's headers. -/
structure Sizes where
  endpointBits : Nat
  notificationBits : Nat
  slotBits : Nat
  tcbBits : Nat
  vcpuBits : Nat
  pageBits : Nat
  largePageBits : Nat
  hugePageBits : Nat
  pageTableBits : Nat
  pageDirBits : Nat
  pudBits : Nat
  pgdBits : Nat

/-- The sizes are computed in `u32`. -/
def ObjectBlueprint.physicalSizeBits (sizes : Sizes) : ObjectBlueprint → Nat
  | .untyped sizeBits => sizeBits % 2 ^ 32
  | .endpoint => sizes.endpointBits
  | .notification => sizes.notificationBits
  | .cnode sizeBits => (sizes.slotBits + sizeBits % 2 ^ 32) % 2 ^ 32
  | .tcb => sizes.tcbBits
  | .vcpu => sizes.vcpuBits
  | .smallPage => sizes.pageBits
  | .largePage => sizes.largePageBits
  | .hugePage => sizes.hugePageBits
  | .pt => sizes.pageTableBits
  | .pd => sizes.pageDirBits
  | .pud => sizes.pudBits
  | .pgd => sizes.pgdBits

/-- `CNodeCapData::new(guard, guard_size)`. -/
structure CNodeCapData where
  guardValue : UInt64
  guardSize : UInt64
  deriving DecidableEq, Repr

structure CapRights where
  grantReply : Bool
  grant : Bool
  read : Bool
  write : Bool
  deriving DecidableEq, Repr

namespace CapRights

def allRights : CapRights := ⟨true, true, true, true⟩

def readWrite : CapRights := ⟨false, false, true, true⟩

end CapRights

structure VMAttributes where
  pageCacheable : Bool
  parityEnabled : Bool
  executeNever : Bool
  deriving DecidableEq, Repr

namespace VMAttributes

def default : VMAttributes := ⟨true, true, false⟩

/-- `attributes & !PAGE_CACHEABLE`. -/
def uncached (attributes : VMAttributes) : VMAttributes := { attributes with pageCacheable := false }

end VMAttributes

/-- The registers of a `UserContext` that are set before a thread runs; the others are zero. -/
structure UserContext where
  pc : UInt64
  sp : UInt64
  spsr : UInt64
  gpr0 : UInt64
  gpr1 : UInt64
  deriving DecidableEq, Repr

def UserContext.default : UserContext := ⟨0, 0, 0, 0, 0⟩

inductive Invocation where
  | retype (untyped : CPtr) (blueprint : ObjectBlueprint) (dst : RelativeCPtr)
      (dstOffset numObjects : UInt64)
  | revoke (target : RelativeCPtr)
  | delete (target : RelativeCPtr)
  | mutate (dst src : RelativeCPtr) (badge : CNodeCapData)
  | copy (dst src : RelativeCPtr) (rights : CapRights)
  | mint (dst src : RelativeCPtr) (rights : CapRights) (badge : UInt64)
  | saveCaller (cnode replySlot : CPtr)
  | asidPoolAssign (asidPool pgd : CPtr)
  | pudMap (pud pgd : CPtr) (vaddr : UInt64) (attributes : VMAttributes)
  | pdMap (pd pgd : CPtr) (vaddr : UInt64) (attributes : VMAttributes)
  | ptMap (pt pgd : CPtr) (vaddr : UInt64) (attributes : VMAttributes)
  | frameMap (frame pgd : CPtr) (vaddr : UInt64) (rights : CapRights) (attributes : VMAttributes)
  | frameUnmap (frame : CPtr)
  | vcpuSetTcb (vcpu tcb : CPtr)
  | tcbBindNotification (tcb notification : CPtr)
  | tcbConfigure (tcb faultEp cspaceRoot : CPtr) (cspaceRootData : CNodeCapData) (vspaceRoot : CPtr)
      (ipcBuffer : UInt64) (ipcBufferFrame : CPtr)
  | tcbSetSchedParams (tcb authority : CPtr) (maxPriority priority : UInt64)
  | tcbWriteAllRegisters (tcb : CPtr) (resume : Bool) (registers : UserContext)
  | tcbSetAffinity (tcb : CPtr) (affinity : UInt64)
  | tcbResume (tcb : CPtr)
  | irqAck (handler : CPtr)
  | irqSetNotification (handler notification : CPtr)
  deriving DecidableEq, Repr

structure Kernel (K : Type) where
  invoke : Invocation → K → Option Error × K

namespace Kernel

variable {K : Type}

/-- Every invocation succeeds. -/
def Succeeds (kernel : Kernel K) : Prop := ∀ call state, (kernel.invoke call state).1 = none

/-- An invocation under `?`. -/
def call (kernel : Kernel K) (invocation : Invocation) : Exec Failure K Unit := fun state =>
  match kernel.invoke invocation state with
  | (none, next) => .ok () next
  | (some error, next) => .err (.sel4 error) next

/-- An invocation under `unwrap()`. -/
def callUnwrap (kernel : Kernel K) (invocation : Invocation) : Exec Failure K Unit := fun state =>
  match kernel.invoke invocation state with
  | (none, next) => .ok () next
  | (some _, _) => .panic

theorem Succeeds.call_eq_ok {kernel : Kernel K} (succeeds : kernel.Succeeds)
    (invocation : Invocation) (state : K) :
    kernel.call invocation state = .ok () (kernel.invoke invocation state).2 := by
  have none := succeeds invocation state
  unfold call
  split
  · next next answer => rw [answer]
  · next error next answer => simp [answer] at none

theorem Succeeds.callUnwrap_eq_ok {kernel : Kernel K} (succeeds : kernel.Succeeds)
    (invocation : Invocation) (state : K) :
    kernel.callUnwrap invocation state = .ok () (kernel.invoke invocation state).2 := by
  have none := succeeds invocation state
  unfold callUnwrap
  split
  · next next answer => rw [answer]
  · next error next answer => simp [answer] at none

theorem call_ne_panic {kernel : Kernel K} {invocation : Invocation} {state : K} :
    kernel.call invocation state ≠ .panic := by
  unfold call
  split <;> simp

/-- The same kernel, with every refusal turned into success. -/
def lenient (kernel : Kernel K) : Kernel K :=
  ⟨fun call state => (none, (kernel.invoke call state).2)⟩

theorem lenient_succeeds (kernel : Kernel K) : kernel.lenient.Succeeds := fun _ _ => rfl

theorem call_within {kernel : Kernel K} {invocation : Invocation} :
    Exec.Within (kernel.call invocation) (kernel.lenient.call invocation) := by
  intro state value final run
  unfold call at run
  split at run
  · next next answer =>
      obtain ⟨_, rfl⟩ := Outcome.ok.inj run
      simp [call, lenient, answer]
  · simp at run

end Kernel

/-- A kernel that grants everything and remembers nothing. -/
def permissive : Kernel Unit := ⟨fun _ _ => (none, ())⟩

theorem permissive_succeeds : permissive.Succeeds := fun _ _ => rfl

end IceCap.Sel4
