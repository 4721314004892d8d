import IceCap.Dyndl.CRegion
import IceCap.Dyndl.Model

/-!
# Initializing the objects of a subsystem

`initialize_subsystem_objects.rs`: mapping the address spaces, filling the
CNodes, configuring the threads and filling frames.  `caps` has the capability
of each object of the model, and `cregion` is the realm's CNode, from which the
copies of the frame capabilities take their slots.
-/

set_option autoImplicit false

namespace IceCap.Dyndl

open IceCap.Library IceCap.Sel4

structure SubsystemObjectInitializationResources where
  pgd : CPtr
  asidPool : CPtr
  tcbAuthority : CPtr
  smallPageAddr : UInt64
  largePageAddr : UInt64
  deriving DecidableEq, Repr

structure VirtualCoreTCB where
  cap : CPtr
  resume : Bool
  deriving DecidableEq, Repr

structure VirtualCore where
  tcbs : List VirtualCoreTCB
  deriving DecidableEq, Repr

/-- What the code is compiled and run against: the kernel with its generated bindings, and the hash
function of `sha2`. -/
structure Platform (K : Type) where
  sizes : Sizes
  kernel : Kernel K
  rawCapData : CNodeCapData → UInt64
  sha256 : List UInt8 → List UInt8

/-- The bytes of the frames, by the capability in the realm's CNode. -/
abbrev Frames := CPtr → Nat → UInt8

structure Initialize (K : Type) where
  cregion : CRegion
  kernel : K

namespace Initialize

variable {K : Type} (platform : Platform K) (resources : SubsystemObjectInitializationResources)
  (model : Model) (caps : List CPtr)

def onKernel (invocation : Invocation) : Exec Failure (Initialize K) Unit :=
  Exec.focus Initialize.kernel (fun inner state => { state with kernel := inner })
    (platform.kernel.call invocation)

/-- `self.obj(i)`, before the conversion to the kind of object that is expected. -/
def obj (i : ObjId) : Exec Failure (Initialize K) Obj :=
  match (model.objects[i]?).map TopObj.object with
  | none => Exec.panic
  | some (.localObj found) => pure found
  | some (.externObj _) => Exec.fail (.message "")

def cap (i : ObjId) : Exec Failure (Initialize K) CPtr := Exec.unwrap caps[i]?

/-- A copy of a frame capability in the realm's CNode. -/
def copy (frame : CPtr) : Exec Failure (Initialize K) CPtr := do
  let slot ← Exec.runs fun state => state.cregion.alloc.map fun result =>
    (result.1, { state with cregion := result.2 })
  let slot ← Exec.unwrap slot
  let state ← Exec.get
  onKernel platform (.copy (state.cregion.relativeCPtr slot)
    (relative state.cregion.context frame) .allRights)
  Exec.unwrap (state.cregion.cptrWithDepth slot).localCPtr

/-! ## Address spaces -/

def attributesOf (cached : Bool) : VMAttributes :=
  if cached then .default else .uncached .default

/-- The body of the loops over frames. -/
def initFrame (pgd : CPtr) (vaddr : UInt64) (page : Cap.Page) :
    Exec Failure (Initialize K) Unit := do
  let origFrame ← cap caps page.obj
  let frame ← copy platform origFrame
  onKernel platform (.frameMap frame pgd vaddr (rightsOf page.rights) (attributesOf page.cached))

def initPT (pgd : CPtr) (vaddr : UInt64) (i : ObjId) : Exec Failure (Initialize K) Unit := do
  let found ← obj model i
  match found with
  | .pt entries => do
      let pt ← cap caps i
      onKernel platform (.ptMap pt pgd vaddr .default)
      Exec.forEach entries.toList fun entry =>
        initFrame platform caps pgd (vaddr + (UInt64.ofNat entry.1 <<< 12)) entry.2
  | _ => Exec.panic

def initPD (pgd : CPtr) (vaddr : UInt64) (i : ObjId) : Exec Failure (Initialize K) Unit := do
  let found ← obj model i
  match found with
  | .pd entries => do
      let pd ← cap caps i
      onKernel platform (.pdMap pd pgd vaddr .default)
      Exec.forEach entries.toList fun entry =>
        match entry.2 with
        | .largePage page =>
            initFrame platform caps pgd (vaddr + (UInt64.ofNat entry.1 <<< 21)) page
        | .pt i => initPT platform model caps pgd (vaddr + (UInt64.ofNat entry.1 <<< 21)) i
  | _ => Exec.panic

def initPUD (pgd : CPtr) (vaddr : UInt64) (i : ObjId) : Exec Failure (Initialize K) Unit := do
  let found ← obj model i
  match found with
  | .pud entries => do
      let pud ← cap caps i
      onKernel platform (.pudMap pud pgd vaddr .default)
      Exec.forEach entries.toList fun entry =>
        initPD platform model caps pgd (vaddr + (UInt64.ofNat entry.1 <<< 30)) entry.2
  | _ => Exec.panic

def initVspaces : Exec Failure (Initialize K) Unit :=
  Exec.forEach model.objects.zipIdx fun object =>
    match object.1.object with
    | .localObj (.pgd entries) => do
        let pgd ← cap caps object.2
        onKernel platform (.asidPoolAssign resources.asidPool pgd)
        Exec.forEach entries.toList fun entry =>
          initPUD platform model caps pgd (UInt64.ofNat entry.1 <<< 39) entry.2
    | _ => pure ()

/-! ## Capability spaces -/

def debugRights (rights : Rights) : String :=
  "Rights \x7b read: " ++ toString rights.read ++ ", write: " ++ toString rights.write ++
    ", grant: " ++ toString rights.grant ++ ", grant_reply: " ++ toString rights.grantReply ++
    " \x7d"

/-- The formatted message of `bail!` for the kinds of capability that are not supported. -/
def unsupportedCap : Cap → String
  | .smallPage page => "unsupported cap SmallPage(SmallPage \x7b obj: " ++ toString page.obj ++
      ", rights: " ++ debugRights page.rights ++ ", cached: " ++ toString page.cached ++ " \x7d)"
  | .pt i => "unsupported cap PT(PT \x7b obj: " ++ toString i ++ " \x7d)"
  | .pd i => "unsupported cap PD(PD \x7b obj: " ++ toString i ++ " \x7d)"
  | .pud i => "unsupported cap PUD(PUD \x7b obj: " ++ toString i ++ " \x7d)"
  | _ => ""

/-- The object, the rights and the badge a capability is put into a CNode with. -/
def slotContent (entry : Cap) : Option (ObjId × CapRights × Option UInt64) :=
  match entry with
  | .untyped i => some (i, .allRights, none)
  | .endpoint cap => some (cap.obj, rightsOf cap.rights, some cap.badge)
  | .notification cap => some (cap.obj, rightsOf cap.rights, some cap.badge)
  | .cnode cap =>
      some (cap.obj, .allRights, some (platform.rawCapData ⟨cap.guard, cap.guardSize⟩))
  | .tcb i => some (i, .allRights, none)
  | .vcpu i => some (i, .allRights, none)
  | .pgd i => some (i, .allRights, none)
  | .largePage cap => some (cap.obj, rightsOf cap.rights, none)
  | _ => none

def initSlot (dst : RelativeCPtr) (entry : Cap) : Exec Failure (Initialize K) Unit :=
  match slotContent platform entry with
  | none => Exec.fail (.message (unsupportedCap entry))
  | some (i, rights, badge) => do
      let state ← Exec.get
      let source ← cap caps i
      let src := relative state.cregion.root.root source
      match badge with
      | none => onKernel platform (.copy dst src rights)
      | some badge =>
          if badge = 0 then onKernel platform (.copy dst src rights)
          else onKernel platform (.mint dst src rights badge)

def initCspaces : Exec Failure (Initialize K) Unit :=
  Exec.forEach model.objects.zipIdx fun object =>
    match object.1.object with
    | .localObj (.cnode found) => do
        let cnode ← cap caps object.2
        Exec.forEach found.entries.toList fun entry =>
          initSlot platform caps ⟨cnode, ⟨UInt64.ofNat entry.1, found.sizeBits⟩⟩ entry.2
    | _ => pure ()

/-! ## Threads -/

def registersOf (obj : Obj.TCB) : UserContext :=
  { UserContext.default with
    pc := obj.ip
    sp := obj.sp
    spsr := obj.spsr
    gpr0 := (obj.gprs[0]?).getD 0
    gpr1 := (obj.gprs[1]?).getD 0 }

def initTcb (tcb : CPtr) (obj : Obj.TCB) : Exec Failure (Initialize K) Unit := do
  let cspace ← cap caps obj.cspace.obj
  let vspace ← cap caps obj.vspace
  let ipcBufferFrame ← cap caps obj.ipcBuffer.obj
  match obj.vcpu with
  | none => pure ()
  | some i => do
      let vcpu ← cap caps i
      onKernel platform (.vcpuSetTcb vcpu tcb)
  match obj.boundNotification with
  | none => pure ()
  | some bound => do
      let notification ← cap caps bound.obj
      onKernel platform (.tcbBindNotification tcb notification)
  onKernel platform (.tcbConfigure tcb obj.faultEp cspace ⟨obj.cspace.guard, obj.cspace.guardSize⟩
    vspace obj.ipcBufferAddr ipcBufferFrame)
  onKernel platform (.tcbSetSchedParams tcb resources.tcbAuthority obj.maxPrio.toUInt64
    obj.prio.toUInt64)
  Exec.ensure (obj.gprs.length ≤ 2) (.message "n <= 2")
  onKernel platform (.tcbWriteAllRegisters tcb false (registersOf obj))

/-- `virtual_cores[affinity].tcbs.push(tcb)`. -/
def pushTcb (virtualCores : List VirtualCore) (affinity : UInt64) (tcb : VirtualCoreTCB) :
    Option (List VirtualCore) :=
  if affinity.toNat < virtualCores.length then
    some (virtualCores.modify affinity.toNat fun core => ⟨core.tcbs ++ [tcb]⟩)
  else none

/-- `Initialize::initialize`; the debug names it gives to the threads have no effect. -/
def initialize_ : Exec Failure (Initialize K) (List VirtualCore) := do
  initVspaces platform resources model caps
  initCspaces platform model caps
  Exec.foldEach model.objects.zipIdx (List.replicate model.numNodes ⟨[]⟩)
    fun virtualCores object =>
      match object.1.object with
      | .localObj (.tcb found) => do
          let tcb ← cap caps object.2
          initTcb platform resources caps tcb found
          Exec.unwrap (pushTcb virtualCores found.affinity ⟨tcb, found.resume⟩)
      | _ => pure virtualCores

end Initialize

end IceCap.Dyndl
