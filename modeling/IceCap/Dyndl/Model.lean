import Mathlib.Data.List.Sort
import Mathlib.Data.Nat.Size
import Mathlib.Data.Prod.Lex
import IceCap.Sel4

/-!
# Models of subsystems

`dyndl-types`: the objects a realm is made of and the capabilities in them, the
view of a model that sorts its objects by size, and the conversions of
`utils.rs`.  A `Table` is ordered by its keys.
-/

set_option autoImplicit false

namespace IceCap.Dyndl

open IceCap.Sel4

abbrev ObjId := Nat

abbrev Table (α : Type) := Std.TreeMap Nat α

structure Rights where
  read : Bool
  write : Bool
  grant : Bool
  grantReply : Bool
  deriving DecidableEq, Repr

structure FillEntry where
  offset : Nat
  length : Nat
  contentDigest : List UInt8
  deriving DecidableEq, Repr

abbrev Fill := List FillEntry

/-! ## Capabilities -/

/-- A capability with a badge: `cap::Endpoint` and `cap::Notification`. -/
structure Cap.Badged where
  obj : ObjId
  badge : UInt64
  rights : Rights
  deriving DecidableEq, Repr

structure Cap.CNode where
  obj : ObjId
  guard : UInt64
  guardSize : UInt64
  deriving DecidableEq, Repr

/-- A capability to a frame: `cap::SmallPage` and `cap::LargePage`. -/
structure Cap.Page where
  obj : ObjId
  rights : Rights
  cached : Bool
  deriving DecidableEq, Repr

/-- A capability of the kinds that are nothing but the object has it as its field. -/
inductive Cap where
  | untyped (obj : ObjId)
  | endpoint (cap : Cap.Badged)
  | notification (cap : Cap.Badged)
  | cnode (cap : Cap.CNode)
  | tcb (obj : ObjId)
  | vcpu (obj : ObjId)
  | smallPage (cap : Cap.Page)
  | largePage (cap : Cap.Page)
  | pt (obj : ObjId)
  | pd (obj : ObjId)
  | pud (obj : ObjId)
  | pgd (obj : ObjId)
  deriving DecidableEq, Repr

inductive PDEntry where
  | pt (obj : ObjId)
  | largePage (cap : Cap.Page)
  deriving DecidableEq, Repr

/-! ## Objects -/

structure Obj.CNode where
  sizeBits : Nat
  entries : Table Cap

structure Obj.TCB where
  faultEp : UInt64
  cspace : Cap.CNode
  vspace : ObjId
  ipcBuffer : Cap.Page
  ipcBufferAddr : UInt64
  vcpu : Option ObjId
  boundNotification : Option Cap.Badged
  affinity : UInt64
  prio : UInt8
  maxPrio : UInt8
  resume : Bool
  ip : UInt64
  sp : UInt64
  spsr : UInt64
  gprs : List UInt64
  deriving DecidableEq, Repr

inductive Obj where
  | untyped (sizeBits : Nat)
  | endpoint
  | notification
  | cnode (obj : Obj.CNode)
  | tcb (obj : Obj.TCB)
  | vcpu
  | smallPage (fill : Fill)
  | largePage (fill : Fill)
  | pt (entries : Table Cap.Page)
  | pd (entries : Table PDEntry)
  | pud (entries : Table ObjId)
  | pgd (entries : Table ObjId)

inductive ExternObj where
  | endpoint
  | notification
  | smallPage
  | largePage
  deriving DecidableEq, Repr

inductive AnyObj where
  | localObj (obj : Obj)
  | externObj (obj : ExternObj)

structure TopObj where
  object : AnyObj
  name : String

structure Model where
  numNodes : Nat
  objects : List TopObj

/-! ## Utilities -/

def blueprintOf : Obj → ObjectBlueprint
  | .untyped sizeBits => .untyped sizeBits
  | .endpoint => .endpoint
  | .notification => .notification
  | .cnode obj => .cnode obj.sizeBits
  | .tcb _ => .tcb
  | .vcpu => .vcpu
  | .smallPage _ => .smallPage
  | .largePage _ => .largePage
  | .pt _ => .pt
  | .pd _ => .pd
  | .pud _ => .pud
  | .pgd _ => .pgd

def rightsOf (rights : Rights) : CapRights :=
  ⟨rights.grantReply, rights.grant, rights.read, rights.write⟩

/-- `TOTAL - leading_zeros`. -/
def sizeBitsToContain (x : Nat) : Nat := Nat.size x

/-! ## The view of a model -/

/-- The derived order of `ObjectBlueprint`: first the variant, then its size. -/
def blueprintKey : ObjectBlueprint → Nat × Nat
  | .untyped sizeBits => (0, sizeBits)
  | .endpoint => (1, 0)
  | .notification => (2, 0)
  | .cnode sizeBits => (3, sizeBits)
  | .tcb => (4, 0)
  | .vcpu => (5, 0)
  | .smallPage => (6, 0)
  | .largePage => (7, 0)
  | .hugePage => (8, 0)
  | .pt => (9, 0)
  | .pd => (10, 0)
  | .pud => (11, 0)
  | .pgd => (12, 0)

structure ModelView where
  localObjects : List Nat
  externObjects : List Nat
  reverse : List Nat
  deriving DecidableEq, Repr

namespace ModelView

/-- The key a local object is sorted by; a key of an extern object would panic, and none is asked
for. -/
def sortKey (sizes : Sizes) (model : Model) (i : Nat) : Nat ×ₗ Nat ×ₗ Nat :=
  match (model.objects[i]?).map TopObj.object with
  | some (.localObj obj) =>
      toLex ((blueprintOf obj).physicalSizeBits sizes, toLex (blueprintKey (blueprintOf obj)))
  | _ => toLex (0, toLex (0, 0))

/-- `sort_by_key`, which is stable. -/
def sortLocals (sizes : Sizes) (model : Model) (locals : List Nat) : List Nat :=
  locals.insertionSort fun i j => sortKey sizes model i ≤ sortKey sizes model j

/-- One round of the loop over the objects. -/
def visit (sizes : Sizes) (model : Model) (view : ModelView) (object : AnyObj × Nat) : ModelView :=
  let pushed := match object.1 with
    | .localObj _ => { view with localObjects := view.localObjects ++ [object.2] }
    | .externObj _ =>
        { view with
          reverse := view.reverse.set object.2 view.externObjects.length
          externObjects := view.externObjects ++ [object.2] }
  let sorted := sortLocals sizes model pushed.localObjects
  { pushed with
    localObjects := sorted
    reverse := sorted.zipIdx.foldl (fun reverse entry => reverse.set entry.1 entry.2)
      pushed.reverse }

def new (sizes : Sizes) (model : Model) : ModelView :=
  (model.objects.map TopObj.object).zipIdx.foldl (visit sizes model)
    ⟨[], [], List.replicate model.objects.length 0⟩

end ModelView

end IceCap.Dyndl
