import IceCap.Dyndl.Allocator
import IceCap.Dyndl.Initialize

/-!
# The realizer

`Realizer` of `realize/src/lib.rs`.  A subsystem is realized in steps: its CNode
and its objects are created, its frames are filled, and then it is initialized
with the externs it names.  Destroying it gives its memory and its externs back.

The realizer owns the allocator; what it does to the frames of a realm is kept
next to it.
-/

set_option autoImplicit false

namespace IceCap.Dyndl

open IceCap.Library IceCap.Sel4

structure Extern where
  ty : ExternObj
  cptr : CPtr
  deriving DecidableEq, Repr

abbrev Externs := Std.TreeMap String Extern

structure Subsystem where
  virtualCores : List VirtualCore
  cnodeUntypedId : UntypedId
  objectUntypedIds : List UntypedId
  externs : Externs

structure PartialSubsystem where
  model : Model
  modelView : ModelView
  cregion : CRegion
  cnodeUntypedId : UntypedId
  localObjectSlots : List Slot
  localObjectUntypedIds : List UntypedId

structure Realizer (K : Type) where
  machine : Machine K
  externs : Externs
  frames : Frames

namespace Realizer

variable {K : Type} (platform : Platform K) (resources : SubsystemObjectInitializationResources)

def onMachine {α : Type} (call : Exec Failure (Machine K) α) : Exec Failure (Realizer K) α :=
  Exec.focus Realizer.machine (fun inner state => { state with machine := inner }) call

def onKernel (invocation : Invocation) : Exec Failure (Realizer K) Unit :=
  onMachine (Allocator.onKernel (platform.kernel.call invocation))

/-! ## Destroying -/

def destroy (subsystem : Subsystem) : Exec Failure (Realizer K) Unit := do
  onMachine (Allocator.revokeAndFree platform.kernel subsystem.cnodeUntypedId)
  Exec.forEach subsystem.objectUntypedIds fun untypedId =>
    onMachine (Allocator.revokeAndFree platform.kernel untypedId)
  Exec.modify fun state =>
    { state with externs := subsystem.externs.foldl (fun externs name ext =>
        externs.insert name ext) state.externs }

/-! ## Realizing -/

def isLargePage : PDEntry → Bool
  | .largePage _ => true
  | .pt _ => false

/-- The copies of frame capabilities that an object needs slots for. -/
def frameMappings : Obj → Nat
  | .pt entries => entries.size
  | .pd entries => (entries.toList.filter fun entry => isLargePage entry.2).length
  | _ => 0

def numFrameMappings (model : Model) (localObjects : List Nat) : Nat :=
  localObjects.foldl (fun sum i =>
    match (model.objects[i]?).map TopObj.object with
    | some (.localObj obj) => sum + frameMappings obj
    | _ => sum) 0

def localBlueprint (model : Model) (i : Nat) : Option ObjectBlueprint :=
  match (model.objects[i]?).map TopObj.object with
  | some (.localObj obj) => some (blueprintOf obj)
  | _ => none

/-- `v[blueprint.physical_size_bits()] += 1` on a vector of length 64. -/
def countSize (counts : List Nat) (blueprint : ObjectBlueprint) :
    Exec Failure (Realizer K) (List Nat) := do
  let sizeBits := blueprint.physicalSizeBits platform.sizes
  Exec.assert (sizeBits < counts.length)
  pure (counts.modify sizeBits (· + 1))

def realizeStart (model : Model) : Exec Failure (Realizer K) PartialSubsystem := do
  let view := ModelView.new platform.sizes model
  let cnodeSlotsSizeBits :=
    sizeBitsToContain (view.localObjects.length + numFrameMappings model view.localObjects)
  let localObjectBlueprints ← Exec.mapEach view.localObjects fun i =>
    Exec.unwrap (localBlueprint model i)
  let untypedRequirements ←
    Exec.foldEach (.cnode cnodeSlotsSizeBits :: localObjectBlueprints) (List.replicate 64 0)
      (countSize platform)
  let state ← Exec.get
  Exec.ensure (Allocator.peekSpace state.machine.allocator untypedRequirements = true)
    (.message "self.allocator.peek_space(&untyped_requirements)")
  let cnode ← onMachine (Allocator.createCnode platform.sizes platform.kernel cnodeSlotsSizeBits)
  let objects ← onMachine
    (Allocator.createObjects platform.sizes platform.kernel localObjectBlueprints cnode.1)
  pure ⟨model, ModelView.new platform.sizes model, objects.1, cnode.2.1, objects.2.1, objects.2.2⟩

/-! ## Filling frames -/

def writeFrame (frames : Frames) (frame : CPtr) (offset : Nat) (content : List UInt8) : Frames :=
  Function.update frames frame fun address =>
    if offset ≤ address then (content[address - offset]?).getD (frames frame address)
    else frames frame address

/-- The frame is `2 ^ sizeBits` bytes, which are mapped at `vaddr` while they are filled. -/
def fillFrame (vaddr : UInt64) (sizeBits : Nat) (frame : CPtr) (offset : Nat)
    (expectedContentDigest untrustedContent : List UInt8) : Exec Failure (Realizer K) Unit := do
  onKernel platform (.frameMap frame resources.pgd vaddr .readWrite (.uncached .default))
  Exec.assert (offset + untrustedContent.length ≤ 2 ^ sizeBits)
  Exec.modify fun state =>
    { state with frames := writeFrame state.frames frame offset untrustedContent }
  Exec.ensure (platform.sha256 untrustedContent = expectedContentDigest)
    (.message "digest.as_slice() == expected_content_digest")
  onKernel platform (.frameUnmap frame)

def realizeContinue (partialSubsystem : PartialSubsystem) (objId : ObjId) (fillEntryIndex : Nat)
    (untrustedContent : List UInt8) : Exec Failure (Realizer K) Unit := do
  let object ← Exec.unwrap partialSubsystem.model.objects[objId]?
  match object.object with
  | .externObj _ => Exec.panic
  | .localObj obj => do
      let index ← Exec.unwrap partialSubsystem.modelView.reverse[objId]?
      let slot ← Exec.unwrap partialSubsystem.localObjectSlots[index]?
      let cptrWithDepth := partialSubsystem.cregion.cptrWithDepth slot
      match obj with
      | .smallPage fill => do
          let frame ← Exec.unwrap cptrWithDepth.localCPtr
          let entry ← Exec.unwrap fill[fillEntryIndex]?
          fillFrame platform resources resources.smallPageAddr platform.sizes.pageBits frame
            entry.offset entry.contentDigest untrustedContent
      | .largePage fill => do
          let frame ← Exec.unwrap cptrWithDepth.localCPtr
          let entry ← Exec.unwrap fill[fillEntryIndex]?
          fillFrame platform resources resources.largePageAddr platform.sizes.largePageBits frame
            entry.offset entry.contentDigest untrustedContent
      | _ => Exec.panic

/-! ## Finishing -/

/-- Take the extern of an object out of the realizer. -/
def takeExtern (model : Model) (taken : Externs × List CPtr) (i : Nat) :
    Exec Failure (Realizer K) (Externs × List CPtr) := do
  let object ← Exec.unwrap model.objects[i]?
  match object.object with
  | .localObj _ => Exec.panic
  | .externObj obj => do
      let state ← Exec.get
      let ext ← Exec.unwrap state.externs[object.name]?
      Exec.modify fun state => { state with externs := state.externs.erase object.name }
      Exec.assert (ext.ty = obj)
      pure (taken.1.insert object.name ext, taken.2 ++ [ext.cptr])

/-- The capability of an object of the model. -/
def capOf (partialSubsystem : PartialSubsystem) (externCaps : List CPtr) (object : AnyObj × Nat) :
    Option CPtr :=
  (partialSubsystem.modelView.reverse[object.2]?).bind fun index =>
    match object.1 with
    | .localObj _ => (partialSubsystem.localObjectSlots[index]?).bind fun slot =>
        (partialSubsystem.cregion.cptrWithDepth slot).localCPtr
    | .externObj _ => externCaps[index]?

/-- Initialize the objects, on the kernel and the realm's own CNode. -/
def initializeObjects (model : Model) (caps : List CPtr) (cregion : CRegion) :
    Exec Failure (Realizer K) (List VirtualCore) := fun state =>
  match Initialize.initialize_ platform resources model caps ⟨cregion, state.machine.kernel⟩ with
  | .ok virtualCores final =>
      .ok virtualCores { state with machine := { state.machine with kernel := final.kernel } }
  | .err error final =>
      .err error { state with machine := { state.machine with kernel := final.kernel } }
  | .panic => .panic

def realizeFinish (partialSubsystem : PartialSubsystem) : Exec Failure (Realizer K) Subsystem := do
  let taken ← Exec.foldEach partialSubsystem.modelView.externObjects (∅, [])
    (takeExtern partialSubsystem.model)
  let allCaps ← Exec.mapEach (partialSubsystem.model.objects.map TopObj.object).zipIdx fun object =>
    Exec.unwrap (capOf partialSubsystem taken.2 object)
  let virtualCores ← initializeObjects platform resources partialSubsystem.model allCaps
    partialSubsystem.cregion
  pure ⟨virtualCores, partialSubsystem.cnodeUntypedId, partialSubsystem.localObjectUntypedIds,
    taken.1⟩

end Realizer

end IceCap.Dyndl
