import IceCap.Dyndl.AllocatorRuns
import IceCap.Dyndl.Realizer

/-!
# The slots that the realizer takes

Every realm takes one slot of the allocator's own CNode, for the capability to
the realm's CNode, besides the slots of the untypeds that are split.  The other
calls take no slots, and `destroy` gives back none but those of nodes that are
merged.
-/

set_option autoImplicit false

namespace IceCap.Dyndl

open IceCap.Library IceCap.Sel4

variable {K : Type} {base : CRegion} {built : Node} {live : List UntypedId} {reserved : List Slot}

theorem Sound.perm {live' : List UntypedId} {state : Machine K} (perm : live'.Perm live)
    (sound : Sound base built live reserved state) : Sound base built live' reserved state :=
  Consistent.perm perm sound

theorem Sound.ofAllocator {state final : Machine K} (same : final.allocator = state.allocator)
    (sound : Sound base built live reserved state) : Sound base built live reserved final := by
  simp only [Sound, same]
  exact sound

/-- The untypeds a subsystem holds, while it is being realized -/
def PartialSubsystem.ids (subsystem : PartialSubsystem) : List UntypedId :=
  subsystem.cnodeUntypedId :: subsystem.localObjectUntypedIds

/-- and afterwards. -/
def Subsystem.ids (subsystem : Subsystem) : List UntypedId :=
  subsystem.cnodeUntypedId :: subsystem.objectUntypedIds

namespace Realizer

variable {platform : Platform K} {resources : SubsystemObjectInitializationResources}
  {state final : Realizer K}

/-! ## What the calls do to the allocator -/

theorem blueprints_keeps {model : Model} {localObjects : List Nat} :
    Exec.Spares id (Exec.mapEach localObjects fun i =>
      (Exec.unwrap (localBlueprint model i) : Exec Failure (Realizer K) _)) :=
  .mapEach fun _ => .unwrap _

theorem counts_keeps {blueprints : List ObjectBlueprint} {counts : List Nat} :
    Exec.Spares id (Exec.foldEach blueprints counts (countSize (K := K) platform)) :=
  .foldEach fun _ _ => .bind (.assert _) fun _ => .pure _

/-- The CNode is made large enough for the objects and the copies of frame capabilities. -/
def cnodeSizeBits (sizes : Sizes) (model : Model) : Nat :=
  sizeBitsToContain ((ModelView.new sizes model).localObjects.length +
    numFrameMappings model (ModelView.new sizes model).localObjects)

theorem realizeStart_eq_ok {model : Model} {started : PartialSubsystem}
    (run : realizeStart platform model state = .ok started final) :
    ∃ blueprints counts cregion cnodeUntypedId realmSlot middle objects last,
      Exec.mapEach (ModelView.new platform.sizes model).localObjects (fun i =>
        (Exec.unwrap (localBlueprint model i) : Exec Failure (Realizer K) _)) state =
          .ok blueprints state ∧
      Exec.foldEach (.cnode (cnodeSizeBits platform.sizes model) :: blueprints)
        (List.replicate 64 0) (countSize platform) state = .ok counts state ∧
      Allocator.createCnode platform.sizes platform.kernel (cnodeSizeBits platform.sizes model)
        state.machine = .ok (cregion, cnodeUntypedId, realmSlot) middle ∧
      Allocator.createObjects platform.sizes platform.kernel blueprints cregion middle =
        .ok objects last ∧
      started = ⟨model, ModelView.new platform.sizes model, objects.1, cnodeUntypedId, objects.2.1,
        objects.2.2⟩ ∧
      final = { state with machine := last } := by
  simp only [realizeStart, Exec.bind_eq_ok, onMachine, Exec.focus_eq_ok, Exec.pure_eq_ok,
    Exec.get_eq_ok, Exec.ensure_eq_ok] at run
  obtain ⟨blueprints, first, blueprintsRun, counts, second, countsRun, _, _, ⟨rfl, rfl⟩, _, _,
    ⟨_, rfl⟩, ⟨cregion, cnodeUntypedId, realmSlot⟩, _, ⟨middle, cnodeRun, rfl⟩, objects, _,
    ⟨last, objectsRun, rfl⟩, rfl, rfl⟩ := run
  obtain rfl : first = state := blueprints_keeps.keeps _ _ _ blueprintsRun
  obtain rfl : second = first := counts_keeps.keeps _ _ _ countsRun
  exact ⟨blueprints, counts, cregion, cnodeUntypedId, realmSlot, middle, objects, last,
    blueprintsRun, countsRun, cnodeRun, objectsRun, rfl, rfl⟩

/-- A realm that is started takes its untypeds and one slot for its CNode. -/
theorem realizeStart_sound {model : Model} {started : PartialSubsystem}
    (sound : Sound base built live reserved state.machine)
    (run : realizeStart platform model state = .ok started final) :
    ∃ realmSlot, Sound base built (started.ids ++ live) (realmSlot :: reserved) final.machine := by
  obtain ⟨blueprints, counts, cregion, cnodeUntypedId, realmSlot, middle, objects, last, _, _,
    cnodeRun, objectsRun, rfl, rfl⟩ := realizeStart_eq_ok run
  have created := Allocator.createObjects_sound _ (Allocator.createCnode_sound sound cnodeRun)
    objectsRun
  refine ⟨realmSlot, created.perm ?_⟩
  refine List.Perm.trans ?_ List.perm_middle.symm
  exact ((List.reverse_perm _).symm.append_right _).cons _

theorem onKernel_keeps {invocation : Invocation} :
    Exec.Spares (fun state : Realizer K => state.machine.allocator)
      (onKernel platform invocation) := by
  have spares : Exec.Spares Machine.allocator
      (Allocator.onKernel (platform.kernel.call invocation)) := .focus fun _ _ => rfl
  exact spares.inside fun _ _ => rfl

theorem fillFrame_keeps {vaddr : UInt64} {sizeBits : Nat} {frame : CPtr} {offset : Nat}
    {expected untrusted : List UInt8} :
    Exec.Spares (fun state : Realizer K => state.machine.allocator)
      (fillFrame platform resources vaddr sizeBits frame offset expected untrusted) :=
  .bind onKernel_keeps fun _ => .bind (.assert _) fun _ => .bind (.modify fun _ => rfl) fun _ =>
    .bind (.ensure _ _) fun _ => onKernel_keeps

/-- Filling frames leaves the allocator alone, -/
theorem realizeContinue_keeps {subsystem : PartialSubsystem} {objId : ObjId} {index : Nat}
    {content : List UInt8} :
    Exec.Spares (fun state : Realizer K => state.machine.allocator)
      (realizeContinue platform resources subsystem objId index content) := by
  refine .bind (.unwrap _) fun object => ?_
  cases object.object with
  | externObj _ => exact .panic
  | localObj obj =>
      refine .bind (.unwrap _) fun _ => .bind (.unwrap _) fun _ => ?_
      cases obj with
      | smallPage fill =>
          exact .bind (.unwrap _) fun _ => .bind (.unwrap _) fun _ => fillFrame_keeps
      | largePage fill =>
          exact .bind (.unwrap _) fun _ => .bind (.unwrap _) fun _ => fillFrame_keeps
      | _ => exact .panic

theorem takeExtern_keeps {model : Model} {taken : Externs × List CPtr} {i : Nat} :
    Exec.Spares (Realizer.machine (K := K)) (takeExtern model taken i) := by
  refine .bind (.unwrap _) fun object => ?_
  cases object.object with
  | localObj _ => exact .panic
  | externObj obj =>
      exact .bind .get fun _ => .bind (.unwrap _) fun _ => .bind (.modify fun _ => rfl) fun _ =>
        .bind (.assert _) fun _ => .pure _

/-- Initializing the objects changes the kernel only. -/
theorem initializeObjects_ends {model : Model} {caps : List CPtr} {cregion : CRegion}
    (run : Exec.Ends (initializeObjects platform resources model caps cregion) state final) :
    ∃ kernel, final = { state with machine := { state.machine with kernel := kernel } } := by
  rcases run with ⟨virtualCores, run⟩ | ⟨error, run⟩
  · unfold initializeObjects at run
    split at run
    · exact ⟨_, (Outcome.ok.inj run).2.symm⟩
    · simp at run
    · simp at run
  · unfold initializeObjects at run
    split at run
    · simp at run
    · exact ⟨_, (Outcome.err.inj run).2.symm⟩
    · simp at run

theorem initializeObjects_keeps {model : Model} {caps : List CPtr} {cregion : CRegion} :
    Exec.Spares (fun state : Realizer K => state.machine.allocator)
      (initializeObjects platform resources model caps cregion) := by
  intro before after run
  obtain ⟨kernel, rfl⟩ := initializeObjects_ends run
  rfl

/-- and so does finishing, -/
theorem realizeFinish_keeps {subsystem : PartialSubsystem} :
    Exec.Spares (fun state : Realizer K => state.machine.allocator)
      (realizeFinish platform resources subsystem) :=
  .bind (.foldEach fun _ _ => takeExtern_keeps.comp Machine.allocator) fun _ =>
    .bind (.mapEach fun _ => .unwrap _) fun _ => .bind initializeObjects_keeps fun _ => .pure _

/-- which hands the untypeds over to the subsystem. -/
theorem realizeFinish_ids {subsystem : PartialSubsystem} {finished : Subsystem}
    (run : realizeFinish platform resources subsystem state = .ok finished final) :
    finished.ids = subsystem.ids := by
  simp only [realizeFinish, Exec.bind_eq_ok, Exec.pure_eq_ok] at run
  obtain ⟨_, _, _, _, _, _, _, _, _, rfl, _⟩ := run
  rfl

theorem revokeAndFree_machine {untypedId : UntypedId}
    (sound : Sound base built (untypedId :: live) reserved state.machine)
    (run : onMachine (Allocator.revokeAndFree platform.kernel untypedId) state = .ok () final) :
    Sound base built live reserved final.machine := by
  obtain ⟨machine, innerRun, rfl⟩ := Exec.focus_eq_ok.mp run
  have freed := Allocator.revokeAndFree_kept sound (by simp) innerRun
  rwa [List.erase_cons_head] at freed

theorem revokeAll_machine {untypedIds : List UntypedId}
    (sound : Sound base built (untypedIds ++ live) reserved state.machine)
    (run : (Exec.forEach untypedIds fun untypedId =>
      onMachine (Allocator.revokeAndFree platform.kernel untypedId)) state = .ok () final) :
    Sound base built live reserved final.machine := by
  induction untypedIds generalizing state with
  | nil =>
      simp only [Exec.forEach_nil, Exec.pure_eq_ok] at run
      obtain ⟨-, rfl⟩ := run
      exact sound
  | cons untypedId untypedIds ih =>
      rw [Exec.forEach_cons, Exec.bind_eq_ok] at run
      obtain ⟨⟨⟩, middle, first, rest⟩ := run
      exact ih (revokeAndFree_machine sound first) rest

/-- A subsystem that is destroyed gives its untypeds back, but no slot of the allocator's CNode
other than those of nodes that are merged. -/
theorem destroy_sound {subsystem : Subsystem}
    (sound : Sound base built (subsystem.ids ++ live) reserved state.machine)
    (run : destroy platform subsystem state = .ok () final) :
    Sound base built live reserved final.machine := by
  simp only [destroy, Exec.bind_eq_ok, Exec.modify_eq_ok] at run
  obtain ⟨⟨⟩, first, cnodeRun, ⟨⟩, second, objectsRun, rfl⟩ := run
  have freed := revokeAll_machine (revokeAndFree_machine sound cnodeRun) objectsRun
  exact freed

end Realizer

/-! ## Realms -/

/-- A realizer with the subsystems its user holds. -/
structure Realms (K : Type) where
  realizer : Realizer K
  partials : List PartialSubsystem
  subsystems : List Subsystem

namespace Realms

def start (allocator : Allocator) (kernel : K) (externs : Externs) (frames : Frames) : Realms K :=
  ⟨⟨⟨allocator, kernel⟩, externs, frames⟩, [], []⟩

/-! ## A realm with one untyped and one extern -/

/-- The untypeds of `exampleBuilder`, and a CNode above which there is room for the guards of the
realms' CNodes. -/
def exampleRealmBuilder : AllocatorBuilder :=
  { exampleBuilder with
    cregion := ⟨⟨1, ⟨2, 40⟩⟩, 0, 2, 4,
      ⟨Std.TreeMap.ofList ((List.range 16).map fun slot => (slot, false))⟩⟩ }

theorem exampleRealmBuilder_wellFormed : exampleRealmBuilder.WellFormed :=
  ⟨exampleBuilder_wellFormed.apart, exampleBuilder_wellFormed.aligned,
    exampleBuilder_wellFormed.small⟩

theorem exampleRealmBuilder_isNew :
    CRegion.new ⟨1, ⟨2, 40⟩⟩ 0 2 4 = some exampleRealmBuilder.cregion := rfl

def examplePlatform : Platform Unit := ⟨exampleSizes, permissive, fun _ => 0, fun _ => []⟩

def exampleResources : SubsystemObjectInitializationResources := ⟨1, 2, 3, 0x1000, 0x200000⟩

def exampleModel : Model :=
  ⟨1, [⟨.localObj (.untyped 11), "ram"⟩, ⟨.externObj .notification, "nfn"⟩]⟩

def exampleExterns : Externs := Std.TreeMap.ofList [("nfn", Extern.mk .notification 7)]

end Realms

end IceCap.Dyndl
