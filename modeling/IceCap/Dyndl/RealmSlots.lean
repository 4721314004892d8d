import IceCap.Dyndl.Paths

/-!
# The slots of the realizer

`realize_start` does not keep the number of the slot of the realm's CNode, so
nothing can give it back: the slots in use are those of the managed nodes and one
for each realm that was ever started.
-/

set_option autoImplicit false

namespace IceCap.Dyndl

open IceCap.Library IceCap.Sel4

variable {K : Type} {base : CRegion} {built : Node}

/-! ## Runs -/

inductive Request where
  | realizeStart (model : Model)
  | realizeContinue (objId : ObjId) (fillEntryIndex : Nat) (content : List UInt8)
  | realizeFinish
  | destroy

def Request.isDestroy : Request → Bool
  | .destroy => true
  | _ => false

namespace Realms

/-- The untypeds of all realms. -/
def ids (realms : Realms K) : List UntypedId :=
  realms.partials.flatMap PartialSubsystem.ids ++ realms.subsystems.flatMap Subsystem.ids

/-- The realms whose CNode exists. -/
def numLive (realms : Realms K) : Nat := realms.partials.length + realms.subsystems.length

def cregion (realms : Realms K) : CRegion := realms.realizer.machine.allocator.cregion

/-- The slot is that of the realm's CNode. -/
def Owns (cregion : CRegion) (slot : Slot) (subsystem : PartialSubsystem) : Prop :=
  subsystem.cregion.root = cregion.relativeCPtr slot

/-- The slots of the managed nodes of the capability derivation tree. -/
def managedSlots (realms : Realms K) : List Slot :=
  Node.slots realms.realizer.machine.allocator.capDerivationTree

/-- The slots in use are those of the managed nodes and one for each live realm, which is that of its
CNode as long as the realm knows it. -/
def SlotsExact (realms : Realms K) : Prop :=
  ∃ partialSlots realizedSlots : List Slot,
    List.Forall₂ (Owns realms.cregion) partialSlots realms.partials ∧
    realizedSlots.length = realms.subsystems.length ∧
    (partialSlots ++ realizedSlots ++ realms.managedSlots).Nodup ∧
    ∀ slot, realms.cregion.Used slot ↔
      slot ∈ partialSlots ++ realizedSlots ++ realms.managedSlots

section Runs

variable (platform : Platform K) (resources : SubsystemObjectInitializationResources)

/-- A call on the realizer that returns `Ok`, with one of the subsystems its user holds. -/
inductive Serves : Request → Realms K → Realms K → Prop where
  | realizeStart {before : Realms K} {after : Realizer K} {model : Model}
      {started : PartialSubsystem}
      (run : Realizer.realizeStart platform model before.realizer = .ok started after) :
      Serves (.realizeStart model) before
        { before with realizer := after, partials := started :: before.partials }
  | realizeContinue {before : Realms K} {after : Realizer K} {subsystem : PartialSubsystem}
      {objId : ObjId} {fillEntryIndex : Nat} {content : List UInt8}
      (isPartial : subsystem ∈ before.partials)
      (run : Realizer.realizeContinue platform resources subsystem objId fillEntryIndex content
        before.realizer = .ok () after) :
      Serves (.realizeContinue objId fillEntryIndex content) before { before with realizer := after }
  | realizeFinish {before : Realms K} {after : Realizer K} {subsystem : PartialSubsystem}
      {finished : Subsystem} {first last : List PartialSubsystem}
      (isPartial : before.partials = first ++ subsystem :: last)
      (run : Realizer.realizeFinish platform resources subsystem before.realizer =
        .ok finished after) :
      Serves .realizeFinish before
        ⟨after, first ++ last, finished :: before.subsystems⟩
  | destroy {before : Realms K} {after : Realizer K} {subsystem : Subsystem}
      {first last : List Subsystem} (isRealized : before.subsystems = first ++ subsystem :: last)
      (run : Realizer.destroy platform subsystem before.realizer = .ok () after) :
      Serves .destroy before ⟨after, before.partials, first ++ last⟩

inductive Run (first : Realms K) : List Request → Realms K → Prop where
  | start : Run first [] first
  | serve {requests : List Request} {request : Request} {before after : Realms K}
      (run : Run first requests before) (served : Serves platform resources request before after) :
      Run first (requests ++ [request]) after

end Runs

/-- The slots that are taken besides those of managed nodes: those of the realms that are being
realized, and one for each other realm there is or was. -/
def Accounted (base : CRegion) (built : Node) (destroyed : Nat) (realms : Realms K) : Prop :=
  ∃ reserved owned others, Sound base built realms.ids reserved realms.realizer.machine ∧
    realms.cregion.place = base.place ∧ reserved.Perm (owned ++ others) ∧
    List.Forall₂ (Owns base) owned realms.partials ∧
    others.length = realms.subsystems.length + destroyed

variable {platform : Platform K} {resources : SubsystemObjectInitializationResources}
  {first before after : Realms K} {requests : List Request} {request : Request} {destroyed : Nat}

theorem Serves.accounted (holds : before.Accounted base built destroyed)
    (served : Serves platform resources request before after) :
    after.Accounted base built (destroyed + request.isDestroy.toNat) := by
  obtain ⟨reserved, owned, others, sound, samePlace, perm, owns, length⟩ := holds
  cases served with
  | @realizeStart _ final model started run =>
      obtain ⟨realmSlot, created, rooted, isPlace⟩ :=
        Realizer.realizeStart_rooted sound samePlace run
      refine ⟨realmSlot :: reserved, realmSlot :: owned, others, ?_, isPlace, perm.cons _,
        .cons rooted.below.root owns, length⟩
      simpa [ids] using created
  | realizeContinue isPartial run =>
      have same := Realizer.realizeContinue_keeps.keeps _ _ _ run
      exact ⟨reserved, owned, others, sound.ofAllocator same,
        (congrArg (fun allocator => allocator.cregion.place) same).trans samePlace, perm, owns,
        length⟩
  | @realizeFinish _ final subsystem finished first last isPartial run =>
      have same := Realizer.realizeFinish_keeps.keeps _ _ _ run
      have handed := Realizer.realizeFinish_ids run
      -- the realm that is finished does not know its slot any more
      rw [isPartial] at owns
      have firstOwns := List.forall₂_take_append owned first (subsystem :: last) owns
      obtain ⟨slot, lastOwned, _, lastOwns, isDrop⟩ := List.forall₂_cons_right_iff.mp
        (List.forall₂_drop_append owned first (subsystem :: last) owns)
      refine ⟨reserved, owned.take first.length ++ lastOwned, slot :: others,
        (sound.ofAllocator same).perm ?_,
        (congrArg (fun allocator => allocator.cregion.place) same).trans samePlace, ?_,
        List.rel_append firstOwns lastOwns, ?_⟩
      · rw [List.perm_iff_count]
        intro id
        simp only [ids, isPartial, List.flatMap_append, List.flatMap_cons, handed,
          List.count_append]
        omega
      · refine perm.trans ?_
        rw [List.append_assoc]
        refine List.Perm.trans ?_ (List.perm_middle.symm.append_left _)
        rw [← List.cons_append, ← isDrop, ← List.append_assoc, List.take_append_drop]
      · simp only [length, List.length_cons, Request.isDestroy, Bool.toNat_false]
        omega
  | @destroy _ final subsystem first last isRealized run =>
      refine ⟨reserved, owned, others, Realizer.destroy_sound (sound.perm ?_) run,
        (Realizer.destroy_place.keeps _ _ _ run).trans samePlace, perm, owns, ?_⟩
      · rw [List.perm_iff_count]
        intro id
        simp only [ids, isRealized, List.flatMap_append, List.flatMap_cons, List.count_append]
        omega
      · simp only [length, isRealized, List.length_append, List.length_cons, Request.isDestroy,
          Bool.toNat_true]
        omega

theorem Run.accounted (holds : first.Accounted base built 0)
    (run : Run platform resources first requests after) :
    after.Accounted base built (requests.countP Request.isDestroy) := by
  induction run with
  | start => exact holds
  | @serve requests request before after run served ih =>
      have counted := served.accounted ih
      rw [List.countP_append, List.countP_singleton]
      cases isDestroy : request.isDestroy <;> simpa [isDestroy] using counted

/-- The count is exact as long as no realm was destroyed. -/
theorem Accounted.slotsExact_iff (isNew : ∀ slot, ¬ base.Used slot)
    (holds : after.Accounted base built destroyed) : after.SlotsExact ↔ destroyed = 0 := by
  obtain ⟨reserved, owned, others, sound, samePlace, perm, owns, length⟩ := holds
  have isTaken := perm.append_right after.managedSlots
  have used : ∀ slot, after.cregion.Used slot ↔ slot ∈ reserved ++ after.managedSlots := by
    intro slot
    have marked := sound.slotsMarked slot
    have unused := isNew slot
    rw [CRegion.Used] at unused ⊢
    rw [cregion, marked, managedSlots]
    split <;> simp [*]
  constructor
  · rintro ⟨partialSlots, realizedSlots, areOwned, count, nodup, exact⟩
    have same : (partialSlots ++ realizedSlots ++ after.managedSlots).Perm
        (reserved ++ after.managedSlots) :=
      (List.perm_ext_iff_of_nodup nodup sound.slotsNodup).mpr fun slot =>
        (exact slot).symm.trans (used slot)
    have lengths := (same.trans isTaken).length_eq
    have numPartials := areOwned.length_eq.trans owns.length_eq.symm
    simp only [List.length_append] at lengths
    omega
  · intro none
    have areOwned : List.Forall₂ (Owns after.cregion) owned after.partials := owns.imp
      fun _ _ isRoot => isRoot.trans (CRegion.relativeCPtr_of_place samePlace).symm
    exact ⟨owned, others, areOwned, by omega, isTaken.nodup_iff.mp sound.slotsNodup,
      fun slot => (used slot).trans isTaken.mem_iff⟩

/-- With nothing live all slots are free again, but for those of the realms that were destroyed. -/
theorem Accounted.freed_iff (holds : after.Accounted base built destroyed)
    (noManaged : Node.slots built = []) (noneLive : after.numLive = 0) :
    (∀ slot, after.cregion.Free slot ↔ base.Free slot) ↔ destroyed = 0 := by
  obtain ⟨reserved, owned, others, sound, _, perm, owns, length⟩ := holds
  have lengths : after.partials.length + after.subsystems.length = 0 := noneLive
  have isLength : reserved.length = destroyed := by
    have numOwned := owns.length_eq
    rw [perm.length_eq, List.length_append]
    omega
  have noIds : after.ids = [] := by
    rw [ids, List.eq_nil_of_length_eq_zero (l := after.partials) (by omega),
      List.eq_nil_of_length_eq_zero (l := after.subsystems) (by omega)]
    rfl
  have isTree : Node.slots after.realizer.machine.allocator.capDerivationTree = [] := by
    rw [sound.tree_eq noIds, noManaged]
  have marked := sound.slotsMarked
  have taken := sound.slotsTaken
  rw [isTree, List.append_nil] at marked taken
  constructor
  · intro freed
    cases reserved with
    | nil =>
        exact isLength.symm
    | cons slot reserved =>
        have isFree := (freed slot).mpr (taken slot (by simp))
        rw [CRegion.Free, cregion, marked, if_pos (by simp)] at isFree
        simp at isFree
  · intro none slot
    rw [List.eq_nil_of_length_eq_zero (l := reserved) (by omega)] at marked
    rw [CRegion.Free, CRegion.Free, cregion, marked, if_neg (by simp)]

/-- A realizer that is built on a new CNode. -/
theorem start_accounted {builder : AllocatorBuilder} (wellFormed : builder.WellFormed)
    {allocator : Allocator} (isBuilt : builder.build = some allocator) (kernel : K)
    (externs : Externs) (frames : Frames) :
    (start allocator kernel externs frames).Accounted allocator.cregion
      allocator.capDerivationTree 0 :=
  ⟨[], [], [], (AllocatorBuilder.build_placed wellFormed isBuilt).sound kernel, rfl, .refl _, .nil,
    rfl⟩

/-- In a run from a new realizer the slots in use are those of the managed nodes and one for each
live realm, and all of them are free again once nothing is live, exactly if no realm is destroyed
in the run. -/
theorem run_conserves_slots {builder : AllocatorBuilder} (wellFormed : builder.WellFormed)
    {root : RelativeCPtr} {guardValue guardSize : UInt64} {radix : Nat}
    (isNew : CRegion.new root guardValue guardSize radix = some builder.cregion)
    {allocator : Allocator} (isBuilt : builder.build = some allocator) (kernel : K)
    (externs : Externs) (frames : Frames) {requests : List Request} {final : Realms K}
    (run : Run platform resources (start allocator kernel externs frames) requests final) :
    ((∀ earlier middle, earlier <+: requests →
        Run platform resources (start allocator kernel externs frames) earlier middle →
        middle.SlotsExact) ∧
      (final.numLive = 0 → ∀ slot, final.cregion.Free slot ↔ allocator.cregion.Free slot)) ↔
    ∀ request ∈ requests, request.isDestroy = false := by
  have isCRegion := AllocatorBuilder.build_cregion isBuilt
  have unused : ∀ slot, ¬ allocator.cregion.Used slot := by
    rw [isCRegion]
    exact CRegion.new_unused isNew
  have noManaged := (AllocatorBuilder.build_placed wellFormed isBuilt).tree.slots_eq
  have accounted : ∀ {requests : List Request} {final : Realms K},
      Run platform resources (start allocator kernel externs frames) requests final →
      final.Accounted allocator.cregion allocator.capDerivationTree
        (requests.countP Request.isDestroy) :=
    fun run => run.accounted (start_accounted wellFormed isBuilt kernel externs frames)
  constructor
  · intro ⟨exact, _⟩ request member
    have none := (accounted run).slotsExact_iff unused |>.mp
      (exact requests final (List.prefix_refl _) run)
    simpa using List.countP_eq_zero.mp none request member
  · intro none
    refine ⟨fun earlier middle isEarlier earlierRun => ?_, fun noneLive => ?_⟩
    · refine ((accounted earlierRun).slotsExact_iff unused).mpr (List.countP_eq_zero.mpr ?_)
      intro request member
      simp [none request (isEarlier.subset member)]
    · refine ((accounted run).freed_iff noManaged noneLive).mpr (List.countP_eq_zero.mpr ?_)
      intro request member
      simp [none request member]

/-! ## A realm that is destroyed -/

/-- The realm is realized and destroyed. -/
theorem exampleRealm_run : ∃ allocator, exampleRealmBuilder.build = some allocator ∧
    ∃ started destroyed,
      Run examplePlatform exampleResources (start allocator () exampleExterns fun _ _ => 0)
        [.realizeStart exampleModel] started ∧
      Run examplePlatform exampleResources (start allocator () exampleExterns fun _ _ => 0)
        [.realizeStart exampleModel, .realizeFinish, .destroy] destroyed ∧
      destroyed.numLive = 0 := by
  have evaluates : (exampleRealmBuilder.build.map fun allocator =>
      (Realizer.realizeStart examplePlatform exampleModel >>= fun started =>
        Realizer.realizeFinish examplePlatform exampleResources started >>= fun finished =>
          Realizer.destroy examplePlatform finished)
        (start allocator () exampleExterns fun _ _ => 0).realizer |>.isOk) = some true := by
    decide +kernel
  obtain ⟨allocator, isBuilt, isOk⟩ := Option.map_eq_some_iff.mp evaluates
  obtain ⟨⟨⟩, final, run⟩ := Outcome.isOk_iff.mp isOk
  obtain ⟨started, first, startRun, rest⟩ := Exec.bind_eq_ok.mp run
  obtain ⟨finished, second, finishRun, destroyRun⟩ := Exec.bind_eq_ok.mp rest
  have afterStart : Run examplePlatform exampleResources _ ([] ++ [.realizeStart exampleModel]) _ :=
    .serve .start (.realizeStart startRun)
  have afterFinish := Run.serve afterStart (@Serves.realizeFinish _ _ _ _ _ _ _ [] [] rfl finishRun)
  have afterDestroy := Run.serve afterFinish (@Serves.destroy _ _ _ _ _ _ [] [] rfl destroyRun)
  exact ⟨allocator, isBuilt, _, _, afterStart, afterDestroy, rfl⟩

theorem run_conserves_slots_exampleRealm : ∃ allocator started,
    exampleRealmBuilder.build = some allocator ∧
      Run examplePlatform exampleResources (start allocator () exampleExterns fun _ _ => 0)
        [.realizeStart exampleModel] started ∧ started.SlotsExact := by
  obtain ⟨allocator, isBuilt, started, _, run, _⟩ := exampleRealm_run
  have conserved := (run_conserves_slots exampleRealmBuilder_wellFormed exampleRealmBuilder_isNew
    isBuilt () exampleExterns (fun _ _ => 0) run).mpr (by
      intro request member
      obtain rfl := List.mem_singleton.mp member
      rfl)
  exact ⟨allocator, started, isBuilt, run, conserved.1 _ _ (List.prefix_refl _) run⟩

/-- The slot of the realm's CNode is lost: nothing is live, and not all slots are free. -/
theorem destroy_leaks_slot : ∃ allocator destroyed,
    exampleRealmBuilder.build = some allocator ∧
      Run examplePlatform exampleResources (start allocator () exampleExterns fun _ _ => 0)
        [.realizeStart exampleModel, .realizeFinish, .destroy] destroyed ∧
      destroyed.numLive = 0 ∧ ¬ destroyed.SlotsExact ∧
      ¬ ∀ slot, destroyed.cregion.Free slot ↔ allocator.cregion.Free slot := by
  obtain ⟨allocator, isBuilt, _, destroyed, _, run, noneLive⟩ := exampleRealm_run
  have accounted := run.accounted
    (start_accounted exampleRealmBuilder_wellFormed isBuilt () exampleExterns fun _ _ => 0)
  refine ⟨allocator, destroyed, isBuilt, run, noneLive, ?_, ?_⟩
  · rw [accounted.slotsExact_iff]
    · simp [List.countP_cons, Request.isDestroy]
    · rw [AllocatorBuilder.build_cregion isBuilt]
      exact CRegion.new_unused exampleRealmBuilder_isNew
  · rw [accounted.freed_iff _ noneLive]
    · simp [List.countP_cons, Request.isDestroy]
    · exact (AllocatorBuilder.build_placed exampleRealmBuilder_wellFormed isBuilt).tree.slots_eq

end Realms

end IceCap.Dyndl
