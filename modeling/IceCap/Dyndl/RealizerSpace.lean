import IceCap.Dyndl.AllocatorSpace
import IceCap.Dyndl.ModelIndex

/-!
# What `realize_start` admits

`realize_start` counts the objects of a model and the CNode of its realm by their
sizes and asks `peek_space` whether there is room for them.  A size is cut to 32
bits before it is counted, and what is requested may come around: these are the
two ways for a model to be admitted that asks for more than is free.
-/

set_option autoImplicit false

namespace IceCap.Dyndl

open IceCap.Library IceCap.Sel4

/-! ## What a model asks for -/

/-- The size that is named, which `physical_size_bits` cuts to a `u32`. -/
def exactSizeBits (sizes : Sizes) : ObjectBlueprint → Nat
  | .untyped sizeBits => sizeBits
  | .cnode sizeBits => sizes.slotBits + sizeBits
  | blueprint => blueprint.physicalSizeBits sizes

def memory (sizeBits : ObjectBlueprint → Nat) (blueprints : List ObjectBlueprint) : Nat :=
  (blueprints.map fun blueprint => 2 ^ sizeBits blueprint).sum

theorem le_memory {sizeBits : ObjectBlueprint → Nat} {blueprints : List ObjectBlueprint}
    {blueprint : ObjectBlueprint} (member : blueprint ∈ blueprints) :
    2 ^ sizeBits blueprint ≤ memory sizeBits blueprints :=
  List.single_le_sum (fun _ _ => Nat.zero_le _) _
    (List.mem_map_of_mem (f := fun blueprint => 2 ^ sizeBits blueprint) member)

def TopObj.blueprint? (top : TopObj) : Option ObjectBlueprint :=
  match top.object with
  | .localObj obj => some (blueprintOf obj)
  | .externObj _ => none

namespace Model

/-- The CNode of the realm and the objects of the model. -/
def wanted (sizes : Sizes) (model : Model) : List ObjectBlueprint :=
  .cnode (Realizer.cnodeSizeBits sizes model) :: model.objects.filterMap TopObj.blueprint?

/-- The memory that the model asks for. -/
def asked (sizes : Sizes) (model : Model) : Nat := memory (exactSizeBits sizes) (model.wanted sizes)

/-- The memory that it is taken to ask for. -/
def counted (sizes : Sizes) (model : Model) : Nat :=
  memory (ObjectBlueprint.physicalSizeBits sizes) (model.wanted sizes)

/-- The model asks for more than there is, and all its sizes are counted: but what is counted comes
around, or has become small enough because sizes were cut. -/
def Overlooked (sizes : Sizes) (model : Model) (space : Nat) : Prop :=
  (∀ blueprint ∈ model.wanted sizes, blueprint.physicalSizeBits sizes < 64) ∧
    space < model.asked sizes ∧
    (ComesAround (2 ^ 64) (model.counted sizes) space ∨
      model.counted sizes ≤ space ∧ ¬ FallsBehind (2 ^ 64) (model.counted sizes) space)

end Model

/-! ## Counting -/

section Counting
variable {K : Type} {platform : Platform K} {state final : Realizer K}

theorem sum_zipIdx_modify (counts : List Nat) :
    ∀ {sizeBits first : Nat}, sizeBits < counts.length →
      (((counts.modify sizeBits (· + 1)).zipIdx first).map fun entry => entry.1 * 2 ^ entry.2).sum =
        ((counts.zipIdx first).map fun entry => entry.1 * 2 ^ entry.2).sum + 2 ^ (first + sizeBits) := by
  induction counts with
  | nil => simp
  | cons count counts ih =>
      intro sizeBits first isLess
      cases sizeBits with
      | zero =>
          simp only [List.modify_zero_cons, List.zipIdx_cons, List.map_cons, List.sum_cons,
            Nat.add_zero, Nat.succ_mul]
          omega
      | succ sizeBits =>
          have rest := @ih sizeBits (first + 1) (by simpa using isLess)
          simp only [List.modify_succ_cons, List.zipIdx_cons, List.map_cons, List.sum_cons, rest,
            Nat.add_assoc, Nat.add_comm 1 sizeBits]

/-- The counts of the sizes add up to the memory that is counted, if every size is one of them. -/
theorem countSizes_eq_ok (blueprints : List ObjectBlueprint) :
    ∀ {counts result : List Nat},
      Exec.foldEach blueprints counts (Realizer.countSize platform) state = .ok result final →
      (∀ blueprint ∈ blueprints, blueprint.physicalSizeBits platform.sizes < counts.length) ∧
        result.length = counts.length ∧ final = state ∧ Allocator.requested result =
          Allocator.requested counts +
            memory (ObjectBlueprint.physicalSizeBits platform.sizes) blueprints := by
  induction blueprints with
  | nil =>
      intro counts result run
      obtain ⟨rfl, rfl⟩ := Exec.pure_eq_ok.mp run
      exact ⟨List.forall_mem_nil _, rfl, rfl, rfl⟩
  | cons blueprint blueprints ih =>
      intro counts result run
      simp only [Exec.foldEach_cons, Realizer.countSize, Exec.bind_eq_ok, Exec.assert_eq_ok,
        Exec.pure_eq_ok] at run
      obtain ⟨_, _, ⟨_, _, ⟨isCount, rfl⟩, rfl, rfl⟩, rest⟩ := run
      obtain ⟨areCounts, length, same, sum⟩ := ih rest
      rw [List.length_modify] at areCounts length
      refine ⟨List.forall_mem_cons.mpr ⟨isCount, areCounts⟩, length, same, ?_⟩
      rw [sum, Allocator.requested, sum_zipIdx_modify _ isCount, memory, memory, List.map_cons,
        List.sum_cons, Nat.zero_add, Allocator.requested, Nat.add_assoc]

theorem countSizes_returns (blueprints : List ObjectBlueprint) :
    ∀ {counts : List Nat},
      (∀ blueprint ∈ blueprints, blueprint.physicalSizeBits platform.sizes < counts.length) →
      ∃ result, Exec.foldEach blueprints counts (Realizer.countSize platform) state =
        .ok result state := by
  induction blueprints with
  | nil => exact fun _ => ⟨_, rfl⟩
  | cons blueprint blueprints ih =>
      intro counts areCounts
      obtain ⟨isCount, rest⟩ := List.forall_mem_cons.mp areCounts
      obtain ⟨result, run⟩ := @ih (counts.modify (blueprint.physicalSizeBits platform.sizes) (· + 1))
        (by simpa using rest)
      refine ⟨result, ?_⟩
      rw [Exec.foldEach_cons]
      exact Exec.bind_eq_ok.mpr ⟨_, state, Exec.bind_eq_ok.mpr ⟨(), state,
        Exec.assert_eq_ok.mpr ⟨isCount, rfl⟩, rfl⟩, run⟩

end Counting

/-! ## The blueprints of a model -/

section Blueprints
variable {model : Model}

theorem localBlueprint_eq (i : Nat) :
    Realizer.localBlueprint model i = (model.objects[i]?).bind TopObj.blueprint? := by
  unfold Realizer.localBlueprint TopObj.blueprint?
  cases isTop : model.objects[i]? with
  | none => rfl
  | some top =>
      obtain ⟨object, name⟩ := top
      cases object with
      | localObj obj => rfl
      | externObj obj => rfl

theorem isSome_localBlueprint_iff (i : Nat) :
    (Realizer.localBlueprint model i).isSome = true ↔ model.IsLocal i := by
  unfold Realizer.localBlueprint Model.IsLocal
  split
  · next obj isObject => simp [isObject]
  · next notLocal => simpa using notLocal

theorem filterMap_getElem?_range {α β : Type} (items : List α) (look : α → Option β) :
    ((List.range items.length).filterMap fun i => (items[i]?).bind look) = items.filterMap look := by
  induction items with
  | nil => rfl
  | cons item items ih =>
      rw [List.length_cons, List.range_succ_eq_map, List.filterMap_cons, List.filterMap_map,
        List.filterMap_cons]
      simp only [List.getElem?_cons_zero, Option.bind_some, Function.comp_def, Nat.succ_eq_add_one,
        List.getElem?_cons_succ, ih]

/-- The objects of the view are those of the model. -/
theorem blueprints_perm (sizes : Sizes) (model : Model) :
    ((ModelView.new sizes model).localObjects.filterMap (Realizer.localBlueprint model)).Perm
      (model.objects.filterMap TopObj.blueprint?) := by
  have indexes := ModelView.new_indexes sizes model
  have isLocals : (ModelView.new sizes model).localObjects.Perm ((List.range model.objects.length).filter
      fun i => (Realizer.localBlueprint model i).isSome) := by
    refine (List.perm_ext_iff_of_nodup indexes.localsNodup (List.nodup_range.filter _)).mpr fun i => ?_
    rw [indexes.locals, List.mem_filter, List.mem_range, isSome_localBlueprint_iff]
  refine (isLocals.filterMap _).trans ?_
  rw [List.filterMap_filter, ← filterMap_getElem?_range model.objects]
  refine List.Perm.of_eq (List.filterMap_congr fun i _ => ?_)
  rw [← localBlueprint_eq]
  cases Realizer.localBlueprint model i with
  | none => rfl
  | some blueprint => rfl

theorem mapM_localBlueprint (sizes : Sizes) (model : Model) :
    (ModelView.new sizes model).localObjects.mapM (Realizer.localBlueprint model) =
      some ((ModelView.new sizes model).localObjects.filterMap (Realizer.localBlueprint model)) := by
  have areLocal : ∀ i ∈ (ModelView.new sizes model).localObjects, model.IsLocal i := fun i member =>
    (((ModelView.new_indexes sizes model).locals i).mp member).2
  generalize (ModelView.new sizes model).localObjects = locals at areLocal
  induction locals with
  | nil => rfl
  | cons i locals ih =>
      obtain ⟨isLocal, rest⟩ := List.forall_mem_cons.mp areLocal
      obtain ⟨blueprint, isBlueprint⟩ := Option.isSome_iff_exists.mp
        ((isSome_localBlueprint_iff i).mpr isLocal)
      simp [isBlueprint, ih rest]

end Blueprints

/-! ## Admission -/

namespace Realizer

variable {K : Type} (platform : Platform K)

/-- `realize_start` up to its `ensure!`, -/
def admission (model : Model) : Exec Failure (Realizer K) (List ObjectBlueprint) := do
  let view := ModelView.new platform.sizes model
  let localObjectBlueprints ← Exec.mapEach view.localObjects fun i =>
    Exec.unwrap (localBlueprint model i)
  let untypedRequirements ←
    Exec.foldEach (.cnode (cnodeSizeBits platform.sizes model) :: localObjectBlueprints)
      (List.replicate 64 0) (countSize platform)
  let state ← Exec.get
  Exec.ensure (Allocator.peekSpace state.machine.allocator untypedRequirements = true)
    (.message "self.allocator.peek_space(&untyped_requirements)")
  pure localObjectBlueprints

/-- and behind it. -/
def creation (model : Model) (localObjectBlueprints : List ObjectBlueprint) :
    Exec Failure (Realizer K) PartialSubsystem := do
  let cnode ← onMachine (Allocator.createCnode platform.sizes platform.kernel
    (cnodeSizeBits platform.sizes model))
  let objects ← onMachine
    (Allocator.createObjects platform.sizes platform.kernel localObjectBlueprints cnode.1)
  pure ⟨model, ModelView.new platform.sizes model, objects.1, cnode.2.1, objects.2.1, objects.2.2⟩

variable {platform}

theorem realizeStart_eq (model : Model) :
    realizeStart platform model = admission platform model >>= creation platform model := by
  simp only [realizeStart, admission, Exec.bind_assoc]
  rfl

variable (platform) in
/-- The model passes the `ensure!`. -/
def Admits (state : Realizer K) (model : Model) : Prop :=
  ∃ blueprints, admission platform model state = .ok blueprints state

theorem admission_keeps {model : Model} :
    Exec.Spares id (admission (K := K) platform model) :=
  .bind blueprints_keeps fun _ => .bind counts_keeps fun _ => .bind .get fun _ =>
    .bind (.ensure _ _) fun _ => .pure _

/-- A model that does not pass it gets nothing created. -/
theorem realizeStart_of_not_admits {state : Realizer K} {model : Model}
    (refused : ¬ state.Admits platform model) : realizeStart platform model state = .panic ∨
      realizeStart platform model state =
        .err (.message "self.allocator.peek_space(&untyped_requirements)") state := by
  rw [realizeStart_eq]
  cases run : admission platform model state with
  | panic => exact .inl (by rw [Exec.bind_apply, run])
  | ok blueprints final =>
      obtain rfl : final = state := admission_keeps.keeps _ _ _ run
      exact absurd ⟨blueprints, run⟩ refused
  | err error final =>
      refine .inr (Exec.bind_eq_err.mpr (.inl ?_))
      rw [run]
      rcases Exec.bind_eq_err.mp run with failed | ⟨_, first, lookedUp, afterLook⟩
      · exact absurd failed (Exec.Infallible.mapEach (fun _ => .unwrap _) _ _ _)
      obtain rfl : first = state := blueprints_keeps.keeps _ _ _ lookedUp
      rcases Exec.bind_eq_err.mp afterLook with failed | ⟨_, second, isCounted, afterCount⟩
      · exact absurd failed (Exec.Infallible.foldEach
          (fun _ _ => .bind (.assert _) fun _ => .pure _) _ _ _)
      obtain rfl : second = first := counts_keeps.keeps _ _ _ isCounted
      rcases Exec.bind_eq_err.mp afterCount with failed | ⟨_, _, got, afterGet⟩
      · exact absurd failed (Exec.Infallible.get _ _ _)
      obtain ⟨rfl, rfl⟩ := Exec.get_eq_ok.mp got
      rcases Exec.bind_eq_err.mp afterGet with failed | ⟨_, _, _, failed⟩
      · unfold Exec.ensure at failed
        split at failed
        · cases failed
        · cases failed
          rfl
      · exact absurd failed (Exec.Infallible.pure _ _ _ _)

theorem admits_iff {state : Realizer K} {model : Model}
    (exact : ∀ counts : List Nat, counts.length ≤ 64 →
      (state.machine.allocator.peekSpace counts = true ↔ Allocator.requested counts % 2 ^ 64 ≤
        state.machine.allocator.leafNodes.space % 2 ^ 64)) :
    state.Admits platform model ↔
      (∀ blueprint ∈ model.wanted platform.sizes, blueprint.physicalSizeBits platform.sizes < 64) ∧
        model.counted platform.sizes % 2 ^ 64 ≤
          state.machine.allocator.leafNodes.space % 2 ^ 64 := by
  have perm : (.cnode (cnodeSizeBits platform.sizes model) ::
      (ModelView.new platform.sizes model).localObjects.filterMap (localBlueprint model)).Perm
        (model.wanted platform.sizes) := (blueprints_perm platform.sizes model).cons _
  have looked : ∀ {found final}, Exec.mapEach (ModelView.new platform.sizes model).localObjects
      (fun i => (Exec.unwrap (localBlueprint model i) : Exec Failure (Realizer K) _)) state =
        .ok found final ↔
      found = (ModelView.new platform.sizes model).localObjects.filterMap (localBlueprint model) ∧
        state = final := by
    intro found final
    rw [mapEach_unwrap, mapM_localBlueprint, Option.some.injEq, eq_comm]
  have nothing : Allocator.requested (List.replicate 64 0) = 0 := by decide
  have sum : memory (ObjectBlueprint.physicalSizeBits platform.sizes)
      (.cnode (cnodeSizeBits platform.sizes model) ::
        (ModelView.new platform.sizes model).localObjects.filterMap (localBlueprint model)) =
      model.counted platform.sizes := (perm.map _).sum_eq
  constructor
  · rintro ⟨blueprints, run⟩
    simp only [admission, Exec.bind_eq_ok, Exec.get_eq_ok, Exec.ensure_eq_ok, Exec.pure_eq_ok] at run
    obtain ⟨found, _, lookedUp, counts, _, isCounted, _, _, ⟨rfl, rfl⟩, _, _, ⟨isRoom, rfl⟩, _, same⟩ :=
      run
    obtain ⟨rfl, rfl⟩ := looked.mp lookedUp
    obtain ⟨areCounts, length, _, isSum⟩ := countSizes_eq_ok _ isCounted
    rw [same, exact counts (by simp [length]), isSum, nothing, Nat.zero_add, sum] at isRoom
    exact ⟨fun blueprint member => by simpa using areCounts blueprint (perm.mem_iff.mpr member), isRoom⟩
  · rintro ⟨areSmall, isRoom⟩
    obtain ⟨counts, isCounted⟩ := @countSizes_returns K platform state
      (.cnode (cnodeSizeBits platform.sizes model) ::
        (ModelView.new platform.sizes model).localObjects.filterMap (localBlueprint model))
      (List.replicate 64 0)
      fun blueprint member => by simpa using areSmall blueprint (perm.mem_iff.mp member)
    obtain ⟨_, length, _, isSum⟩ := countSizes_eq_ok _ isCounted
    have passes : state.machine.allocator.peekSpace counts = true := by
      rwa [exact counts (by simp [length]), isSum, nothing, Nat.zero_add, sum]
    refine ⟨(ModelView.new platform.sizes model).localObjects.filterMap (localBlueprint model),
      Exec.bind_eq_ok.mpr ⟨_, state, looked.mpr ⟨rfl, rfl⟩, ?_⟩⟩
    refine Exec.bind_eq_ok.mpr ⟨counts, state, isCounted, ?_⟩
    exact Exec.bind_eq_ok.mpr ⟨state, state, rfl, Exec.bind_eq_ok.mpr ⟨(), state,
      Exec.ensure_eq_ok.mpr ⟨passes, rfl⟩, rfl⟩⟩

end Realizer

/-! ## Exactness -/

section Exactness
variable {K : Type} {platform : Platform K}

/-- After any calls, `peek_space` is exact unless the request has come around, and `realize_start` admits
no model that asks for more than is free unless it is overlooked.  A model that is not admitted
changes nothing. -/
theorem admission_exact_iff {builder : AllocatorBuilder} {allocator : Allocator}
    (aligned : ∀ id ∈ builder.untypedIds, 2 ^ id.sizeBits ∣ id.paddr)
    (isBuilt : builder.build = some allocator) (kernelState : K) {state : Machine K}
    (run : Relation.ReflTransGen (Calls platform.sizes platform.kernel) ⟨allocator, kernelState⟩
      state) :
    (∀ counts : Vector UInt64 64,
      (state.allocator.peekSpace (counts.toList.map UInt64.toNat) = true ↔
          Allocator.requested (counts.toList.map UInt64.toNat) ≤ state.allocator.leafNodes.space) ↔
        ¬ ComesAround (2 ^ 64) (Allocator.requested (counts.toList.map UInt64.toNat))
            state.allocator.leafNodes.space ∧
          ¬ FallsBehind (2 ^ 64) (Allocator.requested (counts.toList.map UInt64.toNat))
            state.allocator.leafNodes.space) ∧
    ∀ (realizer : Realizer K) (model : Model), realizer.machine = state →
      ((realizer.Admits platform model →
          model.asked platform.sizes ≤ state.allocator.leafNodes.space) ↔
        ¬ model.Overlooked platform.sizes state.allocator.leafNodes.space) ∧
      Realizer.realizeStart platform model =
        Realizer.admission platform model >>= Realizer.creation platform model ∧
      (¬ realizer.Admits platform model → Realizer.realizeStart platform model realizer = .panic ∨
        Realizer.realizeStart platform model realizer =
          .err (.message "self.allocator.peek_space(&untyped_requirements)") realizer) := by
  constructor
  · intro counts
    rw [peekSpace_iff_mod aligned isBuilt kernelState run (by simp)]
    exact mod_le_mod_iff (by decide)
  · rintro realizer model rfl
    refine ⟨?_, Realizer.realizeStart_eq model, Realizer.realizeStart_of_not_admits⟩
    rw [Realizer.admits_iff fun counts short =>
        peekSpace_iff_mod aligned isBuilt kernelState run short,
      mod_le_mod_iff_cases (by decide), Model.Overlooked]
    have isMore := @Nat.not_le (model.asked platform.sizes)
      realizer.machine.allocator.leafNodes.space
    tauto

open Realms

theorem admission_exact_iff_exampleBuilder : ∃ allocator,
    exampleBuilder.build = some allocator ∧
      ((allocator.peekSpace ((Vector.replicate 64 0).toList.map UInt64.toNat) = true ↔
        Allocator.requested ((Vector.replicate 64 0).toList.map UInt64.toNat) ≤
          allocator.leafNodes.space) ↔
      ¬ ComesAround (2 ^ 64) (Allocator.requested ((Vector.replicate 64 0).toList.map UInt64.toNat))
          allocator.leafNodes.space ∧
        ¬ FallsBehind (2 ^ 64)
          (Allocator.requested ((Vector.replicate 64 0).toList.map UInt64.toNat))
          allocator.leafNodes.space) ∧
      ((Realizer.Admits examplePlatform ⟨⟨allocator, ()⟩, exampleExterns, fun _ _ => 0⟩ exampleModel →
          exampleModel.asked exampleSizes ≤ allocator.leafNodes.space) ↔
        ¬ exampleModel.Overlooked exampleSizes allocator.leafNodes.space) := by
  obtain ⟨allocator, _, _, isBuilt, _⟩ := exampleBuilder_run
  obtain ⟨peeks, admits⟩ := @admission_exact_iff Unit examplePlatform _ _
    exampleBuilder_wellFormed.aligned isBuilt () _ .refl
  exact ⟨allocator, isBuilt, peeks (Vector.replicate 64 0),
    (admits ⟨⟨allocator, ()⟩, exampleExterns, fun _ _ => 0⟩ exampleModel rfl).1⟩

/-- An untyped of 2 ^ 32 + 12 bits, which is counted as one of 4 KiB. -/
def cutModel : Model := ⟨1, [⟨.localObj (.untyped 4294967308), "ram"⟩]⟩

/-- Where 20 KiB are free, two objects of half the address space pass, and so does the model. -/
theorem admission_overlooks : ∃ allocator, exampleBuilder.build = some allocator ∧
    ¬ (allocator.peekSpace (((Vector.replicate 64 0).set 63 2).toList.map UInt64.toNat) = true ↔
      Allocator.requested (((Vector.replicate 64 0).set 63 2).toList.map UInt64.toNat) ≤
        allocator.leafNodes.space) ∧
    Realizer.Admits examplePlatform ⟨⟨allocator, ()⟩, exampleExterns, fun _ _ => 0⟩ cutModel ∧
    allocator.leafNodes.space < cutModel.asked exampleSizes := by
  have evaluates : (exampleBuilder.build.map fun allocator =>
      (allocator.peekSpace (((Vector.replicate 64 0).set 63 2).toList.map UInt64.toNat),
        decide (Allocator.requested (((Vector.replicate 64 0).set 63 2).toList.map UInt64.toNat) ≤
          allocator.leafNodes.space),
        (Realizer.admission examplePlatform cutModel
          ⟨⟨allocator, ()⟩, exampleExterns, fun _ _ => 0⟩).isOk,
        decide (allocator.leafNodes.space < 2 ^ 64))) = some (true, false, true, true) := by
    decide +kernel
  obtain ⟨allocator, isBuilt, answers⟩ := Option.map_eq_some_iff.mp evaluates
  obtain ⟨passes, tooLarge, isOk, small⟩ := by simpa only [Prod.mk.injEq] using answers
  have isLess : allocator.leafNodes.space < 2 ^ 64 := of_decide_eq_true small
  refine ⟨allocator, isBuilt, fun exact => ?_, ?_, ?_⟩
  · exact absurd (exact.mp passes) (of_decide_eq_false tooLarge)
  · obtain ⟨blueprints, final, run⟩ := Outcome.isOk_iff.mp isOk
    obtain rfl := Realizer.admission_keeps.keeps _ _ _ run
    exact ⟨blueprints, run⟩
  · have isWanted : .untyped 4294967308 ∈ cutModel.wanted exampleSizes := by
      simp [Model.wanted, cutModel, TopObj.blueprint?, blueprintOf]
    have isLarge : 64 ≤ exactSizeBits exampleSizes (.untyped 4294967308) :=
      show 64 ≤ 4294967308 by decide
    exact isLess.trans_le ((Nat.pow_le_pow_right (by decide) isLarge).trans (le_memory isWanted))

end Exactness

end IceCap.Dyndl
