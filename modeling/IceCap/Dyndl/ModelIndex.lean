import IceCap.Dyndl.RealizerExterns
import IceCap.Library.Positions

/-!
# The view of a model is an index

`ModelView::new` splits the objects of a model into the local ones, sorted by
size and kind, and the extern ones, and `reverse` has for every object its
position among those of its kind.  The slots of a realm's objects and its extern
capabilities are lists in the order of the view; so `reverse` finds the
capability of an object.
-/

set_option autoImplicit false

namespace IceCap.Dyndl

open IceCap.Library IceCap.Sel4

namespace Model

variable {model : Model} {i : Nat}

def IsLocal (model : Model) (i : Nat) : Prop :=
  ∃ obj, (model.objects[i]?).map TopObj.object = some (.localObj obj)

def IsExtern (model : Model) (i : Nat) : Prop :=
  ∃ obj, (model.objects[i]?).map TopObj.object = some (.externObj obj)

theorem IsLocal.not_isExtern (isLocal : model.IsLocal i) : ¬ model.IsExtern i := by
  intro isExtern
  obtain ⟨obj, isLocal⟩ := isLocal
  obtain ⟨ext, isExtern⟩ := isExtern
  simp [isLocal] at isExtern

theorem IsLocal.lt (isLocal : model.IsLocal i) : i < model.objects.length := by
  obtain ⟨obj, isLocal⟩ := isLocal
  obtain ⟨top, isTop, _⟩ := Option.map_eq_some_iff.mp isLocal
  exact (List.getElem?_eq_some_iff.mp isTop).1

theorem IsExtern.lt (isExtern : model.IsExtern i) : i < model.objects.length := by
  obtain ⟨obj, isExtern⟩ := isExtern
  obtain ⟨top, isTop, _⟩ := Option.map_eq_some_iff.mp isExtern
  exact (List.getElem?_eq_some_iff.mp isTop).1

end Model

namespace ModelView

variable {sizes : Sizes} {model : Model} {view : ModelView} {bound : Nat}

/-- The objects below the bound have been visited, and the view is in order as far as that. -/
structure Indexes (sizes : Sizes) (model : Model) (bound : Nat) (view : ModelView) : Prop where
  length : view.reverse.length = model.objects.length
  localsNodup : view.localObjects.Nodup
  externsNodup : view.externObjects.Nodup
  locals : ∀ i, i ∈ view.localObjects ↔ i < bound ∧ model.IsLocal i
  externs : ∀ i, i ∈ view.externObjects ↔ i < bound ∧ model.IsExtern i
  sorted : view.localObjects.Pairwise fun i j => sortKey sizes model i ≤ sortKey sizes model j
  reverseLocal : ∀ index i : Nat, view.localObjects[index]? = some i → view.reverse[i]? = some index
  reverseExtern : ∀ index i : Nat, view.externObjects[index]? = some i → view.reverse[i]? = some index

theorem sortLocals_perm (locals : List Nat) : (sortLocals sizes model locals).Perm locals :=
  List.perm_insertionSort _ locals

theorem sortLocals_sorted (locals : List Nat) : (sortLocals sizes model locals).Pairwise
    fun i j => sortKey sizes model i ≤ sortKey sizes model j := by
  have total : Std.Total fun i j => sortKey sizes model i ≤ sortKey sizes model j :=
    ⟨fun i j => le_total _ _⟩
  have transitive : IsTrans Nat fun i j => sortKey sizes model i ≤ sortKey sizes model j :=
    ⟨fun _ _ _ => le_trans⟩
  exact List.pairwise_insertionSort _ locals

/-- The end of a round: the locals are sorted and their positions are written anew. -/
theorem Indexes.sort {locals externs reverse : List Nat}
    (length : reverse.length = model.objects.length)
    (localsNodup : locals.Nodup) (externsNodup : externs.Nodup)
    (isLocal : ∀ i, i ∈ locals ↔ i < bound ∧ model.IsLocal i)
    (isExtern : ∀ i, i ∈ externs ↔ i < bound ∧ model.IsExtern i)
    (reverseExtern : ∀ index i : Nat, externs[index]? = some i → reverse[i]? = some index) :
    Indexes sizes model bound ⟨sortLocals sizes model locals, externs,
      writePositions (sortLocals sizes model locals).zipIdx reverse⟩ where
  length := (length_writePositions _ _).trans length
  localsNodup := (sortLocals_perm locals).nodup_iff.mpr localsNodup
  externsNodup := externsNodup
  locals i := (sortLocals_perm locals).mem_iff.trans (isLocal i)
  externs := isExtern
  sorted := sortLocals_sorted locals
  reverseLocal := by
    intro index i isEntry
    have member := (sortLocals_perm locals).mem_iff.mp (List.mem_of_getElem? isEntry)
    rw [writePositions_of_getElem? ((sortLocals_perm locals).nodup_iff.mpr localsNodup) isEntry
      (by rw [length]; exact ((isLocal i).mp member).2.lt), Nat.zero_add]
  reverseExtern := by
    intro index i isEntry
    have notLocal : i ∉ sortLocals sizes model locals := by
      intro member
      have local' := ((isLocal i).mp ((sortLocals_perm locals).mem_iff.mp member)).2
      exact local'.not_isExtern ((isExtern i).mp (List.mem_of_getElem? isEntry)).2
    rw [writePositions_of_not_mem notLocal]
    exact reverseExtern index i isEntry

/-- What is visited next joins the objects of its kind. -/
theorem mem_concat_iff {objects : List Nat} {kind : Nat → Prop}
    (holds : ∀ i, i ∈ objects ↔ i < bound ∧ kind i) (isKind : kind bound) (i : Nat) :
    i ∈ objects ++ [bound] ↔ i < bound + 1 ∧ kind i := by
  rw [List.mem_append, List.mem_singleton, holds]
  constructor
  · intro member
    rcases member with ⟨below, isI⟩ | rfl
    · exact ⟨by omega, isI⟩
    · exact ⟨by omega, isKind⟩
  · intro member
    by_cases isLast : i = bound
    · exact .inr isLast
    · exact .inl ⟨by omega, member.2⟩

theorem mem_skip_iff {objects : List Nat} {kind : Nat → Prop}
    (holds : ∀ i, i ∈ objects ↔ i < bound ∧ kind i) (notKind : ¬ kind bound) (i : Nat) :
    i ∈ objects ↔ i < bound + 1 ∧ kind i := by
  rw [holds]
  constructor
  · exact fun member => ⟨by omega, member.2⟩
  · intro member
    have differs : i ≠ bound := fun isLast => notKind (isLast ▸ member.2)
    exact ⟨by omega, member.2⟩

theorem nodup_concat {objects : List Nat} {kind : Nat → Prop}
    (holds : ∀ i, i ∈ objects ↔ i < bound ∧ kind i) (distinct : objects.Nodup) :
    (objects ++ [bound]).Nodup := by
  have isNew : bound ∉ objects := fun member => Nat.lt_irrefl _ ((holds bound).mp member).1
  exact List.nodup_append.mpr ⟨distinct, List.nodup_singleton _, fun i member j isLast same =>
    isNew (by rw [← List.mem_singleton.mp isLast, ← same]; exact member)⟩

/-- One round of the loop. -/
theorem Indexes.visit {kind : AnyObj}
    (isObject : (model.objects.map TopObj.object)[bound]? = some kind)
    (indexes : Indexes sizes model bound view) :
    Indexes sizes model (bound + 1) (view.visit sizes model (kind, bound)) := by
  rw [List.getElem?_map] at isObject
  cases kind with
  | localObj obj =>
      have isLocal : model.IsLocal bound := ⟨obj, isObject⟩
      exact .sort indexes.length (nodup_concat indexes.locals indexes.localsNodup)
        indexes.externsNodup (mem_concat_iff indexes.locals isLocal)
        (mem_skip_iff indexes.externs isLocal.not_isExtern) indexes.reverseExtern
  | externObj obj =>
      have isExtern : model.IsExtern bound := ⟨obj, isObject⟩
      refine .sort (List.length_set.trans indexes.length) indexes.localsNodup
        (nodup_concat indexes.externs indexes.externsNodup)
        (mem_skip_iff indexes.locals fun isLocal => isLocal.not_isExtern isExtern)
        (mem_concat_iff indexes.externs isExtern) ?_
      intro index i isEntry
      rw [List.getElem?_append] at isEntry
      split at isEntry
      · have member := (indexes.externs i).mp (List.mem_of_getElem? isEntry)
        rw [List.getElem?_set_ne (by omega)]
        exact indexes.reverseExtern index i isEntry
      · obtain ⟨isLast, rfl⟩ := List.getElem?_eq_some_iff.mp isEntry
        rw [List.length_singleton] at isLast
        have isIndex : index = view.externObjects.length := by omega
        simp [isIndex, indexes.length, isExtern.lt]

theorem new_indexes (sizes : Sizes) (model : Model) :
    Indexes sizes model model.objects.length (new sizes model) := by
  have starts : Indexes sizes model 0 ⟨[], [], List.replicate model.objects.length 0⟩ := by
    refine ⟨List.length_replicate, List.nodup_nil, List.nodup_nil, ?_, ?_, List.Pairwise.nil, ?_, ?_⟩
      <;> simp
  have visited := @foldl_zipIdx_induction _ _ (model.objects.map TopObj.object) _ _
    (Indexes sizes model) (fun n view kind isObject indexes => indexes.visit isObject) starts
  rwa [List.length_map] at visited

/-- `reverse` of an object is its position among those of its kind. -/
theorem Indexes.position_local (indexes : Indexes sizes model model.objects.length view) {i : Nat}
    (isLocal : model.IsLocal i) :
    ∃ index : Nat, view.reverse[i]? = some index ∧ view.localObjects[index]? = some i := by
  have member := (indexes.locals i).mpr ⟨isLocal.lt, isLocal⟩
  obtain ⟨index, isIndex⟩ := List.mem_iff_getElem?.mp member
  exact ⟨index, indexes.reverseLocal index i isIndex, isIndex⟩

theorem Indexes.position_extern (indexes : Indexes sizes model model.objects.length view) {i : Nat}
    (isExtern : model.IsExtern i) :
    ∃ index : Nat, view.reverse[i]? = some index ∧ view.externObjects[index]? = some i := by
  have member := (indexes.externs i).mpr ⟨isExtern.lt, isExtern⟩
  obtain ⟨index, isIndex⟩ := List.mem_iff_getElem?.mp member
  exact ⟨index, indexes.reverseExtern index i isIndex, isIndex⟩

end ModelView

/-! ## The slots of the objects -/

/-- What is looked up for every item of a list. -/
theorem getElem?_of_mapM {α β : Type} {look : α → Option β} {items : List α} {found : List β}
    (run : items.mapM look = some found) (index : Nat) :
    found[index]? = (items[index]?).bind look := by
  induction items generalizing found index with
  | nil =>
      obtain rfl : [] = found := by simpa using run
      rfl
  | cons item items ih =>
      simp only [List.mapM_cons, Option.bind_eq_bind, Option.bind_eq_some_iff, Option.pure_def,
        Option.some.injEq] at run
      obtain ⟨first, isFirst, rest, isRest, rfl⟩ := run
      cases index with
      | zero => exact isFirst.symm
      | succ index => exact ih isRest index

theorem length_of_mapM {α β : Type} {look : α → Option β} {items : List α} {found : List β}
    (run : items.mapM look = some found) : found.length = items.length := by
  induction items generalizing found with
  | nil =>
      obtain rfl : [] = found := by simpa using run
      rfl
  | cons item items ih =>
      simp only [List.mapM_cons, Option.bind_eq_bind, Option.bind_eq_some_iff, Option.pure_def,
        Option.some.injEq] at run
      obtain ⟨first, isFirst, rest, isRest, rfl⟩ := run
      rw [List.length_cons, List.length_cons, ih isRest]

theorem getElem?_filterMap_of_isSome {α β : Type} {look : α → Option β} {items : List α}
    (present : ∀ item ∈ items, (look item).isSome = true) (index : Nat) :
    (items.filterMap look)[index]? = (items[index]?).bind look := by
  induction items generalizing index with
  | nil => rfl
  | cons item items ih =>
      obtain ⟨first, isFirst⟩ := Option.isSome_iff_exists.mp (present item List.mem_cons_self)
      rw [List.filterMap_cons_some isFirst]
      cases index with
      | zero => exact isFirst.symm
      | succ index => exact ih (fun other member => present other (List.mem_cons_of_mem _ member)) index

namespace Allocator

variable {K : Type} {sizes : Sizes} {kernel : Kernel K}

/-- The call creates an object of the blueprint in the slot, once it has created those before the
index. -/
def Puts (sizes : Sizes) (kernel : Kernel K) (blueprints : List ObjectBlueprint) (cregion : CRegion)
    (state : Machine K) (index : Nat) (slot : Slot) (blueprint : ObjectBlueprint) : Prop :=
  ∃ earlier middle next untypedId after,
    createObjects sizes kernel (blueprints.take index) cregion state = .ok earlier middle ∧
    earlier.1.alloc = some (some slot, next) ∧
    createObject sizes kernel next.root slot blueprint middle = .ok untypedId after

theorem createObjects_puts (blueprints : List ObjectBlueprint) :
    ∀ {cregion cregion' : CRegion} {slots : List Slot} {untypedIds : List UntypedId}
      {state final : Machine K},
      createObjects sizes kernel blueprints cregion state = .ok (cregion', slots, untypedIds) final →
      ∀ (index : Nat) (blueprint : ObjectBlueprint), blueprints[index]? = some blueprint →
        ∃ slot, slots[index]? = some slot ∧
          Puts sizes kernel blueprints cregion state index slot blueprint := by
  induction blueprints with
  | nil =>
      intro cregion cregion' slots untypedIds state final run index blueprint isBlueprint
      simp at isBlueprint
  | cons first blueprints ih =>
      intro cregion cregion' slots untypedIds state final run index blueprint isBlueprint
      simp only [createObjects, Exec.bind_eq_ok, Exec.unwrap_eq_ok, Exec.pure_eq_ok,
        Prod.mk.injEq] at run
      obtain ⟨⟨answer, next⟩, _, ⟨allocated, rfl⟩, slot, _, ⟨isSlot, rfl⟩, untypedId, middle,
        objectRun, rest, last, restRun, ⟨_, rfl, _⟩, rfl⟩ := run
      obtain rfl : answer = some slot := isSlot
      cases index with
      | zero =>
          obtain rfl : first = blueprint := by simpa using isBlueprint
          exact ⟨slot, rfl, (cregion, [], []), state, next, untypedId, middle, rfl, allocated,
            objectRun⟩
      | succ index =>
          obtain ⟨found, isFound, earlier, before, following, id, after, earlierRun, alloc, created⟩ :=
            ih restRun index blueprint isBlueprint
          refine ⟨found, isFound, (earlier.1, slot :: earlier.2.1, untypedId :: earlier.2.2), before,
            following, id, after, ?_, alloc, created⟩
          simp only [List.take_succ_cons, createObjects, Exec.bind_eq_ok, Exec.unwrap_eq_ok,
            Exec.pure_eq_ok]
          exact ⟨_, state, ⟨allocated, rfl⟩, slot, state, ⟨rfl, rfl⟩, untypedId, middle, objectRun,
            earlier, before, earlierRun, rfl, rfl⟩

end Allocator

/-! ## The capabilities of the objects -/

namespace Realizer

variable {K : Type} {platform : Platform K} {resources : SubsystemObjectInitializationResources}
  {model : Model}

/-- With these externs taken, `realize_finish` has these capabilities for the objects. -/
structure Collects (subsystem : PartialSubsystem) (state : Realizer K) (taken : Externs × List CPtr)
    (caps : List CPtr) (last : Realizer K) : Prop where
  takes : Exec.foldEach subsystem.modelView.externObjects (∅, [])
    (takeExtern subsystem.model) state = .ok taken last
  collects : Exec.mapEach (subsystem.model.objects.map TopObj.object).zipIdx (fun object =>
    Exec.unwrap (capOf subsystem taken.2 object)) last = (.ok caps last : Outcome Failure _ _)

/-- It is these that the objects are initialized with. -/
theorem Collects.finish_eq {subsystem : PartialSubsystem} {state last : Realizer K}
    {taken : Externs × List CPtr} {caps : List CPtr}
    (collects : Collects subsystem state taken caps last) :
    realizeFinish platform resources subsystem state =
      (initializeObjects platform resources subsystem.model caps subsystem.cregion >>=
        fun virtualCores => (pure ⟨virtualCores, subsystem.cnodeUntypedId,
          subsystem.localObjectUntypedIds, taken.1⟩ : Exec Failure (Realizer K) Subsystem)) last := by
  rw [realizeFinish, Exec.bind_of_ok collects.takes, Exec.bind_of_ok collects.collects]

/-- The capability of an object as it was looked up. -/
theorem Collects.getElem? {subsystem : PartialSubsystem} {state last : Realizer K}
    {taken : Externs × List CPtr} {caps : List CPtr} {i : Nat} {kind : AnyObj}
    (collects : Collects subsystem state taken caps last)
    (isObject : (subsystem.model.objects[i]?).map TopObj.object = some kind) :
    caps[i]? = capOf subsystem taken.2 (kind, i) := by
  have looked := getElem?_of_mapM (mapEach_unwrap.mp collects.collects).1 i
  rw [looked, List.getElem?_zipIdx, List.getElem?_map, isObject]
  simp

/-- `ModelView::new` is an index of the objects of the model, and so `realize_finish` has for every
local object the capability of the slot that `create_objects` put it in, and for every extern
object that of its extern. -/
theorem modelView_correct (platform : Platform K) (resources : SubsystemObjectInitializationResources)
    (model : Model) :
    (ModelView.new platform.sizes model).localObjects.Nodup ∧
    (ModelView.new platform.sizes model).externObjects.Nodup ∧
    (∀ i, i ∈ (ModelView.new platform.sizes model).localObjects ↔ model.IsLocal i) ∧
    (∀ i, i ∈ (ModelView.new platform.sizes model).externObjects ↔ model.IsExtern i) ∧
    ((ModelView.new platform.sizes model).localObjects.Pairwise fun i j =>
      ModelView.sortKey platform.sizes model i ≤ ModelView.sortKey platform.sizes model j) ∧
    (∀ i, model.IsLocal i → ∃ index : Nat,
      (ModelView.new platform.sizes model).reverse[i]? = some index ∧
        (ModelView.new platform.sizes model).localObjects[index]? = some i) ∧
    (∀ i, model.IsExtern i → ∃ index : Nat,
      (ModelView.new platform.sizes model).reverse[i]? = some index ∧
        (ModelView.new platform.sizes model).externObjects[index]? = some i) ∧
    ∀ (state middle : Realizer K) (started : PartialSubsystem),
      realizeStart platform model state = .ok started middle →
      ∃ blueprints cregion cnode created,
        Allocator.createCnode platform.sizes platform.kernel (cnodeSizeBits platform.sizes model)
          state.machine = .ok (cregion, cnode) created ∧
        Allocator.createObjects platform.sizes platform.kernel blueprints cregion created =
          .ok (started.cregion, started.localObjectSlots, started.localObjectUntypedIds)
            middle.machine ∧
        ∀ (later last : Realizer K) (taken : Externs × List CPtr) (caps : List CPtr),
          Collects started later taken caps last →
          realizeFinish platform resources started later =
            (initializeObjects platform resources model caps started.cregion >>=
              fun virtualCores => (pure ⟨virtualCores, started.cnodeUntypedId,
                started.localObjectUntypedIds, taken.1⟩ : Exec Failure (Realizer K) Subsystem)) last ∧
          (∀ i obj, (model.objects[i]?).map TopObj.object = some (.localObj obj) →
            ∃ index slot, (ModelView.new platform.sizes model).localObjects[index]? = some i ∧
              Allocator.Puts platform.sizes platform.kernel blueprints cregion created index slot
                (blueprintOf obj) ∧
              caps[i]? = (started.cregion.cptrWithDepth slot).localCPtr) ∧
          ∀ (i : Nat) (name : String) (obj : ExternObj),
            model.objects[i]? = some (TopObj.mk (.externObj obj) name) →
            ∃ ext, later.externs[name]? = some ext ∧ caps[i]? = some ext.cptr := by
  have indexes := ModelView.new_indexes platform.sizes model
  have positionLocal := @indexes.position_local
  have positionExtern := @indexes.position_extern
  refine ⟨indexes.localsNodup, indexes.externsNodup,
    fun i => (indexes.locals i).trans ⟨And.right, fun isLocal => ⟨isLocal.lt, isLocal⟩⟩,
    fun i => (indexes.externs i).trans ⟨And.right, fun isExtern => ⟨isExtern.lt, isExtern⟩⟩,
    indexes.sorted, fun i => positionLocal, fun i => positionExtern,
    fun state middle started run => ?_⟩
  obtain ⟨blueprints, counts, cregion, cnodeUntypedId, realmSlot, created, objects, last,
    blueprintsRun, _, cnodeRun, objectsRun, rfl, rfl⟩ := realizeStart_eq_ok run
  refine ⟨blueprints, cregion, (cnodeUntypedId, realmSlot), created, cnodeRun, objectsRun,
    fun later last taken caps collects => ⟨collects.finish_eq, fun i obj isObject => ?_,
      fun i name obj isObject => ?_⟩⟩
  · obtain ⟨index, isReverse, isIndex⟩ := positionLocal ⟨obj, isObject⟩
    have isBlueprint : blueprints[index]? = some (blueprintOf obj) := by
      rw [getElem?_of_mapM (mapEach_unwrap.mp blueprintsRun).1 index, isIndex]
      simp [localBlueprint, isObject]
    obtain ⟨slot, isSlot, puts⟩ :=
      Allocator.createObjects_puts blueprints objectsRun index _ isBlueprint
    refine ⟨index, slot, isIndex, puts, (collects.getElem? isObject).trans ?_⟩
    simp [capOf, isReverse, isSlot]
  · have isKind : (model.objects[i]?).map TopObj.object = some (.externObj obj) := by
      rw [isObject]
      rfl
    obtain ⟨index, isReverse, isIndex⟩ := positionExtern ⟨obj, isKind⟩
    obtain ⟨present, isTaken⟩ := takeExterns_caps collects.takes
    obtain ⟨ext, isExt⟩ := Option.isSome_iff_exists.mp (present i (List.mem_of_getElem? isIndex))
    refine ⟨ext, by simpa [externOf, isObject] using isExt, (collects.getElem? isKind).trans ?_⟩
    simp [capOf, isReverse, isTaken, getElem?_filterMap_of_isSome present, isIndex, isExt]

end Realizer

end IceCap.Dyndl
