import IceCap.Dyndl.ModelIndex
import IceCap.Library.Funding

/-!
# The realm's CNode is large enough

`realize_start` makes the CNode for the local objects and for the entries of the
page tables and page directories that map frames.  `init_vspaces` takes a slot
for every frame it maps on its way through the page tables, and a table that is
named twice would be walked through twice.  But the kernel refuses to map it the
second time; so every table is walked through at most once, and the slots were
counted for that.
-/

set_option autoImplicit false

namespace IceCap.Dyndl

open IceCap.Library IceCap.Sel4

/-! ## The steps of `init_vspaces` -/

/-- The levels of page tables below the PGD. -/
inductive Level where
  | pud
  | pd
  | pt
  deriving DecidableEq

namespace Level

def ofObj : Obj → Option Level
  | .pud _ => some .pud
  | .pd _ => some .pd
  | .pt _ => some .pt
  | _ => none

def map : Level → CPtr → CPtr → UInt64 → Invocation
  | .pud, table, pgd, vaddr => .pudMap table pgd vaddr .default
  | .pd, table, pgd, vaddr => .pdMap table pgd vaddr .default
  | .pt, table, pgd, vaddr => .ptMap table pgd vaddr .default

end Level

/-- What `init_vspaces` does one after the other; a frame is mapped for an entry of its owner. -/
inductive VspaceStep where
  | assign (i : ObjId)
  | table (level : Level) (pgd : CPtr) (vaddr : UInt64) (i : ObjId)
  | frame (owner : ObjId) (pgd : CPtr) (vaddr : UInt64) (page : Cap.Page)

namespace VspaceStep

/-- The table whose entries come next. -/
def opens : VspaceStep → Option ObjId
  | .table _ _ _ i => some i
  | _ => none

/-- The owner of the entry that a slot is taken for. -/
def spends : VspaceStep → Option ObjId
  | .frame owner _ _ _ => some owner
  | _ => none

variable (model : Model)

def kindAt (i : ObjId) : Option AnyObj := (model.objects[i]?).map TopObj.object

def ofPT (pgd : CPtr) (vaddr : UInt64) (i : ObjId) : List VspaceStep :=
  .table .pt pgd vaddr i ::
    match kindAt model i with
    | some (.localObj (.pt entries)) => entries.toList.map fun entry =>
        .frame i pgd (vaddr + (UInt64.ofNat entry.1 <<< 12)) entry.2
    | _ => []

def ofPDEntry (pgd : CPtr) (vaddr : UInt64) (owner : ObjId) : PDEntry → List VspaceStep
  | .largePage page => [.frame owner pgd vaddr page]
  | .pt i => ofPT model pgd vaddr i

def ofPD (pgd : CPtr) (vaddr : UInt64) (i : ObjId) : List VspaceStep :=
  .table .pd pgd vaddr i ::
    match kindAt model i with
    | some (.localObj (.pd entries)) => entries.toList.flatMap fun entry =>
        ofPDEntry model pgd (vaddr + (UInt64.ofNat entry.1 <<< 21)) i entry.2
    | _ => []

def ofPUD (pgd : CPtr) (vaddr : UInt64) (i : ObjId) : List VspaceStep :=
  .table .pud pgd vaddr i ::
    match kindAt model i with
    | some (.localObj (.pud entries)) => entries.toList.flatMap fun entry =>
        ofPD model pgd (vaddr + (UInt64.ofNat entry.1 <<< 30)) entry.2
    | _ => []

variable (caps : List CPtr)

def ofObject (object : TopObj × Nat) : List VspaceStep :=
  match object.1.object with
  | .localObj (.pgd entries) => .assign object.2 ::
      match caps[object.2]? with
      | some pgd => entries.toList.flatMap fun entry =>
          ofPUD model pgd (UInt64.ofNat entry.1 <<< 39) entry.2
      | none => []
  | _ => []

def ofModel : List VspaceStep := model.objects.zipIdx.flatMap (ofObject model caps)

end VspaceStep

namespace Initialize

variable {K : Type} (platform : Platform K) (resources : SubsystemObjectInitializationResources)
  (model : Model) (caps : List CPtr)

def perform : VspaceStep → Exec Failure (Initialize K) Unit
  | .assign i => do
      let pgd ← cap caps i
      onKernel platform (.asidPoolAssign resources.asidPool pgd)
  | .table level pgd vaddr i => do
      let found ← obj model i
      Exec.assert (Level.ofObj found = some level)
      let table ← cap caps i
      onKernel platform (level.map table pgd vaddr)
  | .frame _ pgd vaddr page => initFrame platform caps pgd vaddr page

variable {platform resources model caps}

/-- Map the table of an object of the right kind. -/
def mapTable (platform : Platform K) (caps : List CPtr) (level : Level) (pgd : CPtr)
    (vaddr : UInt64) (i : ObjId) : Exec Failure (Initialize K) Unit := do
  let table ← cap caps i
  onKernel platform (level.map table pgd vaddr)

/-- A table is looked up, mapped and walked through. -/
theorem forEach_table {level : Level} {pgd : CPtr} {vaddr : UInt64} {i : ObjId}
    {walk : Obj → Exec Failure (Initialize K) Unit} {steps : List VspaceStep}
    (others : ∀ found, Level.ofObj found ≠ some level → walk found = Exec.panic)
    (same : ∀ found, VspaceStep.kindAt model i = some (.localObj found) →
      Level.ofObj found = some level → walk found =
        mapTable platform caps level pgd vaddr i >>= fun _ =>
          Exec.forEach steps (perform platform resources model caps)) :
    Exec.forEach (.table level pgd vaddr i :: steps) (perform platform resources model caps) =
      obj model i >>= walk := by
  rw [Exec.forEach_cons]
  funext state
  rw [Exec.bind_apply, Exec.bind_apply, perform, Exec.bind_apply, obj]
  cases isKind : (model.objects[i]?).map TopObj.object with
  | none => rfl
  | some kind =>
      cases kind with
      | externObj ext => rfl
      | localObj found =>
          have returns : (pure found : Exec Failure (Initialize K) Obj) state = .ok found state := rfl
          by_cases isLevel : Level.ofObj found = some level
          · simp only [returns, same found isKind isLevel, Exec.bind_apply, Exec.assert,
              if_pos isLevel]
            rfl
          · simp only [returns, others found isLevel, Exec.bind_apply, Exec.assert, if_neg isLevel]
            rfl

theorem initPT_eq {pgd : CPtr} {vaddr : UInt64} {i : ObjId} :
    initPT platform model caps pgd vaddr i =
      Exec.forEach (VspaceStep.ofPT model pgd vaddr i) (perform platform resources model caps) := by
  refine (forEach_table (fun found notLevel => ?_) fun found isKind isLevel => ?_).symm
  · cases found with
    | pt entries => exact absurd rfl notLevel
    | _ => rfl
  · cases found with
    | pt entries =>
        simp only [isKind, Exec.forEach_map, mapTable, Exec.bind_assoc]
        rfl
    | _ => simp [Level.ofObj] at isLevel

theorem initPD_eq {pgd : CPtr} {vaddr : UInt64} {i : ObjId} :
    initPD platform model caps pgd vaddr i =
      Exec.forEach (VspaceStep.ofPD model pgd vaddr i) (perform platform resources model caps) := by
  refine (forEach_table (fun found notLevel => ?_) fun found isKind isLevel => ?_).symm
  · cases found with
    | pd entries => exact absurd rfl notLevel
    | _ => rfl
  · cases found with
    | pd entries =>
        have each : (fun entry : Nat × PDEntry => Exec.forEach
            (VspaceStep.ofPDEntry model pgd (vaddr + (UInt64.ofNat entry.1 <<< 21)) i entry.2)
            (perform platform resources model caps)) = fun entry =>
          match entry.2 with
          | .largePage page =>
              initFrame platform caps pgd (vaddr + (UInt64.ofNat entry.1 <<< 21)) page
          | .pt i =>
              initPT platform model caps pgd (vaddr + (UInt64.ofNat entry.1 <<< 21)) i := by
          funext entry
          cases isEntry : entry.2 with
          | largePage page => exact Exec.forEach_singleton
          | pt j => exact initPT_eq.symm
        simp only [isKind, Exec.forEach_flatMap, each, mapTable, Exec.bind_assoc]
        rfl
    | _ => simp [Level.ofObj] at isLevel

theorem initPUD_eq {pgd : CPtr} {vaddr : UInt64} {i : ObjId} :
    initPUD platform model caps pgd vaddr i =
      Exec.forEach (VspaceStep.ofPUD model pgd vaddr i) (perform platform resources model caps) := by
  refine (forEach_table (fun found notLevel => ?_) fun found isKind isLevel => ?_).symm
  · cases found with
    | pud entries => exact absurd rfl notLevel
    | _ => rfl
  · cases found with
    | pud entries =>
        simp only [isKind, Exec.forEach_flatMap, ← initPD_eq, mapTable, Exec.bind_assoc]
        rfl
    | _ => simp [Level.ofObj] at isLevel

/-- `init_vspaces` is its steps one after the other. -/
theorem initVspaces_eq : initVspaces platform resources model caps =
    Exec.forEach (VspaceStep.ofModel model caps) (perform platform resources model caps) := by
  rw [initVspaces, VspaceStep.ofModel, Exec.forEach_flatMap]
  congr 1
  funext object
  rw [VspaceStep.ofObject]
  cases isObject : object.1.object with
  | externObj ext => rfl
  | localObj found =>
      cases found with
      | pgd entries =>
          cases isCap : caps[object.2]? with
          | none =>
              funext state
              simp [perform, cap, isCap, Exec.bind_apply, Exec.unwrap]
          | some pgd =>
              simp only [Exec.forEach_cons, perform, cap, isCap, Exec.forEach_flatMap, ← initPUD_eq]
              rfl
      | _ => rfl

end Initialize

/-! ## What is counted -/

namespace VspaceStep

variable {model : Model}

/-- The entries of an object that slots were counted for. -/
def mappingsOf (model : Model) (i : ObjId) : Nat :=
  match kindAt model i with
  | some (.localObj obj) => Realizer.frameMappings obj
  | _ => 0

theorem numFrameMappings_eq (localObjects : List Nat) :
    Realizer.numFrameMappings model localObjects = (localObjects.map (mappingsOf model)).sum := by
  rw [Realizer.numFrameMappings, ← Nat.zero_add (List.sum _)]
  generalize 0 = start
  induction localObjects generalizing start with
  | nil => rfl
  | cons i localObjects ih =>
      rw [List.foldl_cons, ih, List.map_cons, List.sum_cons, ← Nat.add_assoc]
      congr 1
      rw [mappingsOf, kindAt]
      cases (model.objects[i]?).map TopObj.object with
      | none => rfl
      | some kind =>
          cases kind with
          | localObj obj => rfl
          | externObj ext => rfl

variable {pgd : CPtr} {vaddr : UInt64} {i : ObjId}

/-- Every page of a page table is counted. -/
theorem ofPT_funded : Funded opens spends (mappingsOf model) (fun _ => 0) (ofPT model pgd vaddr i) := by
  unfold ofPT
  refine Funded.opening (show opens (.table .pt pgd vaddr i) = some i from rfl) rfl ?_
  cases isKind : kindAt model i with
  | none => exact Funded.nil
  | some kind =>
      cases kind with
      | externObj ext => exact Funded.nil
      | localObj found =>
          cases found with
          | pt entries =>
              have isWorth : mappingsOf model i = (entries.toList.filter fun _ => true).length := by
                simp [mappingsOf, isKind, Realizer.frameMappings]
              simp only [isWorth, List.map_eq_flatMap]
              apply Funded.flatMap_some
              intro entry _
              simpa using Funded.spending (show spends (.frame i pgd _ entry.2) = some i from rfl)
          | _ => exact Funded.nil

/-- Of the entries of a page directory the large pages are counted. -/
theorem ofPD_funded : Funded opens spends (mappingsOf model) (fun _ => 0) (ofPD model pgd vaddr i) := by
  unfold ofPD
  refine Funded.opening (show opens (.table .pd pgd vaddr i) = some i from rfl) rfl ?_
  cases isKind : kindAt model i with
  | none => exact Funded.nil
  | some kind =>
      cases kind with
      | externObj ext => exact Funded.nil
      | localObj found =>
          cases found with
          | pd entries =>
              have isWorth : mappingsOf model i =
                  (entries.toList.filter fun entry => Realizer.isLargePage entry.2).length := by
                simp [mappingsOf, isKind, Realizer.frameMappings]
              simp only [isWorth]
              apply Funded.flatMap_some
              intro entry _
              cases isEntry : entry.2 with
              | largePage page =>
                  simpa [Realizer.isLargePage, ofPDEntry] using
                    Funded.spending (show spends (.frame i pgd _ page) = some i from rfl)
              | pt j => simpa [Realizer.isLargePage, ofPDEntry] using ofPT_funded
          | _ => exact Funded.nil

theorem ofPUD_funded :
    Funded opens spends (mappingsOf model) (fun _ => 0) (ofPUD model pgd vaddr i) := by
  unfold ofPUD
  refine Funded.opening (show opens (.table .pud pgd vaddr i) = some i from rfl) rfl ?_
  cases isKind : kindAt model i with
  | none => exact Funded.nil
  | some kind =>
      cases kind with
      | externObj ext => exact Funded.nil
      | localObj found =>
          cases found with
          | pud entries => exact (Funded.flatMap_free fun entry _ => ofPD_funded).mono (by simp)
          | _ => exact Funded.nil

theorem ofModel_funded {caps : List CPtr} :
    Funded opens spends (mappingsOf model) (fun _ => 0) (ofModel model caps) := by
  apply Funded.flatMap_free
  intro object _
  unfold ofObject
  split
  · next entries _ =>
      apply Funded.cons_neutral rfl rfl
      split
      · exact Funded.flatMap_free fun entry _ => ofPUD_funded
      · exact Funded.nil
  · exact Funded.nil

end VspaceStep

/-! ## The kernel's part -/

/-- The table an invocation maps. -/
def mapsTable : Invocation → Option CPtr
  | .pudMap table _ _ _ => some table
  | .pdMap table _ _ _ => some table
  | .ptMap table _ _ _ => some table
  | _ => none

/-- The invocations of `init_vspaces`. -/
def isMapping : Invocation → Bool
  | .asidPoolAssign _ _ => true
  | .pudMap _ _ _ _ => true
  | .pdMap _ _ _ _ => true
  | .ptMap _ _ _ _ => true
  | .frameMap _ _ _ _ _ => true
  | .copy _ _ _ => true
  | _ => false

/-- The kernel returns an error when a PUD, PD or PT that is mapped is mapped again. -/
structure RefusesRemap {K : Type} (kernel : Kernel K) (mapped : CPtr → K → Prop) : Prop where
  granted : ∀ invocation table state, mapsTable invocation = some table →
    (kernel.invoke invocation state).1 = none → mapped table (kernel.invoke invocation state).2
  kept : ∀ invocation table state, isMapping invocation = true → mapped table state →
    mapped table (kernel.invoke invocation state).2
  refused : ∀ invocation table state, mapsTable invocation = some table → mapped table state →
    (kernel.invoke invocation state).1 ≠ none

namespace Initialize

variable {K : Type} {platform : Platform K} {resources : SubsystemObjectInitializationResources}
  {model : Model} {caps : List CPtr} {mapped : CPtr → K → Prop} {state final : Initialize K} {n : Nat}

theorem onKernel_eq_ok {invocation : Invocation}
    (run : onKernel platform invocation state = .ok () final) :
    (platform.kernel.invoke invocation state.kernel).1 = none ∧
      final = { state with kernel := (platform.kernel.invoke invocation state.kernel).2 } := by
  obtain ⟨inner, granted, rfl⟩ := Exec.focus_eq_ok.mp run
  unfold Kernel.call at granted
  split at granted
  · next next answer =>
      obtain ⟨_, rfl⟩ := Outcome.ok.inj granted
      simp [answer]
  · simp at granted

theorem copy_eq_ok {frame copied : CPtr} (run : copy platform frame state = .ok copied final) :
    ∃ slot next dst src, state.cregion.alloc = some (some slot, next) ∧
      final = ⟨next, (platform.kernel.invoke (.copy dst src .allRights) state.kernel).2⟩ := by
  simp only [copy, Exec.bind_eq_ok, Exec.runs_eq_ok, Option.map_eq_some_iff, Exec.unwrap_eq_ok,
    Exec.get_eq_ok, Prod.mk.injEq] at run
  obtain ⟨answer, first, ⟨⟨found, next⟩, allocated, rfl, rfl⟩, slot, _, ⟨rfl, rfl⟩, _, _,
    ⟨rfl, rfl⟩, _, last, copyRun, _, rfl⟩ := run
  exact ⟨slot, next, _, _, allocated, (onKernel_eq_ok copyRun).2⟩

/-- A frame takes one slot. -/
theorem initFrame_eq_ok {pgd : CPtr} {vaddr : UInt64} {page : Cap.Page}
    (refuses : RefusesRemap platform.kernel mapped)
    (run : initFrame platform caps pgd vaddr page state = .ok () final) :
    (∃ slot, state.cregion.alloc = some (some slot, final.cregion)) ∧
      ∀ table, mapped table state.kernel → mapped table final.kernel := by
  simp only [initFrame, cap, Exec.bind_eq_ok, Exec.unwrap_eq_ok] at run
  obtain ⟨frame, _, ⟨_, rfl⟩, copied, middle, copyRun, mapRun⟩ := run
  obtain ⟨slot, next, dst, src, allocated, rfl⟩ := copy_eq_ok copyRun
  obtain ⟨_, rfl⟩ := onKernel_eq_ok mapRun
  exact ⟨⟨slot, allocated⟩, fun table isMapped =>
    refuses.kept _ _ _ rfl (refuses.kept _ _ _ rfl isMapped)⟩

/-- What a step that returns has done. -/
structure Performed (model : Model) (caps : List CPtr) (mapped : CPtr → K → Prop) (n : Nat)
    (step : VspaceStep) (state final : Initialize K) : Prop where
  kept : ∀ table, mapped table state.kernel → mapped table final.kernel
  opened : ∀ i, step.opens = some i → model.IsLocal i ∧ ∃ table, caps[i]? = some table ∧
    ¬ mapped table state.kernel ∧ mapped table final.kernel
  slots : state.cregion.HasFree (n + step.spends.toList.length) → final.cregion.HasFree n

theorem perform_performed {step : VspaceStep} (refuses : RefusesRemap platform.kernel mapped)
    (run : perform platform resources model caps step state = .ok () final) :
    Performed model caps mapped n step state final := by
  cases step with
  | assign i =>
      simp only [perform, cap, Exec.bind_eq_ok, Exec.unwrap_eq_ok] at run
      obtain ⟨pgd, _, ⟨_, rfl⟩, assignRun⟩ := run
      obtain ⟨_, rfl⟩ := onKernel_eq_ok assignRun
      exact ⟨fun table => refuses.kept _ _ _ rfl, fun i isOpened => by simp [VspaceStep.opens] at isOpened,
        fun hasFree => hasFree⟩
  | table level pgd vaddr i =>
      simp only [perform, cap, Exec.bind_eq_ok, Exec.unwrap_eq_ok, Exec.assert_eq_ok] at run
      obtain ⟨found, middle, objRun, _, _, ⟨isLevel, rfl⟩, table, _, ⟨isCap, rfl⟩, mapRun⟩ := run
      have isLocal : model.IsLocal i ∧ middle = state := by
        cases isObject : (model.objects[i]?).map TopObj.object with
        | none => simp [obj, isObject] at objRun
        | some kind =>
            cases kind with
            | externObj ext => simp [obj, isObject] at objRun
            | localObj found =>
                simp only [obj, isObject, Exec.pure_eq_ok] at objRun
                exact ⟨⟨found, isObject⟩, objRun.2.symm⟩
      obtain ⟨isLocal, rfl⟩ := isLocal
      obtain ⟨isGranted, rfl⟩ := onKernel_eq_ok mapRun
      have isTable : mapsTable (level.map table pgd vaddr) = some table := by cases level <;> rfl
      refine ⟨fun other => refuses.kept _ _ _ (by cases level <;> rfl), fun j isOpened => ?_,
        fun hasFree => hasFree⟩
      obtain rfl : i = j := by simpa [VspaceStep.opens] using isOpened
      exact ⟨isLocal, table, isCap, fun isMapped => refuses.refused _ _ _ isTable isMapped isGranted,
        refuses.granted _ _ _ isTable isGranted⟩
  | frame owner pgd vaddr page =>
      obtain ⟨⟨slot, allocated⟩, kept⟩ := initFrame_eq_ok refuses run
      refine ⟨kept, fun i isOpened => by simp [VspaceStep.opens] at isOpened, fun hasFree => ?_⟩
      obtain ⟨found, next, alloc, isFree⟩ := hasFree.alloc
      rw [allocated] at alloc
      obtain ⟨_, rfl⟩ := Prod.mk.inj (Option.some.inj alloc)
      exact isFree

/-- The steps so far have opened tables that were not mapped before, each once, and have taken a
slot for every frame. -/
theorem forEach_performed (refuses : RefusesRemap platform.kernel mapped) (done : List VspaceStep) :
    ∀ {state final : Initialize K},
      Exec.forEach done (perform platform resources model caps) state = .ok () final →
      (done.filterMap VspaceStep.opens).Nodup ∧
      (∀ i ∈ done.filterMap VspaceStep.opens, model.IsLocal i ∧
        ∃ table, caps[i]? = some table ∧ ¬ mapped table state.kernel) ∧
      (state.cregion.HasFree (n + (done.filterMap VspaceStep.spends).length) →
        final.cregion.HasFree n) := by
  induction done with
  | nil =>
      intro state final run
      obtain ⟨_, rfl⟩ := Exec.pure_eq_ok.mp run
      exact ⟨List.nodup_nil, by simp, fun hasFree => hasFree⟩
  | cons step done ih =>
      intro state final run
      obtain ⟨_, middle, first, rest⟩ := Exec.bind_eq_ok.mp run
      obtain ⟨once, unmapped, slots⟩ := ih rest
      have performed := @perform_performed K platform resources model caps mapped state middle
        (n + (done.filterMap VspaceStep.spends).length) step refuses first
      have others : ∀ i ∈ done.filterMap VspaceStep.opens, model.IsLocal i ∧
          ∃ table, caps[i]? = some table ∧ ¬ mapped table state.kernel := by
        intro i member
        obtain ⟨isLocal, table, isCap, notMapped⟩ := unmapped i member
        exact ⟨isLocal, table, isCap, fun isMapped => notMapped (performed.kept table isMapped)⟩
      have spendsSlots : (step :: done).filterMap VspaceStep.spends =
          step.spends.toList ++ done.filterMap VspaceStep.spends := by
        rw [List.filterMap_cons]
        cases step.spends <;> rfl
      refine ⟨?_, ?_, fun hasFree => slots (performed.slots (hasFree.mono ?_))⟩
      · rw [List.filterMap_cons]
        cases isOpened : step.opens with
        | none => exact once
        | some i =>
            obtain ⟨_, table, isCap, _, nowMapped⟩ := performed.opened i isOpened
            refine List.nodup_cons.mpr ⟨fun member => ?_, once⟩
            obtain ⟨_, other, isOther, notMapped⟩ := unmapped i member
            obtain rfl := Option.some.inj (isCap.symm.trans isOther)
            exact notMapped nowMapped
      · rw [List.filterMap_cons]
        cases isOpened : step.opens with
        | none => exact others
        | some i =>
            obtain ⟨isLocal, table, isCap, notMapped, _⟩ := performed.opened i isOpened
            exact List.forall_mem_cons.mpr ⟨⟨isLocal, table, isCap, notMapped⟩, others⟩
      · rw [spendsSlots, List.length_append]
        omega

end Initialize

/-! ## The slots of the CNode -/

namespace Realizer

variable {K : Type} {platform : Platform K} {resources : SubsystemObjectInitializationResources}
  {model : Model}

theorem createObjects_hasFree {sizes : Sizes} {kernel : Kernel K} {n : Nat}
    (blueprints : List ObjectBlueprint) :
    ∀ {cregion : CRegion} {created : CRegion × List Slot × List UntypedId} {state final : Machine K},
      cregion.HasFree (n + blueprints.length) →
      Allocator.createObjects sizes kernel blueprints cregion state = .ok created final →
      created.1.HasFree n := by
  induction blueprints with
  | nil =>
      intro cregion created state final hasFree run
      obtain ⟨rfl, rfl⟩ := Exec.pure_eq_ok.mp run
      exact hasFree
  | cons blueprint blueprints ih =>
      intro cregion created state final hasFree run
      simp only [Allocator.createObjects, Exec.bind_eq_ok, Exec.unwrap_eq_ok, Exec.pure_eq_ok] at run
      obtain ⟨allocated, _, ⟨isAllocated, rfl⟩, slot, _, _, untypedId, middle, _, rest, last, restRun,
        rfl, rfl⟩ := run
      rw [List.length_cons, ← Nat.add_assoc] at hasFree
      obtain ⟨found, next, alloc, isFree⟩ := hasFree.alloc
      obtain rfl := Option.some.inj (isAllocated.symm.trans alloc)
      exact @ih next rest _ _ isFree restRun

theorem createCnode_new {sizes : Sizes} {kernel : Kernel K} {radix : Nat} {cregion : CRegion}
    {cnode : UntypedId × Slot} {state final : Machine K}
    (run : Allocator.createCnode sizes kernel radix state = .ok (cregion, cnode) final) :
    cregion.HasFree (2 ^ (radix % 64)) := by
  simp only [Allocator.createCnode, Exec.bind_eq_ok, Exec.get_eq_ok, Exec.unwrap_eq_ok,
    Exec.pure_eq_ok, Prod.mk.injEq] at run
  obtain ⟨slot, afterSlot, slotRun, _, _, ⟨rfl, rfl⟩, found, _, ⟨isNew, rfl⟩, _, _, _, _, _, _, _, _,
    _, _, _, _, _, _, _, ⟨rfl, _⟩, _⟩ := run
  exact CRegion.new_hasFree isNew

/-- A CNode too large for its size to be counted does not get past the assertion. -/
theorem cnodeSizeBits_lt {blueprints : List ObjectBlueprint} {counts : List Nat}
    {state : Realizer K} (fits : (ModelView.new platform.sizes model).localObjects.length +
      numFrameMappings model (ModelView.new platform.sizes model).localObjects < 2 ^ 64)
    (smallSlots : platform.sizes.slotBits + 64 < 2 ^ 32)
    (run : Exec.foldEach (.cnode (cnodeSizeBits platform.sizes model) :: blueprints)
      (List.replicate 64 0) (countSize platform) state = .ok counts state) :
    cnodeSizeBits platform.sizes model < 64 := by
  have most : cnodeSizeBits platform.sizes model ≤ 64 := Nat.size_le.mpr fits
  simp only [Exec.foldEach_cons, countSize, Exec.bind_eq_ok, Exec.assert_eq_ok,
    List.length_replicate, ObjectBlueprint.physicalSizeBits] at run
  obtain ⟨_, _, ⟨_, _, ⟨counted, _⟩, _⟩, _⟩ := run
  omega

/-- The CNode has slots for the objects and for the frames. -/
theorem cnode_hasFree {blueprints : List ObjectBlueprint} {counts : List Nat} {state : Realizer K}
    {cregion : CRegion} {cnode : UntypedId × Slot} {created : Machine K}
    (fits : (ModelView.new platform.sizes model).localObjects.length +
      numFrameMappings model (ModelView.new platform.sizes model).localObjects < 2 ^ 64)
    (smallSlots : platform.sizes.slotBits + 64 < 2 ^ 32)
    (blueprintsRun : Exec.mapEach (ModelView.new platform.sizes model).localObjects (fun i =>
      (Exec.unwrap (localBlueprint model i) : Exec Failure (Realizer K) _)) state =
        .ok blueprints state)
    (countsRun : Exec.foldEach (.cnode (cnodeSizeBits platform.sizes model) :: blueprints)
      (List.replicate 64 0) (countSize platform) state = .ok counts state)
    (cnodeRun : Allocator.createCnode platform.sizes platform.kernel
      (cnodeSizeBits platform.sizes model) state.machine = .ok (cregion, cnode) created) :
    cregion.HasFree
      (numFrameMappings model (ModelView.new platform.sizes model).localObjects +
        blueprints.length) := by
  have isLength : blueprints.length = (ModelView.new platform.sizes model).localObjects.length :=
    length_of_mapM (mapEach_unwrap.mp blueprintsRun).1
  have radix := cnodeSizeBits_lt fits smallSlots countsRun
  have large : (ModelView.new platform.sizes model).localObjects.length +
      numFrameMappings model (ModelView.new platform.sizes model).localObjects <
        2 ^ cnodeSizeBits platform.sizes model := Nat.lt_size_self _
  have hasFree := createCnode_new cnodeRun
  rw [Nat.mod_eq_of_lt radix] at hasFree
  exact hasFree.mono (by omega)

/-- Whenever a slot of the realm's CNode is allocated, for an object or for a frame, there is one.
The count of the slots is a `usize`, and the size of a slot a small constant of the kernel. -/
theorem cnode_suffices {mapped : CPtr → K → Prop} (refuses : RefusesRemap platform.kernel mapped)
    (fits : (ModelView.new platform.sizes model).localObjects.length +
      numFrameMappings model (ModelView.new platform.sizes model).localObjects < 2 ^ 64)
    (smallSlots : platform.sizes.slotBits + 64 < 2 ^ 32) (state : Realizer K) :
    (∀ blueprints counts cregion cnode created,
      Exec.mapEach (ModelView.new platform.sizes model).localObjects (fun i =>
        (Exec.unwrap (localBlueprint model i) : Exec Failure (Realizer K) _)) state =
          .ok blueprints state →
      Exec.foldEach (.cnode (cnodeSizeBits platform.sizes model) :: blueprints)
        (List.replicate 64 0) (countSize platform) state = .ok counts state →
      Allocator.createCnode platform.sizes platform.kernel (cnodeSizeBits platform.sizes model)
        state.machine = .ok (cregion, cnode) created →
      ∀ (index : Nat) (earlier : CRegion × List Slot × List UntypedId) (middle : Machine K),
        index < blueprints.length →
        Allocator.createObjects platform.sizes platform.kernel (blueprints.take index) cregion
          created = .ok earlier middle →
        ∃ slot next, earlier.1.alloc = some (some slot, next)) ∧
    ∀ started middle, realizeStart platform model state = .ok started middle →
      ∀ (caps : List CPtr) (kernel : K),
        Initialize.initVspaces platform resources model caps =
          Exec.forEach (VspaceStep.ofModel model caps)
            (Initialize.perform platform resources model caps) ∧
        ∀ done owner pgd vaddr page rest last,
          VspaceStep.ofModel model caps = done ++ .frame owner pgd vaddr page :: rest →
          Exec.forEach done (Initialize.perform platform resources model caps)
            ⟨started.cregion, kernel⟩ = .ok () last →
          ∃ slot next, last.cregion.alloc = some (some slot, next) := by
  constructor
  · intro blueprints counts cregion cnode created blueprintsRun countsRun cnodeRun index earlier
      middle inBounds run
    have hasFree := cnode_hasFree fits smallSlots blueprintsRun countsRun cnodeRun
    have left : earlier.1.HasFree (0 + 1) := by
      refine createObjects_hasFree _ (hasFree.mono ?_) run
      rw [List.length_take]
      omega
    obtain ⟨slot, next, allocated, _⟩ := left.alloc
    exact ⟨slot, next, allocated⟩
  · intro started middle run caps kernel
    refine ⟨Initialize.initVspaces_eq, fun done owner pgd vaddr page rest last isNext doneRun => ?_⟩
    obtain ⟨blueprints, counts, cregion, cnodeUntypedId, realmSlot, created, objects, final,
      blueprintsRun, countsRun, cnodeRun, objectsRun, rfl, rfl⟩ := realizeStart_eq_ok run
    have hasFree := cnode_hasFree fits smallSlots blueprintsRun countsRun cnodeRun
    have slots : objects.1.HasFree
        (numFrameMappings model (ModelView.new platform.sizes model).localObjects) :=
      createObjects_hasFree _ hasFree objectsRun
    have indexes := ModelView.new_indexes platform.sizes model
    -- What has been taken so far is less than what was counted.
    have performed := fun n => @Initialize.forEach_performed K platform resources model caps mapped n
      refuses done _ _ doneRun
    obtain ⟨once, isLocal, _⟩ := performed 0
    have few := VspaceStep.ofModel_funded.spent_lt isNext rfl rfl once indexes.localsNodup
      fun i member => (indexes.locals i).mpr ⟨(isLocal i member).1.lt, (isLocal i member).1⟩
    rw [← VspaceStep.numFrameMappings_eq] at few
    have left : last.cregion.HasFree (0 + 1) := (performed (0 + 1)).2.2 (slots.mono (by omega))
    obtain ⟨slot, next, allocated, _⟩ := left.alloc
    exact ⟨slot, next, allocated⟩

end Realizer

/-- A kernel that remembers which tables are mapped. -/
def remembering : Kernel (List CPtr) where
  invoke call mapped :=
    match mapsTable call with
    | some table => if table ∈ mapped then (some .invalidCapability, mapped) else (none, table :: mapped)
    | none => (none, mapped)

theorem remembering_refuses : RefusesRemap remembering fun table mapped => table ∈ mapped where
  granted invocation table mapped isTable isGranted := by
    simp only [remembering, isTable] at isGranted ⊢
    split at isGranted
    · simp at isGranted
    · next notMapped => simp [notMapped]
  kept invocation table mapped _ isMapped := by
    simp only [remembering]
    split
    · split
      · exact isMapped
      · exact List.mem_cons_of_mem _ isMapped
    · exact isMapped
  refused invocation table mapped isTable isMapped := by simp [remembering, isTable, isMapped]

/-- One page, mapped through a table of every level. -/
def tablesModel : Model where
  numNodes := 1
  objects :=
    [⟨.localObj (.pgd (Std.TreeMap.ofList [(0, 1)])), "pgd"⟩,
      ⟨.localObj (.pud (Std.TreeMap.ofList [(0, 2)])), "pud"⟩,
      ⟨.localObj (.pd (Std.TreeMap.ofList [(0, PDEntry.pt 3)])), "pd"⟩,
      ⟨.localObj (.pt (Std.TreeMap.ofList [(0, Cap.Page.mk 4 ⟨true, true, false, false⟩ true)])),
        "pt"⟩,
      ⟨.localObj (.smallPage []), "page"⟩]

def tablesPlatform : Platform (List CPtr) := ⟨exampleSizes, remembering, fun _ => 0, fun _ => []⟩

/-- An untyped for every object of `tablesModel` and for the CNode. -/
def tablesBuilder : AllocatorBuilder :=
  { Realms.exampleRealmBuilder with untyped := [⟨3, ⟨0x1000, 12⟩⟩, ⟨4, ⟨0x2000, 12⟩⟩, ⟨5, ⟨0x3000, 12⟩⟩,
      ⟨6, ⟨0x4000, 12⟩⟩, ⟨7, ⟨0x5000, 12⟩⟩, ⟨8, ⟨0x6000, 8⟩⟩] }

/-- Whether the steps before the last one that maps a page are made. -/
def initializesTables (allocator : Allocator) : Bool :=
  match Realizer.realizeStart tablesPlatform tablesModel ⟨⟨allocator, []⟩, ∅, fun _ _ => 0⟩ with
  | .ok started _ => (Exec.forEach ((VspaceStep.ofModel tablesModel [1, 2, 3, 4, 5]).take 4)
      (Initialize.perform tablesPlatform Realms.exampleResources tablesModel [1, 2, 3, 4, 5])
      ⟨started.cregion, []⟩).isOk
  | _ => false

theorem cnode_suffices_tables : ∃ allocator started middle last slot next,
    tablesBuilder.build = some allocator ∧
      Realizer.realizeStart tablesPlatform tablesModel ⟨⟨allocator, []⟩, ∅, fun _ _ => 0⟩ =
        .ok started middle ∧
      Exec.forEach ((VspaceStep.ofModel tablesModel [1, 2, 3, 4, 5]).take 4)
        (Initialize.perform tablesPlatform Realms.exampleResources tablesModel [1, 2, 3, 4, 5])
        ⟨started.cregion, []⟩ = .ok () last ∧
      last.cregion.alloc = some (some slot, next) := by
  have evaluates : tablesBuilder.build.map initializesTables = some true := by decide +kernel
  obtain ⟨allocator, isBuilt, isOk⟩ := Option.map_eq_some_iff.mp evaluates
  unfold initializesTables at isOk
  split at isOk
  · next started middle run =>
      obtain ⟨_, last, doneRun⟩ := Outcome.isOk_iff.mp isOk
      have holds := @Realizer.cnode_suffices _ tablesPlatform Realms.exampleResources
        tablesModel _ remembering_refuses (by decide +kernel) (by decide)
        ⟨⟨allocator, []⟩, ∅, fun _ _ => 0⟩
      obtain ⟨slot, next, allocated⟩ := (holds.2 started middle run [1, 2, 3, 4, 5] []).2
        _ _ _ _ _ _ _ (List.take_append_drop 4 _).symm doneRun
      exact ⟨allocator, started, middle, last, slot, next, isBuilt, run, doneRun, allocated⟩
  · simp at isOk

end IceCap.Dyndl
