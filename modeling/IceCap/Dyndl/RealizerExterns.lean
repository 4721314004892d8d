import IceCap.Dyndl.RealizerSlots
import IceCap.Library.Recorded

/-!
# The externs of the realizer

The externs are there from the start and are handed out: `realize_finish` takes
those a model names out of the realizer, the subsystem holds them, and `destroy`
gives them back.  A call that returns an error after it has taken something
drops what it took.  Here the runs are those of calls that return either way.
-/

set_option autoImplicit false

namespace IceCap.Dyndl

open IceCap.Library IceCap.Sel4

variable {K : Type}

namespace Realizer

variable {platform : Platform K} {resources : SubsystemObjectInitializationResources}
  {state middle final : Realizer K} {subsystem : PartialSubsystem} {model : Model}

/-! ## Taking externs -/

/-- The extern with the name is with the realizer or has been taken, but not both. -/
def Apart (name : String) (taken : Externs) (state : Realizer K) : Prop :=
  ¬ (taken.contains name = true ∧ state.externs.contains name = true)

theorem takeExtern_eq_ok {taken next : Externs × List CPtr} {i : Nat}
    (run : takeExtern model taken i state = .ok next final) :
    ∃ object ext, model.objects[i]? = some object ∧ state.externs[object.name]? = some ext ∧
      next = (taken.1.insert object.name ext, taken.2 ++ [ext.cptr]) ∧
      final = { state with externs := state.externs.erase object.name } := by
  simp only [takeExtern, Exec.bind_eq_ok, Exec.unwrap_eq_ok] at run
  obtain ⟨object, _, ⟨isObject, rfl⟩, run⟩ := run
  cases isKind : object.object with
  | localObj _ => simp [isKind] at run
  | externObj obj =>
      simp only [isKind, Exec.bind_eq_ok, Exec.get_eq_ok, Exec.unwrap_eq_ok, Exec.modify_eq_ok,
        Exec.assert_eq_ok, Exec.pure_eq_ok] at run
      obtain ⟨_, _, ⟨rfl, rfl⟩, ext, _, ⟨isExtern, rfl⟩, _, _, rfl, _, _, ⟨_, rfl⟩, rfl, rfl⟩ := run
      exact ⟨object, ext, isObject, isExtern, rfl, rfl⟩

theorem takeExtern_infallible {taken : Externs × List CPtr} {i : Nat} :
    Exec.Infallible (takeExtern (K := K) model taken i) := by
  refine .bind (.unwrap _) fun object => ?_
  cases object.object with
  | localObj _ => exact .panic
  | externObj _ =>
      exact .bind .get fun _ => .bind (.unwrap _) fun _ => .bind (.modify _) fun _ =>
        .bind (.assert _) fun _ => .pure _

/-- One extern changes hands. -/
theorem takeExtern_moves {taken next : Externs × List CPtr} {i : Nat} {name : String}
    (apart : Apart name taken.1 state) (run : takeExtern model taken i state = .ok next final) :
    Apart name next.1 final ∧
      (next.1.contains name || final.externs.contains name) =
        (taken.1.contains name || state.externs.contains name) := by
  obtain ⟨object, ext, _, isExtern, rfl, rfl⟩ := takeExtern_eq_ok run
  have isThere : state.externs.contains object.name = true := by
    rw [Std.TreeMap.contains_eq_isSome_getElem?, isExtern]
    rfl
  unfold Apart at *
  simp only [Std.TreeMap.contains_insert, Std.TreeMap.contains_erase]
  by_cases isName : object.name = name
  · subst isName
    simp [isThere]
  · have differs : (compare object.name name == .eq) = false := by simpa using isName
    simp only [bne, differs, Bool.false_or, Bool.not_false, Bool.true_and, and_true]
    exact apart

theorem takeExterns_moves {externObjects : List Nat} {start taken : Externs × List CPtr}
    {name : String} (apart : Apart name start.1 state)
    (run : Exec.foldEach externObjects start (takeExtern model) state = .ok taken final) :
    Apart name taken.1 final ∧
      (taken.1.contains name || final.externs.contains name) =
        (start.1.contains name || state.externs.contains name) := by
  induction externObjects generalizing start state with
  | nil =>
      obtain ⟨rfl, rfl⟩ := Exec.pure_eq_ok.mp run
      exact ⟨apart, rfl⟩
  | cons i externObjects ih =>
      rw [Exec.foldEach_cons, Exec.bind_eq_ok] at run
      obtain ⟨next, middle, first, rest⟩ := run
      obtain ⟨apart, same⟩ := takeExtern_moves apart first
      obtain ⟨apart, others⟩ := ih apart rest
      exact ⟨apart, others.trans same⟩

theorem takeExterns_machine {externObjects : List Nat} {start taken : Externs × List CPtr}
    (run : Exec.foldEach externObjects start (takeExtern model) state = .ok taken final) :
    final.machine = state.machine :=
  (Exec.Spares.foldEach fun _ _ => takeExtern_keeps).keeps _ _ _ run

theorem takeExterns_shrinks {externObjects : List Nat} {start taken : Externs × List CPtr}
    {name : String}
    (run : Exec.foldEach externObjects start (takeExtern model) state = .ok taken final)
    (isLeft : final.externs.contains name = true) : state.externs.contains name = true := by
  induction externObjects generalizing start state with
  | nil =>
      obtain ⟨rfl, rfl⟩ := Exec.pure_eq_ok.mp run
      exact isLeft
  | cons i externObjects ih =>
      rw [Exec.foldEach_cons, Exec.bind_eq_ok] at run
      obtain ⟨next, middle, first, rest⟩ := run
      obtain ⟨object, ext, _, _, rfl, rfl⟩ := takeExtern_eq_ok first
      have isErased := ih rest
      rw [Std.TreeMap.contains_erase, Bool.and_eq_true] at isErased
      exact isErased.2

/-- The extern of an object that names one. -/
def externOf (model : Model) (externs : Externs) (i : Nat) : Option Extern :=
  (model.objects[i]?).bind fun object => externs[object.name]?

theorem takeExtern_of {taken next : Externs × List CPtr} {i : Nat}
    (run : takeExtern model taken i state = .ok next final) :
    ∃ ext, externOf model state.externs i = some ext ∧ next.2 = taken.2 ++ [ext.cptr] ∧
      ∀ j other, externOf model final.externs j = some other →
        externOf model state.externs j = some other := by
  obtain ⟨object, ext, isObject, isExtern, rfl, rfl⟩ := takeExtern_eq_ok run
  refine ⟨ext, by simp [externOf, isObject, isExtern], rfl, fun j other isOther => ?_⟩
  obtain ⟨found, isFound, isOther⟩ := Option.bind_eq_some_iff.mp isOther
  rw [Std.TreeMap.getElem?_erase] at isOther
  split at isOther
  · simp at isOther
  · exact Option.bind_eq_some_iff.mpr ⟨found, isFound, isOther⟩

/-- The capabilities are those of the externs that were there at the start. -/
theorem takeExterns_caps {externObjects : List Nat} {start taken : Externs × List CPtr}
    (run : Exec.foldEach externObjects start (takeExtern model) state = .ok taken final) :
    (∀ i ∈ externObjects, (externOf model state.externs i).isSome = true) ∧
      taken.2 = start.2 ++ (externObjects.filterMap (externOf model state.externs)).map
        Extern.cptr := by
  induction externObjects generalizing start state with
  | nil =>
      obtain ⟨rfl, rfl⟩ := Exec.pure_eq_ok.mp run
      simp
  | cons i externObjects ih =>
      rw [Exec.foldEach_cons, Exec.bind_eq_ok] at run
      obtain ⟨next, middle, first, rest⟩ := run
      obtain ⟨ext, isExtern, isNext, later⟩ := takeExtern_of first
      obtain ⟨present, isTaken⟩ := ih rest
      have same : ∀ j ∈ externObjects,
          externOf model middle.externs j = externOf model state.externs j := by
        intro j member
        obtain ⟨other, isOther⟩ := Option.isSome_iff_exists.mp (present j member)
        rw [isOther, later j other isOther]
      constructor
      · intro j member
        cases List.mem_cons.mp member with
        | inl isFirst => simp [isFirst, isExtern]
        | inr inRest => exact same j inRest ▸ present j inRest
      · rw [isTaken, isNext, List.filterMap_congr same, List.filterMap_cons, isExtern]
        simp

/-! ## Finishing and destroying -/

/-- Starting a realm and filling its frames does not touch the externs. -/
theorem onMachine_spares {α : Type} {call : Exec Failure (Machine K) α} :
    Exec.Spares Realizer.externs (onMachine call) := .focus fun _ _ => rfl

theorem realizeStart_spares : Exec.Spares Realizer.externs (realizeStart platform model) :=
  .bind (blueprints_keeps.comp Realizer.externs) fun _ =>
    .bind (counts_keeps.comp Realizer.externs) fun _ => .bind .get fun _ => .bind (.ensure _ _) fun _ => .bind onMachine_spares fun _ =>
    .bind onMachine_spares fun _ => .pure _

theorem fillFrame_spares {vaddr : UInt64} {sizeBits : Nat} {frame : CPtr} {offset : Nat}
    {expected untrusted : List UInt8} : Exec.Spares Realizer.externs
      (fillFrame platform resources vaddr sizeBits frame offset expected untrusted) :=
  .bind onMachine_spares fun _ => .bind (.assert _) fun _ => .bind (.modify fun _ => rfl) fun _ =>
    .bind (.ensure _ _) fun _ => onMachine_spares

theorem realizeContinue_spares {objId : ObjId} {index : Nat} {content : List UInt8} :
    Exec.Spares Realizer.externs
      (realizeContinue platform resources subsystem objId index content) := by
  refine .bind (.unwrap _) fun object => ?_
  cases object.object with
  | externObj _ => exact .panic
  | localObj obj =>
      refine .bind (.unwrap _) fun _ => .bind (.unwrap _) fun _ => ?_
      cases obj with
      | smallPage fill =>
          exact .bind (.unwrap _) fun _ => .bind (.unwrap _) fun _ => fillFrame_spares
      | largePage fill =>
          exact .bind (.unwrap _) fun _ => .bind (.unwrap _) fun _ => fillFrame_spares
      | _ => exact .panic

/-- The capabilities of the objects of a model, as long as the realizer has its externs. -/
def allCaps (subsystem : PartialSubsystem) (externs : Externs) : Option (List CPtr) :=
  (subsystem.model.objects.map TopObj.object).zipIdx.mapM
    (capOf subsystem ((subsystem.modelView.externObjects.filterMap
      (externOf subsystem.model externs)).map Extern.cptr))

variable (platform resources) in
/-- The initialization of the objects fails, in the state before the call. -/
def InitializationFails (subsystem : PartialSubsystem) (state : Realizer K) : Prop :=
  ∃ caps error last, allCaps subsystem state.externs = some caps ∧
    Initialize.initialize_ platform resources subsystem.model caps
      ⟨subsystem.cregion, state.machine.kernel⟩ = .err error last

variable (platform) in
/-- An untyped of the subsystem cannot be given back. -/
def RevocationFails (subsystem : Subsystem) (state : Realizer K) : Prop :=
  ∃ error last, Exec.forEach subsystem.ids (Allocator.revokeAndFree platform.kernel)
    state.machine = .err error last

theorem mapEach_unwrap {α β : Type} {items : List α} {look : α → Option β} {found : List β} :
    Exec.mapEach items (fun item => (Exec.unwrap (look item) : Exec Failure (Realizer K) β)) state =
      .ok found final ↔ items.mapM look = some found ∧ state = final := by
  induction items generalizing state final found with
  | nil => simp
  | cons item items ih =>
      rw [Exec.mapEach_cons]
      simp only [Exec.bind_eq_ok, Exec.unwrap_eq_ok, Exec.pure_eq_ok, ih, List.mapM_cons,
        Option.bind_eq_bind, Option.bind_eq_some_iff, Option.pure_def, Option.some.injEq]
      constructor
      · rintro ⟨first, _, ⟨isFirst, rfl⟩, rest, _, ⟨isRest, rfl⟩, isFound, rfl⟩
        exact ⟨⟨first, isFirst, rest, isRest, isFound⟩, rfl⟩
      · rintro ⟨⟨first, isFirst, rest, isRest, isFound⟩, rfl⟩
        exact ⟨first, _, ⟨isFirst, rfl⟩, rest, _, ⟨isRest, rfl⟩, isFound, rfl⟩

theorem allCaps_of {taken : Externs × List CPtr} {caps : List CPtr}
    (takes : Exec.foldEach subsystem.modelView.externObjects (∅, [])
      (takeExtern subsystem.model) state = .ok taken middle)
    (isCaps : (subsystem.model.objects.map TopObj.object).zipIdx.mapM
      (capOf subsystem taken.2) = some caps) : allCaps subsystem state.externs = some caps := by
  have isTaken := (takeExterns_caps takes).2
  rw [List.nil_append] at isTaken
  rwa [allCaps, ← isTaken]

/-- What a call has taken when it comes to the initialization. -/
structure Took (subsystem : PartialSubsystem) (before : Realizer K) (taken after : Externs) :
    Prop where
  apart : ∀ name, ¬ (taken.contains name = true ∧ after.contains name = true)
  same : ∀ name, (taken.contains name || after.contains name) = before.externs.contains name
  nothing : subsystem.modelView.externObjects = [] → after = before.externs
  something : subsystem.modelView.externObjects ≠ [] →
    ∃ name, before.externs.contains name = true ∧ after.contains name = false

theorem Took.balance {taken after : Externs} (took : Took subsystem state taken after)
    (name : String) : (taken.contains name).toNat + (after.contains name).toNat =
      (state.externs.contains name).toNat := by
  have apart := took.apart name
  rw [← took.same name]
  cases isTaken : taken.contains name <;> cases isLeft : after.contains name <;>
    simp [isTaken, isLeft] at apart ⊢

theorem Took.exists_iff {taken after : Externs} (took : Took subsystem state taken after) :
    (∃ name, taken.contains name = true) ↔ subsystem.modelView.externObjects ≠ [] := by
  constructor
  · intro isTaken isNil
    obtain ⟨name, isTaken⟩ := isTaken
    have balance := took.balance name
    rw [took.nothing isNil, isTaken] at balance
    simp at balance
  · intro isCons
    obtain ⟨name, isThere, isGone⟩ := took.something isCons
    have same := took.same name
    rw [isThere, isGone, Bool.or_false] at same
    exact ⟨name, same⟩

theorem takeExterns_took {taken : Externs × List CPtr}
    (takes : Exec.foldEach subsystem.modelView.externObjects (∅, [])
      (takeExtern subsystem.model) state = .ok taken middle) :
    Took subsystem state taken.1 middle.externs := by
  have moves : ∀ name, Apart name taken.1 middle ∧
      (taken.1.contains name || middle.externs.contains name) = state.externs.contains name := by
    intro name
    have apart : Apart name (∅ : Externs) state := by simp [Apart]
    simpa using takeExterns_moves apart takes
  refine ⟨fun name => (moves name).1, fun name => (moves name).2, fun isNil => ?_, fun isCons => ?_⟩
  · rw [isNil, Exec.foldEach_nil, Exec.pure_eq_ok] at takes
    rw [takes.2]
  · cases isObjects : subsystem.modelView.externObjects with
    | nil => exact absurd isObjects isCons
    | cons i externObjects =>
        rw [isObjects, Exec.foldEach_cons, Exec.bind_eq_ok] at takes
        obtain ⟨next, first, firstRun, rest⟩ := takes
        obtain ⟨object, ext, _, isExtern, rfl, rfl⟩ := takeExtern_eq_ok firstRun
        have isThere : state.externs.contains object.name = true := by
          rw [Std.TreeMap.contains_eq_isSome_getElem?, isExtern]
          rfl
        refine ⟨object.name, isThere, ?_⟩
        rw [Bool.eq_false_iff]
        intro isLeft
        simpa using takeExterns_shrinks rest isLeft

/-- A call that returns `Ok` gives the subsystem what it has taken. -/
theorem realizeFinish_ok {finished : Subsystem}
    (run : realizeFinish platform resources subsystem state = .ok finished final) :
    Took subsystem state finished.externs final.externs ∧
      ¬ InitializationFails platform resources subsystem state := by
  simp only [realizeFinish, Exec.bind_eq_ok, mapEach_unwrap, Exec.pure_eq_ok] at run
  obtain ⟨taken, first, takes, caps, _, ⟨isCaps, rfl⟩, cores, last, initializes, rfl, rfl⟩ := run
  have sameKernel := takeExterns_machine takes
  unfold initializeObjects at initializes
  split at initializes
  · next virtualCores inner isOk =>
      obtain ⟨_, rfl⟩ := Outcome.ok.inj initializes
      have took := takeExterns_took takes
      refine ⟨took, fun fails => ?_⟩
      obtain ⟨others, error, last, areCaps, isErr⟩ := fails
      obtain rfl := Option.some.inj ((allCaps_of takes isCaps).symm.trans areCaps)
      rw [← sameKernel, isOk] at isErr
      simp at isErr
  · simp at initializes
  · simp at initializes

/-- A call that returns `Err` drops what it has taken. -/
theorem realizeFinish_err {error : Failure}
    (run : realizeFinish platform resources subsystem state = .err error final) :
    (∃ taken, Took subsystem state taken final.externs) ∧
      InitializationFails platform resources subsystem state := by
  simp only [realizeFinish, Exec.bind_eq_err, mapEach_unwrap, Exec.pure_ne_err] at run
  rcases run with takes | ⟨taken, first, takes, run⟩
  · exact absurd takes (Exec.Infallible.foldEach (fun _ _ => takeExtern_infallible) _ _ _)
  rcases run with collects | ⟨caps, _, ⟨isCaps, rfl⟩, run⟩
  · exact absurd collects (Exec.Infallible.mapEach (fun _ => .unwrap _) _ _ _)
  rcases run with initializes | ⟨_, _, _, isFalse⟩
  · have sameKernel := takeExterns_machine takes
    unfold initializeObjects at initializes
    split at initializes
    · simp at initializes
    · next failure inner isErr =>
        obtain ⟨_, rfl⟩ := Outcome.err.inj initializes
        have took := takeExterns_took takes
        refine ⟨⟨taken.1, took⟩, caps, failure, inner, ?_, ?_⟩
        · exact allCaps_of takes isCaps
        · rw [← sameKernel, isErr]
    · simp at initializes
  · exact absurd isFalse not_false

theorem onMachine_forEach {α : Type} {items : List α} {call : α → Exec Failure (Machine K) Unit} :
    Exec.forEach items (fun item => (onMachine (call item) : Exec Failure (Realizer K) Unit)) =
      onMachine (Exec.forEach items call) := by
  induction items with
  | nil => rfl
  | cons item items ih =>
      rw [Exec.forEach_cons, Exec.forEach_cons, ih]
      funext state
      cases isCall : call item state.machine <;>
        simp only [onMachine, Exec.focus, Bind.bind, isCall]

/-- A map that is extended with another has the keys of both. -/
theorem contains_extended {externs given : Externs} {name : String} :
    (given.foldl (fun externs name ext => externs.insert name ext) externs).contains name =
      (given.contains name || externs.contains name) := by
  have folds : ∀ (entries : List (String × Extern)) (externs : Externs),
      (entries.foldl (fun externs entry => externs.insert entry.1 entry.2) externs).contains name =
        (entries.any (fun entry => compare entry.1 name == .eq) || externs.contains name) := by
    intro entries
    induction entries with
    | nil => simp
    | cons entry entries ih =>
        intro externs
        rw [List.foldl_cons, ih, Std.TreeMap.contains_insert, List.any_cons]
        exact Bool.or_left_comm _ _ _ |>.trans (Bool.or_assoc _ _ _).symm
  have isKey : given.toList.any (fun entry => compare entry.1 name == .eq) =
      given.contains name := by
    rw [Bool.eq_iff_iff, Std.TreeMap.contains_eq_isSome_getElem?, Option.isSome_iff_exists]
    simp [Std.TreeMap.mem_toList_iff_getElem?_eq_some]
  rw [Std.TreeMap.foldl_eq_foldl_toList, folds, isKey]

theorem destroy_ok {subsystem : Subsystem}
    (run : destroy platform subsystem state = .ok () final) :
    (∀ name, final.externs.contains name =
      (subsystem.externs.contains name || state.externs.contains name)) ∧
      ¬ RevocationFails platform subsystem state := by
  simp only [destroy, onMachine_forEach, Exec.bind_eq_ok] at run
  simp only [onMachine, Exec.focus_eq_ok, Exec.modify_eq_ok] at run
  obtain ⟨_, _, ⟨first, cnodeRun, rfl⟩, _, _, ⟨last, objectsRun, rfl⟩, rfl⟩ := run
  refine ⟨fun name => contains_extended, fun fails => ?_⟩
  obtain ⟨error, failed, isErr⟩ := fails
  have isOk : Exec.forEach subsystem.ids (Allocator.revokeAndFree platform.kernel) state.machine =
      .ok () last := by
    rw [Subsystem.ids, Exec.forEach_cons, Exec.bind_eq_ok]
    exact ⟨_, first, cnodeRun, objectsRun⟩
  simp [isOk] at isErr

theorem destroy_err {subsystem : Subsystem} {error : Failure}
    (run : destroy platform subsystem state = .err error final) :
    final.externs = state.externs ∧ RevocationFails platform subsystem state := by
  simp only [destroy, onMachine_forEach, Exec.bind_eq_err] at run
  simp only [onMachine, Exec.focus_eq_err, Exec.focus_eq_ok, Exec.modify_ne_err] at run
  rcases run with ⟨first, cnodeRun, rfl⟩ | ⟨_, _, ⟨first, cnodeRun, rfl⟩, run⟩
  · refine ⟨rfl, error, first, ?_⟩
    rw [Subsystem.ids, Exec.forEach_cons, Exec.bind_eq_err]
    exact .inl cnodeRun
  · rcases run with ⟨last, objectsRun, rfl⟩ | ⟨_, _, _, isFalse⟩
    · refine ⟨rfl, error, last, ?_⟩
      rw [Subsystem.ids, Exec.forEach_cons, Exec.bind_eq_err]
      exact .inr ⟨_, first, cnodeRun, objectsRun⟩
    · exact absurd isFalse not_false

end Realizer

/-! ## Runs -/

namespace Realms

/-- A call on the realizer and what it is called with. -/
inductive Call where
  | realizeStart (model : Model)
  | realizeContinue (subsystem : PartialSubsystem) (objId : ObjId) (fillEntryIndex : Nat)
      (content : List UInt8)
  | realizeFinish (subsystem : PartialSubsystem)
  | destroy (subsystem : Subsystem)

section Calls

variable (platform : Platform K) (resources : SubsystemObjectInitializationResources)

/-- A call that returns `Ok` or `Err`.  Finishing and destroying take the subsystem by value. -/
inductive Calls : Call → Realms K → Realms K → Prop where
  | started {before : Realms K} {after : Realizer K} {model : Model} {started : PartialSubsystem}
      (run : Realizer.realizeStart platform model before.realizer = .ok started after) :
      Calls (.realizeStart model) before
        { before with realizer := after, partials := started :: before.partials }
  | notStarted {before : Realms K} {after : Realizer K} {model : Model} {error : Failure}
      (run : Realizer.realizeStart platform model before.realizer = .err error after) :
      Calls (.realizeStart model) before { before with realizer := after }
  | continued {before : Realms K} {after : Realizer K} {subsystem : PartialSubsystem}
      {objId : ObjId} {fillEntryIndex : Nat} {content : List UInt8}
      (isPartial : subsystem ∈ before.partials)
      (run : (Realizer.realizeContinue platform resources subsystem objId fillEntryIndex
        content).Ends before.realizer after) :
      Calls (.realizeContinue subsystem objId fillEntryIndex content) before
        { before with realizer := after }
  | finished {before : Realms K} {after : Realizer K} {subsystem : PartialSubsystem}
      {finished : Subsystem} {first last : List PartialSubsystem}
      (isPartial : before.partials = first ++ subsystem :: last)
      (run : Realizer.realizeFinish platform resources subsystem before.realizer =
        .ok finished after) :
      Calls (.realizeFinish subsystem) before ⟨after, first ++ last, finished :: before.subsystems⟩
  | notFinished {before : Realms K} {after : Realizer K} {subsystem : PartialSubsystem}
      {error : Failure} {first last : List PartialSubsystem}
      (isPartial : before.partials = first ++ subsystem :: last)
      (run : Realizer.realizeFinish platform resources subsystem before.realizer =
        .err error after) :
      Calls (.realizeFinish subsystem) before ⟨after, first ++ last, before.subsystems⟩
  | destroyed {before : Realms K} {after : Realizer K} {subsystem : Subsystem}
      {first last : List Subsystem} (isRealized : before.subsystems = first ++ subsystem :: last)
      (run : Realizer.destroy platform subsystem before.realizer = .ok () after) :
      Calls (.destroy subsystem) before ⟨after, before.partials, first ++ last⟩
  | notDestroyed {before : Realms K} {after : Realizer K} {subsystem : Subsystem}
      {error : Failure} {first last : List Subsystem}
      (isRealized : before.subsystems = first ++ subsystem :: last)
      (run : Realizer.destroy platform subsystem before.realizer = .err error after) :
      Calls (.destroy subsystem) before ⟨after, before.partials, first ++ last⟩

/-- A call that fails while it has externs in its hands. -/
def DropsExterns (before : Realms K) : Call → Prop
  | .realizeStart _ => False
  | .realizeContinue _ _ _ _ => False
  | .realizeFinish subsystem => subsystem.modelView.externObjects ≠ [] ∧
      Realizer.InitializationFails platform resources subsystem before.realizer
  | .destroy subsystem => (∃ name, subsystem.externs.contains name = true) ∧
      Realizer.RevocationFails platform subsystem before.realizer

end Calls

/-- The places an extern is in: the realizer, and the live subsystems that hold it. -/
def holders (realms : Realms K) (name : String) : Nat :=
  (realms.realizer.externs.contains name).toNat +
    realms.subsystems.countP fun subsystem => subsystem.externs.contains name

/-- Every extern of the pool is in exactly one place. -/
def Conserves (pool : Externs) (realms : Realms K) : Prop :=
  ∀ name, pool.contains name = true → realms.holders name = 1

/-- There are no externs but those of the pool, and no two of one name. -/
def FromPool (pool : Externs) (realms : Realms K) : Prop :=
  ∀ name, realms.holders name ≤ (pool.contains name).toNat

/-- A call of `realize_finish` that returns `Err` leaves the externs as they were. -/
def LeavesExterns (platform : Platform K) (resources : SubsystemObjectInitializationResources)
    (before : Realms K) : Call → Prop
  | .realizeFinish subsystem => ∀ error after,
      Realizer.realizeFinish platform resources subsystem before.realizer = .err error after →
        after.externs = before.realizer.externs
  | _ => True

variable {platform : Platform K} {resources : SubsystemObjectInitializationResources}
  {before after : Realms K} {call : Call} {pool : Externs} {name : String}

/-- The sum over the subsystems, one of them apart. -/
theorem countP_split {first last : List Subsystem} {subsystem : Subsystem} :
    (first ++ subsystem :: last).countP (fun subsystem => subsystem.externs.contains name) =
      (first ++ last).countP (fun subsystem => subsystem.externs.contains name) +
        (subsystem.externs.contains name).toNat := by
  simp only [List.countP_append, List.countP_cons, Bool.toNat, Bool.cond_eq_ite]
  omega

/-- Whatever a call drops is missing afterwards, and nothing else is. -/
theorem Calls.balance (calls : Calls platform resources call before after) :
    ∃ dropped : Externs,
      (∀ name, before.holders name ≤ 1 →
        after.holders name + (dropped.contains name).toNat = before.holders name) ∧
      ((∃ name, dropped.contains name = true) ↔
        DropsExterns platform resources before call) := by
  unfold holders
  cases calls with
  | started run =>
      refine ⟨∅, fun name _ => ?_, by simp [DropsExterns]⟩
      rw [Realizer.realizeStart_spares.keeps _ _ _ run]
      simp
  | notStarted run =>
      refine ⟨∅, fun name _ => ?_, by simp [DropsExterns]⟩
      rw [Realizer.realizeStart_spares _ _ (.inr ⟨_, run⟩)]
      simp
  | continued isPartial run =>
      refine ⟨∅, fun name _ => ?_, by simp [DropsExterns]⟩
      rw [Realizer.realizeContinue_spares _ _ run]
      simp
  | finished isPartial run =>
      obtain ⟨took, succeeds⟩ := Realizer.realizeFinish_ok run
      refine ⟨∅, fun name _ => ?_, by simp [DropsExterns, succeeds]⟩
      have nothing : (∅ : Externs).contains name = false := by simp
      rw [List.countP_cons, ← took.balance name, nothing]
      simp only [Bool.toNat, Bool.cond_eq_ite, Bool.false_eq_true, if_false]
      omega
  | notFinished isPartial run =>
      obtain ⟨⟨taken, took⟩, fails⟩ := Realizer.realizeFinish_err run
      refine ⟨taken, fun name _ => ?_, ?_⟩
      · have balance := took.balance name
        dsimp only
        omega
      · simp only [DropsExterns, fails, and_true]
        exact took.exists_iff
  | destroyed isRealized run =>
      obtain ⟨extended, succeeds⟩ := Realizer.destroy_ok run
      refine ⟨∅, fun name few => ?_, by simp [DropsExterns, succeeds]⟩
      rw [isRealized, countP_split] at few ⊢
      rw [extended name]
      simp only [Bool.toNat, Bool.cond_eq_ite, Bool.or_eq_true] at few ⊢
      grind
  | @notDestroyed _ _ subsystem _ _ _ isRealized run =>
      obtain ⟨same, fails⟩ := Realizer.destroy_err run
      refine ⟨subsystem.externs, fun name _ => ?_, by simp only [DropsExterns, fails, and_true]⟩
      rw [isRealized, countP_split, same]
      dsimp only
      omega

theorem FromPool.few (fromPool : before.FromPool pool) (name : String) :
    before.holders name ≤ 1 := (fromPool name).trans (Bool.toNat_le _)

theorem Calls.fromPool (fromPool : before.FromPool pool)
    (calls : Calls platform resources call before after) : after.FromPool pool := by
  obtain ⟨dropped, balance, _⟩ := calls.balance
  intro name
  have sum := balance name (fromPool.few name)
  have known := fromPool name
  omega

/-- A call keeps every extern somewhere exactly if it drops none. -/
theorem Calls.conserves_iff (fromPool : before.FromPool pool) (conserves : before.Conserves pool)
    (calls : Calls platform resources call before after) :
    after.Conserves pool ↔ ¬ DropsExterns platform resources before call := by
  obtain ⟨dropped, balance, isDropped⟩ := calls.balance
  rw [← isDropped]
  constructor
  · intro conservesAfter drops
    obtain ⟨name, drops⟩ := drops
    have sum := balance name (fromPool.few name)
    have known := fromPool name
    rw [drops, Bool.toNat_true] at sum
    have isPool : pool.contains name = true := by
      cases isPool : pool.contains name with
      | true => rfl
      | false =>
          rw [isPool, Bool.toNat_false] at known
          omega
    have isThere := conservesAfter name isPool
    have wasThere := conserves name isPool
    omega
  · intro nothing name isPool
    have sum := balance name (fromPool.few name)
    have notDropped : dropped.contains name = false := by
      rw [Bool.eq_false_iff]
      exact fun drops => nothing ⟨name, drops⟩
    rw [notDropped, Bool.toNat_false, conserves name isPool] at sum
    exact sum

theorem leavesExterns_of (holds : ¬ DropsExterns platform resources before call) :
    before.LeavesExterns platform resources call := by
  cases call with
  | realizeFinish subsystem =>
      intro error after run
      obtain ⟨⟨taken, took⟩, fails⟩ := Realizer.realizeFinish_err run
      exact took.nothing (not_not.mp fun isCons => holds ⟨isCons, fails⟩)
  | _ => trivial

variable {allocator : Allocator} {kernel : K} {externs : Externs} {frames : Frames}
  {taken : List (Realms K × Call)} {final : Realms K}

theorem start_holders :
    (start allocator kernel externs frames).holders name = (externs.contains name).toNat := by
  simp [holders, start]

/-- In a run from a new realizer every extern is at all times in exactly one place, and no call
that fails changes the externs of the realizer, exactly if no call of the run fails with externs in
its hands. -/
theorem run_conserves_externs
    (run : Recorded (Calls platform resources) (start allocator kernel externs frames) taken final) :
    (Recorded.Throughout (Calls platform resources) (start allocator kernel externs frames) taken
        (Conserves externs) ∧
      ∀ entry ∈ taken, entry.1.LeavesExterns platform resources entry.2) ↔
    ∀ entry ∈ taken, ¬ DropsExterns platform resources entry.1 entry.2 := by
  have starts : (start allocator kernel externs frames).FromPool externs :=
    fun name => start_holders.le
  have fromPool : ∀ {earlier : List (Realms K × Call)} {middle : Realms K},
      Recorded (Calls platform resources) (start allocator kernel externs frames) earlier middle →
      middle.FromPool externs :=
    fun run => run.always starts fun _ _ _ holds calls => calls.fromPool holds
  have exact : Recorded.Throughout (Calls platform resources)
      (start allocator kernel externs frames) taken
        (fun realms => realms.FromPool externs ∧ realms.Conserves externs) ↔
      ∀ entry ∈ taken, ¬ DropsExterns platform resources entry.1 entry.2 := by
    refine @Recorded.holds_iff _ _ _ _ _ _ _ (fun before call => ¬ DropsExterns _ _ before call)
      ?_ (fun call before after holds calls => ?_) run
    · refine ⟨starts, fun name isPool => ?_⟩
      rw [start_holders, isPool, Bool.toNat_true]
    · rw [and_iff_right (calls.fromPool holds.1)]
      exact calls.conserves_iff holds.1 holds.2
  rw [← exact]
  constructor
  · intro conserves earlier middle isEarlier earlierRun
    exact ⟨fromPool earlierRun, conserves.1 earlier middle isEarlier earlierRun⟩
  · intro both
    refine ⟨fun earlier middle isEarlier earlierRun => ?_, fun entry member => ?_⟩
    · exact (both earlier middle isEarlier earlierRun).2
    · exact leavesExterns_of (exact.mp both entry member)

/-! ## A realm with an extern that is realized, and one that is not -/

/-- The realm of `exampleModel` is realized and keeps its extern. -/
theorem exampleRealm_calls : ∃ allocator started middle finished final,
    exampleRealmBuilder.build = some allocator ∧
      Realizer.realizeStart examplePlatform exampleModel
        (start allocator () exampleExterns fun _ _ => 0).realizer = .ok started middle ∧
      Realizer.realizeFinish examplePlatform exampleResources started middle =
        .ok finished final := by
  have evaluates : (exampleRealmBuilder.build.map fun allocator =>
      (Realizer.realizeStart examplePlatform exampleModel >>= fun started =>
        Realizer.realizeFinish examplePlatform exampleResources started)
        (start allocator () exampleExterns fun _ _ => 0).realizer |>.isOk) = some true := by
    decide +kernel
  obtain ⟨allocator, isBuilt, isOk⟩ := Option.map_eq_some_iff.mp evaluates
  obtain ⟨finished, final, run⟩ := Outcome.isOk_iff.mp isOk
  obtain ⟨started, middle, startRun, finishRun⟩ := Exec.bind_eq_ok.mp run
  exact ⟨allocator, started, middle, finished, final, isBuilt, startRun, finishRun⟩

theorem run_conserves_externs_exampleRealm : ∃ allocator taken final,
    exampleRealmBuilder.build = some allocator ∧ taken.length = 2 ∧
      Recorded (Calls examplePlatform exampleResources)
        (start allocator () exampleExterns fun _ _ => 0) taken final ∧
      final.Conserves exampleExterns := by
  obtain ⟨allocator, started, middle, finished, last, isBuilt, startRun, finishRun⟩ :=
    exampleRealm_calls
  have starts : Calls examplePlatform exampleResources _ _ _ := .started startRun
  have first := Recorded.start.step starts
  have second := first.step (@Calls.finished _ _ _ _ _ _ _ [] [] rfl finishRun)
  refine ⟨allocator, _, _, isBuilt, rfl, second, ?_⟩
  refine ((run_conserves_externs second).mpr ?_).1 _ _ (List.prefix_refl _) second
  intro entry member
  simp only [List.nil_append, List.singleton_append, List.mem_cons, List.not_mem_nil,
    or_false] at member
  rcases member with rfl | rfl
  · exact not_false
  · exact fun drops => (Realizer.realizeFinish_ok finishRun).2 drops.2

/-- A CNode with a capability of a kind that is not supported. -/
def unsupportedModel : Model :=
  ⟨1, [⟨.localObj (.cnode ⟨4, Std.TreeMap.ofList [(0, Cap.pt 0)]⟩), "cnode"⟩,
    ⟨.externObj .notification, "nfn"⟩]⟩

def dropsUnsupported (allocator : Allocator) : Bool :=
  match Realizer.realizeStart examplePlatform unsupportedModel
    (start allocator () exampleExterns fun _ _ => 0).realizer with
  | .ok started middle =>
      match Realizer.realizeFinish examplePlatform exampleResources started middle with
      | .err _ last => middle.externs.contains "nfn" && !last.externs.contains "nfn"
      | _ => false
  | _ => false

/-- Its extern is lost when the initialization of its objects fails. -/
theorem unsupported_drops_extern : ∃ allocator taken final,
    exampleRealmBuilder.build = some allocator ∧
      Recorded (Calls examplePlatform exampleResources)
        (start allocator () exampleExterns fun _ _ => 0) taken final ∧
      exampleExterns.contains "nfn" = true ∧ final.holders "nfn" = 0 ∧
      ¬ ∀ entry ∈ taken, entry.1.LeavesExterns examplePlatform exampleResources entry.2 := by
  have evaluates : exampleRealmBuilder.build.map dropsUnsupported = some true := by
    decide +kernel
  obtain ⟨allocator, isBuilt, drops⟩ := Option.map_eq_some_iff.mp evaluates
  unfold dropsUnsupported at drops
  split at drops
  · next started middle startRun =>
      split at drops
      · next error last finishRun =>
          simp only [Bool.and_eq_true, Bool.not_eq_true'] at drops
          have starts : Calls examplePlatform exampleResources _ _ _ := .started startRun
          have first := Recorded.start.step starts
          have second := first.step (@Calls.notFinished _ _ _ _ _ _ _ [] [] rfl finishRun)
          refine ⟨allocator, _, _, isBuilt, second, by decide +kernel, ?_, fun leaves => ?_⟩
          · simp [holders, start, drops.2]
          · have left := leaves (⟨middle, [started], []⟩, .realizeFinish started)
              (List.mem_append_right _ (List.mem_singleton_self _))
            have same : last.externs = middle.externs := left error last finishRun
            rw [← same, drops.2] at drops
            simp at drops
      · simp at drops
  · simp at drops

end Realms

end IceCap.Dyndl
