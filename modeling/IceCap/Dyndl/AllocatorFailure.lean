import IceCap.Dyndl.AllocatorRuns

/-!
# What a failed free leaves behind

`revoke_and_free` works on a clone of the tree and throws it away on an error,
but it gives slots back and edits the index in place, at every level of the
climb.  So a failed free leaves the allocator as it was exactly if the kernel
refused the first revoke, the one of the freed node itself.
-/

set_option autoImplicit false

namespace IceCap.Dyndl

open IceCap.Library IceCap.Sel4

variable {K : Type} {base : CRegion} {built : Node} {live : List UntypedId} {reserved : List Slot}
variable {sizes : Sizes} {kernel : Kernel K} {state final : Machine K}

/-! ## Creations that fail -/

namespace Allocator

theorem allocSlot_infallible : Exec.Infallible (allocSlot (K := K)) := by
  unfold allocSlot
  apply Exec.Infallible.bind
  · exact .runs _
  · exact fun slot => .unwrap slot

theorem onKernel_callUnwrap_infallible {invocation : Invocation} :
    Exec.Infallible (onKernel (kernel.callUnwrap invocation)) := by
  apply Exec.Infallible.focus
  intro state error final failed
  unfold Kernel.callUnwrap at failed
  split at failed <;> simp at failed

theorem splitUntyped_infallible {untypedId : UntypedId} :
    Exec.Infallible (splitUntyped kernel untypedId) := by
  apply Exec.Infallible.bind allocSlot_infallible
  intro leftSlot
  apply Exec.Infallible.bind allocSlot_infallible
  intro rightSlot
  apply Exec.Infallible.bind (.runs _)
  intro localCPtr
  apply Exec.Infallible.bind .get
  intro state
  apply Exec.Infallible.bind onKernel_callUnwrap_infallible
  intro _
  apply Exec.Infallible.bind onKernel_callUnwrap_infallible
  intro _
  exact .bind (.modify _) fun _ => .bind (.modify _) fun _ => .pure _

theorem splitTimes_infallible (times : Nat) {untypedId : UntypedId} :
    Exec.Infallible (splitTimes kernel times untypedId) := by
  induction times generalizing untypedId with
  | zero => exact .pure _
  | succ times ih =>
      apply Exec.Infallible.bind splitUntyped_infallible
      intro children
      exact .bind (.runs _) fun _ => ih

theorem createObject_infallible {destinationCNode : RelativeCPtr} {slot : Slot}
    {blueprint : ObjectBlueprint} :
    Exec.Infallible (createObject sizes kernel destinationCNode slot blueprint) := by
  apply Exec.Infallible.bind (.runs _)
  intro leaf
  apply Exec.Infallible.bind (splitTimes_infallible _)
  intro untypedId
  apply Exec.Infallible.bind (.runs _)
  intro localCPtr
  exact .bind onKernel_callUnwrap_infallible fun _ => .pure _

/-- A CNode whose creation fails stays allocated, and so do both slots taken for it. -/
theorem createCnode_err {radix : Nat} {error : Failure} (sound : Sound base built live reserved state)
    (run : createCnode sizes kernel radix state = .err error final) :
    ∃ untypedId realmSlot tempSlot,
      Sound base built (untypedId :: live) (tempSlot :: realmSlot :: reserved) final := by
  obtain ⟨realmSlot, afterSlot, slotRun, run⟩ := allocSlot_infallible.fails_later run
  obtain ⟨_, _, isGet, run⟩ := Exec.Infallible.get.fails_later run
  obtain ⟨rfl, rfl⟩ := Exec.get_eq_ok.mp isGet
  obtain ⟨realmCRegion, _, isNew, run⟩ := (Exec.Infallible.unwrap _).fails_later run
  obtain ⟨_, rfl⟩ := Exec.unwrap_eq_ok.mp isNew
  obtain ⟨tempSlot, afterTemp, tempRun, run⟩ := allocSlot_infallible.fails_later run
  obtain ⟨untypedId, afterObject, objectRun, run⟩ := createObject_infallible.fails_later run
  refine ⟨untypedId, realmSlot, tempSlot, ?_⟩
  have object := createObject_sound (allocSlot_sound (allocSlot_sound sound slotRun) tempRun)
    objectRun
  have unchanged : final.allocator = afterObject.allocator := by
    rcases Exec.bind_eq_err.mp run with mutateRun | ⟨_, afterMutate, mutateRun, run⟩
    · obtain ⟨inner, _, rfl⟩ := Exec.focus_eq_err.mp mutateRun
      rfl
    · rw [← onKernel_allocator mutateRun]
      rcases Exec.bind_eq_err.mp run with deleteRun | ⟨_, afterDelete, deleteRun, run⟩
      · obtain ⟨inner, _, rfl⟩ := Exec.focus_eq_err.mp deleteRun
        rfl
      · -- From here on nothing can fail.
        have freed : Exec.Infallible (freeSlot (K := K) tempSlot >>= fun _ =>
            (pure (realmCRegion, untypedId, realmSlot) : Exec Failure (Machine K) _)) :=
          .bind (.runs _) fun _ => .pure _
        exact absurd run (freed _ _ _)
  simp only [Sound, unchanged]
  exact object

end Allocator

/-! ## Frees that fail -/

/-- What a failed free is to leave as it was. -/
structure Untouched (before after : Machine K) : Prop where
  tree : after.allocator.capDerivationTree = before.allocator.capDerivationTree
  leaves : after.allocator.leafNodes = before.allocator.leafNodes
  slots : ∀ slot, after.allocator.cregion.Free slot ↔ before.allocator.cregion.Free slot

/-- If the kernel refuses any of the revokes of a free, it refuses the first: that of the freed
node, before those of the parents that merge. -/
def AllOrNothing (kernel : Kernel K) (untypedId : UntypedId) (state : Machine K) : Prop :=
  ∃ frames kind,
    state.allocator.capDerivationTree = BlockTree.plug frames (Node.consumedLeaf kind) ∧
    BlockTree.holeBlock Node.root frames = untypedId ∧
    ((∃ error after, kernel.call (.revoke (Allocator.revokeTarget state.allocator.cregion kind))
        state.kernel = .err error after) ∨
      ∃ after, Allocator.revocations kernel state.allocator.cregion (kind :: Allocator.merging frames)
        state.kernel = .ok () after)

theorem revocations_cons {cregion : CRegion} {kind : AccessibleNodeType}
    {kinds : List AccessibleNodeType} :
    Allocator.revocations kernel cregion (kind :: kinds) =
      kernel.call (.revoke (Allocator.revokeTarget cregion kind)) >>= fun _ =>
        Allocator.revocations kernel cregion kinds := rfl

/-- A free that the kernel refuses at the first revoke has changed nothing. -/
theorem AllOrNothing.failed_eq {untypedId : UntypedId} {error : Failure}
    (allOrNothing : AllOrNothing kernel untypedId state) (sound : Sound base built live reserved state)
    (isLive : untypedId ∈ live)
    (failed : Allocator.revokeAndFree kernel untypedId state = .err error final) :
    final.allocator = state.allocator := by
  obtain ⟨frames, kind, isTree, isHole, refusal | granted⟩ := allOrNothing
  · obtain ⟨reason, after, refused⟩ := refusal
    have run := Allocator.revokeAndFree_refused sound isTree isHole refused
    obtain ⟨_, rfl⟩ := Outcome.err.inj (run.symm.trans failed)
    rfl
  · obtain ⟨after, granted⟩ := granted
    rw [revocations_cons] at granted
    obtain ⟨_, first, asked, answered⟩ := Exec.bind_eq_ok.mp granted
    obtain ⟨returned, run, _⟩ := (Allocator.revokeAndFree_granted sound isLive isTree isHole
      asked).1 after answered
    simp [run] at failed

/-- A free of a live id that fails leaves everything as it was if and only if the kernel refuses
the first revoke or none. -/
theorem untouched_iff {untypedId : UntypedId} (sound : Sound base built live reserved state)
    (isLive : untypedId ∈ live) :
    (∀ error final, Allocator.revokeAndFree kernel untypedId state = .err error final →
      Untouched state final) ↔ AllOrNothing kernel untypedId state := by
  constructor
  · intro untouched
    obtain ⟨frames, kind, isTree, isHole⟩ := Allocator.exists_consumedLeaf sound isLive
    refine ⟨frames, kind, isTree, isHole, ?_⟩
    cases asked : kernel.call (.revoke (Allocator.revokeTarget state.allocator.cregion kind))
        state.kernel with
    | panic => exact absurd asked kernel.call_ne_panic
    | err error after => exact .inl ⟨error, after, rfl⟩
    | ok value first =>
        right
        rw [revocations_cons, Exec.bind_of_ok asked]
        cases answered : Allocator.revocations kernel state.allocator.cregion
            (Allocator.merging frames) first with
        | panic => exact absurd answered (Allocator.revocations_ne_panic _)
        | ok _ after => exact ⟨after, rfl⟩
        | err error after =>
            obtain ⟨slot, final, failed, wasUsed, isFree⟩ := (Allocator.revokeAndFree_granted sound
              isLive isTree isHole asked).2 error after answered
            have wasFree := ((untouched error final failed).slots slot).mp isFree
            rw [CRegion.Used] at wasUsed
            simp [CRegion.Free, wasUsed] at wasFree
  · intro allOrNothing error final failed
    have same := allOrNothing.failed_eq sound isLive failed
    exact ⟨by rw [same], by rw [same], fun slot => by rw [same]⟩

/-! ## Runs with failures -/

section Attempts
variable (sizes kernel)

/-- A call that returned, or one that failed; of the frees that fail, only those the kernel refuses
at the first revoke. -/
inductive Attempt : Machine K × List UntypedId → Machine K × List UntypedId → Prop where
  | returns {before after : Machine K × List UntypedId} (step : Step sizes kernel before after) :
      Attempt before after
  | createCnode {state final : Machine K} {live : List UntypedId} (radix : Nat) {error : Failure}
      (run : Allocator.createCnode sizes kernel radix state = .err error final) :
      Attempt (state, live) (final, live)
  | revokeAndFree {state final : Machine K} {live : List UntypedId} {untypedId : UntypedId}
      {error : Failure} (isLive : untypedId ∈ live)
      (allOrNothing : AllOrNothing kernel untypedId state)
      (run : Allocator.revokeAndFree kernel untypedId state = .err error final) :
      Attempt (state, live) (final, live)

variable {sizes kernel}

/-- The ids of failed creations are never returned; they stay allocated beside the live ones. -/
theorem Attempt.sound {before after : Machine K × List UntypedId}
    (sound : ∃ lost reserved, Sound base built (before.2 ++ lost) reserved before.1)
    (attempt : Attempt sizes kernel before after) :
    ∃ lost reserved, Sound base built (after.2 ++ lost) reserved after.1 := by
  obtain ⟨lost, reserved, sound⟩ := sound
  cases attempt with
  | returns step =>
      cases step with
      | createCnode radix run => exact ⟨lost, _, Allocator.createCnode_sound sound run⟩
      | createObjects blueprints realmCRegion run =>
          refine ⟨lost, reserved, ?_⟩
          rw [List.append_assoc]
          exact Allocator.createObjects_sound _ sound run
      | revokeAndFree isLive run =>
          refine ⟨lost, reserved, ?_⟩
          rw [← List.erase_append_left _ isLive]
          exact Allocator.revokeAndFree_kept sound (List.mem_append_left _ isLive) run
  | createCnode radix run =>
      obtain ⟨untypedId, realmSlot, tempSlot, kept⟩ := Allocator.createCnode_err sound run
      exact ⟨untypedId :: lost, tempSlot :: realmSlot :: reserved,
        Consistent.perm List.perm_middle kept⟩
  | revokeAndFree isLive allOrNothing run =>
      refine ⟨lost, reserved, ?_⟩
      rw [Sound, allOrNothing.failed_eq sound (List.mem_append_left _ isLive) run]
      exact sound

theorem attempts_sound {before after : Machine K × List UntypedId}
    (sound : Sound base built before.2 [] before.1)
    (run : Relation.ReflTransGen (Attempt sizes kernel) before after) :
    ∃ lost reserved, Sound base built (after.2 ++ lost) reserved after.1 := by
  induction run with
  | refl => exact ⟨[], [], by rwa [List.append_nil]⟩
  | tail _ attempt ih => exact attempt.sound ih

/-- After any run in which no free was cut short, the next free that fails leaves everything as it
was if and only if the kernel refuses its first revoke or none. -/
theorem failedFree_untouched_iff {builder : AllocatorBuilder} (wellFormed : builder.WellFormed)
    {allocator : Allocator} (isBuilt : builder.build = some allocator) (kernelState : K)
    {state : Machine K} {live : List UntypedId}
    (run : Relation.ReflTransGen (Attempt sizes kernel) (⟨allocator, kernelState⟩, []) (state, live))
    {untypedId : UntypedId} (isLive : untypedId ∈ live) :
    (∀ error final, Allocator.revokeAndFree kernel untypedId state = .err error final →
      Untouched state final) ↔ AllOrNothing kernel untypedId state := by
  have placed := AllocatorBuilder.build_placed wellFormed isBuilt
  obtain ⟨lost, reserved, sound⟩ := attempts_sound (placed.sound kernelState) run
  exact untouched_iff sound (List.mem_append_left _ isLive)

end Attempts

/-- A kernel that counts the revokes and refuses the second. -/
def refusesSecond : Kernel Nat where
  invoke call asked :=
    match call with
    | .revoke _ => (if asked = 1 then some .notEnoughMemory else none, asked + 1)
    | _ => (none, asked)

/-- How a free of the untyped that is created ends, with the numbers of leaves before and after. -/
def freeAnswers (allocator : Allocator) : List (Failure × Nat × Nat) :=
  match Allocator.createObjects exampleSizes refusesSecond [.tcb] exampleBuilder.cregion
    ⟨allocator, 0⟩ with
  | .ok created state => created.2.2.map fun untypedId =>
      match Allocator.revokeAndFree refusesSecond untypedId state with
      | .err error final => (error, state.allocator.leafNodes.listed.length,
          final.allocator.leafNodes.listed.length)
      | _ => (.message "", 0, 0)
  | _ => []

/-- A TCB takes half of the 4 KiB untyped. -/
theorem refusesSecond_run : ∃ allocator state untypedId,
    exampleBuilder.build = some allocator ∧
      Relation.ReflTransGen (Attempt exampleSizes refusesSecond) (⟨allocator, 0⟩, [])
        (state, [untypedId]) ∧
      state.allocator.leafNodes.listed.length = 2 ∧
      ∃ final, Allocator.revokeAndFree refusesSecond untypedId state =
          .err (.sel4 .notEnoughMemory) final ∧
        final.allocator.leafNodes.listed.length = 1 := by
  have evaluates : exampleBuilder.build.map freeAnswers = some [(.sel4 .notEnoughMemory, 2, 1)] := by
    decide +kernel
  obtain ⟨allocator, isBuilt, answers⟩ := Option.map_eq_some_iff.mp evaluates
  unfold freeAnswers at answers
  split at answers
  · next created state createRun =>
      obtain ⟨realmCRegion, slots, untypedIds⟩ := created
      obtain ⟨untypedId, rfl, freed⟩ := List.map_eq_singleton_iff.mp answers
      split at freed
      · next error final freeRun =>
          simp only [Prod.mk.injEq] at freed
          obtain ⟨rfl, before, after⟩ := freed
          exact ⟨allocator, state, untypedId, isBuilt,
            .single (.returns (.createObjects [.tcb] _ createRun)), before, final, freeRun, after⟩
      · simp at freed
  · simp at answers

theorem failedFree_untouched_iff_refusesSecond : ∃ allocator state untypedId,
    exampleBuilder.build = some allocator ∧
      Relation.ReflTransGen (Attempt exampleSizes refusesSecond) (⟨allocator, 0⟩, [])
        (state, [untypedId]) ∧
      ((∀ error final, Allocator.revokeAndFree refusesSecond untypedId state = .err error final →
        Untouched state final) ↔ AllOrNothing refusesSecond untypedId state) := by
  obtain ⟨allocator, state, untypedId, isBuilt, run, _⟩ := refusesSecond_run
  exact ⟨allocator, state, untypedId, isBuilt, run,
    failedFree_untouched_iff exampleBuilder_wellFormed isBuilt 0 run List.mem_cons_self⟩

/-- The free of the TCB loses both halves from the index, and the untyped does not come back, since
the kernel refused to revoke that. -/
theorem failedFree_loses_leaves : ∃ allocator state untypedId final,
    exampleBuilder.build = some allocator ∧
      Relation.ReflTransGen (Attempt exampleSizes refusesSecond) (⟨allocator, 0⟩, [])
        (state, [untypedId]) ∧
      Allocator.revokeAndFree refusesSecond untypedId state =
        .err (.sel4 .notEnoughMemory) final ∧
      ¬ Untouched state final := by
  obtain ⟨allocator, state, untypedId, isBuilt, run, before, final, freeRun, after⟩ :=
    refusesSecond_run
  refine ⟨allocator, state, untypedId, final, isBuilt, run, freeRun, fun untouched => ?_⟩
  rw [untouched.leaves, before] at after
  simp at after

end IceCap.Dyndl
