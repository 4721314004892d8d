import Mathlib.Data.Set.Insert
import IceCap.Library.Holdings
import IceCap.Resources.Scheduling

/-!
# The life cycle of realms

A realm is declared, started, finished and destroyed; the server keeps it in a
different map in each phase, and its maps are all that refers to its untypeds.
Each phase checks some of the maps only.  What `declare` does not check is
whether a realm of the same id is being realized; apart from that the phases
exclude each other and no untyped is lost.
-/

set_option autoImplicit false

namespace IceCap.Resources

open IceCap.Library IceCap.Sel4 IceCap.Dyndl

variable {K E : Type} {services : Services K E}

/-! ## Phases -/

/-- The ids of the realms in each phase. -/
structure Phases where
  declared : Set RealmId
  started : Set RealmId
  realized : Set RealmId

namespace Phases

/-- No id is in two phases. -/
structure Exclusive (phases : Phases) : Prop where
  declaredStarted : ∀ id ∈ phases.declared, id ∉ phases.started
  declaredRealized : ∀ id ∈ phases.declared, id ∉ phases.realized
  startedRealized : ∀ id ∈ phases.started, id ∉ phases.realized

/-- What a step can do to the phases. -/
inductive Change : Event → Phases → Phases → Prop where
  | same {event : Event} {phases : Phases}
      (quiet : ∀ nodeIndex id size, event ≠ .request nodeIndex (.declare id size)) :
      Change event phases phases
  | declared {nodeIndex size : Nat} {id : RealmId} {phases : Phases}
      (notRealized : id ∉ phases.realized) :
      Change (.request nodeIndex (.declare id size)) phases
        { phases with declared := insert id phases.declared }
  | started {nodeIndex : Nat} {id : RealmId} {phases : Phases} (isDeclared : id ∈ phases.declared) :
      Change (.request nodeIndex (.realizeStart id)) phases
        { phases with declared := phases.declared \ {id}, started := insert id phases.started }
  | finished {nodeIndex : Nat} {id : RealmId} {phases : Phases} (isStarted : id ∈ phases.started) :
      Change (.request nodeIndex (.realizeFinish id)) phases
        { phases with started := phases.started \ {id}, realized := insert id phases.realized }
  | destroyed {nodeIndex : Nat} {id : RealmId} {phases : Phases} :
      Change (.request nodeIndex (.destroy id)) phases
        { phases with realized := phases.realized \ {id} }

/-- The step declares a realm whose id is that of one being realized. -/
def Redeclares (phases : Phases) : Event → Prop
  | .request _ (.declare id _) => id ∈ phases.started
  | _ => False

variable {event : Event} {phases before after : Phases} {id : RealmId}

theorem declared_exclusive {nodeIndex size : Nat} (exclusive : phases.Exclusive)
    (notRealized : id ∉ phases.realized) :
    Exclusive { phases with declared := insert id phases.declared } ↔
      ¬ phases.Redeclares (.request nodeIndex (.declare id size)) := by
  constructor
  · intro holds
    exact holds.declaredStarted id (Set.mem_insert id _)
  · intro notStarted
    refine ⟨?_, ?_, exclusive.startedRealized⟩
    · intro other member
      rcases Set.mem_insert_iff.mp member with rfl | member
      · exact notStarted
      · exact exclusive.declaredStarted other member
    · intro other member
      rcases Set.mem_insert_iff.mp member with rfl | member
      · exact notRealized
      · exact exclusive.declaredRealized other member

theorem started_exclusive (exclusive : phases.Exclusive) (isDeclared : id ∈ phases.declared) :
    Exclusive { phases with
      declared := phases.declared \ {id}, started := insert id phases.started } := by
  refine ⟨?_, fun other member => exclusive.declaredRealized other member.1, ?_⟩
  · intro other member isStarted
    rcases Set.mem_insert_iff.mp isStarted with rfl | isStarted
    · exact member.2 rfl
    · exact exclusive.declaredStarted other member.1 isStarted
  · intro other member
    rcases Set.mem_insert_iff.mp member with rfl | member
    · exact exclusive.declaredRealized other isDeclared
    · exact exclusive.startedRealized other member

theorem finished_exclusive (exclusive : phases.Exclusive) (isStarted : id ∈ phases.started) :
    Exclusive { phases with
      started := phases.started \ {id}, realized := insert id phases.realized } := by
  refine ⟨fun other member started => exclusive.declaredStarted other member started.1, ?_, ?_⟩
  · intro other member isRealized
    rcases Set.mem_insert_iff.mp isRealized with rfl | isRealized
    · exact exclusive.declaredStarted other member isStarted
    · exact exclusive.declaredRealized other member isRealized
  · intro other member isRealized
    rcases Set.mem_insert_iff.mp isRealized with rfl | isRealized
    · exact member.2 rfl
    · exact exclusive.startedRealized other member.1 isRealized

theorem destroyed_exclusive (exclusive : phases.Exclusive) :
    Exclusive { phases with realized := phases.realized \ {id} } :=
  ⟨exclusive.declaredStarted,
    fun other member realized => exclusive.declaredRealized other member realized.1,
    fun other member realized => exclusive.startedRealized other member realized.1⟩

/-- A step keeps the phases apart unless it declares a realm that is being realized. -/
theorem Change.exclusive (change : Change event before after) (exclusive : before.Exclusive) :
    after.Exclusive ↔ ¬ before.Redeclares event := by
  cases change with
  | same quiet =>
      refine iff_of_true exclusive fun redeclares => ?_
      unfold Redeclares at redeclares
      split at redeclares
      · exact quiet _ _ _ rfl
      · exact redeclares
  | declared notRealized => exact declared_exclusive exclusive notRealized
  | started isDeclared => exact iff_of_true (started_exclusive exclusive isDeclared) id
  | finished isStarted => exact iff_of_true (finished_exclusive exclusive isStarted) id
  | destroyed => exact iff_of_true (destroyed_exclusive exclusive) id

end Phases

/-! ## What the calls do -/

namespace ResourceServer

variable {server final : ResourceServer K E}

def phases (server : ResourceServer K E) : Phases :=
  ⟨{id | id ∈ server.partialSpecs}, {id | id ∈ server.partialRealms}, {id | id ∈ server.realms}⟩

/-- The untypeds of all realms. -/
def ids (server : ResourceServer K E) : List UntypedId :=
  held PartialSubsystem.ids server.partialRealms ++
    held (fun realm : Realm => realm.subsystem.ids) server.realms

def allocator (server : ResourceServer K E) : Allocator := server.realizer.machine.allocator

/-- What the life cycle of realms is about. -/
structure Tenure where
  partialSpecs : Std.TreeMap RealmId (List UInt8)
  partialRealms : Std.TreeMap RealmId PartialSubsystem
  subsystems : RealmId → Option Subsystem
  allocator : Allocator

def tenure (server : ResourceServer K E) : Tenure :=
  ⟨server.partialSpecs, server.partialRealms, fun id => (server.realms[id]?).map Realm.subsystem,
    server.allocator⟩

theorem tenure_unshared : Unshared services (tenure : ResourceServer K E → Tenure) :=
  Local.unshared fun _ _ _ => rfl

theorem phases_of_tenure (same : final.tenure = server.tenure) : final.phases = server.phases := by
  simp only [tenure, Tenure.mk.injEq] at same
  obtain ⟨sameSpecs, samePartials, sameSubsystems, _⟩ := same
  have sameRealms : ∀ id, id ∈ final.realms ↔ id ∈ server.realms := by
    intro id
    have same := congrArg Option.isSome (congrFun sameSubsystems id)
    rw [Option.isSome_map, Option.isSome_map, Std.TreeMap.isSome_getElem?_eq_contains,
      Std.TreeMap.isSome_getElem?_eq_contains] at same
    rw [Std.TreeMap.mem_iff_contains, Std.TreeMap.mem_iff_contains, same]
  simp only [phases, sameSpecs, samePartials, sameRealms]

theorem ids_of_tenure (same : final.tenure = server.tenure) : final.ids.Perm server.ids := by
  simp only [tenure, Tenure.mk.injEq] at same
  obtain ⟨_, samePartials, sameSubsystems, _⟩ := same
  rw [ids, ids, samePartials]
  refine List.Perm.append_left _ (held_congr fun id => ?_)
  have same := congrArg (Option.map Subsystem.ids) (congrFun sameSubsystems id)
  simpa only [Option.map_map, Function.comp_def] using same

theorem setPhysicalNode_tenure {realmId : RealmId} {virtualNode : VirtualNodeIndex}
    {physicalNode : Option PhysicalNodeIndex} :
    Exec.Spares tenure (setPhysicalNode realmId virtualNode physicalNode :
      Exec Failure (ResourceServer K E) Unit) := by
  apply Exec.Spares.modify
  intro server
  simp only [tenure, allocator, Tenure.mk.injEq, true_and, and_true]
  funext id
  rw [Std.TreeMap.getElem?_modify]
  split
  · next same =>
      rw [Std.LawfulEqCmp.compare_eq_iff_eq.mp same, Option.map_map]
      rfl
  · rfl

/-- Lending physical nodes has no part in the life cycle. -/
theorem tenure_unscheduled : Unscheduled services (tenure : ResourceServer K E → Tenure) where
  toUnshared := tenure_unshared
  setPhysicalNode _ _ _ := setPhysicalNode_tenure
  setSlice _ _ := .modify fun _ => rfl
  resumed _ _ := rfl

theorem realizeContinue_tenure {realmId : RealmId} {objectIndex fillEntryIndex : Nat}
    {content : List UInt8} :
    Exec.Spares tenure (realizeContinue services realmId objectIndex fillEntryIndex content) := by
  refine .bind .get fun _ => .bind (.unwrap _) fun subsystem => ?_
  intro server final run
  obtain ⟨realizer, inner, rfl⟩ := Exec.ends_focus.mp run
  have same := Realizer.realizeContinue_keeps _ _ inner
  simp only [tenure, allocator, same]

theorem declare_eq_ok {realmId : RealmId} {specSize : Nat}
    (run : declare realmId specSize server = .ok () final) :
    realmId ∉ server.realms ∧
      final = { server with
        partialSpecs := server.partialSpecs.insert realmId (List.replicate specSize 0) } := by
  simp only [declare, Exec.bind_eq_ok, Exec.get_eq_ok, Exec.assert_eq_ok,
    Exec.modify_eq_ok] at run
  obtain ⟨_, _, ⟨rfl, rfl⟩, ⟨⟩, _, ⟨_, rfl⟩, ⟨⟩, _, ⟨notRealized, rfl⟩, isFinal⟩ := run
  exact ⟨notRealized, isFinal.symm⟩

theorem incorporateSpecChunk_eq_ok {realmId : RealmId} {offset : Nat} {chunk : List UInt8}
    (run : incorporateSpecChunk realmId offset chunk server = .ok () final) :
    realmId ∈ server.partialSpecs ∧ ∃ written,
      final = { server with partialSpecs := server.partialSpecs.insert realmId written } := by
  simp only [incorporateSpecChunk, Exec.bind_eq_ok, Exec.get_eq_ok, Exec.unwrap_eq_ok,
    Exec.assert_eq_ok, Exec.modify_eq_ok] at run
  obtain ⟨_, _, ⟨rfl, rfl⟩, spec, _, ⟨isSpec, rfl⟩, ⟨⟩, _, ⟨_, rfl⟩, isFinal⟩ := run
  exact ⟨Std.TreeMap.mem_iff_isSome_getElem?.mpr (by rw [isSpec]; rfl), _, isFinal.symm⟩

theorem realizeStart_eq_ok {realmId : RealmId}
    (run : realizeStart services realmId server = .ok () final) :
    realmId ∈ server.partialSpecs ∧ ∃ model started realizer,
      Realizer.realizeStart services.platform model server.realizer = .ok started realizer ∧
        final = { server with
          partialSpecs := server.partialSpecs.erase realmId
          partialRealms := server.partialRealms.insert realmId started
          realizer := realizer } := by
  simp only [realizeStart, Exec.bind_eq_ok, Exec.get_eq_ok, Exec.unwrap_eq_ok, onRealizer,
    Exec.focus_eq_ok, Exec.modify_eq_ok] at run
  obtain ⟨_, _, ⟨rfl, rfl⟩, raw, _, ⟨isRaw, rfl⟩, ⟨⟩, _, rfl, model, _, ⟨_, rfl⟩, started, _,
    ⟨realizer, inner, rfl⟩, isFinal⟩ := run
  exact ⟨Std.TreeMap.mem_iff_isSome_getElem?.mpr (by rw [isRaw]; rfl), model, started, realizer,
    inner, isFinal.symm⟩

/-- The maps and the allocator. -/
def maps (server : ResourceServer K E) :=
  (server.partialSpecs, server.partialRealms, server.realms, server.allocator)

theorem maps_local : Local (maps : ResourceServer K E → _) := fun _ _ _ => rfl

theorem realizeFinish_eq_ok {nodeIndex : Nat} {realmId : RealmId}
    (run : realizeFinish services nodeIndex realmId server = .ok () final) :
    ∃ partialSubsystem realm, server.partialRealms[realmId]? = some partialSubsystem ∧
      realm.subsystem.ids = partialSubsystem.ids ∧
      final.partialSpecs = server.partialSpecs ∧
      final.partialRealms = server.partialRealms.erase realmId ∧
      final.realms = server.realms.insert realmId realm ∧
      final.allocator = server.allocator := by
  simp only [realizeFinish, Exec.bind_eq_ok, Exec.get_eq_ok, Exec.unwrap_eq_ok, onRealizer,
    Exec.focus_eq_ok, Exec.modify_eq_ok] at run
  obtain ⟨_, _, ⟨rfl, rfl⟩, partialSubsystem, _, ⟨isPartial, rfl⟩, ⟨⟩, _, rfl, subsystem, _,
    ⟨realizer, inner, rfl⟩, virtualNodes, third, nodesRun, ⟨⟩, _, rfl, eventRun⟩ := run
  have nodes := (Exec.Spares.mapEach fun _ => maps_local.unshared.virtualNodeOf).keeps _ _ _ nodesRun
  have answered := maps_local.callEventServer.keeps _ _ _ eventRun
  have kept : realizer.machine.allocator = _ := Realizer.realizeFinish_keeps.keeps _ _ _ inner
  simp only [maps, Prod.mk.injEq] at nodes answered
  refine ⟨partialSubsystem, ⟨virtualNodes, subsystem⟩, isPartial,
    Realizer.realizeFinish_ids inner, ?_, ?_, ?_, ?_⟩
  · exact answered.1.trans nodes.1
  · exact answered.2.1.trans nodes.2.1
  · rw [answered.2.2.1]
    exact congrArg (fun realms => Std.TreeMap.insert realms realmId _) nodes.2.2.1
  · exact (answered.2.2.2.trans nodes.2.2.2).trans kept

theorem destroy_eq_ok {nodeIndex : Nat} {realmId : RealmId}
    (run : destroy services nodeIndex realmId server = .ok () final) :
    (server.realms[realmId]? = none ∧ final = server) ∨
      ∃ realm before after, server.realms[realmId]? = some realm ∧
        before.machine.allocator = server.allocator ∧
        Realizer.destroy services.platform realm.subsystem before = .ok () after ∧
        final.partialSpecs = server.partialSpecs ∧ final.partialRealms = server.partialRealms ∧
        final.realms = server.realms.erase realmId ∧
        final.allocator = after.machine.allocator := by
  simp only [destroy, Exec.bind_eq_ok, Exec.get_eq_ok] at run
  obtain ⟨_, _, ⟨rfl, rfl⟩, run⟩ := run
  cases found : server.realms[realmId]? with
  | none =>
      simp only [found, Exec.pure_eq_ok] at run
      exact .inl ⟨rfl, run.2.symm⟩
  | some realm =>
      simp only [found, Exec.bind_eq_ok, Exec.modify_eq_ok, onRealizer, Exec.focus_eq_ok] at run
      obtain ⟨⟨⟩, _, rfl, ⟨⟩, first, descheduled, ⟨⟩, _, ⟨after, inner, rfl⟩, eventRun⟩ := run
      have same := (Exec.Spares.forEach fun _ => .bind (.assert _) fun _ => .forEach fun _ =>
        .forEach fun _ => maps_local.unshared.kernel _).keeps _ _ _ descheduled
      have answered := maps_local.callEventServer.keeps _ _ _ eventRun
      simp only [maps, Prod.mk.injEq] at same answered
      exact .inr ⟨realm, first.realizer, after, rfl, same.2.2.2, inner, answered.1.trans same.1,
        answered.2.1.trans same.2.1, answered.2.2.1.trans same.2.2.1, answered.2.2.2⟩

/-! ## Untypeds -/

/-- A realm that is started adds its untypeds, and takes away those of one it replaces; -/
theorem ids_started {realmId : RealmId} {started : PartialSubsystem}
    (partials : final.partialRealms = server.partialRealms.insert realmId started)
    (realms : final.realms = server.realms) : (started.ids ++ server.ids).Perm
      ((server.partialRealms[realmId]?).elim [] PartialSubsystem.ids ++ final.ids) := by
  have moved : (started.ids ++ held PartialSubsystem.ids server.partialRealms).Perm _ :=
    @held_replace _ _ _ _ PartialSubsystem.ids server.partialRealms realmId started _ _
  rw [ids, ids, partials, realms, ← List.append_assoc, ← List.append_assoc]
  exact moved.append_right _

/-- one that is finished has the same untypeds as before, -/
theorem ids_finished {realmId : RealmId} {subsystem : PartialSubsystem} {realm : Realm}
    (isPartial : server.partialRealms[realmId]? = some subsystem)
    (sameIds : realm.subsystem.ids = subsystem.ids)
    (partials : final.partialRealms = server.partialRealms.erase realmId)
    (realms : final.realms = server.realms.insert realmId realm) :
    server.ids.Perm ((server.realms[realmId]?).elim [] (fun realm => realm.subsystem.ids) ++
      final.ids) := by
  have taken : (held PartialSubsystem.ids server.partialRealms).Perm _ := held_erase isPartial
  have given : (realm.subsystem.ids ++
      held (fun realm : Realm => realm.subsystem.ids) server.realms).Perm _ :=
    @held_replace _ _ _ _ (fun realm : Realm => realm.subsystem.ids) server.realms realmId realm _ _
  rw [List.perm_iff_count] at taken given ⊢
  intro id
  have taken := taken id
  have given := given id
  simp only [ids, partials, realms, List.count_append, sameIds] at taken given ⊢
  omega

/-- one that is lost takes them away, -/
theorem ids_forgotten {realmId : RealmId} {subsystem : PartialSubsystem}
    (isPartial : server.partialRealms[realmId]? = some subsystem)
    (partials : final.partialRealms = server.partialRealms.erase realmId)
    (realms : final.realms = server.realms) :
    server.ids.Perm (subsystem.ids ++ final.ids) := by
  have taken : (held PartialSubsystem.ids server.partialRealms).Perm _ := held_erase isPartial
  rw [ids, ids, partials, realms, ← List.append_assoc]
  exact taken.append_right _

/-- and one that is destroyed gives them back. -/
theorem ids_destroyed {realmId : RealmId} {realm : Realm}
    (isRealm : server.realms[realmId]? = some realm)
    (partials : final.partialRealms = server.partialRealms)
    (realms : final.realms = server.realms.erase realmId) :
    server.ids.Perm (realm.subsystem.ids ++ final.ids) := by
  have taken : (held (fun realm : Realm => realm.subsystem.ids) server.realms).Perm _ :=
    held_erase isRealm
  rw [ids, ids, partials, realms, ← List.append_assoc]
  refine (taken.append_left _).trans ?_
  rw [← List.append_assoc]
  exact List.perm_append_comm.append_right _

/-- The live untypeds of the allocator are those of the realms. -/
def Owned (base : CRegion) (built : Node) (server : ResourceServer K E) : Prop :=
  ∃ reserved, Sound base built server.ids reserved server.realizer.machine

variable {base : CRegion} {built : Node}

/-- All that counts is the allocator and what the maps hold. -/
theorem Owned.congr (owned : server.Owned base built) (perm : final.ids.Perm server.ids)
    (same : final.allocator = server.allocator) : final.Owned base built := by
  obtain ⟨reserved, sound⟩ := owned
  exact ⟨reserved, (sound.ofAllocator same).perm perm⟩

theorem Owned.ofTenure (owned : server.Owned base built) (same : final.tenure = server.tenure) :
    final.Owned base built :=
  owned.congr (ids_of_tenure same) (congrArg Tenure.allocator same)

theorem realizeStart_owned {realmId : RealmId} (exclusive : server.phases.Exclusive)
    (owned : server.Owned base built)
    (run : realizeStart services realmId server = .ok () final) : final.Owned base built := by
  obtain ⟨isDeclared, model, started, realizer, inner, rfl⟩ := realizeStart_eq_ok run
  have isNew : server.partialRealms[realmId]? = none :=
    Std.TreeMap.getElem?_eq_none (exclusive.declaredStarted realmId isDeclared)
  obtain ⟨reserved, sound⟩ := owned
  obtain ⟨realmSlot, startedSound⟩ := Realizer.realizeStart_sound sound inner
  have perm := @ids_started _ _ server { server with
    partialSpecs := server.partialSpecs.erase realmId
    partialRealms := server.partialRealms.insert realmId started
    realizer := realizer } _ _ rfl rfl
  rw [isNew] at perm
  exact ⟨realmSlot :: reserved, startedSound.perm perm.symm⟩

theorem realizeFinish_owned {nodeIndex : Nat} {realmId : RealmId}
    (exclusive : server.phases.Exclusive) (owned : server.Owned base built)
    (run : realizeFinish services nodeIndex realmId server = .ok () final) :
    final.Owned base built := by
  obtain ⟨partialSubsystem, realm, isPartial, sameIds, _, partials, realms, same⟩ :=
    realizeFinish_eq_ok run
  have isStarted : realmId ∈ server.partialRealms :=
    Std.TreeMap.mem_iff_isSome_getElem?.mpr (by rw [isPartial]; rfl)
  have isNew : server.realms[realmId]? = none :=
    Std.TreeMap.getElem?_eq_none (exclusive.startedRealized realmId isStarted)
  have perm := ids_finished isPartial sameIds partials realms
  rw [isNew] at perm
  exact owned.congr perm.symm same

theorem destroy_owned {nodeIndex : Nat} {realmId : RealmId} (owned : server.Owned base built)
    (run : destroy services nodeIndex realmId server = .ok () final) : final.Owned base built := by
  rcases destroy_eq_ok run with
    ⟨_, rfl⟩ | ⟨realm, before, after, isRealm, sameBefore, inner, _, partials, realms, same⟩
  · exact owned
  · obtain ⟨reserved, sound⟩ := owned
    have perm := ids_destroyed isRealm partials realms
    have freed := Realizer.destroy_sound ((sound.perm perm.symm).ofAllocator sameBefore) inner
    exact ⟨reserved, freed.ofAllocator same⟩

end ResourceServer

/-! ## Runs -/

variable {event : Event} {before after server : ResourceServer K E} {base : CRegion} {built : Node}

theorem keys_insert {V : Type} (entries : Std.TreeMap RealmId V) (id : RealmId) (value : V) :
    {other | other ∈ entries.insert id value} = insert id {other | other ∈ entries} := by
  ext other
  simp [Std.TreeMap.mem_insert, Std.LawfulEqCmp.compare_eq_iff_eq, @eq_comm _ id]

theorem keys_erase {V : Type} (entries : Std.TreeMap RealmId V) (id : RealmId) :
    {other | other ∈ entries.erase id} = {other | other ∈ entries} \ {id} := by
  ext other
  simp [Std.TreeMap.mem_erase, Std.LawfulEqCmp.compare_eq_iff_eq, @eq_comm _ id, and_comm]

theorem Step.phases (step : Step services event before after) :
    Phases.Change event before.phases after.phases := by
  cases step with
  | yieldBack run => exact absurd run ResourceServer.yieldBack_ne_ok
  | @dispatch nodeIndex request _ _ run =>
      cases request with
      | declare id size =>
          obtain ⟨notRealized, rfl⟩ := ResourceServer.declare_eq_ok run
          simp only [ResourceServer.phases, keys_insert]
          exact .declared notRealized
      | specChunk id offset content =>
          obtain ⟨isDeclared, written, rfl⟩ := ResourceServer.incorporateSpecChunk_eq_ok run
          simp only [ResourceServer.phases, keys_insert]
          rw [Set.insert_eq_of_mem (show id ∈ {other | other ∈ before.partialSpecs} from isDeclared)]
          exact .same (by simp)
      | realizeStart id =>
          obtain ⟨isDeclared, _, _, _, _, rfl⟩ := ResourceServer.realizeStart_eq_ok run
          simp only [ResourceServer.phases, keys_insert, keys_erase]
          exact .started isDeclared
      | realizeFinish id =>
          obtain ⟨_, realm, isPartial, _, specs, partials, realms, _⟩ :=
            ResourceServer.realizeFinish_eq_ok run
          have isStarted : id ∈ before.partialRealms :=
            Std.TreeMap.mem_iff_isSome_getElem?.mpr (by rw [isPartial]; rfl)
          simp only [ResourceServer.phases, specs, partials, realms, keys_insert, keys_erase]
          exact .finished isStarted
      | destroy id =>
          rcases ResourceServer.destroy_eq_ok run with
            ⟨_, rfl⟩ | ⟨_, _, _, _, _, _, specs, partials, realms, _⟩
          · exact .same (by simp)
          · simp only [ResourceServer.phases, specs, partials, realms, keys_erase]
            exact .destroyed
      | fillChunks id chunks =>
          have same := (Exec.Spares.forEach fun _ => ResourceServer.realizeContinue_tenure).keeps _ _ _ run
          rw [ResourceServer.phases_of_tenure same]
          exact .same (by simp)
      | hackRun id =>
          have same := ResourceServer.tenure_unshared.hackRun.keeps _ _ _ run
          rw [ResourceServer.phases_of_tenure same]
          exact .same (by simp)
      | yieldTo physicalNode id virtualNode ns =>
          rw [ResourceServer.phases_of_tenure (ResourceServer.tenure_unscheduled.yieldTo.keeps _ _ _ run)]
          exact .same (by simp)
      | hostEvent =>
          rw [ResourceServer.phases_of_tenure (ResourceServer.tenure_unscheduled.hostEvent.keeps _ _ _ run)]
          exact .same (by simp)
      | timeout =>
          rw [ResourceServer.phases_of_tenure (ResourceServer.tenure_unscheduled.timeout.keeps _ _ _ run)]
          exact .same (by simp)

theorem Step.owned (exclusive : before.phases.Exclusive) (owned : before.Owned base built)
    (step : Step services event before after) : after.Owned base built := by
  cases step with
  | yieldBack run => exact absurd run ResourceServer.yieldBack_ne_ok
  | @dispatch nodeIndex request _ _ run =>
      cases request with
      | declare id size =>
          obtain ⟨_, rfl⟩ := ResourceServer.declare_eq_ok run
          exact owned
      | specChunk id offset content =>
          obtain ⟨_, _, rfl⟩ := ResourceServer.incorporateSpecChunk_eq_ok run
          exact owned
      | realizeStart id => exact ResourceServer.realizeStart_owned exclusive owned run
      | realizeFinish id => exact ResourceServer.realizeFinish_owned exclusive owned run
      | destroy id => exact ResourceServer.destroy_owned owned run
      | fillChunks id chunks =>
          have same := (Exec.Spares.forEach fun _ => ResourceServer.realizeContinue_tenure).keeps _ _ _ run
          exact owned.ofTenure same
      | hackRun id => exact owned.ofTenure (ResourceServer.tenure_unshared.hackRun.keeps _ _ _ run)
      | yieldTo physicalNode id virtualNode ns =>
          exact owned.ofTenure (ResourceServer.tenure_unscheduled.yieldTo.keeps _ _ _ run)
      | hostEvent => exact owned.ofTenure (ResourceServer.tenure_unscheduled.hostEvent.keeps _ _ _ run)
      | timeout => exact owned.ofTenure (ResourceServer.tenure_unscheduled.timeout.keeps _ _ _ run)

/-- Every untyped that the allocator has handed out is one of a realm in the maps. -/
def ResourceServer.Held (server : ResourceServer K E) : Prop :=
  ∀ untypedId ∈ Node.consumedIds 0 64 server.allocator.capDerivationTree,
    (∃ (id : RealmId) (subsystem : PartialSubsystem), server.partialRealms[id]? = some subsystem ∧
      untypedId ∈ subsystem.ids) ∨
    ∃ (id : RealmId) (realm : Realm), server.realms[id]? = some realm ∧
      untypedId ∈ realm.subsystem.ids

theorem ResourceServer.held_iff : server.Held ↔
    ∀ untypedId ∈ Node.consumedIds 0 64 server.allocator.capDerivationTree,
      untypedId ∈ server.ids := by
  simp only [ResourceServer.Held, ResourceServer.ids, List.mem_append, mem_held]

theorem ResourceServer.Owned.held (owned : server.Owned base built) : server.Held := by
  obtain ⟨reserved, sound⟩ := owned
  apply ResourceServer.held_iff.mpr
  intro untypedId isLive
  have positive := List.count_pos_iff.mpr isLive
  exact List.count_pos_iff.mp (by rw [sound.consumed untypedId]; exact positive)

theorem new_exclusive {realizer : Realizer K} {cnode : CPtr} {nodeLocal : List NodeLocal}
    {eventServer : E} :
    (ResourceServer.new services realizer cnode nodeLocal eventServer).phases.Exclusive := by
  constructor <;> intro id member <;>
    simp [ResourceServer.phases, ResourceServer.new] at member

/-- In every state of a run no id is in two of the maps and every untyped in use is one of a realm
in the maps, exactly if no step of the run declares a realm under the id of one being realized. -/
theorem run_exclusive {builder : AllocatorBuilder} (wellFormed : builder.WellFormed)
    {allocator : Allocator} (isBuilt : builder.build = some allocator) (kernel : K)
    (externs : Externs) (frames : Frames) {cnode : CPtr} {nodeLocal : List NodeLocal} {eventServer : E}
    {taken : List (ResourceServer K E × Event)}
    (run : Recorded (Step services) (ResourceServer.new services
      ⟨⟨allocator, kernel⟩, externs, frames⟩ cnode nodeLocal eventServer) taken server) :
    Recorded.Throughout (Step services) (ResourceServer.new services
        ⟨⟨allocator, kernel⟩, externs, frames⟩ cnode nodeLocal eventServer) taken
        (fun server => server.phases.Exclusive ∧ server.Held) ↔
      ∀ entry ∈ taken, ¬ entry.1.phases.Redeclares entry.2 := by
  constructor
  · intro throughout
    have exclusive := @Recorded.holds_iff _ _ (Step services) _ _ _
      (fun server => server.phases.Exclusive)
      (fun server event => ¬ server.phases.Redeclares event) new_exclusive
      (fun _ _ _ exclusive step => step.phases.exclusive exclusive) run
    exact exclusive.mp fun earlier middle isEarlier earlierRun =>
      (throughout earlier middle isEarlier earlierRun).1
  · intro apart earlier middle isEarlier earlierRun
    have started : (ResourceServer.new services ⟨⟨allocator, kernel⟩, externs, frames⟩ cnode
        nodeLocal eventServer).Owned allocator.cregion allocator.capDerivationTree :=
      ⟨[], (AllocatorBuilder.build_placed wellFormed isBuilt).sound kernel⟩
    have holds := @Recorded.invariant _ _ (Step services) _ _ _
      (fun server => server.phases.Exclusive ∧
        server.Owned allocator.cregion allocator.capDerivationTree)
      (fun server event => ¬ server.phases.Redeclares event) ⟨new_exclusive, started⟩
      (fun _ _ _ holds step isApart =>
        ⟨(step.phases.exclusive holds.1).mpr isApart, step.owned holds.1 holds.2⟩)
      earlierRun fun entry member => apart entry (isEarlier.subset member)
    exact ⟨holds.1, holds.2.held⟩

/-! ## Two life cycles of one realm -/

theorem exampleServerBuilder_wellFormed : exampleServerBuilder.WellFormed :=
  ⟨exampleBuilder_wellFormed.apart, exampleBuilder_wellFormed.aligned,
    exampleBuilder_wellFormed.small⟩

/-- The second life cycle begins when the first one has ended. -/
def exampleCycles : List Event :=
  [.request 0 (.declare 0 0), .request 0 (.realizeStart 0), .request 0 (.realizeFinish 0),
    .request 0 (.destroy 0), .request 0 (.declare 0 0), .request 0 (.realizeStart 0)]

theorem run_exclusive_exampleCycles : ∃ allocator taken server,
    exampleServerBuilder.build = some allocator ∧
      Recorded (Step exampleServices) (exampleServer allocator) taken server ∧
      taken.map Prod.snd = exampleCycles ∧ server.phases.Exclusive ∧ server.Held := by
  obtain ⟨allocator, taken, server, isBuilt, run, events, apart⟩ := exampleServer_run
    exampleCycles
    (fun run => run.1.all fun entry => match entry.2 with
      | .request _ (.declare id _) => decide (id ∉ entry.1.partialRealms)
      | _ => true) (by decide +kernel)
  have exclusive := (run_exclusive exampleServerBuilder_wellFormed isBuilt () ∅ (fun _ _ => 0)
    run).mpr (by
      intro entry member redeclares
      have isApart := List.all_eq_true.mp apart entry member
      unfold Phases.Redeclares at redeclares
      split at redeclares
      · next isEvent =>
          simp only [isEvent, decide_eq_true_eq] at isApart
          exact isApart redeclares
      · exact redeclares)
  exact ⟨allocator, taken, server, isBuilt, run, events, exclusive _ _ (List.prefix_refl _) run⟩

/-- The second life cycle begins while the realm of the first one is being realized. -/
def exampleOverlap : List Event :=
  [.request 0 (.declare 0 0), .request 0 (.realizeStart 0), .request 0 (.declare 0 0)]

/-- The id is then in two of the maps, and when the second realm is started the untypeds of the
first one are in none. -/
theorem overlap_not_exclusive :
    (∃ allocator taken server, exampleServerBuilder.build = some allocator ∧
      Recorded (Step exampleServices) (exampleServer allocator) taken server ∧
      taken.map Prod.snd = exampleOverlap ∧ ¬ server.phases.Exclusive) ∧
    ∃ allocator taken server, exampleServerBuilder.build = some allocator ∧
      Recorded (Step exampleServices) (exampleServer allocator) taken server ∧
      taken.map Prod.snd = exampleOverlap ++ [.request 0 (.realizeStart 0)] ∧ ¬ server.Held := by
  constructor
  · obtain ⟨allocator, taken, server, isBuilt, run, events, both⟩ := exampleServer_run
      exampleOverlap
      (fun run => decide (0 ∈ run.2.partialSpecs ∧ 0 ∈ run.2.partialRealms)) (by decide +kernel)
    obtain ⟨isDeclared, isStarted⟩ := of_decide_eq_true both
    exact ⟨allocator, taken, server, isBuilt, run, events,
      fun exclusive => exclusive.declaredStarted 0 isDeclared isStarted⟩
  · obtain ⟨allocator, taken, server, isBuilt, run, events, lost⟩ := exampleServer_run
      (exampleOverlap ++ [.request 0 (.realizeStart 0)])
      (fun run => (Node.consumedIds 0 64 run.2.allocator.capDerivationTree).any
        fun untypedId => decide (untypedId ∉ run.2.ids)) (by decide +kernel)
    obtain ⟨untypedId, isLive, isLost⟩ := List.any_eq_true.mp lost
    exact ⟨allocator, taken, server, isBuilt, run, events,
      fun holds => of_decide_eq_true isLost (ResourceServer.held_iff.mp holds untypedId isLive)⟩

end IceCap.Resources
