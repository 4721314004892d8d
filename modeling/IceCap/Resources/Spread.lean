import IceCap.Dyndl.Paths
import IceCap.Resources.LifeCycle

/-!
# The slots of the realms that are being realized

A realm keeps the slot of its CNode for good, and no other realm has that slot, so the
objects of different realms have different capabilities.  For this it does not count
whether the phases of the realms exclude each other: a realm that is replaced loses its
untypeds, and still nobody else has them or its slot.
-/

set_option autoImplicit false

namespace IceCap.Resources

open IceCap.Library IceCap.Sel4 IceCap.Dyndl

variable {K E : Type} {services : Services K E}

namespace ResourceServer

variable {server final : ResourceServer K E} {base : CRegion} {built : Node} {sizes : Sizes}
  {lost : List UntypedId} {reserved : List Slot} {slotOf : RealmId → Slot}

/-- The realms that are being realized have their CNodes in different slots.  The untypeds of a
realm that was replaced are lost. -/
structure Spread (base : CRegion) (built : Node) (sizes : Sizes) (lost : List UntypedId)
    (reserved : List Slot) (slotOf : RealmId → Slot) (server : ResourceServer K E) : Prop where
  sound : Sound base built (lost ++ server.ids) reserved server.realizer.machine
  samePlace : Allocator.place server.realizer.machine = base.place
  rooted : ∀ (id : RealmId) (subsystem : PartialSubsystem),
    server.partialRealms[id]? = some subsystem → subsystem.Rooted base sizes (slotOf id)
  reserves : ∀ id ∈ server.partialRealms, slotOf id ∈ reserved
  distinct : ∀ id ∈ server.partialRealms, ∀ other ∈ server.partialRealms,
    slotOf id = slotOf other → id = other

theorem mem_partialRealms {id : RealmId} {subsystem : PartialSubsystem}
    (isPartial : server.partialRealms[id]? = some subsystem) : id ∈ server.partialRealms :=
  Std.TreeMap.mem_iff_isSome_getElem?.mpr (by rw [isPartial]; rfl)

/-- No object of one realm has the capability of an object of another one. -/
theorem Spread.frame_ne (spread : server.Spread base built sizes lost reserved slotOf)
    (small : ∀ slot, base.Free slot → slot < 2 ^ (base.radix % 64)) {id other : RealmId}
    {subsystem otherSubsystem : PartialSubsystem} (differs : id ≠ other)
    (isPartial : server.partialRealms[id]? = some subsystem)
    (isOther : server.partialRealms[other]? = some otherSubsystem) {i j : ObjId} {first second : CPtr}
    (isFrame : subsystem.frame i = some first) (isOtherFrame : otherSubsystem.frame j = some second) :
    first ≠ second := by
  intro same
  subst same
  have smallSlot : ∀ id ∈ server.partialRealms, slotOf id < 2 ^ (base.radix % 64) :=
    fun id member => small _ (spread.sound.slotsTaken _
      (List.mem_append_left _ (spread.reserves id member)))
  have member := mem_partialRealms isPartial
  have otherMember := mem_partialRealms isOther
  have leads := (spread.rooted id subsystem isPartial).leads isFrame
  have leadsToo := (spread.rooted other otherSubsystem isOther).leads isOtherFrame
  exact differs (spread.distinct id member other otherMember
    (leads.unique leadsToo (smallSlot id member) (smallSlot other otherMember)))

theorem Spread.congr (spread : server.Spread base built sizes lost reserved slotOf)
    (perm : final.ids.Perm server.ids) (samePartials : final.partialRealms = server.partialRealms)
    (same : final.allocator = server.allocator) :
    final.Spread base built sizes lost reserved slotOf where
  sound := (spread.sound.ofAllocator same).perm (perm.append_left _)
  samePlace := (congrArg (fun allocator => allocator.cregion.place) same).trans spread.samePlace
  rooted := by rw [samePartials]; exact spread.rooted
  reserves := by rw [samePartials]; exact spread.reserves
  distinct := by rw [samePartials]; exact spread.distinct

theorem Spread.ofTenure (spread : server.Spread base built sizes lost reserved slotOf)
    (same : final.tenure = server.tenure) : final.Spread base built sizes lost reserved slotOf :=
  spread.congr (ids_of_tenure same) (congrArg Tenure.partialRealms same)
    (congrArg Tenure.allocator same)

/-- Realms that are gone leave their slots. -/
theorem Spread.forget {gone : List UntypedId}
    (spread : server.Spread base built sizes lost reserved slotOf) (slots : List Slot)
    (sound : Sound base built (gone ++ final.ids) (slots ++ reserved) final.realizer.machine)
    (samePlace : Allocator.place final.realizer.machine = base.place)
    (shrinks : ∀ (id : RealmId) (kept : PartialSubsystem),
      final.partialRealms[id]? = some kept → server.partialRealms[id]? = some kept) :
    final.Spread base built sizes gone (slots ++ reserved) slotOf := by
  have members : ∀ id ∈ final.partialRealms, id ∈ server.partialRealms := by
    intro id member
    obtain ⟨kept, isKept⟩ := Option.isSome_iff_exists.mp
      (Std.TreeMap.mem_iff_isSome_getElem?.mp member)
    exact mem_partialRealms (shrinks id kept isKept)
  exact ⟨sound, samePlace, fun id kept isKept => spread.rooted id kept (shrinks id kept isKept),
    fun id member => List.mem_append_right _ (spread.reserves id (members id member)),
    fun id member other otherMember =>
      spread.distinct id (members id member) other (members other otherMember)⟩

/-- A realm that is started has a slot of its own, -/
theorem realizeStart_spread {realmId : RealmId}
    (spread : server.Spread base built services.platform.sizes lost reserved slotOf)
    (run : realizeStart services realmId server = .ok () final) :
    ∃ realmSlot, final.Spread base built services.platform.sizes
      ((server.partialRealms[realmId]?).elim [] PartialSubsystem.ids ++ lost)
      (realmSlot :: reserved) (Function.update slotOf realmId realmSlot) := by
  obtain ⟨_, model, started, realizer, inner, rfl⟩ := realizeStart_eq_ok run
  obtain ⟨realmSlot, sound, rooted, samePlace⟩ :=
    Realizer.realizeStart_rooted spread.sound spread.samePlace inner
  have isFresh : realmSlot ∉ reserved := by
    have nodup := List.nodup_cons.mp (List.nodup_append.mp sound.slotsNodup).1
    exact nodup.1
  have reserves : ∀ other ∈ server.partialRealms.insert realmId started, realmId ≠ other →
      other ∈ server.partialRealms := by
    intro other member differs
    simpa [Std.TreeMap.mem_insert, Std.LawfulEqCmp.compare_eq_iff_eq, differs] using member
  refine ⟨realmSlot, ⟨sound.perm ?_, samePlace, ?_, ?_, ?_⟩⟩
  · have perm := @ids_started _ _ server { server with
      partialSpecs := server.partialSpecs.erase realmId
      partialRealms := server.partialRealms.insert realmId started
      realizer := realizer } _ _ rfl rfl
    rw [List.perm_iff_count] at perm ⊢
    intro id
    have perm := perm id
    simp only [List.count_append] at perm ⊢
    omega
  · intro other subsystem isPartial
    rw [Std.TreeMap.getElem?_insert] at isPartial
    by_cases same : realmId = other
    · subst same
      rw [if_pos Std.ReflCmp.compare_self] at isPartial
      obtain rfl := Option.some.inj isPartial
      rwa [Function.update_self]
    · rw [if_neg (by simpa [Std.LawfulEqCmp.compare_eq_iff_eq] using same)] at isPartial
      rw [Function.update_of_ne (Ne.symm same)]
      exact spread.rooted other subsystem isPartial
  · intro other member
    by_cases same : realmId = other
    · subst same
      rw [Function.update_self]
      exact List.mem_cons_self
    · rw [Function.update_of_ne (Ne.symm same)]
      exact List.mem_cons_of_mem _ (spread.reserves other (reserves other member same))
  · intro first isFirst second isSecond sameSlot
    by_contra differs
    by_cases same : realmId = first
    · subst same
      have isSecond := reserves second isSecond differs
      rw [Function.update_self, Function.update_of_ne (Ne.symm differs)] at sameSlot
      exact isFresh (sameSlot ▸ spread.reserves second isSecond)
    · have isFirst := reserves first isFirst same
      rw [Function.update_of_ne (Ne.symm same)] at sameSlot
      by_cases sameToo : realmId = second
      · subst sameToo
        rw [Function.update_self] at sameSlot
        exact isFresh (sameSlot ▸ spread.reserves first isFirst)
      · rw [Function.update_of_ne (Ne.symm sameToo)] at sameSlot
        exact differs (spread.distinct first isFirst second (reserves second isSecond sameToo)
          sameSlot)

/-- and one that is finished or destroyed leaves its slot. -/
theorem realizeFinish_spread {nodeIndex : Nat} {realmId : RealmId}
    (spread : server.Spread base built sizes lost reserved slotOf)
    (run : realizeFinish services nodeIndex realmId server = .ok () final) :
    final.Spread base built sizes
      ((server.realms[realmId]?).elim [] (fun realm : Realm => realm.subsystem.ids) ++ lost)
      reserved slotOf := by
  obtain ⟨subsystem, realm, isPartial, sameIds, _, partials, realms, same⟩ :=
    realizeFinish_eq_ok run
  have shrinks : ∀ (id : RealmId) (kept : PartialSubsystem),
      final.partialRealms[id]? = some kept → server.partialRealms[id]? = some kept := by
    intro id kept isKept
    rw [partials, Std.TreeMap.getElem?_erase] at isKept
    split at isKept
    · simp at isKept
    · exact isKept
  have place : Allocator.place final.realizer.machine = Allocator.place server.realizer.machine :=
    congrArg (fun allocator => allocator.cregion.place) same
  refine spread.forget [] ?_ (place.trans spread.samePlace) shrinks
  refine (spread.sound.ofAllocator same).perm ?_
  have perm := ids_finished isPartial sameIds partials realms
  rw [List.perm_iff_count] at perm ⊢
  intro id
  have perm := perm id
  simp only [List.count_append] at perm ⊢
  omega

theorem destroy_spread {nodeIndex : Nat} {realmId : RealmId}
    (spread : server.Spread base built sizes lost reserved slotOf)
    (run : destroy services nodeIndex realmId server = .ok () final) :
    final.Spread base built sizes lost reserved slotOf := by
  rcases destroy_eq_ok run with
    ⟨_, rfl⟩ | ⟨realm, before, after, isRealm, sameBefore, inner, _, partials, realms, same⟩
  · exact spread
  · have perm : (realm.subsystem.ids ++ (lost ++ final.ids)).Perm (lost ++ server.ids) := by
      have perm := ids_destroyed isRealm partials realms
      rw [List.perm_iff_count] at perm ⊢
      intro id
      have perm := perm id
      simp only [List.count_append] at perm ⊢
      omega
    have freed := Realizer.destroy_sound ((spread.sound.perm perm).ofAllocator sameBefore) inner
    have place := Realizer.destroy_place.keeps _ _ _ inner
    refine ⟨freed.ofAllocator same, ?_, partials ▸ spread.rooted, partials ▸ spread.reserves,
      partials ▸ spread.distinct⟩
    have samePlace : Allocator.place final.realizer.machine = Allocator.place after.machine :=
      congrArg (fun allocator => allocator.cregion.place) same
    have wasPlace : Allocator.place before.machine = Allocator.place server.realizer.machine :=
      congrArg (fun allocator => allocator.cregion.place) sameBefore
    exact (samePlace.trans place).trans (wasPlace.trans spread.samePlace)

/-- The realms that are being realized have their CNodes in different slots of the allocator's. -/
def IsSpread (base : CRegion) (built : Node) (sizes : Sizes) (server : ResourceServer K E) : Prop :=
  ∃ lost reserved slotOf, server.Spread base built sizes lost reserved slotOf

theorem IsSpread.ofTenure (spread : server.IsSpread base built sizes)
    (same : final.tenure = server.tenure) : final.IsSpread base built sizes := by
  obtain ⟨lost, reserved, slotOf, spread⟩ := spread
  exact ⟨lost, reserved, slotOf, spread.ofTenure same⟩

end ResourceServer

variable {event : Event} {before after : ResourceServer K E} {base : CRegion} {built : Node}

theorem Step.spread (spread : before.IsSpread base built services.platform.sizes)
    (step : Step services event before after) :
    after.IsSpread base built services.platform.sizes := by
  cases step with
  | yieldBack run => exact absurd run ResourceServer.yieldBack_ne_ok
  | @dispatch nodeIndex request _ _ run =>
      cases request with
      | declare id size =>
          obtain ⟨_, rfl⟩ := ResourceServer.declare_eq_ok run
          obtain ⟨lost, reserved, slotOf, spread⟩ := spread
          exact ⟨lost, reserved, slotOf, spread.congr (List.Perm.refl _) rfl rfl⟩
      | specChunk id offset content =>
          obtain ⟨_, _, rfl⟩ := ResourceServer.incorporateSpecChunk_eq_ok run
          obtain ⟨lost, reserved, slotOf, spread⟩ := spread
          exact ⟨lost, reserved, slotOf, spread.congr (List.Perm.refl _) rfl rfl⟩
      | realizeStart id =>
          obtain ⟨lost, reserved, slotOf, spread⟩ := spread
          obtain ⟨realmSlot, spread⟩ := ResourceServer.realizeStart_spread spread run
          exact ⟨_, _, _, spread⟩
      | realizeFinish id =>
          obtain ⟨lost, reserved, slotOf, spread⟩ := spread
          exact ⟨_, _, _, ResourceServer.realizeFinish_spread spread run⟩
      | destroy id =>
          obtain ⟨lost, reserved, slotOf, spread⟩ := spread
          exact ⟨_, _, _, ResourceServer.destroy_spread spread run⟩
      | fillChunks id chunks =>
          have same := (Exec.Spares.forEach fun _ => ResourceServer.realizeContinue_tenure).keeps _ _ _ run
          exact spread.ofTenure same
      | hackRun id => exact spread.ofTenure (ResourceServer.tenure_unshared.hackRun.keeps _ _ _ run)
      | yieldTo physicalNode id virtualNode ns =>
          exact spread.ofTenure (ResourceServer.tenure_unscheduled.yieldTo.keeps _ _ _ run)
      | hostEvent => exact spread.ofTenure (ResourceServer.tenure_unscheduled.hostEvent.keeps _ _ _ run)
      | timeout => exact spread.ofTenure (ResourceServer.tenure_unscheduled.timeout.keeps _ _ _ run)

theorem new_isSpread {builder : AllocatorBuilder} (wellFormed : builder.WellFormed)
    {allocator : Allocator} (isBuilt : builder.build = some allocator) (kernel : K)
    (externs : Externs) (frames : Frames) {cnode : CPtr} {nodeLocal : List NodeLocal}
    {eventServer : E} :
    (ResourceServer.new services ⟨⟨allocator, kernel⟩, externs, frames⟩ cnode nodeLocal
      eventServer).IsSpread allocator.cregion allocator.capDerivationTree
        services.platform.sizes := by
  have sound := (AllocatorBuilder.build_placed wellFormed isBuilt).sound kernel
  refine ⟨[], [], fun _ => 0, ⟨sound, rfl, ?_, ?_, ?_⟩⟩
  · intro id subsystem isPartial
    simp [ResourceServer.new] at isPartial
  · intro id member
    simp [ResourceServer.new] at member
  · intro id member
    simp [ResourceServer.new] at member

end IceCap.Resources
