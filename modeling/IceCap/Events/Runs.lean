import IceCap.Events.Realize

/-!
# Runs of the event server

What `realize` sets up and every request keeps: the target of an event and the
entry at the target always agree, as long as no move goes to an entry that is
in use.
-/

set_option autoImplicit false

namespace IceCap.Events

open IceCap.Library IceCap.Sel4 FiniteSet

variable {K : Type}

theorem Step.coherent_star {kernel : Kernel K} {before after : System K}
    (coherent : before.Coherent) (run : Relation.ReflTransGen (Step kernel) before after) :
    after.Coherent := by
  induction run with
  | refl => exact coherent
  | tail _ step ih => exact step.coherent ih

/-- In every state of a run, an event has a place in an in-space of a client as its target exactly
if it is the event of the entry there, and no two events have the same target. -/
theorem run_coherent {kernel : Kernel K} {numActiveCores : Nat} {config : EventServerConfig}
    {kernelState : K} {server : EventServer} {store : Store K} {system : System K}
    (realized : config.realize kernel numActiveCores (Store.empty kernelState) = .ok server store)
    (run : Relation.ReflTransGen (Step kernel) ⟨server, store⟩ system) :
    (∀ (clientId : ClientId) (client : Client) (inSpace : InSpaceId) (index : Nat)
      (event : EventId), system.server.client clientId = some client → inSpace ∈ client.inSpaces →
      (system.store.targetOf event = some ⟨inSpace, index⟩ ↔
        system.store.eventAt ⟨inSpace, index⟩ = some event)) ∧
    ∀ (first second : EventId) (place : EventTarget), system.store.targetOf first = some place →
      system.store.targetOf second = some place → first = second := by
  have coherent := Step.coherent_star (realize_coherent realized) run
  have agree := coherent.routed.agree
  constructor
  · intro clientId client inSpace index event isClient isInSpace
    apply agree event ⟨inSpace, index⟩
    exact ⟨clientId, by simpa [EventServer.layout, isClient] using isInSpace⟩
  · intro first second place isFirst isSecond
    exact agree.forward_injective (coherent.targetsLive first place isFirst) isFirst isSecond

/-- Two cores, one node for each realm, and one interrupt. -/
def exampleConfig : EventServerConfig where
  hostNotifications := [⟨[1], 0x1000⟩, ⟨[2], 0x2000⟩]
  realmNotifications := [[⟨[3], 0x3000⟩], [⟨[4], 0x4000⟩]]
  resourceServerSubscriptions := [5, 6]
  irqs := (∅ : Std.TreeMap Nat (CPtr × List CPtr)).insert 40 (7, [8, 9])

def exampleSystem : Option (System Unit) :=
  match exampleConfig.realize permissive 2 (Store.empty ()) with
  | .ok server store => some ⟨server, store⟩
  | _ => none

theorem exampleSystem_realized {system : System Unit} (isSystem : exampleSystem = some system) :
    exampleConfig.realize permissive 2 (Store.empty ()) = .ok system.server system.store := by
  unfold exampleSystem at isSystem
  split at isSystem
  · next server store realized =>
      obtain rfl := Option.some.inj isSystem
      exact realized
  · simp at isSystem

/-- What is found after one request in the example. -/
def exampleAfter {α : Type} (request : Request) (find : System Unit → α) : Option α :=
  exampleSystem.bind fun system =>
    match handle permissive request system with
    | .ok () after => some (find after)
    | _ => none

theorem exampleAfter_eq_some {α : Type} {request : Request} {find : System Unit → α} {value : α}
    (found : exampleAfter request find = some value) :
    ∃ before after, exampleConfig.realize permissive 2 (Store.empty ()) =
        .ok before.server before.store ∧
      handle permissive request before = .ok () after ∧ find after = value := by
  simp only [exampleAfter, Option.bind_eq_some_iff] at found
  obtain ⟨before, isSystem, found⟩ := found
  split at found
  · next after run =>
      exact ⟨before, after, exampleSystem_realized isSystem, run, Option.some.inj found⟩
  · simp at found

/-- A realm is created, and its first event is found where it is routed to. -/
theorem run_coherent_exampleConfig :
    ∃ before after, exampleConfig.realize permissive 2 (Store.empty ()) =
        .ok before.server before.store ∧
      Relation.ReflTransGen (Step permissive) before after ∧
      after.store.targetOf 4 = some ⟨2, 0⟩ ∧ after.store.eventAt ⟨2, 0⟩ = some 4 := by
  have found : exampleAfter (.createRealm 0 1) (fun after => (after.store.targetOf 4,
      (after.server.client (.realm 0)).map Client.inSpaces)) = some (some ⟨2, 0⟩, some [2]) := by
    decide +kernel
  obtain ⟨before, after, realized, run, isFound⟩ := exampleAfter_eq_some found
  obtain ⟨isTarget, isClient⟩ := Prod.mk.inj isFound
  obtain ⟨client, isClient, inSpaces⟩ := Option.map_eq_some_iff.mp isClient
  have star : Relation.ReflTransGen (Step permissive) before after :=
    .single ⟨.createRealm 0 1, trivial, .inl ⟨(), run⟩⟩
  refine ⟨before, after, realized, star, isTarget, ?_⟩
  have agree := (run_coherent realized star).1 (.realm 0) client 2 0 4 isClient (by simp [inSpaces])
  exact agree.mp isTarget

/-- The host moves its first event onto the entry of its ring buffer with the resource server.
Afterwards both events have that entry as their target. -/
theorem move_onto_occupied :
    ∃ before after, exampleConfig.realize permissive 2 (Store.empty ()) =
        .ok before.server before.store ∧
      handle permissive (.move .host 0 0 0 989) before = .ok () after ∧
      after.store.targetOf 0 = some ⟨0, 989⟩ ∧ after.store.targetOf 12 = some ⟨0, 989⟩ := by
  have found : exampleAfter (.move .host 0 0 0 989)
      (fun after => (after.store.targetOf 0, after.store.targetOf 12)) =
        some (some ⟨0, 989⟩, some ⟨0, 989⟩) := by
    decide +kernel
  obtain ⟨before, after, realized, run, isFound⟩ := exampleAfter_eq_some found
  obtain ⟨isFirst, isSecond⟩ := Prod.mk.inj isFound
  exact ⟨before, after, realized, run, isFirst, isSecond⟩

end IceCap.Events
