import IceCap.Dyndl.Fills
import IceCap.Dyndl.RealizerFailure
import IceCap.Resources.Spread

/-!
# Requests that fail

A request that ends in an error is not answered, and ends the thread of its node.
But what it has done until then stays done, and the lock goes back: the threads of
the other nodes carry on with the server as it was left.  A destroy that fails is
left out here, since it may leave some of the untypeds half given back.
-/

set_option autoImplicit false

namespace IceCap.Resources

open IceCap.Library IceCap.Sel4 IceCap.Dyndl

variable {K E : Type} {services : Services K E}

/-! ## Rounds -/

/-- A chunk that was looked at. -/
structure Sent where
  chunk : FillChunk
  accepted : Bool
  deriving DecidableEq, Repr

/-- The chunks are looked at up to the first that is refused. -/
def ResourceServer.looked (services : Services K E) (realmId : RealmId) :
    List FillChunk → ResourceServer K E → List Sent
  | [], _ => []
  | chunk :: chunks, server =>
      match realizeContinue services realmId chunk.objectIndex chunk.fillEntryIndex chunk.content
        server with
      | .ok _ next => ⟨chunk, true⟩ :: looked services realmId chunks next
      | _ => [⟨chunk, false⟩]

def Request.looked (services : Services K E) (server : ResourceServer K E) : Request → List Sent
  | .fillChunks realmId chunks => server.looked services realmId chunks
  | _ => []

def Request.isDestroy : Request → Bool
  | .destroy _ => true
  | _ => false

/-- What a thread has done in a round: it answered, or it failed. -/
inductive Round where
  | answered (event : Event)
  | failed (nodeIndex : Nat) (request : Request) (sent : List Sent)
  deriving DecidableEq, Repr

inductive Rounds (services : Services K E) :
    Round → ResourceServer K E → ResourceServer K E → Prop where
  | answered {event : Event} {before after : ResourceServer K E}
      (step : Step services event before after) : Rounds services (.answered event) before after
  | failed {nodeIndex : Nat} {request : Request} {error : Failure}
      {before after : ResourceServer K E} (notDestroy : request.isDestroy = false)
      (run : ResourceServer.dispatch services nodeIndex request before = .err error after) :
      Rounds services (.failed nodeIndex request (request.looked services before)) before after

/-- A round that can be computed. -/
def Round.serve (services : Services K E) :
    Round → ResourceServer K E → Option (ResourceServer K E)
  | .answered event, server => event.serve services server
  | .failed nodeIndex request sent, server =>
      if request.isDestroy = false ∧ sent = request.looked services server then
        (ResourceServer.dispatch services nodeIndex request server).refused
      else none

theorem Round.serve_rounds (round : Round) (before after : ResourceServer K E)
    (serves : round.serve services before = some after) : Rounds services round before after := by
  cases round with
  | answered event => exact .answered (event.serve_step before after serves)
  | failed nodeIndex request sent =>
      simp only [Round.serve, Option.ite_none_right_eq_some] at serves
      obtain ⟨⟨notDestroy, rfl⟩, isRefused⟩ := serves
      obtain ⟨error, run⟩ := Outcome.refused_eq_some.mp isRefused
      exact .failed notDestroy run

/-! ## What a failed call leaves -/

namespace ResourceServer

variable {server final : ResourceServer K E} {base : CRegion} {built : Node} {sizes : Sizes}
  {lost : List UntypedId} {reserved : List Slot} {slotOf : RealmId → Slot} {error : Failure}

theorem declare_infallible {realmId : RealmId} {specSize : Nat} :
    Exec.Infallible (declare realmId specSize : Exec Failure (ResourceServer K E) Unit) :=
  .bind .get fun _ => .bind (.assert _) fun _ => .bind (.assert _) fun _ => .modify _

theorem incorporateSpecChunk_infallible {realmId : RealmId} {offset : Nat} {chunk : List UInt8} :
    Exec.Infallible
      (incorporateSpecChunk realmId offset chunk : Exec Failure (ResourceServer K E) Unit) :=
  .bind .get fun _ => .bind (.unwrap _) fun _ => .bind (.assert _) fun _ => .modify _

/-- The spec is gone, and no realm is started. -/
theorem realizeStart_err {realmId : RealmId}
    (failed : realizeStart services realmId server = .err error final) :
    ∃ model realizer,
      Realizer.realizeStart services.platform model server.realizer = .err error realizer ∧
        final = { server with
          partialSpecs := server.partialSpecs.erase realmId
          realizer := realizer } := by
  obtain ⟨_, _, isGet, failed⟩ := Exec.Infallible.get.fails_later failed
  obtain ⟨rfl, rfl⟩ := Exec.get_eq_ok.mp isGet
  obtain ⟨raw, _, isRaw, failed⟩ := (Exec.Infallible.unwrap _).fails_later failed
  obtain ⟨_, rfl⟩ := Exec.unwrap_eq_ok.mp isRaw
  obtain ⟨⟨⟩, _, isErased, failed⟩ := (Exec.Infallible.modify _).fails_later failed
  obtain rfl := Exec.modify_eq_ok.mp isErased
  obtain ⟨model, _, isModel, failed⟩ := (Exec.Infallible.unwrap _).fails_later failed
  obtain ⟨_, rfl⟩ := Exec.unwrap_eq_ok.mp isModel
  rcases Exec.bind_eq_err.mp failed with startFails | ⟨_, _, _, failed⟩
  · obtain ⟨realizer, inner, rfl⟩ := Exec.focus_eq_err.mp startFails
    exact ⟨model, realizer, inner, rfl⟩
  · exact absurd failed (Exec.Infallible.modify _ _ _ _)

/-- The realm is gone. -/
theorem realizeFinish_err {nodeIndex : Nat} {realmId : RealmId}
    (failed : realizeFinish services nodeIndex realmId server = .err error final) :
    ∃ subsystem, server.partialRealms[realmId]? = some subsystem ∧
      final.partialRealms = server.partialRealms.erase realmId ∧ final.realms = server.realms ∧
      final.allocator = server.allocator ∧ final.realizer.frames = server.realizer.frames := by
  obtain ⟨_, _, isGet, failed⟩ := Exec.Infallible.get.fails_later failed
  obtain ⟨rfl, rfl⟩ := Exec.get_eq_ok.mp isGet
  obtain ⟨subsystem, _, found, failed⟩ := (Exec.Infallible.unwrap _).fails_later failed
  obtain ⟨isPartial, rfl⟩ := Exec.unwrap_eq_ok.mp found
  obtain ⟨⟨⟩, _, isErased, failed⟩ := (Exec.Infallible.modify _).fails_later failed
  obtain rfl := Exec.modify_eq_ok.mp isErased
  refine ⟨subsystem, isPartial, ?_⟩
  rcases Exec.bind_eq_err.mp failed with finishFails | ⟨finished, middle, finishRun, failed⟩
  · obtain ⟨realizer, inner, rfl⟩ := Exec.focus_eq_err.mp finishFails
    exact ⟨rfl, rfl, Realizer.realizeFinish_keeps _ _ (.inr ⟨error, inner⟩),
      Realizer.realizeFinish_frames _ _ (.inr ⟨error, inner⟩)⟩
  · obtain ⟨realizer, inner, rfl⟩ := Exec.focus_eq_ok.mp finishRun
    have rest : ∀ virtualNodes, Exec.Infallible (Exec.modify (fun server : ResourceServer K E =>
        { server with realms := server.realms.insert realmId ⟨virtualNodes, finished⟩ }) >>=
          fun _ => callEventServer services nodeIndex (.createRealm realmId 1)) :=
      fun _ => .bind (.modify _) fun _ => callEventServer_infallible
    rcases Exec.bind_eq_err.mp failed with nodesFail | ⟨virtualNodes, _, _, failed⟩
    · have isLocal : Local fun server : ResourceServer K E =>
          (server.maps, server.realizer.frames) := fun _ _ _ => rfl
      have same := Exec.Spares.mapEach (fun _ => isLocal.unshared.virtualNodeOf) _ _
        (.inr ⟨error, nodesFail⟩)
      simp only [maps, Prod.mk.injEq] at same
      obtain ⟨⟨_, partials, realms, allocator⟩, frames⟩ := same
      exact ⟨partials, realms, allocator.trans (Realizer.realizeFinish_keeps.keeps _ _ _ inner),
        frames.trans (Realizer.realizeFinish_frames.keeps _ _ _ inner)⟩
    · exact absurd failed (rest _ _ _ _)

theorem realizeContinue_err {realmId : RealmId} {objectIndex fillEntryIndex : Nat}
    {content : List UInt8}
    (failed : realizeContinue services realmId objectIndex fillEntryIndex content server =
      .err error final) :
    ∃ subsystem realizer, server.partialRealms[realmId]? = some subsystem ∧
      Realizer.realizeContinue services.platform services.resources subsystem objectIndex
        fillEntryIndex content server.realizer = .err error realizer ∧
      final = { server with realizer := realizer } := by
  obtain ⟨_, _, isGet, failed⟩ := Exec.Infallible.get.fails_later failed
  obtain ⟨rfl, rfl⟩ := Exec.get_eq_ok.mp isGet
  obtain ⟨subsystem, _, found, failed⟩ := (Exec.Infallible.unwrap _).fails_later failed
  obtain ⟨isPartial, rfl⟩ := Exec.unwrap_eq_ok.mp found
  obtain ⟨realizer, inner, rfl⟩ := Exec.focus_eq_err.mp failed
  exact ⟨subsystem, realizer, isPartial, inner, rfl⟩

/-! ## The slots of the realms -/

/-- What a realm that could not be started has taken is lost, -/
theorem realizeStart_err_spread {realmId : RealmId}
    (spread : server.Spread base built sizes lost reserved slotOf)
    (failed : realizeStart services realmId server = .err error final) :
    ∃ ids slots, final.Spread base built sizes (ids ++ lost) (slots ++ reserved) slotOf := by
  obtain ⟨model, realizer, inner, rfl⟩ := realizeStart_err failed
  obtain ⟨ids, slots, sound⟩ := Realizer.realizeStart_err spread.sound inner
  have place := Realizer.realizeStart_place _ _ (.inr ⟨error, inner⟩)
  refine ⟨ids, slots, spread.forget slots ?_ (place.trans spread.samePlace) fun _ _ isKept => isKept⟩
  rw [List.append_assoc]
  exact sound

/-- and what one has that could not be finished. -/
theorem realizeFinish_err_spread {nodeIndex : Nat} {realmId : RealmId}
    (spread : server.Spread base built sizes lost reserved slotOf)
    (failed : realizeFinish services nodeIndex realmId server = .err error final) :
    ∃ ids, final.Spread base built sizes (ids ++ lost) reserved slotOf := by
  obtain ⟨subsystem, isPartial, partials, realms, same, _⟩ := realizeFinish_err failed
  have place : Allocator.place final.realizer.machine = Allocator.place server.realizer.machine :=
    congrArg (fun allocator => allocator.cregion.place) same
  refine ⟨subsystem.ids, spread.forget [] ?_ (place.trans spread.samePlace)
    fun id kept isKept => ?_⟩
  · refine (spread.sound.ofAllocator same).perm ?_
    have perm := ids_forgotten isPartial partials realms
    rw [List.perm_iff_count] at perm ⊢
    intro id
    have perm := perm id
    simp only [List.count_append] at perm ⊢
    omega
  · rw [partials, Std.TreeMap.getElem?_erase] at isKept
    split at isKept
    · simp at isKept
    · exact isKept

end ResourceServer

variable {round : Round} {before after : ResourceServer K E} {base : CRegion} {built : Node}

theorem Rounds.spread (spread : before.IsSpread base built services.platform.sizes)
    (rounds : Rounds services round before after) :
    after.IsSpread base built services.platform.sizes := by
  cases rounds with
  | answered step => exact step.spread spread
  | @failed nodeIndex request error _ _ notDestroy run =>
      cases request with
      | declare id size => exact absurd run (ResourceServer.declare_infallible _ _ _)
      | specChunk id offset content =>
          exact absurd run (ResourceServer.incorporateSpecChunk_infallible _ _ _)
      | realizeStart id =>
          obtain ⟨lost, reserved, slotOf, spread⟩ := spread
          obtain ⟨ids, slots, spread⟩ := ResourceServer.realizeStart_err_spread spread run
          exact ⟨_, _, _, spread⟩
      | realizeFinish id =>
          obtain ⟨lost, reserved, slotOf, spread⟩ := spread
          obtain ⟨ids, spread⟩ := ResourceServer.realizeFinish_err_spread spread run
          exact ⟨_, _, _, spread⟩
      | destroy id => simp [Request.isDestroy] at notDestroy
      | fillChunks id chunks =>
          exact spread.ofTenure ((Exec.Spares.forEach fun _ =>
            ResourceServer.realizeContinue_tenure) _ _ (.inr ⟨error, run⟩))
      | hackRun id =>
          exact spread.ofTenure (ResourceServer.tenure_unshared.hackRun _ _ (.inr ⟨error, run⟩))
      | yieldTo physicalNode id virtualNode ns =>
          exact spread.ofTenure (ResourceServer.tenure_unscheduled.yieldTo _ _ (.inr ⟨error, run⟩))
      | hostEvent =>
          exact spread.ofTenure (ResourceServer.tenure_unscheduled.hostEvent _ _
            (.inr ⟨error, run⟩))
      | timeout =>
          exact spread.ofTenure (ResourceServer.tenure_unscheduled.timeout _ _ (.inr ⟨error, run⟩))

end IceCap.Resources
