import Mathlib.Data.List.Nodup
import IceCap.Library.TwoWay
import IceCap.Events.Init

/-!
# Where events are routed

An event stores its target, and the entry at the target stores the event.
`Routed` says that the two agree for every in-space that a client still has,
together with what is needed to keep it so: the in-spaces of different clients
are different ones, and the events in a realm's in-spaces are those set aside
for it.  It is stated over a `Layout`, the part of the server that matters.
-/

set_option autoImplicit false

namespace IceCap.Events

open IceCap.Library IceCap.Sel4 FiniteSet

variable {K : Type}

def InSpace.eventAt (inSpace : InSpace) (index : Nat) : Option EventId :=
  (inSpace.entries[index]?).bind fun entry => entry.map InSpaceEntry.event

namespace Store

def targetOf (store : Store K) (event : EventId) : Option EventTarget :=
  store.events[event]?.bind Event.target

def eventAt (store : Store K) (place : EventTarget) : Option EventId :=
  (store.inSpaces[place.inSpace]?).bind fun inSpace => inSpace.eventAt place.index

/-- Nothing that concerns routing has changed. -/
structure SameRoutes (before after : Store K) : Prop where
  targets : after.targetOf = before.targetOf
  events : after.eventAt = before.eventAt
  numInSpaces : after.inSpaces.length = before.inSpaces.length

namespace SameRoutes

theorem refl (store : Store K) : SameRoutes store store := ⟨rfl, rfl, rfl⟩

theorem trans {first second third : Store K} (one : SameRoutes first second)
    (two : SameRoutes second third) : SameRoutes first third :=
  ⟨two.targets.trans one.targets, two.events.trans one.events,
    two.numInSpaces.trans one.numInSpaces⟩

end SameRoutes

end Store

/-! ## What the cells do to the routes -/

section Cells
variable {store final : Store K}

theorem modifyInSpace_sameRoutes {inSpace : InSpaceId} {update : InSpace → InSpace}
    (keeps : ∀ (found : InSpace) (index : Nat), (update found).eventAt index = found.eventAt index)
    (run : modifyInSpace inSpace update store = .ok () final) : store.SameRoutes final := by
  simp only [modifyInSpace, Exec.modify_eq_ok] at run
  subst run
  refine ⟨rfl, ?_, by simp⟩
  funext place
  simp only [Store.eventAt, List.getElem?_modify]
  split
  · next same =>
      cases found : store.inSpaces[place.inSpace]? with
      | none => simp
      | some inSpace => simpa using keeps inSpace place.index
  · simp

theorem setSlot_sameRoutes {inSpace : InSpaceId} {subscriber : Option Subscriber}
    (run : setSlot inSpace subscriber store = .ok () final) : store.SameRoutes final :=
  modifyInSpace_sameRoutes (by intro _ _; rfl) run

theorem signalNotification_sameRoutes {nfn : CPtr}
    (run : signalNotification nfn store = .ok () final) : store.SameRoutes final := by
  simp only [signalNotification, Exec.modify_eq_ok] at run
  subst run
  exact ⟨rfl, rfl, rfl⟩

theorem setBit_sameRoutes {address index : Nat} {wasClear : Bool}
    (run : setBit address index store = .ok wasClear final) : store.SameRoutes final := by
  simp only [setBit, Outcome.ok.injEq] at run
  obtain ⟨_, rfl⟩ := run
  exact ⟨rfl, rfl, rfl⟩

theorem onKernel_sameRoutes {call : Exec Failure K Unit}
    (run : onKernel call store = .ok () final) : store.SameRoutes final := by
  obtain ⟨inner, _, rfl⟩ := Exec.focus_eq_ok.mp run
  exact ⟨rfl, rfl, rfl⟩

theorem onKernel_err_sameRoutes {call : Exec Failure K Unit} {error : Failure}
    (run : onKernel call store = .err error final) : store.SameRoutes final := by
  obtain ⟨inner, _, rfl⟩ := Exec.focus_eq_err.mp run
  exact ⟨rfl, rfl, rfl⟩

/-- The event of an entry that was read. -/
theorem eventAt_of_readEntry {inSpace : InSpaceId} {index : Nat} {entry : Option InSpaceEntry}
    (run : readEntry inSpace index store = .ok entry final) :
    final = store ∧ store.eventAt ⟨inSpace, index⟩ = entry.map InSpaceEntry.event ∧
      ∃ found, store.inSpaces[inSpace]? = some found ∧ found.entries[index]? = some entry := by
  simp only [readEntry, readInSpace, Exec.bind_eq_ok, Exec.reads_eq_ok, Exec.unwrap_eq_ok] at run
  obtain ⟨found, _, ⟨isInSpace, rfl⟩, isEntry, rfl⟩ := run
  exact ⟨rfl, by simp [Store.eventAt, InSpace.eventAt, isInSpace, isEntry], found, isInSpace, isEntry⟩

/-- Writing an entry that exists. -/
theorem writeEntry_routes {inSpace : InSpaceId} {index : Nat} {entry old : Option InSpaceEntry}
    {found : InSpace} (isInSpace : store.inSpaces[inSpace]? = some found)
    (isEntry : found.entries[index]? = some old)
    (run : writeEntry inSpace index entry store = .ok () final) :
    final.targetOf = store.targetOf ∧
      final.eventAt = Function.update store.eventAt ⟨inSpace, index⟩
        (entry.map InSpaceEntry.event) ∧
      final.inSpaces.length = store.inSpaces.length ∧ final.events = store.events := by
  simp only [writeEntry, modifyInSpace, Exec.modify_eq_ok] at run
  subst run
  refine ⟨rfl, ?_, by simp, rfl⟩
  funext place
  cases place with | mk otherSpace otherIndex
  simp only [Store.eventAt, List.getElem?_modify]
  have inBounds : index < found.entries.length := (List.getElem?_eq_some_iff.mp isEntry).1
  by_cases sameSpace : inSpace = otherSpace
  · subst sameSpace
    by_cases sameIndex : index = otherIndex
    · subst sameIndex
      simp [InSpace.eventAt, isInSpace, inBounds]
    · have apart : (⟨inSpace, otherIndex⟩ : EventTarget) ≠ ⟨inSpace, index⟩ := by
        simp [Ne.symm sameIndex]
      simp [InSpace.eventAt, isInSpace, Function.update_of_ne apart, Store.eventAt, sameIndex]
  · have apart : (⟨otherSpace, otherIndex⟩ : EventTarget) ≠ ⟨inSpace, index⟩ := by
      simp [Ne.symm sameSpace]
    simp [Function.update_of_ne apart, Store.eventAt, sameSpace]

/-- Writing the target of an event that exists. -/
theorem setTarget_routes {event : EventId} {target : Option EventTarget}
    (exists_ : event < store.events.length) (run : setTarget event target store = .ok () final) :
    final.targetOf = Function.update store.targetOf event target ∧
      final.eventAt = store.eventAt ∧ final.inSpaces = store.inSpaces ∧
      final.events.length = store.events.length := by
  simp only [setTarget, Exec.modify_eq_ok] at run
  subst run
  refine ⟨?_, rfl, rfl, by simp⟩
  funext other
  simp only [Store.targetOf, List.getElem?_modify]
  by_cases same : event = other
  · subst same
    simp [exists_]
  · simp [Function.update_of_ne (Ne.symm same), Store.targetOf, same]

end Cells

/-! ## The invariant -/

/-- The in-spaces each client has, and the events set aside for each realm. -/
structure Layout where
  inSpacesOf : ClientId → List InSpaceId
  inEntries : RealmId → EventId → Prop

namespace Layout

def Live (layout : Layout) (place : EventTarget) : Prop :=
  ∃ client, place.inSpace ∈ layout.inSpacesOf client

/-- The events that may be found in the in-spaces of a client. -/
def MayHold (layout : Layout) : ClientId → EventId → Prop
  | .realm rid, event => layout.inEntries rid event
  | _, event => ∀ rid, ¬ layout.inEntries rid event

end Layout

structure Routed (layout : Layout) (store : Store K) : Prop where
  agree : TwoWay layout.Live store.targetOf store.eventAt
  owned : ∀ (client : ClientId) (place : EventTarget) (event : EventId),
    place.inSpace ∈ layout.inSpacesOf client → store.eventAt place = some event →
    layout.MayHold client event
  exclusive : ∀ (first second : RealmId) (event : EventId), layout.inEntries first event →
    layout.inEntries second event → first = second
  apart : ∀ (first second : ClientId) (inSpace : InSpaceId), inSpace ∈ layout.inSpacesOf first →
    inSpace ∈ layout.inSpacesOf second → first = second
  nodup : ∀ client, (layout.inSpacesOf client).Nodup
  bounded : ∀ (client : ClientId) (inSpace : Nat), inSpace ∈ layout.inSpacesOf client →
    inSpace < store.inSpaces.length
  targetsBounded : ∀ (event : EventId) (place : EventTarget), store.targetOf event = some place →
    place.inSpace < store.inSpaces.length

namespace Routed

variable {layout : Layout} {store final : Store K}

theorem sameRoutes (routed : Routed layout store) (same : store.SameRoutes final) :
    Routed layout final where
  agree := by rw [same.targets, same.events]; exact routed.agree
  owned := by rw [same.events]; exact routed.owned
  exclusive := routed.exclusive
  apart := routed.apart
  nodup := routed.nodup
  bounded := by rw [same.numInSpaces]; exact routed.bounded
  targetsBounded := by rw [same.targets, same.numInSpaces]; exact routed.targetsBounded

/-- A connected event may be put where its client holds such events. -/
theorem connect {event : EventId} {inSpace : InSpaceId} {index : Nat}
    (routed : Routed layout store) (client : ClientId) (isClient : inSpace ∈ layout.inSpacesOf client)
    (mayHold : layout.MayHold client event)
    (run : Event.connect event inSpace index store = .ok () final) :
    Routed layout final ∧ final.targetOf = Function.update store.targetOf event
        (some ⟨inSpace, index⟩) ∧ final.events.length = store.events.length := by
  simp only [Event.connect, Exec.bind_eq_ok, Exec.assert_eq_ok, readEvent, Exec.reads_eq_ok] at run
  obtain ⟨entry, afterRead, readRun, ⟨⟩, _, ⟨isFree, rfl⟩, found, _, ⟨isEvent, rfl⟩, ⟨⟩, _,
    ⟨noTarget, rfl⟩, ⟨⟩, afterWrite, writeRun, setRun⟩ := run
  obtain ⟨rfl, isEmpty, foundSpace, isSpace, isEntry⟩ := eventAt_of_readEntry readRun
  obtain ⟨sameTargets, newEvents, sameLength, sameEvents⟩ :=
    writeEntry_routes isSpace isEntry writeRun
  have inBounds : event < afterWrite.events.length := by
    rw [sameEvents]
    exact (List.getElem?_eq_some_iff.mp isEvent).1
  obtain ⟨newTargets, sameEvents', sameSpaces, numEvents⟩ := setTarget_routes inBounds setRun
  rw [sameTargets] at newTargets
  rw [newEvents] at sameEvents'
  subst isFree
  have freeSource : afterRead.targetOf event = none := by
    simp [Store.targetOf, isEvent, noTarget]
  refine ⟨⟨?_, ?_, routed.exclusive, routed.apart, routed.nodup, ?_, ?_⟩, newTargets, ?_⟩
  · rw [newTargets, sameEvents']
    exact routed.agree.link freeSource isEmpty
  · intro owner place other isOwner isOther
    rw [sameEvents'] at isOther
    by_cases here : place = ⟨inSpace, index⟩
    · subst here
      rw [Function.update_self] at isOther
      obtain rfl := Option.some.inj isOther
      rw [← routed.apart client owner inSpace isClient isOwner]
      exact mayHold
    · rw [Function.update_of_ne here] at isOther
      exact routed.owned owner place other isOwner isOther
  · intro owner space isOwner
    rw [sameSpaces, sameLength]
    exact routed.bounded owner space isOwner
  · intro other place isTarget
    rw [sameSpaces, sameLength]
    rw [newTargets] at isTarget
    by_cases same : other = event
    · subst same
      rw [Function.update_self] at isTarget
      obtain rfl := Option.some.inj isTarget
      exact routed.bounded client inSpace isClient
    · rw [Function.update_of_ne same] at isTarget
      exact routed.targetsBounded other place isTarget
  · rw [numEvents, sameEvents]

/-- An event that no live in-space holds may be disconnected. -/
theorem disconnect {event : EventId} (routed : Routed layout store)
    (unused : ∀ place, layout.Live place → store.eventAt place ≠ some event)
    (run : Event.disconnect event store = .ok () final) : Routed layout final := by
  simp only [Event.disconnect, Exec.bind_eq_ok, readEvent, Exec.reads_eq_ok] at run
  obtain ⟨found, _, ⟨isEvent, rfl⟩, setRun⟩ := run
  obtain ⟨newTargets, sameEvents, sameSpaces, _⟩ :=
    setTarget_routes (List.getElem?_eq_some_iff.mp isEvent).1 setRun
  refine ⟨?_, by rw [sameEvents]; exact routed.owned, routed.exclusive, routed.apart,
    routed.nodup, by rw [sameSpaces]; exact routed.bounded, ?_⟩
  · rw [newTargets, sameEvents]
    exact routed.agree.cut unused
  · intro other place isTarget
    rw [sameSpaces]
    rw [newTargets] at isTarget
    by_cases same : other = event
    · subst same
      simp at isTarget
    · rw [Function.update_of_ne same] at isTarget
      exact routed.targetsBounded other place isTarget

/-- An entry taken to a free place of the same client, and the event's target with it. -/
theorem relocate {client : ClientId} {src dst : EventTarget} {event : EventId}
    (routed : Routed layout store) (isSrc : src.inSpace ∈ layout.inSpacesOf client)
    (isDst : dst.inSpace ∈ layout.inSpacesOf client) (held : store.eventAt src = some event)
    (isFree : store.eventAt dst = none)
    (targets : final.targetOf = Function.update store.targetOf event (some dst))
    (events : final.eventAt =
      Function.update (Function.update store.eventAt src none) dst (some event))
    (numInSpaces : final.inSpaces.length = store.inSpaces.length) : Routed layout final := by
  refine ⟨?_, ?_, routed.exclusive, routed.apart, routed.nodup, ?_, ?_⟩
  · rw [targets, events]
    exact routed.agree.relink ⟨client, isSrc⟩ held isFree
  · intro owner place other isOwner isOther
    rw [events] at isOther
    by_cases atDst : place = dst
    · subst atDst
      rw [Function.update_self] at isOther
      obtain rfl := Option.some.inj isOther
      rw [← routed.apart client owner place.inSpace isDst isOwner]
      exact routed.owned client src event isSrc held
    · rw [Function.update_of_ne atDst] at isOther
      by_cases atSrc : place = src
      · subst atSrc
        simp at isOther
      · rw [Function.update_of_ne atSrc] at isOther
        exact routed.owned owner place other isOwner isOther
  · rw [numInSpaces]
    exact routed.bounded
  · intro other place isTarget
    rw [numInSpaces]
    rw [targets] at isTarget
    by_cases same : other = event
    · subst same
      rw [Function.update_self] at isTarget
      obtain rfl := Option.some.inj isTarget
      exact routed.bounded client _ isDst
    · rw [Function.update_of_ne same] at isTarget
      exact routed.targetsBounded other place isTarget

end Routed

/-! ## Moving -/

section Move
variable {store final : Store K} {client : Client}

theorem swapEntry_routes {nid index : Nat} {tmp entry : Option InSpaceEntry}
    (run : client.swapEntry nid index tmp store = .ok entry final) :
    ∃ inSpace, client.inSpaces[nid]? = some inSpace ∧
      entry.map InSpaceEntry.event = store.eventAt ⟨inSpace, index⟩ ∧
      final.targetOf = store.targetOf ∧
      final.eventAt = Function.update store.eventAt ⟨inSpace, index⟩
        (tmp.map InSpaceEntry.event) ∧
      final.inSpaces.length = store.inSpaces.length ∧ final.events = store.events := by
  simp only [Client.swapEntry, Exec.bind_eq_ok, Exec.unwrap_eq_ok, Exec.pure_eq_ok] at run
  obtain ⟨inSpace, _, ⟨isInSpace, rfl⟩, read, _, readRun, ⟨⟩, _, writeRun, rfl, rfl⟩ := run
  obtain ⟨rfl, isEvent, found, isFound, isEntry⟩ := eventAt_of_readEntry readRun
  exact ⟨inSpace, isInSpace, isEvent.symm, writeEntry_routes isFound isEntry writeRun⟩

theorem readEntry_infallible (inSpace : InSpaceId) (index : Nat) :
    Exec.Infallible (readEntry (K := K) inSpace index) := by
  intro store error final failed
  simp [readEntry, readInSpace] at failed

theorem swapEntry_infallible (client : Client) (nid index : Nat) (tmp : Option InSpaceEntry) :
    Exec.Infallible (client.swapEntry (K := K) nid index tmp) := by
  intro store error final failed
  simp [Client.swapEntry, readEntry, readInSpace, writeEntry, modifyInSpace] at failed

/-- The three swaps, when the destination is empty: the entry has changed its place. -/
theorem swaps_routes {srcNid srcIndex dstNid dstIndex : Nat} {first second third : Store K}
    {one two three : Option InSpaceEntry} (distinct : client.inSpaces.Nodup)
    (different : (srcNid, srcIndex) ≠ (dstNid, dstIndex))
    (isFree : ∀ dst, client.inSpaces[dstNid]? = some dst → store.eventAt ⟨dst, dstIndex⟩ = none)
    (firstRun : client.swapEntry srcNid srcIndex none store = .ok one first)
    (secondRun : client.swapEntry dstNid dstIndex one first = .ok two second)
    (thirdRun : client.swapEntry srcNid srcIndex two second = .ok three third) :
    ∃ src dst, client.inSpaces[srcNid]? = some src ∧ client.inSpaces[dstNid]? = some dst ∧
      one.map InSpaceEntry.event = store.eventAt ⟨src, srcIndex⟩ ∧
      store.eventAt ⟨dst, dstIndex⟩ = none ∧
      third.targetOf = store.targetOf ∧
      third.eventAt = Function.update (Function.update store.eventAt ⟨src, srcIndex⟩ none)
        ⟨dst, dstIndex⟩ (one.map InSpaceEntry.event) ∧
      third.inSpaces.length = store.inSpaces.length ∧ third.events = store.events := by
  obtain ⟨src, isSrc, isOne, targets₁, events₁, length₁, same₁⟩ := swapEntry_routes firstRun
  obtain ⟨dst, isDst, isTwo, targets₂, events₂, length₂, same₂⟩ := swapEntry_routes secondRun
  obtain ⟨src', isSrc', isThree, targets₃, events₃, length₃, same₃⟩ := swapEntry_routes thirdRun
  obtain rfl : src = src' := Option.some.inj (isSrc.symm.trans isSrc')
  have apart : (⟨dst, dstIndex⟩ : EventTarget) ≠ ⟨src, srcIndex⟩ := by
    intro same
    obtain ⟨rfl, rfl⟩ := EventTarget.mk.inj same
    obtain ⟨srcBound, atSrc⟩ := List.getElem?_eq_some_iff.mp isSrc
    obtain ⟨dstBound, atDst⟩ := List.getElem?_eq_some_iff.mp isDst
    have sameNid : srcNid = dstNid :=
      (distinct.getElem_inj_iff).mp (atSrc.trans atDst.symm)
    exact different (by rw [sameNid])
  have empty := isFree dst isDst
  have noTwo : two = none := by
    rw [events₁, Function.update_of_ne apart, empty] at isTwo
    simpa using isTwo
  refine ⟨src, dst, isSrc, isDst, isOne, empty, ?_, ?_, ?_, ?_⟩
  · rw [targets₃, targets₂, targets₁]
  · rw [events₃, events₂, events₁, noTwo, Option.map_none, Function.update_comm apart,
      Function.update_idem]
  · rw [length₃, length₂, length₁]
  · rw [same₃, same₂, same₁]

/-- Binding an IRQ to another notification is between the server and the kernel. -/
theorem rebindIrq_sameRoutes {kernel : Kernel K} {irq : Option EventIRQ} {dstIndex : Nat}
    (run : Exec.Ends (match irq with
      | none => (pure () : Exec Failure (Store K) Unit)
      | some irq => do
          let nfn ← Exec.unwrap irq.notifications[dstIndex]?
          onKernel (kernel.call (.irqSetNotification irq.handler nfn))) store final) :
    store.SameRoutes final := by
  cases irq with
  | none =>
      obtain ⟨_, returned⟩ := (Exec.Infallible.pure _).ends run
      obtain rfl := (Exec.pure_eq_ok.mp returned).2
      exact .refl _
  | some irq =>
      obtain ⟨nfn, _, nfnRun, run⟩ := (Exec.Infallible.unwrap _).ends_bind run
      obtain ⟨_, rfl⟩ := Exec.unwrap_eq_ok.mp nfnRun
      rcases run with ⟨⟨⟩, returned⟩ | ⟨error, failed⟩
      · exact onKernel_sameRoutes returned
      · exact onKernel_err_sameRoutes failed

/-- A move to a free place keeps the routes in agreement. -/
theorem move_routed {layout : Layout} {kernel : Kernel K} {clientId : ClientId}
    {srcNid srcIndex dstNid dstIndex : Nat} (routed : Routed layout store)
    (isClient : client.inSpaces = layout.inSpacesOf clientId)
    (isFree : (srcNid, srcIndex) ≠ (dstNid, dstIndex) → ∀ dst,
      client.inSpaces[dstNid]? = some dst → store.eventAt ⟨dst, dstIndex⟩ = none)
    (run : (client.move kernel srcNid srcIndex dstNid dstIndex).Ends store final) :
    Routed layout final ∧ ∀ event place, final.targetOf event = some place →
      store.targetOf event = some place ∨ place.inSpace ∈ layout.inSpacesOf clientId := by
  unfold Client.move at run
  split at run
  · next different =>
      obtain ⟨one, first, firstRun, run⟩ := (swapEntry_infallible _ _ _ _).ends_bind run
      obtain ⟨two, second, secondRun, run⟩ := (swapEntry_infallible _ _ _ _).ends_bind run
      obtain ⟨three, third, thirdRun, run⟩ := (swapEntry_infallible _ _ _ _).ends_bind run
      obtain ⟨src, dst, isSrc, isDst, isOne, isEmpty, targets, events, length, sameEvents⟩ :=
        swaps_routes (isClient ▸ routed.nodup clientId) different (isFree different) firstRun
          secondRun thirdRun
      have srcOwned : src ∈ layout.inSpacesOf clientId := isClient ▸ List.mem_of_getElem? isSrc
      have dstOwned : dst ∈ layout.inSpacesOf clientId := isClient ▸ List.mem_of_getElem? isDst
      obtain ⟨dst', _, dstRun, run⟩ := (Exec.Infallible.unwrap _).ends_bind run
      obtain ⟨isDst', rfl⟩ := Exec.unwrap_eq_ok.mp dstRun
      obtain rfl : dst = dst' := Option.some.inj (isDst.symm.trans isDst')
      obtain ⟨moved, _, readRun, run⟩ := (readEntry_infallible _ _).ends_bind run
      obtain ⟨rfl, isMoved, _⟩ := eventAt_of_readEntry readRun
      rw [events, Function.update_self, isOne] at isMoved
      rw [isOne] at events
      cases moved with
      | none =>
          obtain ⟨_, returned⟩ := (Exec.Infallible.pure _).ends run
          obtain rfl := (Exec.pure_eq_ok.mp returned).2
          rw [Option.map_none] at isMoved
          rw [isMoved] at events
          have unmoved : Function.update store.eventAt ⟨src, srcIndex⟩ none = store.eventAt :=
            Function.update_eq_self_iff.mpr isMoved.symm
          refine ⟨routed.sameRoutes ⟨targets, ?_, length⟩, ?_⟩
          · rw [events, unmoved, Function.update_eq_self_iff.mpr isEmpty.symm]
          · intro event place isTarget
            exact .inl (targets ▸ isTarget)
      | some entry =>
          rw [Option.map_some] at isMoved
          rw [isMoved] at events
          obtain ⟨⟨⟩, placed, setRun, run⟩ := (Exec.Infallible.modify _).ends_bind run
          obtain ⟨event, _, eventRun, run⟩ := (Exec.Infallible.reads _).ends_bind run
          obtain ⟨isEvent, rfl⟩ := Exec.reads_eq_ok.mp eventRun
          have inBounds : entry.event < store.events.length := by
            have linked := (routed.agree entry.event _ ⟨clientId, srcOwned⟩).mpr isMoved
            by_contra outside
            simp [Store.targetOf, List.getElem?_eq_none (Nat.le_of_not_lt outside)] at linked
          obtain ⟨newTargets, sameEventAt, sameSpaces, _⟩ :=
            setTarget_routes (sameEvents ▸ inBounds) setRun
          have relocated := routed.relocate srcOwned dstOwned isMoved isEmpty
            (newTargets.trans (by rw [targets])) (sameEventAt.trans events)
            (by rw [sameSpaces, length])
          have rebound := rebindIrq_sameRoutes run
          refine ⟨relocated.sameRoutes rebound, ?_⟩
          intro other place isTarget
          rw [rebound.targets, newTargets, targets] at isTarget
          by_cases same : other = entry.event
          · subst same
            rw [Function.update_self] at isTarget
            obtain rfl := Option.some.inj isTarget
            exact .inr dstOwned
          · rw [Function.update_of_ne same] at isTarget
            exact .inl isTarget
  · obtain ⟨_, returned⟩ := (Exec.Infallible.pure _).ends run
    obtain rfl := (Exec.pure_eq_ok.mp returned).2
    exact ⟨routed, fun event place isTarget => .inl isTarget⟩

end Move

/-! ## Signals and settings -/

section Signals
variable {store final : Store K}

theorem signalWithin_infallible (depth : Nat) :
    ∀ (borrowed : List InSpaceId) (event : EventId),
      Exec.Infallible (Event.signalWithin (K := K) depth borrowed event) := by
  induction depth with
  | zero => intro borrowed event store error final failed; simp [Event.signalWithin] at failed
  | succ depth ih =>
      intro borrowed event store error final failed
      simp only [Event.signalWithin, readEvent, Exec.bind_eq_err, Exec.reads_ne_err, false_or]
        at failed
      obtain ⟨found, middle, _, failed⟩ := failed
      cases isTarget : found.target with
      | none => simp [isTarget] at failed
      | some target =>
        simp only [isTarget, readInSpace, setBit, Exec.bind_eq_err, Exec.assert_ne_err, Exec.reads_ne_err,
          Exec.unwrap_ne_err, reduceCtorEq, false_or] at failed
        obtain ⟨_, _, _, _, _, _, _, _, _, _, _, _, _, _, _, failed⟩ := failed
        split at failed
        · simp only [signalNotification, setSlot, modifyInSpace, Exec.bind_eq_err,
            Exec.unwrap_ne_err, Exec.modify_ne_err, false_or] at failed
          obtain ⟨_, _, _, _, _, _, _, _, _, failed⟩ := failed
          rcases slot : (‹InSpace›).subscriptionSlot with _ | subscriber | nfn
          · simp [slot] at failed
          · simp only [slot] at failed
            exact ih _ _ _ _ _ failed
          · simp [slot] at failed
        · simp at failed

theorem signalWithin_sameRoutes (depth : Nat) :
    ∀ (borrowed : List InSpaceId) (event : EventId) (store final : Store K),
      Event.signalWithin depth borrowed event store = .ok () final → store.SameRoutes final := by
  induction depth with
  | zero => intro borrowed event store final run; simp [Event.signalWithin] at run
  | succ depth ih =>
      intro borrowed event store final run
      simp only [Event.signalWithin, readEvent, Exec.bind_eq_ok, Exec.reads_eq_ok] at run
      obtain ⟨found, _, ⟨_, rfl⟩, run⟩ := run
      cases isTarget : found.target with
      | none =>
        simp only [isTarget, Exec.pure_eq_ok] at run
        obtain rfl := run.2
        exact .refl _
      | some target =>
        simp only [isTarget, readInSpace, Exec.bind_eq_ok, Exec.assert_eq_ok, Exec.reads_eq_ok,
          Exec.unwrap_eq_ok] at run
        obtain ⟨⟨⟩, _, ⟨_, rfl⟩, inSpace, _, ⟨_, rfl⟩, entry, _, ⟨_, rfl⟩, _, _, ⟨_, rfl⟩, wasClear,
          afterBit, bitRun, run⟩ := run
        have bit := setBit_sameRoutes bitRun
        split at run
        · simp only [Exec.bind_eq_ok, Exec.unwrap_eq_ok] at run
          obtain ⟨nfn, _, ⟨_, rfl⟩, ⟨⟩, afterSignal, signalRun, ⟨⟩, afterSlot, slotRun, run⟩ := run
          have slot := (bit.trans (signalNotification_sameRoutes signalRun)).trans
            (setSlot_sameRoutes slotRun)
          rcases isSlot : inSpace.subscriptionSlot with _ | subscriber | nfn
          · simp only [isSlot, Exec.pure_eq_ok] at run
            obtain rfl := run.2
            exact slot
          · simp only [isSlot] at run
            exact slot.trans (ih _ _ _ _ run)
          · simp only [isSlot] at run
            exact slot.trans (signalNotification_sameRoutes run)
        · obtain rfl := (Exec.pure_eq_ok.mp run).2
          exact bit

theorem signal_sameRoutes {event : EventId} (run : (Event.signal event).Ends store final) :
    store.SameRoutes final := by
  obtain ⟨_, _, getRun, run⟩ := Exec.Infallible.get.ends_bind run
  obtain ⟨rfl, rfl⟩ := Exec.get_eq_ok.mp getRun
  obtain ⟨⟨⟩, returned⟩ := (signalWithin_infallible _ _ _).ends run
  exact signalWithin_sameRoutes _ _ _ _ _ returned

theorem client_signal_sameRoutes {client : Client} {index : Nat}
    (run : (client.signal index).Ends store final) : store.SameRoutes final := by
  obtain ⟨event, _, eventRun, run⟩ := (Exec.Infallible.unwrap _).ends_bind run
  obtain ⟨_, rfl⟩ := Exec.unwrap_eq_ok.mp eventRun
  exact signal_sameRoutes run

/-- Configuring an entry leaves its event in place. -/
theorem configure_sameRoutes {client : Client} {nid index : Nat} {action : ConfigureAction}
    (run : (client.configure nid index action).Ends store final) : store.SameRoutes final := by
  obtain ⟨inSpace, _, inSpaceRun, configureRun⟩ := (Exec.Infallible.unwrap _).ends_bind run
  obtain ⟨_, rfl⟩ := Exec.unwrap_eq_ok.mp inSpaceRun
  unfold InSpace.configure at configureRun
  obtain ⟨entry, _, readRun, rest⟩ := (readEntry_infallible _ _).ends_bind configureRun
  obtain ⟨rfl, isEvent, found, isFound, isEntry⟩ := eventAt_of_readEntry readRun
  obtain ⟨old, _, oldRun, writeRun⟩ := (Exec.Infallible.unwrap _).ends_bind rest
  obtain ⟨rfl, rfl⟩ := Exec.unwrap_eq_ok.mp oldRun
  cases action with
  | setPriority priority =>
      obtain ⟨_, returned⟩ := Exec.Infallible.ends
        (fun _ _ _ failed => Exec.panic_ne_err.mp failed) writeRun
      exact (Exec.panic_ne_ok.mp returned).elim
  | setEnabled enabled =>
      obtain ⟨⟨⟩, returned⟩ := (Exec.Infallible.modify _).ends writeRun
      obtain ⟨targets, events, length, sameEvents⟩ := writeEntry_routes isFound isEntry returned
      refine ⟨targets, ?_, length⟩
      rw [events, Option.map_some]
      exact Function.update_eq_self_iff.mpr (by rw [isEvent, Option.map_some])

theorem end_sameRoutes {kernel : Kernel K} {client : Client} {nid index : Nat}
    (run : (client.end_ kernel nid index).Ends store final) : store.SameRoutes final := by
  obtain ⟨inSpace, _, inSpaceRun, endRun⟩ := (Exec.Infallible.unwrap _).ends_bind run
  obtain ⟨_, rfl⟩ := Exec.unwrap_eq_ok.mp inSpaceRun
  unfold InSpace.end_ at endRun
  obtain ⟨entry, _, readRun, foundRest⟩ := (readEntry_infallible _ _).ends_bind endRun
  obtain ⟨rfl, _⟩ := eventAt_of_readEntry readRun
  obtain ⟨found, _, foundRun, eventRest⟩ := (Exec.Infallible.unwrap _).ends_bind foundRest
  obtain ⟨_, rfl⟩ := Exec.unwrap_eq_ok.mp foundRun
  obtain ⟨event, _, eventRun, irqRest⟩ := (Exec.Infallible.reads _).ends_bind eventRest
  obtain ⟨_, rfl⟩ := Exec.reads_eq_ok.mp eventRun
  obtain ⟨irq, _, irqRun, ackRun⟩ := (Exec.Infallible.unwrap _).ends_bind irqRest
  obtain ⟨_, rfl⟩ := Exec.unwrap_eq_ok.mp irqRun
  rcases ackRun with ⟨⟨⟩, returned⟩ | ⟨error, failed⟩
  · exact onKernel_sameRoutes returned
  · exact onKernel_err_sameRoutes failed

end Signals

end IceCap.Events
