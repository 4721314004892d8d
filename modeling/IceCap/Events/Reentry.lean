import IceCap.Library.Erasure
import IceCap.Events.Layers

/-!
# No in-space is entered twice

A signal borrows the in-space it comes to, and keeps it while it notifies the
subscriber, whose signal borrows the next.  `signalWatched` is `Event::signal`
with errors for what must not happen.
-/

set_option autoImplicit false

namespace IceCap.Events

open IceCap.Library IceCap.Sel4 FiniteSet

variable {K : Type}

inductive SignalError where
  | server (failure : Failure)
  | reentered
  | third
  deriving DecidableEq, Repr

def ofServer {α : Type} (call : Exec Failure (Store K) α) : Exec SignalError (Store K) α :=
  Exec.mapErr .server call

/-- `Event::signal` where no more than `depth` in-spaces may be borrowed, and none of those in
`borrowed`. -/
def signalWatched : Nat → List InSpaceId → EventId → Exec SignalError (Store K) Unit
  | 0, _, event => do
      let found ← ofServer (readEvent event)
      match found.target with
      | none => pure ()
      | some _ => Exec.fail .third
  | depth + 1, borrowed, event => do
      let found ← ofServer (readEvent event)
      match found.target with
      | none => pure ()
      | some target => do
          Exec.ensure (target.inSpace ∉ borrowed) .reentered
          let inSpace ← ofServer (readInSpace target.inSpace)
          let entry ← Exec.unwrap inSpace.entries[target.index]?
          let _ ← Exec.unwrap entry
          let wasClear ← ofServer (setBit inSpace.notification.bitfield target.index)
          if wasClear then do
            let nfn ← Exec.unwrap inSpace.notification.nfn[target.index / 64]?
            ofServer (signalNotification nfn)
            ofServer (setSlot target.inSpace none)
            match inSpace.subscriptionSlot with
            | none => pure ()
            | some (.event subscriber) =>
                signalWatched depth (target.inSpace :: borrowed) subscriber
            | some (.notification nfn) => ofServer (signalNotification nfn)
          else pure ()

section Signal
variable {layers : Layers} {event : EventId} {numInSpaces : Nat}

/-- The layers in a store with so many in-spaces. -/
def LayeredIn (layers : Layers) (numInSpaces : Nat) (store : Store K) : Prop :=
  Layered layers store ∧ store.inSpaces.length = numInSpaces

/-- A call and its watched version, which keep the layers apart. -/
abbrev Watched (layers : Layers) (numInSpaces : Nat) (watched : Exec SignalError (Store K) Unit)
    (call : Exec Failure (Store K) Unit) : Prop :=
  Exec.Erases id .server (LayeredIn layers numInSpaces) (LayeredIn layers numInSpaces)
    (fun _ => LayeredIn layers numInSpaces) watched call

theorem setBit_layered {address index : Nat} {wasClear : Bool} {store final : Store K}
    (layered : LayeredIn layers numInSpaces store)
    (run : setBit address index store = .ok wasClear final) :
    LayeredIn layers numInSpaces final := by
  obtain ⟨_, rfl⟩ := Outcome.ok.inj run
  exact ⟨⟨layered.1.entries, layered.1.targets, layered.1.slots, layered.1.limited⟩, layered.2⟩

theorem watched_notify {nfn : CPtr} :
    Watched (K := K) layers numInSpaces (ofServer (signalNotification nfn)) (signalNotification nfn) := by
  refine .lifted (.modify _) fun store _ final layered run => ?_
  obtain ⟨_, rfl⟩ := Outcome.ok.inj run
  exact ⟨⟨layered.1.entries, layered.1.targets, layered.1.slots, layered.1.limited⟩, layered.2⟩

theorem watched_emptySlot {inSpace : InSpaceId} :
    Watched (K := K) layers numInSpaces (ofServer (setSlot inSpace none)) (setSlot inSpace none) := by
  refine .lifted (.modify _) fun store _ final layered run => ?_
  obtain ⟨_, rfl⟩ := Outcome.ok.inj run
  refine ⟨layered.1.withSlot fun found isSome => by simp at isSome, ?_⟩
  exact (List.length_modify ..).trans layered.2

/-- One in-space: its subscriber is notified by what is watched one level below. -/
theorem watched_signal {depth plainDepth : Nat} {borrowed : List InSpaceId}
    (apart : ∀ inSpace, layers.MayTarget event inSpace → inSpace ∉ borrowed)
    (below : ∀ inSpace subscriber, layers.MayTarget event inSpace → inSpace < numInSpaces →
      layers.MaySubscribe inSpace (.event subscriber) →
      Watched (K := K) layers numInSpaces (signalWatched depth (inSpace :: borrowed) subscriber)
        (Event.signalWithin plainDepth (inSpace :: borrowed) subscriber)) :
    Watched (K := K) layers numInSpaces (signalWatched (depth + 1) borrowed event)
      (Event.signalWithin (plainDepth + 1) borrowed event) := by
  have readsEvent : Exec.Erases id .server (LayeredIn layers numInSpaces)
      (LayeredIn layers numInSpaces)
      (fun found store => LayeredIn (K := K) layers numInSpaces store ∧
        ∀ place, found.target = some place → layers.MayTarget event place.inSpace)
      (ofServer (readEvent event)) (readEvent event) := by
    refine .lifted (.reads _) fun store found final layered run => ?_
    obtain ⟨isFound, rfl⟩ := Exec.reads_eq_ok.mp run
    refine ⟨layered, fun place isTarget isSubscriber => ?_⟩
    exact layered.1.targets event place isSubscriber (by simp [Store.targetOf, isFound, isTarget])
  refine readsEvent.bind fun found => .given fun mayTarget => ?_
  cases isTarget : found.target with
  | none => exact .pure fun _ layered => layered
  | some place =>
      have readsInSpace : Exec.Erases id .server (LayeredIn layers numInSpaces)
          (LayeredIn layers numInSpaces)
          (fun inSpace store => LayeredIn (K := K) layers numInSpaces store ∧
            place.inSpace < numInSpaces ∧ ∀ subscriber, inSpace.subscriptionSlot = some subscriber →
              layers.MaySubscribe place.inSpace subscriber)
          (ofServer (readInSpace place.inSpace)) (readInSpace place.inSpace) := by
        refine .lifted (.reads _) fun store inSpace final layered run => ?_
        obtain ⟨isFound, rfl⟩ := Exec.reads_eq_ok.mp run
        have isThere := (List.getElem?_eq_some_iff.mp isFound).1
        refine ⟨layered, layered.2 ▸ isThere, fun subscriber isSlot => ?_⟩
        exact layered.1.slots place.inSpace subscriber (by simp [Store.slotOf, isFound, isSlot])
      have isPlace := mayTarget place isTarget
      have borrows : Watched (K := K) layers numInSpaces
          (Exec.ensure (place.inSpace ∉ borrowed) .reentered)
          (Exec.assert (place.inSpace ∉ borrowed)) :=
        .ensure (fun _ _ => apart _ isPlace) fun _ layered => layered
      refine borrows.bind fun _ => ?_
      refine readsInSpace.bind fun inSpace => .given fun isLayered => ?_
      obtain ⟨isThere, maySubscribe⟩ := isLayered
      refine .unwrap_bind fun entry _ => .unwrap_bind fun held _ => ?_
      have setsBit : Exec.Erases id .server (LayeredIn layers numInSpaces)
          (LayeredIn layers numInSpaces) (fun _ => LayeredIn (K := K) layers numInSpaces)
          (ofServer (setBit inSpace.notification.bitfield place.index))
          (setBit inSpace.notification.bitfield place.index) :=
        .lifted (fun _ _ _ failed => by simp [setBit] at failed)
          fun store wasClear final layered run => setBit_layered layered run
      refine setsBit.bind fun wasClear => ?_
      refine .ite (fun _ => ?_) fun _ => .pure fun _ layered => layered
      refine .unwrap_bind fun nfn _ => watched_notify.bind fun _ => watched_emptySlot.bind fun _ => ?_
      cases isSlot : inSpace.subscriptionSlot with
      | none => exact .pure fun _ layered => layered
      | some subscriber =>
          cases subscriber with
          | event subscriber =>
              exact below place.inSpace subscriber isPlace isThere (maySubscribe _ isSlot)
          | notification nfn => exact watched_notify

theorem watched_subscriber {depth : Nat} {inSpace : InSpaceId}
    (isOther : inSpace ∉ layers.hostIn) (isSubscriber : event ∈ layers.subscribers) :
    Watched (K := K) layers numInSpaces (signalWatched 1 [inSpace] event)
      (Event.signalWithin (depth + 1) [inSpace] event) := by
  refine watched_signal (fun host mayTarget => ?_) fun host subscriber mayTarget _ may => ?_
  · intro isSame
    rw [List.mem_singleton.mp isSame] at mayTarget
    exact isOther (mayTarget isSubscriber)
  · exact absurd (mayTarget isSubscriber) may.1

/-- A signal borrows two in-spaces at most, and each once. -/
theorem watched_event :
    Watched (K := K) layers numInSpaces (signalWatched 2 [] event)
      (Event.signalWithin (numInSpaces + 1) [] event) := by
  refine watched_signal (fun _ _ => List.not_mem_nil) fun inSpace subscriber _ isThere may => ?_
  obtain ⟨depth, rfl⟩ := Nat.exists_eq_add_one_of_ne_zero (Nat.ne_zero_of_lt isThere)
  exact watched_subscriber may.1 may.2

end Signal

/-- An event that subscribes to the in-space that it has as its target. -/
def loopStore : Store Unit where
  events := [⟨some ⟨0, 0⟩, none⟩]
  inSpaces := [⟨[some ⟨0, true⟩], ⟨[1], 0x1000⟩, some (.event 0)⟩]
  words := ∅
  signals := []
  kernel := ()

example : ∃ final, signalWatched 2 [] 0 loopStore = .err .reentered final := ⟨_, rfl⟩

example : Event.signal 0 loopStore = .panic := rfl

end IceCap.Events
