import IceCap.Events.Confined

/-!
# Two layers of in-spaces

The events that subscribe for the host are found in the in-spaces of the host
only, and only notifications subscribe to these.  So the subscriber that a signal
comes upon in an in-space of a realm leads to the host, and no further.
-/

set_option autoImplicit false

namespace IceCap.Events

open IceCap.Library IceCap.Sel4 FiniteSet

variable {K : Type}

/-- The in-spaces of the host, the events that subscribe for it, and how many events there are. -/
structure Layers where
  hostIn : List InSpaceId
  subscribers : List EventId
  limit : Nat

namespace Layers

variable (layers : Layers)

def MayBeAt (inSpace : InSpaceId) (event : EventId) : Prop :=
  event < layers.limit ∧ (event ∈ layers.subscribers → inSpace ∈ layers.hostIn)

/-- Where the event may have its target. -/
def MayTarget (event : EventId) (inSpace : InSpaceId) : Prop :=
  event ∈ layers.subscribers → inSpace ∈ layers.hostIn

def MaySubscribe (inSpace : InSpaceId) : Subscriber → Prop
  | .event event => inSpace ∉ layers.hostIn ∧ event ∈ layers.subscribers
  | .notification _ => True

/-- All in-spaces of the client are the host's, or none is. -/
def OneSided (client : Client) : Prop :=
  ∀ first ∈ client.inSpaces, ∀ second ∈ client.inSpaces,
    first ∈ layers.hostIn → second ∈ layers.hostIn

def confines : Confines := ⟨layers.MayBeAt, layers.MayTarget, layers.MaySubscribe⟩

end Layers

structure Layered (layers : Layers) (store : Store K) : Prop where
  entries : ∀ place event, store.eventAt place = some event → layers.MayBeAt place.inSpace event
  targets : ∀ event place, event ∈ layers.subscribers → store.targetOf event = some place →
    place.inSpace ∈ layers.hostIn
  slots : ∀ inSpace subscriber, store.slotOf inSpace = some subscriber →
    layers.MaySubscribe inSpace subscriber
  limited : layers.limit ≤ store.events.length

section Layers
variable {layers : Layers} {store : Store K}

theorem Layered.confined (layered : Layered layers store) : Confined layers.confines store where
  entries := layered.entries
  targets event place isTarget isSubscriber := layered.targets event place isSubscriber isTarget
  slots := layered.slots

theorem Confined.layered (confined : Confined layers.confines store)
    (limited : layers.limit ≤ store.events.length) : Layered layers store where
  entries := confined.entries
  targets event place isSubscriber isTarget := confined.targets event place isTarget isSubscriber
  slots := confined.slots
  limited := limited

theorem Layered.withSlot {inSpace : InSpaceId} {subscriber : Option Subscriber}
    (layered : Layered layers store)
    (may : ∀ found, subscriber = some found → layers.MaySubscribe inSpace found) :
    Layered layers (store.withSlot inSpace subscriber) :=
  (layered.confined.withSlot may).layered layered.limited

end Layers

end IceCap.Events
