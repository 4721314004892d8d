import IceCap.Gic.Controller
import IceCap.Events.Numbering

/-!
# From events to interrupts

A VMM is told of events by their numbers in the in-space of its node.  It looks
them up in the map of its interrupts, the private ones first.  The map of the
host's VMM is made from the names of the events in its configuration.
-/

set_option autoImplicit false

namespace IceCap.Vmm

open IceCap.Gic IceCap.Events FiniteSet

structure IRQMap where
  ppi : Std.TreeMap Nat (Nat × Bool)
  spi : Std.TreeMap Nat (Nat × Nat × Bool)

/-- The loop over the shared interrupts; another node's is an assertion that fails. -/
def searchSpi (nodeIndex inIndex : Nat) : List (Nat × Nat × Nat × Bool) → Option QualifiedIrq
  | [] => none
  | (spi, spiInIndex, nid, _) :: rest =>
      if nid = nodeIndex then
        if spiInIndex = inIndex then some (.spi spi) else searchSpi nodeIndex inIndex rest
      else none

/-- The interrupt of an event in `VMMNode::run`; without one it panics. -/
def IRQMap.search (irqMap : IRQMap) (nodeIndex inIndex : Nat) : Option QualifiedIrq :=
  match irqMap.ppi.toList.find? fun entry => entry.2.1 == inIndex with
  | some (ppi, _) => some (.qualifiedPpi nodeIndex ppi)
  | none => searchSpi nodeIndex inIndex irqMap.spi.toList

/-- The interrupts of the host's VMM: `ppi_map` and `spi_map` of its configuration. -/
def hostIrqMap (ppiMap : Std.TreeMap Nat (HostIn × Bool))
    (spiMap : Std.TreeMap Nat (HostIn × Nat × Bool)) : IRQMap where
  ppi := ppiMap.map fun _ entry => (Finite.toNat entry.1, entry.2)
  spi := spiMap.map fun _ entry => (Finite.toNat entry.1, entry.2)

/-- The search returns the first interrupt whose event has the number. -/
theorem searchSpi_eq {nodeIndex inIndex spi : Nat} {entries : List (Nat × Nat × Nat × Bool)}
    (sameNode : ∀ entry ∈ entries, entry.2.2.1 = nodeIndex)
    (isEntry : ∃ entry ∈ entries, entry.2.1 = inIndex)
    (unique : ∀ entry ∈ entries, entry.2.1 = inIndex → entry.1 = spi) :
    searchSpi nodeIndex inIndex entries = some (.spi spi) := by
  induction entries with
  | nil => simp at isEntry
  | cons entry entries ih =>
      obtain ⟨key, number, nid, mustAck⟩ := entry
      have isNode : nid = nodeIndex := sameNode _ List.mem_cons_self
      rw [searchSpi, if_pos isNode]
      split
      · next isIndex =>
          have isSpi : key = spi := unique _ List.mem_cons_self isIndex
          rw [isSpi]
      · next differs =>
          apply ih
          · exact fun other member => sameNode other (List.mem_cons_of_mem _ member)
          · obtain ⟨other, member, isIndex⟩ := isEntry
            cases List.mem_cons.mp member with
            | inl isFirst =>
                rw [isFirst] at isIndex
                exact absurd isIndex differs
            | inr inRest => exact ⟨other, inRest, isIndex⟩
          · exact fun other member => unique other (List.mem_cons_of_mem _ member)

/-! ## The host's interrupts -/

/-- The shared interrupts of the host's VMM: all on the primary node, each for the event of the
interrupt itself or for a ring buffer. -/
def HostSpis (spiMap : Std.TreeMap Nat (HostIn × Nat × Bool)) : Prop :=
  ∀ (key : Nat) (entry : HostIn × Nat × Bool), spiMap[key]? = some entry →
    entry.2.1 = primaryHostNode ∧ (key < SPI.stop ∧ entry.1 = .spi ⟨key⟩ ∨
      ∃ ringBuffer ∈ ringBuffers, entry.1 = .ringBuffer ringBuffer)

/-- The host's VMM finds every interrupt it maps by the number the event server has signalled. -/
def FindsIrqs (irqs : Std.TreeMap Nat (Sel4.CPtr × List Sel4.CPtr)) : Prop :=
  ∀ (spiMap : Std.TreeMap Nat (HostIn × Nat × Bool)), HostSpis spiMap →
    ∀ (irq : Nat) (mustAck : Bool), irqs.contains irq = true →
      spiMap[irq]? = some (.spi ⟨irq⟩, primaryHostNode, mustAck) →
      (hostIrqMap ∅ spiMap).search primaryHostNode (Finite.toNat (HostIn.spi ⟨irq⟩)) =
        some (.spi irq)

theorem findsIrqs {irqs : Std.TreeMap Nat (Sel4.CPtr × List Sel4.CPtr)}
    (small : ∀ irq, irqs.contains irq = true → irq < lastSpi) : FindsIrqs irqs := by
  intro spiMap hostSpis irq mustAck isIrq isMapped
  have isSmall := small irq isIrq
  simp only [lastSpi] at isSmall
  have isNumber : Finite.toNat (HostIn.spi ⟨irq⟩) = irq + 33 :=
    toNat_spi (Nat.lt_trans isSmall (by decide))
  have noPpi : (hostIrqMap ∅ spiMap).ppi.toList = [] := rfl
  have isEntry : ∀ entry : Nat × Nat × Nat × Bool, entry ∈ (hostIrqMap ∅ spiMap).spi.toList ↔
      ∃ found : HostIn × Nat × Bool, spiMap[entry.1]? = some found ∧
        (Finite.toNat found.1, found.2) = entry.2 := by
    intro entry
    rw [Std.TreeMap.mem_toList_iff_getElem?_eq_some, hostIrqMap, Std.TreeMap.getElem?_map,
      Option.map_eq_some_iff]
  rw [IRQMap.search, noPpi]
  apply searchSpi_eq
  · intro entry member
    obtain ⟨found, isFound, same⟩ := (isEntry entry).mp member
    rw [← same]
    exact (hostSpis entry.1 found isFound).1
  · exact ⟨(irq, _), (isEntry _).mpr ⟨_, isMapped, rfl⟩, rfl⟩
  · intro entry member sameNumber
    obtain ⟨found, isFound, same⟩ := (isEntry entry).mp member
    rw [← same] at sameNumber
    obtain ⟨_, ⟨isSpi, isName⟩ | ⟨ringBuffer, isRing, isName⟩⟩ := hostSpis entry.1 found isFound
    · rw [isName, toNat_spi isSpi, isNumber] at sameNumber
      omega
    · have bounds := ringBuffers_bounds ringBuffer isRing
      rw [isName, isNumber] at sameNumber
      omega

/-- `realize` connects all events, the numbers of the events are different and in bounds, and the
host's VMM finds the interrupts by them, exactly if every interrupt has a number before those of
the ring buffers. -/
theorem events_apart_iff {K : Type} {kernel : Sel4.Kernel K} {config : EventServerConfig}
    {numActiveCores : Nat} (kernelState : K) (acks : AcksSucceed kernel)
    (hasPrimary : 0 < numActiveCores)
    (hostNodes : numActiveCores ≤ config.hostNotifications.length)
    (realmNodes : numRealms ≤ config.realmNotifications.length)
    (spis : ∀ irq, config.irqs.contains irq = true → SPI.start ≤ irq ∧ irq < SPI.stop) :
    ((∃ server store, config.realize kernel numActiveCores (Store.empty kernelState) =
        .ok server store) ∧
      NumbersApart config.irqs ∧ FindsIrqs config.irqs) ↔
    ∀ irq, config.irqs.contains irq = true → irq < lastSpi := by
  have returns : (∃ server store, config.realize kernel numActiveCores (Store.empty kernelState) =
      .ok server store) ↔ _ :=
    realize_returns_iff acks hasPrimary hostNodes realmNodes fun irq isIrq => (spis irq isIrq).2
  rw [returns]
  constructor
  · exact fun holds => holds.1
  · exact fun small => ⟨small, numbersApart small, findsIrqs small⟩

/-- Two cores, one node for each realm, and one interrupt. -/
def irqConfig (irq : Nat) : EventServerConfig where
  hostNotifications := [⟨[1], 0x1000⟩, ⟨[2], 0x2000⟩]
  realmNotifications := [[⟨[3], 0x3000⟩], [⟨[4], 0x4000⟩]]
  resourceServerSubscriptions := [5, 6]
  irqs := (∅ : Std.TreeMap Nat (Sel4.CPtr × List Sel4.CPtr)).insert irq (7, [8, 9])

theorem irqConfig_contains {irq other : Nat} :
    (irqConfig irq).irqs.contains other = true ↔ irq = other := by
  simp [irqConfig]

theorem events_apart_iff_irqConfig :
    (∃ server store, (irqConfig 955).realize Sel4.permissive 2 (Store.empty ()) =
        .ok server store) ∧
      NumbersApart (irqConfig 955).irqs ∧ FindsIrqs (irqConfig 955).irqs := by
  refine (events_apart_iff () (fun _ _ => rfl) (by decide) (by decide) (by decide) ?_).mpr ?_
  · intro irq isIrq
    rw [← irqConfig_contains.mp isIrq]
    decide
  · intro irq isIrq
    rw [← irqConfig_contains.mp isIrq]
    decide

/-- The number of interrupt 956 is that of the ring buffer with the resource server, and the event
server does not start with it. -/
theorem irq956_collides :
    Finite.toNat (HostIn.spi ⟨956⟩) = Finite.toNat (HostIn.ringBuffer .resourceServer) ∧
      ¬ NumbersApart (irqConfig 956).irqs ∧
      ¬ ∃ server store, (irqConfig 956).realize Sel4.permissive 2 (Store.empty ()) =
        .ok server store := by
  have collides : Finite.toNat (HostIn.spi ⟨956⟩) =
      Finite.toNat (HostIn.ringBuffer .resourceServer) := by decide
  refine ⟨collides, fun apart => ?_, fun returns => ?_⟩
  · have isIrq : Named (irqConfig 956).irqs (.spi ⟨956⟩) := irqConfig_contains.mpr rfl
    have isRing : Named (irqConfig 956).irqs (.ringBuffer .resourceServer) := trivial
    have same := apart.1 _ _ isIrq isRing collides
    simp at same
  · have fits := (realize_returns_iff (fun _ _ => rfl) (by decide) (by decide) (by decide)
      fun irq isIrq => by rw [← irqConfig_contains.mp isIrq]; decide).mp returns
    have isSmall := fits 956 (irqConfig_contains.mpr rfl)
    simp [lastSpi] at isSmall

end IceCap.Vmm
