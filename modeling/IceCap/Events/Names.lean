import IceCap.FiniteSet

/-!
# The event names

The `events` module of `hypervisor-event-server-types`, with the numberings
that its `Finite` instances give the names.
-/

set_option autoImplicit false

namespace IceCap.Events

open FiniteSet

def numRealms : Nat := 2

inductive RealmRingBufferId where
  | net
  | channel
  deriving DecidableEq, Repr

instance : FiniteSet.Finite RealmRingBufferId where
  cardinality := cardinalityOfStructure [[], []]
  toNat
    | .net => toNatVariant [] []
    | .channel => toNatVariant [[]] []
  fromNat n :=
    match variantOf 0 [[], []] n with
    | some (0, _) => some .net
    | some (1, _) => some .channel
    | _ => none

/-- `events::RealmId`. -/
structure RealmName where
  id : Nat
  deriving DecidableEq, Repr

instance : FiniteSet.Finite RealmName where
  cardinality := numRealms
  toNat realm := realm.id
  fromNat n := some ⟨n⟩

structure SPI where
  irq : Nat
  deriving DecidableEq, Repr

def SPI.start : Nat := 32

def SPI.stop : Nat := 1020

instance : FiniteSet.Finite SPI where
  cardinality := SPI.stop - SPI.start
  toNat spi := (spi.irq + SPI.start) % 2 ^ 64
  fromNat n := some ⟨(n + 2 ^ 64 - SPI.start) % 2 ^ 64⟩

inductive HostRingBufferIn where
  | resourceServer
  | serialServer
  | realm (realmId : RealmName) (ringBufferId : RealmRingBufferId)
  deriving DecidableEq, Repr

instance : FiniteSet.Finite HostRingBufferIn where
  cardinality := cardinalityOfStructure
    [[], [], [Finite.cardinality RealmName, Finite.cardinality RealmRingBufferId]]
  toNat
    | .resourceServer => toNatVariant [] []
    | .serialServer => toNatVariant [[]] []
    | .realm realmId ringBufferId => toNatVariant [[], []]
        [(Finite.cardinality RealmName, Finite.toNat realmId),
          (Finite.cardinality RealmRingBufferId, Finite.toNat ringBufferId)]
  fromNat n :=
    match variantOf 0
      [[], [], [Finite.cardinality RealmName, Finite.cardinality RealmRingBufferId]] n with
    | some (0, _) => some .resourceServer
    | some (1, _) => some .serialServer
    | some (2, m) => do
        let realmId ← Finite.fromNat (digit m 1 (Finite.cardinality RealmName))
        let ringBufferId ← Finite.fromNat
          (digit m (1 * Finite.cardinality RealmName) (Finite.cardinality RealmRingBufferId))
        some (.realm realmId ringBufferId)
    | _ => none

inductive HostRingBufferOut where
  | realm (realmId : RealmName) (ringBufferId : RealmRingBufferId)
  deriving DecidableEq, Repr

instance : FiniteSet.Finite HostRingBufferOut where
  cardinality := cardinalityOfStructure
    [[Finite.cardinality RealmName, Finite.cardinality RealmRingBufferId]]
  toNat
    | .realm realmId ringBufferId => toNatVariant []
        [(Finite.cardinality RealmName, Finite.toNat realmId),
          (Finite.cardinality RealmRingBufferId, Finite.toNat ringBufferId)]
  fromNat n :=
    match variantOf 0 [[Finite.cardinality RealmName, Finite.cardinality RealmRingBufferId]] n with
    | some (0, m) => do
        let realmId ← Finite.fromNat (digit m 1 (Finite.cardinality RealmName))
        let ringBufferId ← Finite.fromNat
          (digit m (1 * Finite.cardinality RealmName) (Finite.cardinality RealmRingBufferId))
        some (.realm realmId ringBufferId)
    | _ => none

inductive HostIn where
  | realmEvent
  | spi (spi : SPI)
  | ringBuffer (ringBuffer : HostRingBufferIn)
  deriving DecidableEq, Repr

instance : FiniteSet.Finite HostIn where
  cardinality := cardinalityOfStructure
    [[], [Finite.cardinality SPI], [Finite.cardinality HostRingBufferIn]]
  toNat
    | .realmEvent => toNatVariant [] []
    | .spi spi => toNatVariant [[]] [(Finite.cardinality SPI, Finite.toNat spi)]
    | .ringBuffer ringBuffer => toNatVariant [[], [Finite.cardinality SPI]]
        [(Finite.cardinality HostRingBufferIn, Finite.toNat ringBuffer)]
  fromNat n :=
    match variantOf 0 [[], [Finite.cardinality SPI], [Finite.cardinality HostRingBufferIn]] n with
    | some (0, _) => some .realmEvent
    | some (1, m) => (Finite.fromNat (digit m 1 (Finite.cardinality SPI))).map .spi
    | some (2, m) =>
        (Finite.fromNat (digit m 1 (Finite.cardinality HostRingBufferIn))).map .ringBuffer
    | _ => none

inductive HostOut where
  | ringBuffer (ringBuffer : HostRingBufferOut)
  deriving DecidableEq, Repr

instance : FiniteSet.Finite HostOut where
  cardinality := cardinalityOfStructure [[Finite.cardinality HostRingBufferOut]]
  toNat
    | .ringBuffer ringBuffer =>
        toNatVariant [] [(Finite.cardinality HostRingBufferOut, Finite.toNat ringBuffer)]
  fromNat n :=
    match variantOf 0 [[Finite.cardinality HostRingBufferOut]] n with
    | some (0, m) =>
        (Finite.fromNat (digit m 1 (Finite.cardinality HostRingBufferOut))).map .ringBuffer
    | _ => none

inductive RealmRingBufferIn where
  | host (ringBufferId : RealmRingBufferId)
  | serialServer
  deriving DecidableEq, Repr

instance : FiniteSet.Finite RealmRingBufferIn where
  cardinality := cardinalityOfStructure [[Finite.cardinality RealmRingBufferId], []]
  toNat
    | .host ringBufferId =>
        toNatVariant [] [(Finite.cardinality RealmRingBufferId, Finite.toNat ringBufferId)]
    | .serialServer => toNatVariant [[Finite.cardinality RealmRingBufferId]] []
  fromNat n :=
    match variantOf 0 [[Finite.cardinality RealmRingBufferId], []] n with
    | some (0, m) => (Finite.fromNat (digit m 1 (Finite.cardinality RealmRingBufferId))).map .host
    | some (1, _) => some .serialServer
    | _ => none

inductive RealmRingBufferOut where
  | host (ringBufferId : RealmRingBufferId)
  deriving DecidableEq, Repr

instance : FiniteSet.Finite RealmRingBufferOut where
  cardinality := cardinalityOfStructure [[Finite.cardinality RealmRingBufferId]]
  toNat
    | .host ringBufferId =>
        toNatVariant [] [(Finite.cardinality RealmRingBufferId, Finite.toNat ringBufferId)]
  fromNat n :=
    match variantOf 0 [[Finite.cardinality RealmRingBufferId]] n with
    | some (0, m) => (Finite.fromNat (digit m 1 (Finite.cardinality RealmRingBufferId))).map .host
    | _ => none

inductive RealmIn where
  | ringBuffer (ringBuffer : RealmRingBufferIn)
  deriving DecidableEq, Repr

instance : FiniteSet.Finite RealmIn where
  cardinality := cardinalityOfStructure [[Finite.cardinality RealmRingBufferIn]]
  toNat
    | .ringBuffer ringBuffer =>
        toNatVariant [] [(Finite.cardinality RealmRingBufferIn, Finite.toNat ringBuffer)]
  fromNat n :=
    match variantOf 0 [[Finite.cardinality RealmRingBufferIn]] n with
    | some (0, m) =>
        (Finite.fromNat (digit m 1 (Finite.cardinality RealmRingBufferIn))).map .ringBuffer
    | _ => none

inductive RealmOut where
  | ringBuffer (ringBuffer : RealmRingBufferOut)
  deriving DecidableEq, Repr

instance : FiniteSet.Finite RealmOut where
  cardinality := cardinalityOfStructure [[Finite.cardinality RealmRingBufferOut]]
  toNat
    | .ringBuffer ringBuffer =>
        toNatVariant [] [(Finite.cardinality RealmRingBufferOut, Finite.toNat ringBuffer)]
  fromNat n :=
    match variantOf 0 [[Finite.cardinality RealmRingBufferOut]] n with
    | some (0, m) =>
        (Finite.fromNat (digit m 1 (Finite.cardinality RealmRingBufferOut))).map .ringBuffer
    | _ => none

inductive SerialServerRingBuffer where
  | host
  | realm (realmId : RealmName)
  deriving DecidableEq, Repr

instance : FiniteSet.Finite SerialServerRingBuffer where
  cardinality := cardinalityOfStructure [[], [Finite.cardinality RealmName]]
  toNat
    | .host => toNatVariant [] []
    | .realm realmId =>
        toNatVariant [[]] [(Finite.cardinality RealmName, Finite.toNat realmId)]
  fromNat n :=
    match variantOf 0 [[], [Finite.cardinality RealmName]] n with
    | some (0, _) => some .host
    | some (1, m) => (Finite.fromNat (digit m 1 (Finite.cardinality RealmName))).map .realm
    | _ => none

inductive SerialServerOut where
  | ringBuffer (ringBuffer : SerialServerRingBuffer)
  deriving DecidableEq, Repr

instance : FiniteSet.Finite SerialServerOut where
  cardinality := cardinalityOfStructure [[Finite.cardinality SerialServerRingBuffer]]
  toNat
    | .ringBuffer ringBuffer =>
        toNatVariant [] [(Finite.cardinality SerialServerRingBuffer, Finite.toNat ringBuffer)]
  fromNat n :=
    match variantOf 0 [[Finite.cardinality SerialServerRingBuffer]] n with
    | some (0, m) =>
        (Finite.fromNat (digit m 1 (Finite.cardinality SerialServerRingBuffer))).map .ringBuffer
    | _ => none

inductive ResourceServerOut where
  | hostRingBuffer
  deriving DecidableEq, Repr

instance : FiniteSet.Finite ResourceServerOut where
  cardinality := cardinalityOfStructure [[]]
  toNat
    | .hostRingBuffer => toNatVariant [] []
  fromNat n :=
    match variantOf 0 [[]] n with
    | some (0, _) => some .hostRingBuffer
    | _ => none

end IceCap.Events
