import IceCap.Events.Realize

/-!
# The numbers of the host's events

All events that are connected to the host's primary node share one numbering,
`HostIn::to_nat`.  `realize` connects them one by one; it panics where a number
has no entry or its entry is taken.  It is followed here with the entries that
are taken so far.
-/

set_option autoImplicit false

namespace IceCap.Events

open IceCap.Library IceCap.Sel4 FiniteSet

variable {K : Type}

/-! ## The numbers -/

theorem toNat_realmEvent : Finite.toNat HostIn.realmEvent = 0 := rfl

theorem toNat_spi {irq : Nat} (isSpi : irq < SPI.stop) :
    Finite.toNat (HostIn.spi ⟨irq⟩) = irq + 33 := by
  simp only [SPI.stop] at isSpi
  simp only [Finite.toNat, toNatVariant, toNatFields, cardinalityOfStructure, cardinalityOfVariant,
    List.foldl_cons, List.foldl_nil, SPI.start]
  omega

/-- The number of a ring buffer shared with a realm. -/
def ringNumber (realmId : Nat) (ringBufferId : RealmRingBufferId) : Nat :=
  991 + realmId + 2 * Finite.toNat ringBufferId

theorem toNat_realm {realmId : Nat} {ringBufferId : RealmRingBufferId}
    (isRealm : realmId < numRealms) :
    Finite.toNat (HostIn.ringBuffer (.realm ⟨realmId⟩ ringBufferId)) =
      ringNumber realmId ringBufferId := by
  have cases : realmId = 0 ∨ realmId = 1 := by
    simp only [numRealms] at isRealm
    omega
  rcases cases with rfl | rfl <;> cases ringBufferId <;> rfl

theorem cardinality_hostIn : Finite.cardinality HostIn = 995 := rfl

/-- The first interrupt whose number is that of a ring buffer. -/
def lastSpi : Nat := 956

/-- The names of the events that are connected, for the interrupts in the table. -/
def Named (irqs : Std.TreeMap Nat (CPtr × List CPtr)) : HostIn → Prop
  | .realmEvent => True
  | .spi spi => irqs.contains spi.irq = true
  | .ringBuffer (.realm realmId _) => realmId.id < numRealms
  | .ringBuffer _ => True

/-- The numbers of the names tell them apart, and there is an entry for each. -/
def NumbersApart (irqs : Std.TreeMap Nat (CPtr × List CPtr)) : Prop :=
  (∀ first second, Named irqs first → Named irqs second →
    Finite.toNat first = Finite.toNat second → first = second) ∧
  ∀ name, Named irqs name → Finite.toNat name < Finite.cardinality HostIn

def ringBuffers : List HostRingBufferIn :=
  [.resourceServer, .serialServer, .realm ⟨0⟩ .net, .realm ⟨1⟩ .net, .realm ⟨0⟩ .channel,
    .realm ⟨1⟩ .channel]

theorem mem_ringBuffers {irqs : Std.TreeMap Nat (CPtr × List CPtr)} {ringBuffer : HostRingBufferIn}
    (isNamed : Named irqs (.ringBuffer ringBuffer)) : ringBuffer ∈ ringBuffers := by
  cases ringBuffer with
  | resourceServer => decide
  | serialServer => decide
  | realm realmId ringBufferId =>
      obtain ⟨id⟩ := realmId
      have cases : id = 0 ∨ id = 1 := by
        simp only [Named, numRealms] at isNamed
        omega
      rcases cases with rfl | rfl <;> cases ringBufferId <;> decide

theorem ringBuffers_bounds : ∀ ringBuffer ∈ ringBuffers,
    989 ≤ Finite.toNat (HostIn.ringBuffer ringBuffer) ∧
      Finite.toNat (HostIn.ringBuffer ringBuffer) < 995 := by
  decide

theorem ringBuffers_apart : ∀ first ∈ ringBuffers, ∀ second ∈ ringBuffers,
    Finite.toNat (HostIn.ringBuffer first) = Finite.toNat (HostIn.ringBuffer second) →
      first = second := by
  decide

theorem numbersApart {irqs : Std.TreeMap Nat (CPtr × List CPtr)}
    (small : ∀ irq, irqs.contains irq = true → irq < lastSpi) : NumbersApart irqs := by
  have isSpi : ∀ spi : SPI, Named irqs (.spi spi) →
      Finite.toNat (HostIn.spi spi) = spi.irq + 33 ∧ spi.irq + 33 < 989 := by
    intro spi isNamed
    have isSmall := small spi.irq isNamed
    simp only [lastSpi] at isSmall
    exact ⟨toNat_spi (Nat.lt_trans isSmall (by decide)), by omega⟩
  have isRing : ∀ ringBuffer, Named irqs (.ringBuffer ringBuffer) →
      989 ≤ Finite.toNat (HostIn.ringBuffer ringBuffer) ∧
        Finite.toNat (HostIn.ringBuffer ringBuffer) < 995 :=
    fun ringBuffer isNamed => ringBuffers_bounds ringBuffer (mem_ringBuffers isNamed)
  constructor
  · intro first second isFirst isSecond same
    cases first with
    | realmEvent =>
        rw [toNat_realmEvent] at same
        cases second with
        | realmEvent => rfl
        | spi spi => have number := isSpi spi isSecond; omega
        | ringBuffer ringBuffer => have bounds := isRing ringBuffer isSecond; omega
    | spi spi =>
        have number := isSpi spi isFirst
        cases second with
        | realmEvent => rw [toNat_realmEvent] at same; omega
        | spi other =>
            have otherNumber := isSpi other isSecond
            have sameIrq : spi.irq = other.irq := by omega
            exact congrArg HostIn.spi (congrArg SPI.mk sameIrq)
        | ringBuffer ringBuffer => have bounds := isRing ringBuffer isSecond; omega
    | ringBuffer ringBuffer =>
        have bounds := isRing ringBuffer isFirst
        cases second with
        | realmEvent => rw [toNat_realmEvent] at same; omega
        | spi spi => have number := isSpi spi isSecond; omega
        | ringBuffer other =>
            exact congrArg HostIn.ringBuffer (ringBuffers_apart _ (mem_ringBuffers isFirst) _
              (mem_ringBuffers isSecond) same)
  · intro name isNamed
    rw [cardinality_hostIn]
    cases name with
    | realmEvent => decide
    | spi spi => have number := isSpi spi isNamed; omega
    | ringBuffer ringBuffer => exact (isRing ringBuffer isNamed).2

/-! ## The entries that are taken -/

/-- Of the entries of the host's in-spaces just those are taken that are listed with their node. -/
def Spaces (host : Client) (taken : List (Nat × Nat)) (store : Store K) : Prop :=
  ∀ (nid : Nat) (inSpace : InSpaceId), host.inSpaces[nid]? = some inSpace →
    ∃ found, store.inSpaces[inSpace]? = some found ∧
      found.entries.length = Finite.cardinality HostIn ∧
      ∀ index < Finite.cardinality HostIn,
        found.entries[index]? = some none ↔ (nid, index) ∉ taken

/-- The setup of `realize` with the entries that are taken. -/
structure Wired (host : Client) (outOf : RealmId → List EventId) (inactiveRealms : InactiveRealms)
    (pending : List EventId) (taken : List (Nat × Nat)) (store : Store K) : Prop where
  setup : Setup host outOf inactiveRealms pending store
  spaces : Spaces host taken store

section Wired
variable {host : Client} {outOf : RealmId → List EventId} {inactiveRealms : InactiveRealms}
  {pending : List EventId} {taken : List (Nat × Nat)} {store final : Store K}

theorem connect_returns {event : EventId} {inSpace : InSpaceId} {found : InSpace} {index : Nat}
    (isEvent : event < store.events.length) (noTarget : store.targetOf event = none)
    (isInSpace : store.inSpaces[inSpace]? = some found)
    (isFree : found.entries[index]? = some none) :
    Event.connect event inSpace index store = .ok () { store with
      inSpaces := store.inSpaces.modify inSpace fun found =>
        { found with entries := found.entries.set index (some ⟨event, true⟩) }
      events := store.events.modify event fun found =>
        { found with target := some ⟨inSpace, index⟩ } } := by
  have isFound : store.events[event]? = some store.events[event] := List.getElem?_eq_getElem isEvent
  have unset : (store.events[event]).target = none := by
    simpa [Store.targetOf, isFound] using noTarget
  simp only [Event.connect, readEntry, readInSpace, readEvent, writeEntry, setTarget, modifyInSpace,
    Exec.bind_eq_ok, Exec.reads_eq_ok, Exec.unwrap_eq_ok, Exec.assert_eq_ok, Exec.modify_eq_ok]
  exact ⟨none, store, ⟨found, store, ⟨isInSpace, rfl⟩, isFree, rfl⟩, (), store, ⟨rfl, rfl⟩, _,
    store, ⟨isFound, rfl⟩, (), store, ⟨unset, rfl⟩, (), _, rfl, rfl⟩

/-- An event is connected to a free entry. -/
theorem Wired.connect {event : EventId} {nid index : Nat} {inSpace : InSpaceId}
    (wired : Wired host outOf inactiveRealms (event :: pending) taken store)
    (isHost : host.inSpaces[nid]? = some inSpace) (inBounds : index < Finite.cardinality HostIn)
    (isFree : (nid, index) ∉ taken) :
    ∃ after, Event.connect event inSpace index store = .ok () after ∧
      Wired host outOf inactiveRealms pending ((nid, index) :: taken) after := by
  obtain ⟨found, isInSpace, length, free⟩ := wired.spaces nid inSpace isHost
  obtain ⟨isEvent, noTarget, _⟩ := wired.setup.pristine event List.mem_cons_self
  have run := connect_returns isEvent noTarget isInSpace ((free index inBounds).mpr isFree)
  refine ⟨_, run, wired.setup.connect isHost run, ?_⟩
  have nodup : host.inSpaces.Nodup := wired.setup.coherent.routed.nodup .host
  intro other otherSpace isOther
  obtain ⟨before, isBefore, sameLength, wasFree⟩ := wired.spaces other otherSpace isOther
  by_cases isSame : otherSpace = inSpace
  · subst isSame
    obtain rfl : other = nid :=
      (List.getElem?_inj (List.getElem?_eq_some_iff.mp isOther).1 nodup).mp
        (isOther.trans isHost.symm)
    rw [isBefore] at isInSpace
    obtain rfl := Option.some.inj isInSpace
    refine ⟨{ before with entries := before.entries.set index (some ⟨event, true⟩) },
      by simp [isBefore], by simpa using sameLength, fun i isIndex => ?_⟩
    simp only [List.mem_cons, Prod.mk.injEq, true_and, not_or]
    rw [List.getElem?_set]
    split
    · next same =>
        subst same
        split <;> simp
    · next differs =>
        rw [wasFree i isIndex]
        exact (and_iff_right (Ne.symm differs)).symm
  · refine ⟨before, by simp [Ne.symm isSame, isBefore], sameLength, ?_⟩
    intro i isIndex
    have differs : other ≠ nid := by
      intro same
      rw [same, isHost] at isOther
      exact isSame (Option.some.inj isOther).symm
    rw [wasFree i isIndex]
    simp [differs]

theorem Wired.connectToHost {event : EventId} {input : HostIn}
    (wired : Wired host outOf inactiveRealms (event :: pending) taken store)
    (hasPrimary : primaryHostNode < host.inSpaces.length)
    (inBounds : Finite.toNat input < Finite.cardinality HostIn)
    (isFree : (primaryHostNode, Finite.toNat input) ∉ taken) :
    ∃ after, connectToHost host event input store = .ok () after ∧
      Wired host outOf inactiveRealms pending ((primaryHostNode, Finite.toNat input) :: taken)
        after := by
  have isHost := List.getElem?_eq_getElem hasPrimary
  obtain ⟨after, run, wired⟩ := wired.connect isHost inBounds isFree
  refine ⟨after, ?_, wired⟩
  exact (Exec.unwrap_bind isHost).trans run

/-- Both realms are there, with an entry for each of their events. -/
def Ready (inactiveRealms : InactiveRealms) : Prop :=
  ∀ rid < numRealms, ∃ realm, inactiveRealms[rid]? = some realm ∧
    realm.inEntries.length = Finite.cardinality RealmIn

theorem toNat_realmIn_lt (input : RealmIn) : Finite.toNat input < Finite.cardinality RealmIn := by
  obtain ⟨_ | _⟩ := input
  · next ringBufferId => cases ringBufferId <;> decide
  · decide

theorem Wired.assign {event : EventId} {rid : Nat} {input : RealmIn}
    (wired : Wired host outOf inactiveRealms (event :: pending) taken store)
    (ready : Ready inactiveRealms) (isRealm : rid < numRealms) :
    ∃ assigned after, assignInEntry inactiveRealms rid input event store = .ok assigned after ∧
      Wired host outOf assigned pending taken after ∧ Ready assigned := by
  obtain ⟨realm, isInactive, length⟩ := ready rid isRealm
  have run : assignInEntry inactiveRealms rid input event store = .ok (inactiveRealms.insert rid
      { realm with inEntries := realm.inEntries.set (Finite.toNat input) (some event) }) store := by
    simp only [assignInEntry, Exec.bind_eq_ok, Exec.unwrap_eq_ok, Exec.assert_eq_ok,
      Exec.pure_eq_ok]
    exact ⟨realm, store, ⟨isInactive, rfl⟩, (), store,
      ⟨length ▸ toNat_realmIn_lt input, rfl⟩, rfl, rfl⟩
  refine ⟨_, store, run, ⟨wired.setup.assign run, wired.spaces⟩, fun other isOther => ?_⟩
  rw [Std.TreeMap.getElem?_insert]
  split
  · exact ⟨_, rfl, by simpa using length⟩
  · exact ready other isOther

/-! ## The loops over the out-spaces -/

theorem connectResourceServerOut_returns {event : EventId}
    (wired : Wired host outOf inactiveRealms ([event] ++ pending) taken store)
    (hasPrimary : primaryHostNode < host.inSpaces.length)
    (isFree : (primaryHostNode, 989) ∉ taken) :
    ∃ after, Exec.forEach [event].zipIdx
        (fun out => connectResourceServerOut host out.2 out.1) store = .ok () after ∧
      Wired host outOf inactiveRealms pending ((primaryHostNode, 989) :: taken) after := by
  obtain ⟨after, run, wired⟩ := @Wired.connectToHost _ _ _ _ _ _ _ _ (.ringBuffer .resourceServer)
    wired hasPrimary (by decide) isFree
  refine ⟨after, ?_, wired⟩
  have isOut : (Finite.fromNat 0 : Option ResourceServerOut) = some .hostRingBuffer := rfl
  have body : connectResourceServerOut host 0 event store = .ok () after :=
    (Exec.unwrap_bind isOut).trans run
  rw [List.zipIdx_cons, List.zipIdx_nil, Exec.forEach_cons, Exec.bind_of_ok body]
  rfl

theorem connectSerialServerOut_returns {first second third : EventId}
    (wired : Wired host outOf inactiveRealms ([first, second, third] ++ pending) taken store)
    (ready : Ready inactiveRealms) (hasPrimary : primaryHostNode < host.inSpaces.length)
    (isFree : (primaryHostNode, 990) ∉ taken) :
    ∃ assigned after, Exec.foldEach [first, second, third].zipIdx inactiveRealms
        (fun inactiveRealms out => connectSerialServerOut host inactiveRealms out.2 out.1) store =
          .ok assigned after ∧
      Wired host outOf assigned pending ((primaryHostNode, 990) :: taken) after ∧
      Ready assigned := by
  obtain ⟨one, run, wired⟩ := @Wired.connectToHost _ _ _ _ _ _ _ _ (.ringBuffer .serialServer)
    wired hasPrimary (by decide) isFree
  have toHost : connectSerialServerOut host inactiveRealms 0 first store =
      .ok inactiveRealms one := by
    have isOut : (Finite.fromNat 0 : Option SerialServerOut) = some (.ringBuffer .host) := rfl
    exact (Exec.unwrap_bind isOut).trans (Exec.bind_of_ok run)
  -- The others are set aside, one for each realm.
  have aside : ∀ (rid : Nat) (inactiveRealms : InactiveRealms) (event : EventId) (store : Store K),
      rid < numRealms → connectSerialServerOut host inactiveRealms (rid + 1) event store =
        assignInEntry inactiveRealms rid (.ringBuffer .serialServer) event store := by
    intro rid inactiveRealms event store isRealm
    have isOut : (Finite.fromNat (rid + 1) : Option SerialServerOut) =
        some (.ringBuffer (.realm ⟨rid⟩)) := by
      have cases : rid = 0 ∨ rid = 1 := by
        simp only [numRealms] at isRealm
        omega
      rcases cases with rfl | rfl <;> rfl
    exact Exec.unwrap_bind isOut
  have isFirst : 0 < numRealms := by decide
  have isSecond : 1 < numRealms := by decide
  obtain ⟨afterSecond, two, run, wired, ready⟩ :=
    @Wired.assign _ _ _ _ _ _ _ _ _ (.ringBuffer .serialServer) wired ready isFirst
  obtain ⟨afterThird, three, run', wired, ready⟩ :=
    @Wired.assign _ _ _ _ _ _ _ _ _ (.ringBuffer .serialServer) wired ready isSecond
  rw [← aside _ _ _ _ isFirst] at run
  rw [← aside _ _ _ _ isSecond] at run'
  refine ⟨afterThird, three, ?_, wired, ready⟩
  simp only [List.zipIdx_cons, List.zipIdx_nil]
  rw [Exec.foldEach_cons, Exec.bind_of_ok toHost, Exec.foldEach_cons, Exec.bind_of_ok run,
    Exec.foldEach_cons, Exec.bind_of_ok run']
  rfl

theorem connectHostOut_returns {outSpace : List EventId}
    (wired : Wired host outOf inactiveRealms (outSpace ++ pending) taken store)
    (ready : Ready inactiveRealms) (length : outSpace.length ≤ Finite.cardinality HostOut) :
    ∃ assigned after, Exec.foldEach outSpace.zipIdx inactiveRealms
        (fun inactiveRealms out => connectHostOut inactiveRealms out.2 out.1) store =
          .ok assigned after ∧
      Wired host outOf assigned pending taken after ∧ Ready assigned := by
  have outs : ∀ index < Finite.cardinality HostOut, ∃ realmId ringBufferId,
      (Finite.fromNat index : Option HostOut) = some (.ringBuffer (.realm realmId ringBufferId)) ∧
        realmId.id < numRealms := by
    intro index inBounds
    have cases : index = 0 ∨ index = 1 ∨ index = 2 ∨ index = 3 := by
      have isFour : Finite.cardinality HostOut = 4 := rfl
      omega
    rcases cases with rfl | rfl | rfl | rfl <;> exact ⟨_, _, rfl, by decide⟩
  have starts : Wired host outOf inactiveRealms (outSpace.zipIdx.map Prod.fst ++ pending) taken
      store ∧ Ready inactiveRealms ∧
        ∀ out ∈ outSpace.zipIdx, out.2 < Finite.cardinality HostOut := by
    refine ⟨by rwa [List.zipIdx_map_fst 0], ready, fun out member => ?_⟩
    have inBounds := List.snd_lt_of_mem_zipIdx member
    omega
  obtain ⟨assigned, after, run, wired, ready, _⟩ := Exec.foldEach_returns
    (fun rest value store => Wired host outOf value (rest.map Prod.fst ++ pending) taken store ∧
      Ready value ∧ ∀ out ∈ rest, out.2 < Finite.cardinality HostOut)
    (fun out rest value before holds => by
      obtain ⟨wired, ready, inBounds⟩ := holds
      obtain ⟨realmId, ringBufferId, isOut, isRealm⟩ := outs _ (inBounds out List.mem_cons_self)
      obtain ⟨next, after, run, wired, ready⟩ := @Wired.assign _ _ _ _ _ _ _ _ _
        (.ringBuffer (.host ringBufferId)) wired ready isRealm
      have assigns : connectHostOut value out.2 out.1 before = .ok next after :=
        (Exec.unwrap_bind isOut).trans run
      refine ⟨next, after, assigns, wired, ready, ?_⟩
      · exact fun other member => inBounds other (List.mem_cons_of_mem _ member)) starts
  exact ⟨assigned, after, run, wired, ready⟩

/-- The numbers of the ring buffers a realm shares with the host. -/
def ringNumbers (realmId : Nat) : List Nat := [ringNumber realmId .net, ringNumber realmId .channel]

theorem mem_ringNumbers {realmId number : Nat} :
    number ∈ ringNumbers realmId ↔ number = 991 + realmId ∨ number = 993 + realmId := by
  have isChannel : ringNumber realmId .channel = 991 + realmId + 2 := rfl
  have isNet : ringNumber realmId .net = 991 + realmId := rfl
  simp only [ringNumbers, List.mem_cons, List.not_mem_nil, or_false, isNet, isChannel]
  omega

theorem ringNumbers_bounds {realmId number : Nat} (isRealm : realmId < numRealms)
    (isNumber : number ∈ ringNumbers realmId) : 991 ≤ number ∧ number < 995 := by
  rw [mem_ringNumbers] at isNumber
  simp only [numRealms] at isRealm
  omega

/-- The events of a realm are connected. -/
theorem connectRealmOut_returns {rid : Nat} {first second : EventId}
    (wired : Wired host outOf inactiveRealms ([first, second] ++ pending) taken store)
    (isRealm : rid < numRealms) (hasPrimary : primaryHostNode < host.inSpaces.length)
    (isFree : ∀ number ∈ ringNumbers rid, (primaryHostNode, number) ∉ taken) :
    ∃ after, Exec.forEach [first, second].zipIdx
        (fun out => connectRealmOut host rid out.2 out.1) store = .ok () after ∧
      Wired host outOf inactiveRealms pending
        ((primaryHostNode, ringNumber rid .channel) :: (primaryHostNode, ringNumber rid .net) ::
          taken) after := by
  have connects : ∀ {index : Nat} {ringBufferId : RealmRingBufferId} {event : EventId}
      {pending : List EventId} {taken : List (Nat × Nat)} {store : Store K},
      (Finite.fromNat index : Option RealmOut) = some (.ringBuffer (.host ringBufferId)) →
      ringNumber rid ringBufferId ∈ ringNumbers rid →
      Wired host outOf inactiveRealms (event :: pending) taken store →
      (primaryHostNode, ringNumber rid ringBufferId) ∉ taken →
      ∃ after, connectRealmOut host rid index event store = .ok () after ∧
        Wired host outOf inactiveRealms pending
          ((primaryHostNode, ringNumber rid ringBufferId) :: taken) after := by
    intro index ringBufferId event pending taken store isOut isNumber wired isFree
    have inBounds : ringNumber rid ringBufferId < Finite.cardinality HostIn :=
      (ringNumbers_bounds isRealm isNumber).2
    rw [← toNat_realm isRealm] at isFree inBounds ⊢
    obtain ⟨after, run, wired⟩ := wired.connectToHost hasPrimary inBounds isFree
    have isName : (Finite.fromNat rid : Option RealmName) = some ⟨rid⟩ := rfl
    exact ⟨after, (Exec.unwrap_bind isOut).trans ((Exec.unwrap_bind isName).trans run), wired⟩
  have isNet : ringNumber rid .net ∈ ringNumbers rid := by simp [ringNumbers]
  have isChannel : ringNumber rid .channel ∈ ringNumbers rid := by simp [ringNumbers]
  have apart : ringNumber rid .channel ≠ ringNumber rid .net := by
    have isTwoMore : ringNumber rid .channel = ringNumber rid .net + 2 := rfl
    omega
  obtain ⟨one, run, wired⟩ := @connects 0 .net _ _ _ _ rfl isNet wired (isFree _ isNet)
  obtain ⟨two, run', wired⟩ := @connects 1 .channel _ _ _ _ rfl isChannel wired
    (by simp [apart, isFree _ isChannel])
  refine ⟨two, ?_, wired⟩
  simp only [List.zipIdx_cons, List.zipIdx_nil]
  rw [Exec.forEach_cons, Exec.bind_of_ok run, Exec.forEach_cons, Exec.bind_of_ok run']
  rfl

theorem connectRealms_returns {realms : List (Nat × InactiveRealm)}
    (wired : Wired host outOf inactiveRealms (realms.flatMap fun realm => outOf realm.1) taken store)
    (outSpaces : ∀ realm ∈ realms, realm.2.outSpace = outOf realm.1 ∧ realm.1 < numRealms)
    (pairs : ∀ rid, ∃ first second, outOf rid = [first, second])
    (hasPrimary : primaryHostNode < host.inSpaces.length)
    (distinct : (realms.map Prod.fst).Nodup)
    (isFree : ∀ realm ∈ realms, ∀ number ∈ ringNumbers realm.1,
      (primaryHostNode, number) ∉ taken) :
    ∃ after more, Exec.forEach realms (fun realm => Exec.forEach realm.2.outSpace.zipIdx
        fun out => connectRealmOut host realm.1 out.2 out.1) store = .ok () after ∧
      Wired host outOf inactiveRealms [] more after ∧
      ∀ nid number, (nid, number) ∈ more ↔ (nid, number) ∈ taken ∨
        nid = primaryHostNode ∧ ∃ realm ∈ realms, number ∈ ringNumbers realm.1 := by
  induction realms generalizing taken store with
  | nil => exact ⟨store, taken, rfl, wired, by simp⟩
  | cons realm realms ih =>
      obtain ⟨isOut, isRealm⟩ := outSpaces realm List.mem_cons_self
      obtain ⟨first, second, isPair⟩ := pairs realm.1
      rw [List.flatMap_cons, isPair] at wired
      obtain ⟨middle, run, wired⟩ := connectRealmOut_returns wired isRealm hasPrimary
        (isFree realm List.mem_cons_self)
      rw [← isPair, ← isOut] at run
      obtain ⟨notLater, distinct⟩ := List.nodup_cons.mp distinct
      -- The numbers of another realm are others.
      have apart : ∀ other ∈ realms, ∀ number ∈ ringNumbers other.1,
          number ∉ ringNumbers realm.1 := by
        intro other member number isOther isNumber
        have differs : other.1 ≠ realm.1 := by
          intro same
          exact notLater (same ▸ List.mem_map_of_mem member)
        have isRealm' := (outSpaces other (List.mem_cons_of_mem _ member)).2
        rw [mem_ringNumbers] at isOther isNumber
        simp only [numRealms] at isRealm isRealm'
        omega
      obtain ⟨after, more, rest, wired, isMore⟩ := ih wired
        (fun other member => outSpaces other (List.mem_cons_of_mem _ member)) distinct
        (fun other member number isNumber => by
          have others := apart other member number isNumber
          have wasFree := isFree other (List.mem_cons_of_mem _ member) number isNumber
          simp only [ringNumbers, List.mem_cons, List.not_mem_nil, or_false, not_or] at others
          simp [others, wasFree])
      refine ⟨after, more, ?_, wired, fun nid number => ?_⟩
      · rw [Exec.forEach_cons, Exec.bind_of_ok run]
        exact rest
      · rw [isMore]
        simp only [List.mem_cons, Prod.mk.injEq, ringNumbers, List.not_mem_nil, or_false]
        grind

/-! ## The events of the nodes and of the interrupts -/

theorem Wired.newEvent (irq : Option EventIRQ)
    (wired : Wired host outOf inactiveRealms [] taken store) :
    ∃ event after, newEvent irq store = .ok event after ∧
      Wired host outOf inactiveRealms [event] taken after :=
  ⟨_, _, rfl, wired.setup.newEvent rfl, wired.spaces⟩

theorem newHostSubscription_returns {nid : Nat}
    (wired : Wired host outOf inactiveRealms [] taken store) (isNode : nid < host.inSpaces.length)
    (isFree : (nid, 0) ∉ taken) :
    ∃ subscription after, newHostSubscription host nid store = .ok subscription after ∧
      Wired host outOf inactiveRealms [] ((nid, 0) :: taken) after := by
  obtain ⟨event, made, newRun, wired⟩ := wired.newEvent none
  have isHost := List.getElem?_eq_getElem isNode
  obtain ⟨after, run, wired⟩ := wired.connect isHost (by decide) isFree
  refine ⟨⟨.event event, none⟩, after, ?_, wired⟩
  exact (Exec.bind_of_ok newRun).trans ((Exec.unwrap_bind isHost).trans (Exec.bind_of_ok run))

theorem newHostSubscriptions_returns {nids : List Nat}
    (wired : Wired host outOf inactiveRealms [] taken store)
    (areNodes : ∀ nid ∈ nids, nid < host.inSpaces.length) (distinct : nids.Nodup)
    (isFree : ∀ nid ∈ nids, (nid, 0) ∉ taken) :
    ∃ subscriptions after more,
      Exec.mapEach nids (newHostSubscription host) store = .ok subscriptions after ∧
      Wired host outOf inactiveRealms [] more after ∧
      ∀ nid number, (nid, number) ∈ more ↔ (nid, number) ∈ taken ∨ number = 0 ∧ nid ∈ nids := by
  induction nids generalizing taken store with
  | nil => exact ⟨[], store, taken, rfl, wired, by simp⟩
  | cons nid nids ih =>
      obtain ⟨subscription, middle, run, wired⟩ := newHostSubscription_returns wired
        (areNodes nid List.mem_cons_self) (isFree nid List.mem_cons_self)
      obtain ⟨notLater, distinct⟩ := List.nodup_cons.mp distinct
      obtain ⟨subscriptions, after, more, rest, wired, isMore⟩ := ih wired
        (fun other member => areNodes other (List.mem_cons_of_mem _ member)) distinct
        (fun other member => by
          have differs : other ≠ nid := fun same => notLater (same ▸ member)
          simp [differs, isFree other (List.mem_cons_of_mem _ member)])
      refine ⟨subscription :: subscriptions, after, more, ?_, wired, fun other number => ?_⟩
      · rw [Exec.mapEach_cons, Exec.bind_of_ok run, Exec.bind_of_ok rest]
        rfl
      · rw [isMore]
        simp only [List.mem_cons, Prod.mk.injEq]
        grind

/-- The kernel grants the acknowledgements of interrupts. -/
def AcksSucceed (kernel : Kernel K) : Prop :=
  ∀ handler state, (kernel.invoke (.irqAck handler) state).1 = none

variable {kernel : Kernel K}

theorem newIrqEvent_returns {irq : Nat} {handler : CPtr} {notifications : List CPtr}
    (acks : AcksSucceed kernel) (wired : Wired host outOf inactiveRealms [] taken store)
    (hasPrimary : primaryHostNode < host.inSpaces.length)
    (inBounds : Finite.toNat (HostIn.spi ⟨irq⟩) < Finite.cardinality HostIn)
    (isFree : (primaryHostNode, Finite.toNat (HostIn.spi ⟨irq⟩)) ∉ taken) :
    ∃ entry after, newIrqEvent kernel host irq handler notifications store = .ok entry after ∧
      Wired host outOf inactiveRealms []
        ((primaryHostNode, Finite.toNat (HostIn.spi ⟨irq⟩)) :: taken) after := by
  have acked : ∃ after, onKernel (kernel.callUnwrap (.irqAck handler)) store = .ok () after ∧
      Wired host outOf inactiveRealms [] taken after := by
    have granted := acks handler store.kernel
    have run : kernel.callUnwrap (.irqAck handler) store.kernel =
        .ok () (kernel.invoke (.irqAck handler) store.kernel).2 := by
      unfold Kernel.callUnwrap
      split
      · next isNone => rw [isNone]
      · next isSome => simp [isSome] at granted
    refine ⟨_, Exec.focus_eq_ok.mpr ⟨_, run, rfl⟩, ?_, wired.spaces⟩
    exact ⟨wired.setup.coherent.sameRoutes ⟨rfl, rfl, rfl⟩, wired.setup.known,
      wired.setup.distinct, by simp, wired.setup.outSpaces⟩
  obtain ⟨middle, ackRun, wired⟩ := acked
  obtain ⟨event, made, newRun, wired⟩ := wired.newEvent (some ⟨handler, notifications⟩)
  obtain ⟨after, run, wired⟩ := wired.connectToHost hasPrimary inBounds isFree
  refine ⟨(irq, event), after, ?_, wired⟩
  exact (Exec.bind_of_ok ackRun).trans ((Exec.bind_of_ok newRun).trans (Exec.bind_of_ok run))

end Wired

/-! ## The whole setup -/

section Whole
variable {store final : Store K}

theorem mkOutSpace_keeps {n : Nat} :
    Exec.Keeps (Store.inSpaces (K := K)) (mkOutSpace n) := by
  apply Exec.Keeps.mapEach
  intro _ before event after run
  obtain ⟨_, rfl⟩ := Outcome.ok.inj run
  rfl

theorem mkOutSpace_returns {n : Nat} :
    ∃ outSpace after, mkOutSpace n store = .ok outSpace after := by
  have returns : ∃ outSpace after, mkOutSpace n store = .ok outSpace after ∧ True :=
    Exec.mapEach_returns (fun _ _ => True) (fun _ _ before _ => ⟨_, _, rfl, trivial⟩) trivial
  obtain ⟨outSpace, after, run, _⟩ := returns
  exact ⟨outSpace, after, run⟩

/-- All entries of the host's new in-spaces are free. -/
theorem newHost_returns {config : EventServerConfig} {numActiveCores : Nat}
    (isNew : store.inSpaces = []) (enough : numActiveCores ≤ config.hostNotifications.length) :
    ∃ host after, config.newHost numActiveCores store = .ok host after ∧
      host.inSpaces.length = numActiveCores ∧ Spaces host [] after := by
  obtain ⟨outSpace, made, outRun⟩ := @mkOutSpace_returns _ store (Finite.cardinality HostOut)
  have stillNew : made.inSpaces = [] := (mkOutSpace_keeps _ _ _ outRun).trans isNew
  have returns : ∃ inSpaces after, Exec.mapEach (List.range numActiveCores) (fun nodeIndex => do
        let notification ← Exec.unwrap config.hostNotifications[nodeIndex]?
        newInSpace ⟨List.replicate (Finite.cardinality HostIn) none, notification, none⟩) made =
          .ok inSpaces after ∧ (∀ nid ∈ [], nid < numActiveCores) ∧ ∀ found ∈ after.inSpaces,
        found.entries = List.replicate (Finite.cardinality HostIn) none := by
    refine Exec.mapEach_returns (fun (rest : List Nat) (store : Store K) =>
      (∀ nid ∈ rest, nid < numActiveCores) ∧ ∀ found ∈ store.inSpaces,
        found.entries = List.replicate (Finite.cardinality HostIn) none)
      (fun nid rest before holds => ?_) ⟨by simp, by simp [stillNew]⟩
    have isNode := Nat.lt_of_lt_of_le (holds.1 nid List.mem_cons_self) enough
    refine ⟨_, _, Exec.unwrap_bind (List.getElem?_eq_getElem isNode), ?_, ?_⟩
    · exact fun other member => holds.1 other (List.mem_cons_of_mem _ member)
    · intro found member
      rcases List.mem_append.mp member with isOld | isLast
      · exact holds.2 found isOld
      · rw [List.mem_singleton.mp isLast]
  obtain ⟨inSpaces, after, inRun, _, allFree⟩ := returns
  obtain ⟨areIds, _, _, length, _⟩ := newInSpaces_routes _ inRun
  have run : config.newHost numActiveCores store = .ok ⟨outSpace, inSpaces⟩ after :=
    (Exec.bind_of_ok outRun).trans (Exec.bind_of_ok inRun)
  refine ⟨_, after, run, by simp [areIds], fun nid inSpace isInSpace => ?_⟩
  have isId : inSpace ∈ inSpaces := List.mem_of_getElem? isInSpace
  rw [areIds, List.mem_range'_1, ← length] at isId
  refine ⟨after.inSpaces[inSpace], List.getElem?_eq_getElem isId.2, ?_, fun index inBounds => ?_⟩
  · simp [allFree _ (List.getElem_mem isId.2)]
  · simp [allFree _ (List.getElem_mem isId.2), inBounds]

theorem newInactiveRealms_returns {config : EventServerConfig}
    (enough : numRealms ≤ config.realmNotifications.length) :
    ∃ realms after, Exec.mapEach (List.range numRealms) config.newInactiveRealm store =
        .ok realms after ∧
      after.inSpaces = store.inSpaces ∧
      ∀ realm ∈ realms, realm.2.inEntries.length = Finite.cardinality RealmIn := by
  have first : ∀ (rid : Nat) (store : Store K), rid < numRealms → ∃ realm after,
      config.newInactiveRealm rid store = .ok realm after ∧ after.inSpaces = store.inSpaces ∧
        realm.2.inEntries.length = Finite.cardinality RealmIn := by
    intro rid store isRealm
    obtain ⟨outSpace, made, outRun⟩ := @mkOutSpace_returns _ store (Finite.cardinality RealmOut)
    have isNotified : rid < config.realmNotifications.length := Nat.lt_of_lt_of_le isRealm enough
    have run : config.newInactiveRealm rid store = .ok (rid, ⟨outSpace,
        config.realmNotifications[rid],
        List.replicate (Finite.cardinality RealmIn) none⟩) made := by
      simp only [EventServerConfig.newInactiveRealm, Exec.bind_eq_ok, Exec.unwrap_eq_ok,
        Exec.pure_eq_ok]
      exact ⟨outSpace, made, outRun, _, made, ⟨List.getElem?_eq_getElem isNotified, rfl⟩, rfl, rfl⟩
    exact ⟨_, made, run, mkOutSpace_keeps _ _ _ outRun, List.length_replicate⟩
  obtain ⟨zero, afterZero, zeroRun, zeroSame, zeroLength⟩ := first 0 store (by decide)
  obtain ⟨one, afterOne, oneRun, oneSame, oneLength⟩ := first 1 afterZero (by decide)
  refine ⟨[zero, one], afterOne, ?_, oneSame.trans zeroSame, by simp [zeroLength, oneLength]⟩
  change Exec.mapEach [0, 1] config.newInactiveRealm store = _
  simp only [Exec.mapEach_cons, Exec.mapEach_nil, Exec.bind_eq_ok, Exec.pure_eq_ok]
  exact ⟨zero, afterZero, zeroRun, [one], afterOne,
    ⟨one, afterOne, oneRun, [], afterOne, ⟨rfl, rfl⟩, rfl, rfl⟩, rfl, rfl⟩

/-- The realms as they are created are ready. -/
theorem ready_ofList {realms : List (Nat × InactiveRealm)}
    (keys : realms.map Prod.fst = List.range numRealms)
    (lengths : ∀ realm ∈ realms, realm.2.inEntries.length = Finite.cardinality RealmIn) :
    Ready (Std.TreeMap.ofList realms) := by
  intro rid isRealm
  have isKey : rid ∈ realms.map Prod.fst := by rw [keys]; exact List.mem_range.mpr isRealm
  obtain ⟨⟨key, realm⟩, member, rfl⟩ := List.mem_map.mp isKey
  exact ⟨realm, Std.TreeMap.getElem?_ofList_of_mem Std.ReflCmp.compare_self (distinct_keys keys)
    member, lengths _ member⟩

/-- Up to the interrupts `realize` always returns, and then the numbers of the ring buffers and of
the nodes' own events are taken. -/
theorem realize_eq {kernel : Kernel K} {config : EventServerConfig} {numActiveCores : Nat}
    {kernelState : K} (hasPrimary : 0 < numActiveCores)
    (hostNodes : numActiveCores ≤ config.hostNotifications.length)
    (realmNodes : numRealms ≤ config.realmNotifications.length) :
    ∃ (host : Client) (outOf : RealmId → List EventId) (inactiveRealms : InactiveRealms)
      (taken : List (Nat × Nat)) (store : Store K)
      (server : List (Nat × EventId) → EventServer),
      config.realize kernel numActiveCores (Store.empty kernelState) =
        (do
          let irqEvents ← Exec.mapEach config.irqs.toList fun irq =>
            newIrqEvent kernel host irq.1 irq.2.1 irq.2.2
          pure (server irqEvents)) store ∧
      Wired host outOf inactiveRealms [] taken store ∧
      primaryHostNode < host.inSpaces.length ∧
      ∀ number, (primaryHostNode, number) ∈ taken ↔ number = 0 ∨ 989 ≤ number ∧ number < 995 := by
  obtain ⟨resourceServerOut, made, resourceServerRun⟩ :=
    @mkOutSpace_returns _ (Store.empty kernelState) (Finite.cardinality ResourceServerOut)
  obtain ⟨serialServerOut, made', serialServerRun⟩ :=
    @mkOutSpace_returns _ made (Finite.cardinality SerialServerOut)
  have isNew : made'.inSpaces = [] := (mkOutSpace_keeps _ _ _ serialServerRun).trans
    (mkOutSpace_keeps _ _ _ resourceServerRun)
  obtain ⟨host, made'', hostRun, isLength, spaces⟩ := newHost_returns isNew hostNodes
  obtain ⟨realms, opened, realmsRun, sameSpaces, lengths⟩ :=
    @newInactiveRealms_returns _ made'' config realmNodes
  obtain ⟨start, keys⟩ := create_setup resourceServerRun serialServerRun hostRun realmsRun
  have wired : Wired host _ _ _ [] opened := ⟨start, by
    intro nid inSpace isInSpace
    rw [sameSpaces]
    exact spaces nid inSpace isInSpace⟩
  have ready := ready_ofList keys lengths
  have primary : primaryHostNode < host.inSpaces.length := isLength ▸ hasPrimary
  obtain rfl : resourceServerOut = [_] := (mkOutSpace_sameRoutes resourceServerRun).1
  obtain rfl : serialServerOut = [_, _, _] := (mkOutSpace_sameRoutes serialServerRun).1
  obtain ⟨afterResourceServer, resourceServerLoop, wired⟩ :=
    connectResourceServerOut_returns wired primary (by simp)
  obtain ⟨assigned, afterSerialServer, serialServerLoop, wired, ready⟩ :=
    connectSerialServerOut_returns wired ready primary (by simp)
  have hostOut : host.outSpace.length ≤ Finite.cardinality HostOut := by
    exact Nat.le_of_eq (by rw [(newHost_routes hostRun).1, List.length_range'])
  obtain ⟨assigned', afterHost, hostLoop, wired, ready⟩ :=
    connectHostOut_returns wired ready hostOut
  obtain ⟨isRealm, byRealm⟩ := wired.setup.byRealm
  have distinct : (assigned'.toList.map Prod.fst).Nodup := by
    rw [List.Nodup, List.pairwise_map]
    exact assigned'.distinct_keys_toList.imp fun different => by simpa using different
  obtain ⟨afterRealms, more, realmsLoop, wired, isMore⟩ := connectRealms_returns
    ⟨byRealm, wired.spaces⟩ (fun realm member => ⟨(isRealm realm member).2, (isRealm realm member).1⟩)
    (fun rid => ⟨_, _, rfl⟩) primary distinct (fun realm member number isNumber => by
      have bounds := ringNumbers_bounds (isRealm realm member).1 isNumber
      simp only [List.mem_cons, Prod.mk.injEq, true_and, List.not_mem_nil, or_false]
      omega)
  -- Both realms have connected their events.
  have isRing : ∀ number, (∃ realm ∈ assigned'.toList, number ∈ ringNumbers realm.1) ↔
      991 ≤ number ∧ number < 995 := by
    intro number
    constructor
    · intro isConnected
      obtain ⟨realm, member, isNumber⟩ := isConnected
      exact ringNumbers_bounds (isRealm realm member).1 isNumber
    · intro inRing
      have found : ∀ rid < numRealms, number ∈ ringNumbers rid →
          ∃ realm ∈ assigned'.toList, number ∈ ringNumbers realm.1 := by
        intro rid bounded isNumber
        obtain ⟨realm, isRealm, _⟩ := ready rid bounded
        exact ⟨(rid, realm), Std.TreeMap.mem_toList_iff_getElem?_eq_some.mpr isRealm, isNumber⟩
      by_cases isOdd : number = 991 ∨ number = 993
      · exact found 0 (by decide) (mem_ringNumbers.mpr (by omega))
      · exact found 1 (by decide) (mem_ringNumbers.mpr (by omega))
  have noneSubscribed : ∀ nid ∈ List.range numActiveCores, (nid, 0) ∉ more := by
    intro nid _
    rw [isMore, isRing]
    simp
  obtain ⟨subscriptions, subscribed, all, subscriptionsRun, wired, isAll⟩ :=
    newHostSubscriptions_returns wired (by simp [isLength]) List.nodup_range noneSubscribed
  refine ⟨host, realmOut made''.events.length, assigned', all, subscribed,
    fun irqEvents => ⟨⟨[0], []⟩, ⟨List.range' made.events.length 3, []⟩, host, ∅, assigned',
      config.resourceServerSubscriptions.map fun notification => ⟨.notification notification, none⟩,
      subscriptions, .ofList irqEvents⟩,
    ?_, wired, primary, fun number => ?_⟩
  · exact (Exec.bind_of_ok resourceServerRun).trans ((Exec.bind_of_ok serialServerRun).trans
      ((Exec.bind_of_ok hostRun).trans ((Exec.bind_of_ok realmsRun).trans
      ((Exec.bind_of_ok resourceServerLoop).trans ((Exec.bind_of_ok serialServerLoop).trans
      ((Exec.bind_of_ok hostLoop).trans ((Exec.bind_of_ok realmsLoop).trans
      (Exec.bind_of_ok subscriptionsRun))))))))
  · rw [isAll, isMore, isRing]
    simp only [List.mem_cons, Prod.mk.injEq, true_and, List.not_mem_nil, or_false, List.mem_range]
    have isCore : primaryHostNode < numActiveCores := hasPrimary
    omega

end Whole

/-! ## The interrupts -/

section Irqs
variable {host : Client} {outOf : RealmId → List EventId} {inactiveRealms : InactiveRealms}
  {taken : List (Nat × Nat)} {store final : Store K} {kernel : Kernel K}

theorem newIrqEvents_return {irqs : List (Nat × CPtr × List CPtr)} (acks : AcksSucceed kernel)
    (wired : Wired host outOf inactiveRealms [] taken store)
    (hasPrimary : primaryHostNode < host.inSpaces.length) (distinct : (irqs.map Prod.fst).Nodup)
    (small : ∀ irq ∈ irqs, irq.1 < lastSpi)
    (isFree : ∀ irq ∈ irqs, (primaryHostNode, irq.1 + 33) ∉ taken) :
    ∃ irqEvents after, Exec.mapEach irqs
      (fun irq => newIrqEvent kernel host irq.1 irq.2.1 irq.2.2) store = .ok irqEvents after := by
  induction irqs generalizing taken store with
  | nil => exact ⟨[], store, rfl⟩
  | cons irq irqs ih =>
      have isSmall := small irq List.mem_cons_self
      have isNumber : Finite.toNat (HostIn.spi ⟨irq.1⟩) = irq.1 + 33 :=
        toNat_spi (Nat.lt_trans isSmall (by decide))
      have inBounds : Finite.toNat (HostIn.spi ⟨irq.1⟩) < Finite.cardinality HostIn := by
        rw [isNumber, cardinality_hostIn]
        simp only [lastSpi] at isSmall
        omega
      obtain ⟨entry, middle, run, wired⟩ := newIrqEvent_returns acks wired hasPrimary inBounds
        (isNumber ▸ isFree irq List.mem_cons_self)
      obtain ⟨notLater, distinct⟩ := List.nodup_cons.mp distinct
      obtain ⟨irqEvents, after, rest⟩ := ih wired distinct
        (fun other member => small other (List.mem_cons_of_mem _ member))
        (fun other member => by
          have differs : other.1 ≠ irq.1 := fun same => notLater (same ▸ List.mem_map_of_mem member)
          have wasFree := isFree other (List.mem_cons_of_mem _ member)
          rw [isNumber]
          simp [differs, wasFree])
      refine ⟨entry :: irqEvents, after, ?_⟩
      rw [Exec.mapEach_cons]
      exact (Exec.bind_of_ok run).trans (Exec.bind_of_ok rest)

/-- An interrupt that is connected has a number of its own. -/
theorem newIrqEvent_takes {irq : Nat} {handler : CPtr} {notifications : List CPtr}
    {entry : Nat × EventId} (wired : Wired host outOf inactiveRealms [] taken store)
    (run : newIrqEvent kernel host irq handler notifications store = .ok entry final) :
    Finite.toNat (HostIn.spi ⟨irq⟩) < Finite.cardinality HostIn ∧
      (primaryHostNode, Finite.toNat (HostIn.spi ⟨irq⟩)) ∉ taken ∧
      Wired host outOf inactiveRealms []
        ((primaryHostNode, Finite.toNat (HostIn.spi ⟨irq⟩)) :: taken) final := by
  simp only [newIrqEvent, Exec.bind_eq_ok, Exec.pure_eq_ok] at run
  obtain ⟨⟨⟩, acked, ackRun, event, made, newRun, ⟨⟩, _, connectRun, _, rfl⟩ := run
  obtain ⟨inner, _, rfl⟩ := Exec.focus_eq_ok.mp ackRun
  have wired : Wired host outOf inactiveRealms [] taken { store with kernel := inner } :=
    ⟨⟨wired.setup.coherent.sameRoutes ⟨rfl, rfl, rfl⟩, wired.setup.known, wired.setup.distinct,
      by simp, wired.setup.outSpaces⟩, wired.spaces⟩
  obtain ⟨_, _, newRun', wired⟩ := wired.newEvent (some ⟨handler, notifications⟩)
  obtain ⟨rfl, rfl⟩ := Outcome.ok.inj (newRun'.symm.trans newRun)
  have connectsRun := connectRun
  simp only [connectToHost, Exec.bind_eq_ok, Exec.unwrap_eq_ok] at connectsRun
  obtain ⟨inSpace, _, ⟨isHost, rfl⟩, connectsRun⟩ := connectsRun
  obtain ⟨found, isInSpace, length, free⟩ := wired.spaces _ inSpace isHost
  have isEntry : found.entries[Finite.toNat (HostIn.spi ⟨irq⟩)]? = some none := by
    simp only [Event.connect, readEntry, readInSpace, Exec.bind_eq_ok, Exec.reads_eq_ok,
      Exec.unwrap_eq_ok, Exec.assert_eq_ok] at connectsRun
    obtain ⟨entry, _, ⟨same, _, ⟨isSame, rfl⟩, isEntry, rfl⟩, _, _, ⟨isNone, _⟩, _⟩ := connectsRun
    rw [isInSpace] at isSame
    obtain rfl := Option.some.inj isSame
    rw [isEntry, isNone]
  have inBounds : Finite.toNat (HostIn.spi ⟨irq⟩) < Finite.cardinality HostIn :=
    length ▸ (List.getElem?_eq_some_iff.mp isEntry).1
  have isFree := (free _ inBounds).mp isEntry
  obtain ⟨after, run, wired⟩ := wired.connectToHost (List.getElem?_eq_some_iff.mp isHost).1
    inBounds isFree
  obtain ⟨_, rfl⟩ := Outcome.ok.inj (run.symm.trans connectRun)
  exact ⟨inBounds, isFree, wired⟩

/-- `realize` returns exactly if every interrupt has a number before those of the ring buffers. -/
theorem realize_returns_iff {config : EventServerConfig} {numActiveCores : Nat} {kernelState : K}
    (acks : AcksSucceed kernel) (hasPrimary : 0 < numActiveCores)
    (hostNodes : numActiveCores ≤ config.hostNotifications.length)
    (realmNodes : numRealms ≤ config.realmNotifications.length)
    (spis : ∀ irq, config.irqs.contains irq = true → irq < SPI.stop) :
    (∃ server store, config.realize kernel numActiveCores (Store.empty kernelState) =
      .ok server store) ↔ ∀ irq, config.irqs.contains irq = true → irq < lastSpi := by
  obtain ⟨host, outOf, inactiveRealms, taken, store, server, isRealize, wired, primary, isTaken⟩ :=
    @realize_eq _ kernel config numActiveCores kernelState hasPrimary hostNodes realmNodes
  rw [isRealize]
  have isKey : ∀ irq, config.irqs.contains irq = true ↔ ∃ entry ∈ config.irqs.toList,
      entry.1 = irq := by
    intro irq
    rw [Std.TreeMap.contains_eq_isSome_getElem?, Option.isSome_iff_exists]
    simp [Std.TreeMap.mem_toList_iff_getElem?_eq_some]
  constructor
  · intro returns irq isIrq
    obtain ⟨_, _, run⟩ := returns
    simp only [Exec.bind_eq_ok] at run
    obtain ⟨irqEvents, middle, run, _⟩ := run
    have each := Exec.mapEach_forall
      (fun store => ∃ taken, Wired host outOf inactiveRealms [] taken store ∧
        ∀ number, 989 ≤ number → number < 995 → (primaryHostNode, number) ∈ taken)
      (fun entry => Finite.toNat (HostIn.spi ⟨entry.1⟩) < 989)
      (fun entry before after result holds run => by
        obtain ⟨taken, wired, ring⟩ := holds
        obtain ⟨inBounds, isFree, wired⟩ := newIrqEvent_takes wired run
        refine ⟨⟨_, wired, fun number isLow isHigh => ?_⟩, ?_⟩
        · exact List.mem_cons_of_mem _ (ring number isLow isHigh)
        · rw [cardinality_hostIn] at inBounds
          by_contra isLarge
          exact isFree (ring _ (by omega) inBounds))
      ⟨taken, wired, fun number isLow isHigh => (isTaken number).mpr (.inr ⟨isLow, isHigh⟩)⟩ run
    obtain ⟨entry, member, isEntry⟩ := (isKey irq).mp isIrq
    have isSmall := each entry member
    rw [isEntry, toNat_spi (spis irq isIrq)] at isSmall
    simp only [lastSpi]
    omega
  · intro small
    have isSmall : ∀ entry ∈ config.irqs.toList, entry.1 < lastSpi :=
      fun entry member => small _ ((isKey _).mpr ⟨entry, member, rfl⟩)
    have distinct : (config.irqs.toList.map Prod.fst).Nodup := by
      rw [List.Nodup, List.pairwise_map]
      exact config.irqs.distinct_keys_toList.imp fun different => by simpa using different
    obtain ⟨irqEvents, after, run⟩ := newIrqEvents_return acks wired primary distinct isSmall
      (fun entry member => by
        have bound := isSmall entry member
        simp only [lastSpi] at bound
        rw [isTaken]
        omega)
    exact ⟨server irqEvents, after, Exec.bind_of_ok run⟩

end Irqs

end IceCap.Events
