import IceCap.Events.Borrows

/-!
# The notifications that IRQs are bound to

An IRQ has one notification for each node, and its interrupts arrive on the node
whose notification its handler is bound to.  `move_` binds the IRQ of the entry
it moves to `notifications[dst_index]`, where the node is `dst_nid`, and leaves
that of the entry it displaces as it was.

The event server keeps no record of its `set_notification` calls, so they are
recorded along with the state of the kernel.
-/

set_option autoImplicit false

namespace IceCap.Events

open IceCap.Library IceCap.Sel4 FiniteSet

variable {K : Type}

/-- A call of `set_notification`: the handler and the notification. -/
abbrev Binding := CPtr × CPtr

def bindings : Invocation → List Binding
  | .irqSetNotification handler notification => [(handler, notification)]
  | _ => []

/-- The same kernel with a record of the bindings, the last one first. -/
def recording (kernel : Kernel K) : Kernel (K × List Binding) :=
  ⟨fun call state => ((kernel.invoke call state.1).1, (kernel.invoke call state.1).2,
    bindings call ++ state.2)⟩

/-- The notification that an IRQ is bound to.  When the system is built, it is that of the primary
node. -/
def boundTo (irq : EventIRQ) (record : List Binding) : Option CPtr :=
  match record.find? fun binding => binding.1 = irq.handler with
  | some binding => some binding.2
  | none => irq.notifications[primaryHostNode]?

def BoundToNode (irq : EventIRQ) (nid : Nat) (record : List Binding) : Prop :=
  ∃ notification, irq.notifications[nid]? = some notification ∧
    boundTo irq record = some notification

section Bindings
variable {irq other : EventIRQ} {record : List Binding} {nid : Nat} {notification : CPtr}

theorem boundToNode_cons :
    BoundToNode irq nid ((irq.handler, notification) :: record) ↔
      irq.notifications[nid]? = some notification := by
  simp [BoundToNode, boundTo]

theorem boundToNode_cons_of_ne (different : other.handler ≠ irq.handler) :
    BoundToNode other nid ((irq.handler, notification) :: record) ↔
      BoundToNode other nid record := by
  simp [BoundToNode, boundTo, different.symm]

end Bindings

/-! ## The entries that a move exchanges -/

namespace Store

variable {store : Store K}

/-- The entry at a place, if there is such a place. -/
def entryAt (store : Store K) (place : EventTarget) : Option (Option InSpaceEntry) :=
  (store.inSpaces[place.inSpace]?).bind fun found => found.entries[place.index]?

/-- The IRQ of the event at a place. -/
def irqAt (store : Store K) (place : EventTarget) : Option EventIRQ :=
  (store.eventAt place).bind fun event => (store.events[event]?).bind Event.irq

theorem eventAt_of_entryAt {place : EventTarget} {entry : Option InSpaceEntry}
    (isEntry : store.entryAt place = some entry) :
    store.eventAt place = entry.map InSpaceEntry.event := by
  obtain ⟨found, isFound, isEntry⟩ := Option.bind_eq_some_iff.mp isEntry
  simp [eventAt, InSpace.eventAt, isFound, isEntry]

theorem entryAt_withEntry {inSpace : InSpaceId} {index : Nat} {old entry : Option InSpaceEntry}
    (isEntry : store.entryAt ⟨inSpace, index⟩ = some old) :
    (store.withEntry inSpace index entry).entryAt ⟨inSpace, index⟩ = some entry := by
  obtain ⟨found, isFound, isEntry⟩ := Option.bind_eq_some_iff.mp isEntry
  have isThere := (List.getElem?_eq_some_iff.mp isEntry).1
  simp [entryAt, withEntry, isFound, isThere]

theorem entryAt_withEntry_of_ne {place : EventTarget} {inSpace : InSpaceId} {index : Nat}
    {entry : Option InSpaceEntry} (different : place ≠ ⟨inSpace, index⟩) :
    (store.withEntry inSpace index entry).entryAt place = store.entryAt place := by
  rw [entryAt, entryAt, withEntry, List.getElem?_modify]
  cases isFound : store.inSpaces[place.inSpace]? with
  | none => simp
  | some found =>
      split
      · next same =>
          have otherIndex : index ≠ place.index := by
            intro sameIndex
            exact different (by rw [same, sameIndex])
          simp [List.getElem?_set_ne otherIndex]
      · simp

end Store

section Move
variable {store : Store K} {client : Client}

theorem readEntry_of_entryAt {inSpace : InSpaceId} {index : Nat} {entry : Option InSpaceEntry}
    (isEntry : store.entryAt ⟨inSpace, index⟩ = some entry) :
    readEntry inSpace index store = .ok entry store := by
  obtain ⟨found, isFound, isEntry⟩ := Option.bind_eq_some_iff.mp isEntry
  simp only [readEntry, readInSpace, Exec.bind_eq_ok, Exec.reads_eq_ok, Exec.unwrap_eq_ok]
  exact ⟨found, store, ⟨isFound, rfl⟩, isEntry, rfl⟩

theorem swapEntry_of_entryAt {nid index : Nat} {inSpace : InSpaceId}
    {tmp entry : Option InSpaceEntry} (isInSpace : client.inSpaces[nid]? = some inSpace)
    (isEntry : store.entryAt ⟨inSpace, index⟩ = some entry) :
    client.swapEntry nid index tmp store = .ok entry (store.withEntry inSpace index tmp) := by
  rw [Client.swapEntry, Exec.unwrap_bind isInSpace, Exec.bind_of_ok (readEntry_of_entryAt isEntry)]
  rfl

variable {kernel : Kernel K} {srcNid srcIndex dstNid dstIndex : Nat} {src dst : InSpaceId}
  {moved displaced : Option InSpaceEntry}

theorem places_apart (different : (srcNid, srcIndex) ≠ (dstNid, dstIndex))
    (distinct : client.inSpaces.Nodup) (isSrc : client.inSpaces[srcNid]? = some src)
    (isDst : client.inSpaces[dstNid]? = some dst) :
    (⟨src, srcIndex⟩ : EventTarget) ≠ ⟨dst, dstIndex⟩ := by
  intro same
  obtain ⟨rfl, rfl⟩ := EventTarget.mk.inj same
  have sameNid := (List.getElem?_inj (List.getElem?_eq_some_iff.mp isSrc).1 distinct).mp
    (isSrc.trans isDst.symm)
  exact different (by rw [sameNid])

/-- The last step of a move. -/
def rebind (kernel : Kernel K) (dstIndex : Nat) : Option EventIRQ → Exec Failure (Store K) Unit
  | none => pure ()
  | some irq => do
      let nfn ← Exec.unwrap irq.notifications[dstIndex]?
      onKernel (kernel.call (.irqSetNotification irq.handler nfn))

/-- What a move does after the two entries have been exchanged. -/
def arrive (kernel : Kernel K) (dst : InSpaceId) (dstIndex : Nat) :
    Option InSpaceEntry → Exec Failure (Store K) Unit
  | none => pure ()
  | some entry => do
      setTarget entry.event (some ⟨dst, dstIndex⟩)
      let event ← readEvent entry.event
      rebind kernel dstIndex event.irq

theorem move_eq_arrive (different : (srcNid, srcIndex) ≠ (dstNid, dstIndex))
    (isSrc : client.inSpaces[srcNid]? = some src) (isDst : client.inSpaces[dstNid]? = some dst)
    (apart : (⟨dst, dstIndex⟩ : EventTarget) ≠ ⟨src, srcIndex⟩)
    (isMoved : store.entryAt ⟨src, srcIndex⟩ = some moved)
    (isDisplaced : store.entryAt ⟨dst, dstIndex⟩ = some displaced) :
    client.move kernel srcNid srcIndex dstNid dstIndex store =
      arrive kernel dst dstIndex moved (((store.withEntry src srcIndex none).withEntry dst dstIndex
        moved).withEntry src srcIndex displaced) := by
  have atDst : (store.withEntry src srcIndex none).entryAt ⟨dst, dstIndex⟩ = some displaced :=
    (Store.entryAt_withEntry_of_ne apart).trans isDisplaced
  have atSrc : ((store.withEntry src srcIndex none).withEntry dst dstIndex moved).entryAt
      ⟨src, srcIndex⟩ = some none := by
    rw [Store.entryAt_withEntry_of_ne apart.symm]
    exact Store.entryAt_withEntry isMoved
  have arrived : (((store.withEntry src srcIndex none).withEntry dst dstIndex moved).withEntry src
      srcIndex displaced).entryAt ⟨dst, dstIndex⟩ = some moved := by
    rw [Store.entryAt_withEntry_of_ne apart]
    exact Store.entryAt_withEntry atDst
  rw [Client.move, if_pos different, Exec.bind_of_ok (swapEntry_of_entryAt isSrc isMoved),
    Exec.bind_of_ok (swapEntry_of_entryAt isDst atDst),
    Exec.bind_of_ok (swapEntry_of_entryAt isSrc atSrc), Exec.unwrap_bind isDst,
    Exec.bind_of_ok (readEntry_of_entryAt arrived)]
  cases moved with
  | none => rfl
  | some entry => rfl

/-- An event that arrives has its IRQ rebound. -/
theorem arrive_eq_rebind
    (known : ∀ entry, moved = some entry → entry.event < store.events.length) :
    ∃ placed, placed.kernel = store.kernel ∧ arrive kernel dst dstIndex moved store =
      rebind kernel dstIndex (moved.bind fun entry => (store.events[entry.event]?).bind Event.irq)
        placed := by
  cases moved with
  | none => exact ⟨store, rfl, rfl⟩
  | some entry =>
      obtain ⟨event, isEvent⟩ : ∃ event, store.events[entry.event]? = some event :=
        ⟨_, List.getElem?_eq_getElem (known entry rfl)⟩
      obtain ⟨placed, setRun, sameKernel, isTargeted⟩ : ∃ placed : Store K,
          setTarget entry.event (some ⟨dst, dstIndex⟩) store = .ok () placed ∧
          placed.kernel = store.kernel ∧
          placed.events[entry.event]? = some { event with target := some ⟨dst, dstIndex⟩ } :=
        ⟨_, rfl, rfl, by simp [isEvent]⟩
      have readRun : readEvent entry.event placed = .ok _ placed :=
        Exec.reads_eq_ok.mpr ⟨isTargeted, rfl⟩
      refine ⟨placed, sameKernel, ?_⟩
      rw [arrive, Exec.bind_of_ok setRun, Exec.bind_of_ok readRun, Option.bind_some, isEvent]
      rfl

/-- A move of an entry to another place exchanges the two and rebinds the IRQ of the first. -/
theorem move_eq_rebind (different : (srcNid, srcIndex) ≠ (dstNid, dstIndex))
    (distinct : client.inSpaces.Nodup) (isSrc : client.inSpaces[srcNid]? = some src)
    (isDst : client.inSpaces[dstNid]? = some dst)
    (srcInRange : (store.entryAt ⟨src, srcIndex⟩).isSome)
    (dstInRange : (store.entryAt ⟨dst, dstIndex⟩).isSome)
    (known : ∀ place event, store.eventAt place = some event → event < store.events.length) :
    ∃ placed, placed.kernel = store.kernel ∧
      client.move kernel srcNid srcIndex dstNid dstIndex store =
        rebind kernel dstIndex (store.irqAt ⟨src, srcIndex⟩) placed := by
  obtain ⟨moved, isMoved⟩ := Option.isSome_iff_exists.mp srcInRange
  obtain ⟨displaced, isDisplaced⟩ := Option.isSome_iff_exists.mp dstInRange
  have apart := (places_apart different distinct isSrc isDst).symm
  rw [move_eq_arrive different isSrc isDst apart isMoved isDisplaced]
  have isEvent := Store.eventAt_of_entryAt isMoved
  have isIrq : store.irqAt ⟨src, srcIndex⟩ =
      moved.bind fun entry => (store.events[entry.event]?).bind Event.irq := by
    rw [Store.irqAt, isEvent]
    cases moved <;> rfl
  have isKnown : ∀ entry, moved = some entry → entry.event < store.events.length := by
    intro entry isEntry
    exact known ⟨src, srcIndex⟩ entry.event (by rw [isEvent, isEntry, Option.map_some])
  rw [isIrq]
  exact @arrive_eq_rebind _ (((store.withEntry src srcIndex none).withEntry dst dstIndex
    moved).withEntry src srcIndex displaced) kernel dstIndex dst moved isKnown

/-- A call is made, whether the kernel refuses it or not. -/
theorem call_ends {invocation : Invocation} {before after : K} :
    (kernel.call invocation).Ends before after ↔ after = (kernel.invoke invocation before).2 := by
  unfold Exec.Ends Kernel.call
  rcases kernel.invoke invocation before with ⟨_ | error, next⟩
  · simp [eq_comm]
  · simp [eq_comm]

theorem rebind_ends {irq : EventIRQ} {notification : CPtr} {final : Store K}
    (isNotification : irq.notifications[dstIndex]? = some notification) :
    (rebind kernel dstIndex (some irq)).Ends store final ↔ final = { store with
      kernel := (kernel.invoke (.irqSetNotification irq.handler notification) store.kernel).2 } := by
  have isRun : rebind kernel dstIndex (some irq) store =
      onKernel (kernel.call (.irqSetNotification irq.handler notification)) store :=
    Exec.unwrap_bind isNotification
  rw [Exec.Ends, isRun, ← Exec.Ends, onKernel, Exec.ends_focus]
  simp only [call_ends, exists_eq_left, eq_comm]

theorem rebind_panics {irq : EventIRQ} (isOutside : irq.notifications[dstIndex]? = none) :
    rebind kernel dstIndex (some irq) store = .panic := by
  rw [rebind, isOutside]
  rfl

end Move

/-! ## Moves in a run -/

section Run
variable {kernel : Kernel K} {clientId : ClientId} {client : Client}
  {srcNid srcIndex dstNid dstIndex : Nat} {src dst : InSpaceId}

/-- No in-space is listed twice by a client. -/
def System.Distinct (system : System K) : Prop :=
  ∀ client, (system.server.layout.inSpacesOf client).Nodup

theorem Act.distinct {action : Action} {system final : System K} (distinct : system.Distinct)
    (moved : Act kernel action system final) : final.Distinct := by
  intro client
  rcases moved.extends.inSpaces client with same | ⟨_, n, isNew, _⟩
  · rw [same]
    exact distinct client
  · rw [isNew]
    exact List.nodup_range'

theorem withClient_of_client {request : Client → Exec Failure (Store K) Unit} {system : System K}
    (isClient : system.server.client clientId = some client) :
    withClient clientId request system = onStore (request client) system :=
  Exec.unwrap_bind isClient

variable {system : System (K × List Binding)}

/-- Nothing is bound by a move to the same place. -/
theorem ends_move_same (property : List Binding → Prop)
    (isClient : system.server.client clientId = some client)
    (same : (srcNid, srcIndex) = (dstNid, dstIndex)) :
    (∃ final, (handle (recording kernel) (.move clientId srcNid srcIndex dstNid dstIndex)).Ends
      system final ∧ property final.store.kernel.2) ↔ property system.store.kernel.2 := by
  have isRun : handle (recording kernel) (.move clientId srcNid srcIndex dstNid dstIndex) system =
      .ok () system := by
    rw [handle, withClient_of_client isClient]
    apply onStore_of_ok
    rw [Client.move, if_neg (not_not_intro same)]
    rfl
  constructor
  · intro ended
    obtain ⟨final, run, holds⟩ := ended
    rwa [run.of_ok isRun] at holds
  · intro holds
    exact ⟨system, .inl ⟨(), isRun⟩, holds⟩

/-- A move to another place binds the IRQ that is moved, where it has a notification for that. -/
theorem ends_move_other (property : List Binding → Prop)
    (isClient : system.server.client clientId = some client)
    (different : (srcNid, srcIndex) ≠ (dstNid, dstIndex))
    (distinct : client.inSpaces.Nodup) (isSrc : client.inSpaces[srcNid]? = some src)
    (isDst : client.inSpaces[dstNid]? = some dst)
    (srcInRange : (system.store.entryAt ⟨src, srcIndex⟩).isSome)
    (dstInRange : (system.store.entryAt ⟨dst, dstIndex⟩).isSome)
    (known : ∀ place event, system.store.eventAt place = some event →
      event < system.store.events.length) :
    (∃ final, (handle (recording kernel) (.move clientId srcNid srcIndex dstNid dstIndex)).Ends
      system final ∧ property final.store.kernel.2) ↔
      match system.store.irqAt ⟨src, srcIndex⟩ with
      | none => property system.store.kernel.2
      | some irq => ∃ notification, irq.notifications[dstIndex]? = some notification ∧
          property ((irq.handler, notification) :: system.store.kernel.2) := by
  obtain ⟨placed, sameKernel, isMove⟩ := @move_eq_rebind _ _ _ (recording kernel) _ _ _ _ _ _
    different distinct isSrc isDst srcInRange dstInRange known
  have endsMove : ∀ final, (handle (recording kernel)
      (.move clientId srcNid srcIndex dstNid dstIndex)).Ends system final ↔
      ∃ store, (rebind (recording kernel) dstIndex (system.store.irqAt ⟨src, srcIndex⟩)).Ends
        placed store ∧ { system with store := store } = final := by
    intro final
    rw [handle, Exec.ends_congr (withClient_of_client isClient), onStore, Exec.ends_focus]
    simp only [Exec.ends_congr isMove]
  generalize system.store.irqAt ⟨src, srcIndex⟩ = moved at endsMove
  cases moved with
  | none =>
      have endsRebind : ∀ store, (rebind (recording kernel) dstIndex none).Ends placed store ↔
          placed = store := fun _ => Exec.ends_pure
      simp [endsMove, endsRebind, sameKernel]
  | some irq =>
      constructor
      · intro ended
        obtain ⟨final, handled, holds⟩ := ended
        obtain ⟨store, run, rfl⟩ := (endsMove final).mp handled
        cases isNotification : irq.notifications[dstIndex]? with
        | none => exact absurd (rebind_panics isNotification) run.ne_panic
        | some notification =>
            rw [rebind_ends isNotification, sameKernel] at run
            rw [run] at holds
            exact ⟨notification, isNotification, holds⟩
      · intro binds
        obtain ⟨notification, isNotification, holds⟩ := binds
        refine ⟨_, (endsMove _).mpr ⟨_, (rebind_ends isNotification).mpr rfl, rfl⟩, ?_⟩
        rw [sameKernel]
        exact holds

/-- The displaced IRQ is bound to its node already, unless the moved one has its handler. -/
def StaysBound (displaced : EventIRQ) (srcNid dstIndex : Nat) (record : List Binding) :
    Option EventIRQ → Prop
  | none => BoundToNode displaced srcNid record
  | some moved =>
      if moved.handler = displaced.handler then
        ∃ notification, displaced.notifications[srcNid]? = some notification ∧
          moved.notifications[dstIndex]? = some notification
      else BoundToNode displaced srcNid record

theorem staysBound_iff {moved displaced : EventIRQ} {record : List Binding} {notification : CPtr}
    (isNotification : moved.notifications[dstIndex]? = some notification) :
    StaysBound displaced srcNid dstIndex record (some moved) ↔
      BoundToNode displaced srcNid ((moved.handler, notification) :: record) := by
  rw [StaysBound]
  split
  · next same => simp [BoundToNode, boundTo, same, isNotification]
  · next different => exact (boundToNode_cons_of_ne fun same => different same.symm).symm

variable {numActiveCores : Nat} {config : EventServerConfig} {kernelState : K}
  {server : EventServer} {store : Store (K × List Binding)}
  {taken : List (System (K × List Binding) × Action)}

/-- The IRQs of the two entries that a move exchanges are bound to their new nodes. -/
def System.BindsMoved (system : System (K × List Binding)) (src dst : EventTarget)
    (srcNid dstNid : Nat) (record : List Binding) : Prop :=
  (∀ irq, system.store.irqAt src = some irq → BoundToNode irq dstNid record) ∧
  (src ≠ dst → ∀ irq, system.store.irqAt dst = some irq → BoundToNode irq srcNid record)

/-- A move leaves the IRQs bound to the nodes that their entries are on exactly if the moved one has
the same notification for its new index as for its new node, and the displaced one was bound to its
new node before. -/
theorem run_move_binds_iff
    (realized : config.realize (recording kernel) numActiveCores
      (Store.empty (kernelState, [])) = .ok server store)
    (run : Recorded (Act (recording kernel)) ⟨server, store⟩ taken system)
    (isClient : system.server.client clientId = some client)
    (isSrc : client.inSpaces[srcNid]? = some src) (isDst : client.inSpaces[dstNid]? = some dst)
    (srcInRange : (system.store.entryAt ⟨src, srcIndex⟩).isSome)
    (dstInRange : (system.store.entryAt ⟨dst, dstIndex⟩).isSome) :
    (∃ final, (handle (recording kernel) (.move clientId srcNid srcIndex dstNid dstIndex)).Ends
        system final ∧
      system.BindsMoved ⟨src, srcIndex⟩ ⟨dst, dstIndex⟩ srcNid dstNid final.store.kernel.2) ↔
    if (srcNid, srcIndex) = (dstNid, dstIndex) then
      ∀ irq, system.store.irqAt ⟨src, srcIndex⟩ = some irq →
        BoundToNode irq dstNid system.store.kernel.2
    else
      (∀ irq, system.store.irqAt ⟨src, srcIndex⟩ = some irq →
        ∃ notification, irq.notifications[dstNid]? = some notification ∧
          irq.notifications[dstIndex]? = some notification) ∧
      ∀ irq, system.store.irqAt ⟨dst, dstIndex⟩ = some irq →
        StaysBound irq srcNid dstIndex system.store.kernel.2
          (system.store.irqAt ⟨src, srcIndex⟩) := by
  have layered := (run_layered realized run).store
  have known : ∀ place event, system.store.eventAt place = some event →
      event < system.store.events.length := fun place event isEvent =>
    Nat.lt_of_lt_of_le (layered.entries place event isEvent).1 layered.limited
  have allDistinct : system.Distinct := run.always (realize_coherent realized).routed.nodup
    fun _ _ _ distinct moved => moved.distinct distinct
  have distinct : client.inSpaces.Nodup := by
    simpa [EventServer.layout, isClient] using allDistinct clientId
  by_cases same : (srcNid, srcIndex) = (dstNid, dstIndex)
  · rw [if_pos same, ends_move_same (system.BindsMoved ⟨src, srcIndex⟩ ⟨dst, dstIndex⟩ srcNid dstNid)
      isClient same]
    obtain ⟨rfl, rfl⟩ := Prod.mk.inj same
    obtain rfl := Option.some.inj (isSrc.symm.trans isDst)
    simp [System.BindsMoved]
  · rw [if_neg same, ends_move_other
      (system.BindsMoved ⟨src, srcIndex⟩ ⟨dst, dstIndex⟩ srcNid dstNid) isClient same distinct isSrc
      isDst srcInRange dstInRange known]
    have apart := places_apart same distinct isSrc isDst
    cases isIrq : system.store.irqAt ⟨src, srcIndex⟩ with
    | none => simp [System.BindsMoved, isIrq, apart, StaysBound]
    | some irq =>
        simp only [System.BindsMoved, isIrq, Option.some.injEq, forall_eq', boundToNode_cons, ne_eq,
          apart, not_false_eq_true, forall_const]
        constructor
        · intro binds
          obtain ⟨notification, isNotification, isMoved, isDisplaced⟩ := binds
          refine ⟨⟨notification, isMoved, isNotification⟩, fun other isOther => ?_⟩
          exact (staysBound_iff isNotification).mpr (isDisplaced other isOther)
        · intro both
          obtain ⟨⟨notification, isMoved, isNotification⟩, isDisplaced⟩ := both
          refine ⟨notification, isNotification, isMoved, fun other isOther => ?_⟩
          exact (staysBound_iff isNotification).mp (isDisplaced other isOther)

end Run

/-! ## Moves in the example -/

def recordedSystem : Option (System (Unit × List Binding)) :=
  match exampleConfig.realize (recording permissive) 2 (Store.empty ((), [])) with
  | .ok server store => some ⟨server, store⟩
  | _ => none

theorem recordedSystem_check (check : System (Unit × List Binding) → Bool)
    (evaluates : recordedSystem.any check = true) :
    ∃ system, exampleConfig.realize (recording permissive) 2 (Store.empty ((), [])) =
      .ok system.server system.store ∧ check system = true := by
  obtain ⟨system, isSystem, checked⟩ := (Option.any_eq_true _ _).mp evaluates
  refine ⟨system, ?_, checked⟩
  unfold recordedSystem at isSystem
  split at isSystem
  · next server store realized =>
      obtain rfl := Option.some.inj isSystem
      exact realized
  · simp at isSystem

/-- The IRQ is moved to the entry of the second node that has the number of that node. -/
theorem run_move_binds_iff_exampleConfig : ∃ system final,
    exampleConfig.realize (recording permissive) 2 (Store.empty ((), [])) =
      .ok system.server system.store ∧
    system.store.irqAt ⟨0, 73⟩ = some ⟨7, [8, 9]⟩ ∧
    (handle (recording permissive) (.move .host 0 73 1 1)).Ends system final ∧
    system.BindsMoved ⟨0, 73⟩ ⟨1, 1⟩ 0 1 final.store.kernel.2 := by
  obtain ⟨system, realized, checked⟩ := recordedSystem_check
    (fun system => system.server.host.inSpaces = [0, 1] ∧
      system.store.irqAt ⟨0, 73⟩ = some ⟨7, [8, 9]⟩ ∧ system.store.irqAt ⟨1, 1⟩ = none ∧
      (system.store.entryAt ⟨0, 73⟩).isSome ∧ (system.store.entryAt ⟨1, 1⟩).isSome)
    (by decide +kernel)
  obtain ⟨isHost, isMoved, isFree, srcInRange, dstInRange⟩ := of_decide_eq_true checked
  have isSrc : system.server.host.inSpaces[0]? = some 0 := by rw [isHost]; rfl
  have isDst : system.server.host.inSpaces[1]? = some 1 := by rw [isHost]; rfl
  have isClient : system.server.client .host = some system.server.host := rfl
  have binds := run_move_binds_iff realized .start isClient isSrc isDst srcInRange dstInRange
  obtain ⟨final, run, bound⟩ := binds.mpr (by simp [isMoved, isFree])
  exact ⟨system, final, realized, isMoved, run, bound⟩

/-- At the same entry of the second node the move panics, and at its first entry it binds the IRQ to
the notification of the first node. -/
theorem move_binds_by_index : ∃ system,
    exampleConfig.realize (recording permissive) 2 (Store.empty ((), [])) =
      .ok system.server system.store ∧
    system.server.host.inSpaces = [0, 1] ∧ system.store.irqAt ⟨0, 73⟩ = some ⟨7, [8, 9]⟩ ∧
    (system.store.entryAt ⟨0, 73⟩).isSome ∧ (system.store.entryAt ⟨1, 73⟩).isSome ∧
    (system.store.entryAt ⟨1, 0⟩).isSome ∧
    handle (recording permissive) (.move .host 0 73 1 73) system = .panic ∧
    ∃ final, handle (recording permissive) (.move .host 0 73 1 0) system = .ok () final ∧
      final.store.kernel.2 = [(7, 8)] ∧
      ¬ system.BindsMoved ⟨0, 73⟩ ⟨1, 0⟩ 0 1 final.store.kernel.2 := by
  obtain ⟨system, realized, checked⟩ := recordedSystem_check
    (fun system => system.server.host.inSpaces = [0, 1] ∧
      system.store.irqAt ⟨0, 73⟩ = some ⟨7, [8, 9]⟩ ∧ (system.store.entryAt ⟨0, 73⟩).isSome ∧
      (system.store.entryAt ⟨1, 73⟩).isSome ∧ (system.store.entryAt ⟨1, 0⟩).isSome ∧
      (match handle (recording permissive) (.move .host 0 73 1 73) system with
        | .panic => true
        | _ => false) = true ∧
      ((handle (recording permissive) (.move .host 0 73 1 0) system).returned.map
        fun final => final.store.kernel.2) = some [(7, 8)])
    (by decide +kernel)
  obtain ⟨isHost, isMoved, inRange, sameInRange, firstInRange, panics, returns⟩ :=
    of_decide_eq_true checked
  refine ⟨system, realized, isHost, isMoved, inRange, sameInRange, firstInRange, ?_, ?_⟩
  · split at panics
    · assumption
    · simp at panics
  · obtain ⟨final, isFinal, isRecord⟩ := Option.map_eq_some_iff.mp returns
    obtain ⟨⟨⟩, run⟩ := Outcome.returned_eq_some.mp isFinal
    refine ⟨final, run, isRecord, fun bound => ?_⟩
    obtain ⟨notification, isSecond, isBound⟩ := bound.1 _ isMoved
    obtain rfl : (9 : CPtr) = notification := Option.some.inj isSecond
    rw [isRecord] at isBound
    exact absurd isBound (by decide)

end IceCap.Events
