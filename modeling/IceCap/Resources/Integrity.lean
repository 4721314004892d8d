import IceCap.Resources.Rounds

/-!
# What is in the frames of a realm

The host sends the content of a realm's frames in chunks, each for one of the fill
entries of the realm's model, and each is checked against the digest of its entry.
That is all that is checked: nothing tells whether there was a chunk for every entry,
whether a chunk was as long as its entry, or whether a later one was written over it.
Even a chunk that is refused may have been written over it, for the digest is compared
when the chunk is in the frame.  So a realm may be finished with something else in its
frames; it is what the model says if for every entry there was a chunk that is still there.
-/

set_option autoImplicit false

namespace IceCap.Resources

open IceCap.Library IceCap.Sel4 IceCap.Dyndl

variable {K E : Type} {services : Services K E}

/-! ## Chunks -/

/-- What a chunk writes to an object with these entries. -/
def FillChunk.patch (fill : Fill) (i : ObjId) (chunk : FillChunk) : Option (Patch UInt8) :=
  if chunk.objectIndex = i then
    (fill[chunk.fillEntryIndex]?).map fun entry => ⟨entry.offset, chunk.content⟩
  else none

theorem FillChunk.patch_eq {fill : Fill} {chunk : FillChunk} {entry : FillEntry}
    (isEntry : fill[chunk.fillEntryIndex]? = some entry) :
    chunk.patch fill chunk.objectIndex = some ⟨entry.offset, chunk.content⟩ := by
  rw [FillChunk.patch, if_pos rfl, isEntry, Option.map_some]

/-- What the chunks write to an object, in that order, if all of them are written. -/
def writesTo (fill : Fill) (i : ObjId) (sent : List Sent) : List (Patch UInt8) :=
  sent.filterMap fun one => one.chunk.patch fill i

theorem writesTo_concat {fill : Fill} {i : ObjId} {sent : List Sent} {last : Sent} :
    writesTo fill i (sent ++ [last]) =
      writesTo fill i sent ++ (last.chunk.patch fill i).toList := by
  rw [writesTo, List.filterMap_append, List.filterMap_cons]
  cases last.chunk.patch fill i <;> rfl

/-- One of the chunks that were accepted is for the entry and is as long as that, and the later
ones do not change what it has written, whether they were accepted or not. -/
def Lasts (fill : Fill) (i : ObjId) (index : Nat) (entry : FillEntry) (sent : List Sent) : Prop :=
  ∃ earlier chunk later, sent = earlier ++ ⟨chunk, true⟩ :: later ∧
    chunk.objectIndex = i ∧ chunk.fillEntryIndex = index ∧ chunk.content.length = entry.length ∧
    ∀ patch ∈ writesTo fill i later, Patch.Agrees ⟨entry.offset, chunk.content⟩ patch

def accepts (chunks : List FillChunk) : List Sent := chunks.map fun chunk => ⟨chunk, true⟩

/-- The chunks that each realm was sent since it was started, after one more round. -/
def Round.fill (sentOf : RealmId → List Sent) : Round → RealmId → List Sent
  | .answered (.request _ (.realizeStart id)) => Function.update sentOf id []
  | .answered (.request _ (.fillChunks id chunks)) =>
      Function.update sentOf id (sentOf id ++ accepts chunks)
  | .failed _ (.fillChunks id _) sent => Function.update sentOf id (sentOf id ++ sent)
  | _ => sentOf

def fills (rounds : List Round) : RealmId → List Sent := rounds.foldl Round.fill fun _ => []

theorem fills_concat {rounds : List Round} {round : Round} :
    fills (rounds ++ [round]) = round.fill (fills rounds) := by
  simp [fills]

/-! ## One realm -/

/-- The frames have in them what the chunks have written that were accepted, until something else
is sent for the same place, and each of these chunks has the digest of its entry. -/
structure Filled (sha256 : List UInt8 → List UInt8) (frames : Frames) (sent : List Sent)
    (subsystem : PartialSubsystem) : Prop where
  written : ∀ i fill frame, subsystem.model.fillAt i = some fill →
    subsystem.frame i = some frame → ∀ earlier chunk later patch,
    sent = earlier ++ ⟨chunk, true⟩ :: later → chunk.patch fill i = some patch →
    (∀ other ∈ writesTo fill i later, patch.Agrees other) → patch.In (frames frame)
  checked : ∀ chunk, ⟨chunk, true⟩ ∈ sent → ∀ fill entry,
    subsystem.model.fillAt chunk.objectIndex = some fill →
    fill[chunk.fillEntryIndex]? = some entry → sha256 chunk.content = entry.contentDigest

namespace Filled

variable {sha256 : List UInt8 → List UInt8} {frames changed : Frames} {sent : List Sent}
  {subsystem : PartialSubsystem} {base : CRegion} {sizes : Sizes} {slot : Slot}

theorem start : Filled sha256 frames [] subsystem where
  written _ _ _ _ _ _ _ _ _ isSent := absurd isSent (by simp)
  checked _ member := absurd member (by simp)

theorem congr (filled : Filled sha256 frames sent subsystem)
    (same : ∀ i frame, subsystem.model.IsLocal i → subsystem.frame i = some frame →
      changed frame = frames frame) : Filled sha256 changed sent subsystem := by
  refine ⟨fun i fill frame isFill isFrame => ?_, filled.checked⟩
  rw [same i frame (Model.isLocal_of_fillAt isFill) isFrame]
  exact filled.written i fill frame isFill isFrame

/-- One more chunk, which is written if it is accepted, and may be written if it is not. -/
theorem arrive (filled : Filled sha256 frames sent subsystem)
    (rooted : subsystem.Rooted base sizes slot) {chunk : FillChunk} {accepted : Bool} {fill : Fill}
    {entry : FillEntry} {frame : CPtr}
    (isFill : subsystem.model.fillAt chunk.objectIndex = some fill)
    (isEntry : fill[chunk.fillEntryIndex]? = some entry)
    (isFrame : subsystem.frame chunk.objectIndex = some frame)
    (digest : accepted = true → sha256 chunk.content = entry.contentDigest)
    (isChanged : changed = Realizer.writeFrame frames frame entry.offset chunk.content ∨
      accepted = false ∧ changed = frames) :
    Filled sha256 changed (sent ++ [⟨chunk, accepted⟩]) subsystem := by
  have isPatch := FillChunk.patch_eq isEntry
  constructor
  · intro i other otherFrame isOther isOtherFrame earlier first later patch isSent isFirst agree
    rcases List.eq_nil_or_concat later with rfl | ⟨sooner, last, rfl⟩
    · -- It is the new chunk, which was accepted.
      obtain ⟨_, isLast⟩ := List.append_inj' isSent rfl
      obtain ⟨rfl, rfl⟩ : chunk = first ∧ accepted = true := by simpa using isLast
      by_cases isObject : chunk.objectIndex = i
      · subst isObject
        obtain rfl := Option.some.inj (isFill.symm.trans isOther)
        obtain rfl := Option.some.inj (isFrame.symm.trans isOtherFrame)
        obtain rfl := Option.some.inj (isPatch.symm.trans isFirst)
        rcases isChanged with rfl | ⟨isRefused, _⟩
        · rw [Realizer.writeFrame_self]
          exact Patch.apply_in
        · simp at isRefused
      · rw [FillChunk.patch, if_neg isObject] at isFirst
        simp at isFirst
    · -- It was there before.
      rw [List.concat_eq_append, ← List.cons_append, ← List.append_assoc] at isSent
      rw [List.concat_eq_append, writesTo_concat] at agree
      obtain ⟨rfl, isLast⟩ := List.append_inj' isSent rfl
      obtain rfl := List.singleton_inj.mp isLast
      have before := filled.written i other otherFrame isOther isOtherFrame earlier first sooner
        patch rfl isFirst fun other member => agree other (List.mem_append_left _ member)
      rcases isChanged with rfl | ⟨_, rfl⟩
      · by_cases isObject : chunk.objectIndex = i
        · subst isObject
          obtain rfl := Option.some.inj (isFill.symm.trans isOther)
          obtain rfl := Option.some.inj (isFrame.symm.trans isOtherFrame)
          rw [Realizer.writeFrame_self]
          refine before.apply (agree _ (List.mem_append_right _ ?_))
          rw [isPatch]
          exact List.mem_singleton_self _
        · have differs : otherFrame ≠ frame := by
            intro same
            subst same
            exact isObject (rooted.frame_injective (Model.isLocal_of_fillAt isFill)
              (Model.isLocal_of_fillAt isOther) isFrame isOtherFrame)
          rw [Realizer.writeFrame_other differs]
          exact before
      · exact before
  · intro some member otherFill otherEntry isOther isOtherEntry
    cases List.mem_append.mp member with
    | inl isEarlier => exact filled.checked some isEarlier otherFill otherEntry isOther isOtherEntry
    | inr isLast =>
        obtain ⟨rfl, isAccepted⟩ : some = chunk ∧ true = accepted := by simpa using isLast
        obtain rfl := Option.some.inj (isFill.symm.trans isOther)
        obtain rfl := Option.some.inj (isEntry.symm.trans isOtherEntry)
        exact digest isAccepted.symm

/-- A chunk that is still there. -/
theorem of_lasts (filled : Filled sha256 frames sent subsystem) {i : ObjId} {fill : Fill}
    {index : Nat} {entry : FillEntry} {frame : CPtr} (isFill : subsystem.model.fillAt i = some fill)
    (isEntry : fill[index]? = some entry) (isFrame : subsystem.frame i = some frame)
    (lasts : Lasts fill i index entry sent) :
    sha256 (window (frames frame) entry.offset entry.length) = entry.contentDigest := by
  obtain ⟨earlier, chunk, later, rfl, rfl, rfl, isLength, agree⟩ := lasts
  have isThere := filled.written _ fill frame isFill isFrame earlier chunk later _ rfl
    (FillChunk.patch_eq isEntry) agree
  rw [← isLength]
  exact (congrArg sha256 isThere.window_eq).trans
    (filled.checked chunk (by simp) fill entry isFill isEntry)

end Filled

/-! ## All realms -/

namespace ResourceServer

variable {server final : ResourceServer K E} {base : CRegion} {built : Node} {sizes : Sizes}
  {lost : List UntypedId} {reserved : List Slot} {slotOf : RealmId → Slot}

/-- The partial realms and the frames. -/
def storage (server : ResourceServer K E) : Std.TreeMap RealmId PartialSubsystem × Frames :=
  (server.partialRealms, server.realizer.frames)

/-- Lending physical nodes has no part in it. -/
theorem storage_unscheduled : Unscheduled services (storage : ResourceServer K E → _) where
  toUnshared := Local.unshared fun _ _ _ => rfl
  setPhysicalNode _ _ _ := .modify fun _ => rfl
  setSlice _ _ := .modify fun _ => rfl
  resumed _ _ := rfl

theorem realizeContinue_eq_ok {realmId : RealmId} {objectIndex fillEntryIndex : Nat}
    {content : List UInt8}
    (run : realizeContinue services realmId objectIndex fillEntryIndex content server =
      .ok () final) :
    ∃ subsystem realizer, server.partialRealms[realmId]? = some subsystem ∧
      Realizer.realizeContinue services.platform services.resources subsystem objectIndex
        fillEntryIndex content server.realizer = .ok () realizer ∧
      final = { server with realizer := realizer } := by
  simp only [realizeContinue, Exec.bind_eq_ok, Exec.get_eq_ok, Exec.unwrap_eq_ok, onRealizer,
    Exec.focus_eq_ok] at run
  obtain ⟨_, _, ⟨rfl, rfl⟩, subsystem, _, ⟨isPartial, rfl⟩, realizer, inner, rfl⟩ := run
  exact ⟨subsystem, realizer, isPartial, inner, rfl⟩

theorem realizeStart_frames {realmId : RealmId}
    (run : realizeStart services realmId server = .ok () final) :
    ∃ started, final.storage =
      (server.partialRealms.insert realmId started, server.realizer.frames) := by
  obtain ⟨_, _, started, realizer, inner, rfl⟩ := realizeStart_eq_ok run
  have same := Realizer.realizeStart_frames.keeps _ _ _ inner
  exact ⟨started, by rw [storage, same]⟩

theorem realizeFinish_storage {nodeIndex : Nat} {realmId : RealmId}
    (run : realizeFinish services nodeIndex realmId server = .ok () final) :
    ∃ subsystem, server.partialRealms[realmId]? = some subsystem ∧
      (∀ i, subsystem.model.IsLocal i → ∃ frame, subsystem.frame i = some frame) ∧
      final.storage = (server.partialRealms.erase realmId, server.realizer.frames) := by
  simp only [realizeFinish, Exec.bind_eq_ok, Exec.get_eq_ok, Exec.unwrap_eq_ok, onRealizer,
    Exec.focus_eq_ok, Exec.modify_eq_ok] at run
  obtain ⟨_, _, ⟨rfl, rfl⟩, subsystem, _, ⟨isPartial, rfl⟩, ⟨⟩, _, rfl, _, _, ⟨realizer, inner, rfl⟩,
    _, third, nodesRun, ⟨⟩, _, rfl, eventRun⟩ := run
  have nodes := (Exec.Spares.mapEach fun _ =>
    storage_unscheduled.toUnshared.virtualNodeOf).keeps _ _ _ nodesRun
  have isLocal : Local (storage : ResourceServer K E → _) := fun _ _ _ => rfl
  have answered := isLocal.callEventServer.keeps _ _ _ eventRun
  have frames : realizer.frames = _ := Realizer.realizeFinish_frames.keeps _ _ _ inner
  refine ⟨subsystem, isPartial, fun i => Realizer.realizeFinish_frame inner, ?_⟩
  rw [answered]
  exact nodes.trans (by rw [storage, frames])

theorem destroy_storage {nodeIndex : Nat} {realmId : RealmId} :
    Exec.Keeps storage (destroy services nodeIndex realmId) := by
  intro server value final run
  simp only [destroy, Exec.bind_eq_ok, Exec.get_eq_ok] at run
  obtain ⟨_, _, ⟨rfl, rfl⟩, run⟩ := run
  cases found : server.realms[realmId]? with
  | none =>
      simp only [found, Exec.pure_eq_ok] at run
      rw [run.2]
  | some realm =>
      simp only [found, Exec.bind_eq_ok, Exec.modify_eq_ok, onRealizer, Exec.focus_eq_ok] at run
      obtain ⟨⟨⟩, _, rfl, ⟨⟩, first, descheduled, ⟨⟩, _, ⟨after, inner, rfl⟩, eventRun⟩ := run
      have same := (Exec.Spares.forEach fun _ => .bind (.assert _) fun _ => .forEach fun _ =>
        .forEach fun _ => storage_unscheduled.kernel _).keeps _ _ _ descheduled
      have isLocal : Local (storage : ResourceServer K E → _) := fun _ _ _ => rfl
      have answered := isLocal.callEventServer.keeps _ _ _ eventRun
      have frames : after.frames = _ := Realizer.destroy_frames.keeps _ _ _ inner
      rw [answered, storage, frames]
      exact same

/-- The frames of every realm that is being realized have in them what these chunks have written. -/
def FilledWith (sha256 : List UInt8 → List UInt8) (sentOf : RealmId → List Sent)
    (server : ResourceServer K E) : Prop :=
  ∀ (id : RealmId) (subsystem : PartialSubsystem), server.partialRealms[id]? = some subsystem →
    Filled sha256 server.realizer.frames (sentOf id) subsystem

variable {sha256 : List UInt8 → List UInt8} {sentOf : RealmId → List Sent}

theorem FilledWith.congr (filled : server.FilledWith sha256 sentOf)
    (same : final.storage = server.storage) : final.FilledWith sha256 sentOf := by
  simp only [storage, Prod.mk.injEq] at same
  rw [FilledWith, same.1, same.2]
  exact filled

theorem FilledWith.erase {realmId : RealmId} (filled : server.FilledWith sha256 sentOf)
    (same : final.storage = (server.partialRealms.erase realmId, server.realizer.frames)) :
    final.FilledWith sha256 sentOf := by
  simp only [storage, Prod.mk.injEq] at same
  intro id subsystem isPartial
  rw [same.1, Std.TreeMap.getElem?_erase] at isPartial
  rw [same.2]
  split at isPartial
  · simp at isPartial
  · exact filled id subsystem isPartial

theorem realizeStart_filled {realmId : RealmId} (filled : server.FilledWith sha256 sentOf)
    (run : realizeStart services realmId server = .ok () final) :
    final.FilledWith sha256 (Function.update sentOf realmId []) := by
  obtain ⟨started, isStorage⟩ := realizeStart_frames run
  simp only [storage, Prod.mk.injEq] at isStorage
  intro id subsystem isPartial
  rw [isStorage.1, Std.TreeMap.getElem?_insert] at isPartial
  rw [isStorage.2]
  by_cases same : realmId = id
  · subst same
    rw [Function.update_self]
    exact .start
  · rw [Function.update_of_ne (Ne.symm same)]
    rw [if_neg (by simpa [Std.LawfulEqCmp.compare_eq_iff_eq] using same)] at isPartial
    exact filled id subsystem isPartial

/-- A chunk for one realm is in a frame of that realm and in no other frame. -/
theorem FilledWith.arrive {realmId : RealmId} {chunk : FillChunk} {accepted : Bool}
    {subsystem : PartialSubsystem} {fill : Fill} {entry : FillEntry} {frame : CPtr}
    (small : ∀ slot, base.Free slot → slot < 2 ^ (base.radix % 64))
    (spread : server.Spread base built sizes lost reserved slotOf)
    (filled : server.FilledWith sha256 sentOf)
    (isPartial : server.partialRealms[realmId]? = some subsystem)
    (isFill : subsystem.model.fillAt chunk.objectIndex = some fill)
    (isEntry : fill[chunk.fillEntryIndex]? = some entry)
    (isFrame : subsystem.frame chunk.objectIndex = some frame)
    (digest : accepted = true → sha256 chunk.content = entry.contentDigest)
    (partials : final.partialRealms = server.partialRealms)
    (isChanged : final.realizer.frames =
        Realizer.writeFrame server.realizer.frames frame entry.offset chunk.content ∨
      accepted = false ∧ final.realizer.frames = server.realizer.frames) :
    final.FilledWith sha256
      (Function.update sentOf realmId (sentOf realmId ++ [⟨chunk, accepted⟩])) := by
  intro id other isOther
  rw [partials] at isOther
  by_cases same : realmId = id
  · subst same
    obtain rfl := Option.some.inj (isPartial.symm.trans isOther)
    rw [Function.update_self]
    exact (filled realmId subsystem isPartial).arrive (spread.rooted realmId subsystem isPartial)
      isFill isEntry isFrame digest isChanged
  · rw [Function.update_of_ne (Ne.symm same)]
    refine (filled id other isOther).congr fun i otherFrame _ isOtherFrame => ?_
    rcases isChanged with isWritten | ⟨_, unchanged⟩
    · rw [isWritten]
      exact Realizer.writeFrame_other
        (spread.frame_ne small same isPartial isOther isFrame isOtherFrame).symm
    · rw [unchanged]

theorem realizeContinue_filled {realmId : RealmId} {chunk : FillChunk}
    (small : ∀ slot, base.Free slot → slot < 2 ^ (base.radix % 64))
    (spread : server.Spread base built sizes lost reserved slotOf)
    (filled : server.FilledWith services.platform.sha256 sentOf)
    (run : realizeContinue services realmId chunk.objectIndex chunk.fillEntryIndex chunk.content
      server = .ok () final) :
    final.FilledWith services.platform.sha256
      (Function.update sentOf realmId (sentOf realmId ++ [⟨chunk, true⟩])) := by
  obtain ⟨subsystem, realizer, isPartial, inner, rfl⟩ := realizeContinue_eq_ok run
  obtain ⟨fill, entry, frame, isFill, isEntry, isFrame, digest, frames⟩ :=
    Realizer.realizeContinue_eq_ok inner
  exact filled.arrive small spread isPartial isFill isEntry isFrame (fun _ => digest) rfl
    (.inl frames)

theorem realizeContinue_err_filled {realmId : RealmId} {chunk : FillChunk} {error : Failure}
    (small : ∀ slot, base.Free slot → slot < 2 ^ (base.radix % 64))
    (spread : server.Spread base built sizes lost reserved slotOf)
    (filled : server.FilledWith sha256 sentOf)
    (failed : realizeContinue services realmId chunk.objectIndex chunk.fillEntryIndex chunk.content
      server = .err error final) :
    final.FilledWith sha256
      (Function.update sentOf realmId (sentOf realmId ++ [⟨chunk, false⟩])) := by
  obtain ⟨subsystem, realizer, isPartial, inner, rfl⟩ := realizeContinue_err failed
  obtain ⟨fill, entry, frame, isFill, isEntry, isFrame, frames⟩ :=
    Realizer.realizeContinue_err inner
  refine filled.arrive small spread isPartial isFill isEntry isFrame (by simp) rfl ?_
  exact frames.symm.imp_right fun unchanged => ⟨rfl, unchanged⟩

theorem fillChunks_filled {realmId : RealmId} (chunks : List FillChunk)
    (small : ∀ slot, base.Free slot → slot < 2 ^ (base.radix % 64)) :
    ∀ {server final : ResourceServer K E} {sentOf : RealmId → List Sent},
      server.Spread base built sizes lost reserved slotOf →
      server.FilledWith services.platform.sha256 sentOf →
      (Exec.forEach chunks fun chunk => realizeContinue services realmId chunk.objectIndex
        chunk.fillEntryIndex chunk.content) server = .ok () final →
      final.FilledWith services.platform.sha256
        (Function.update sentOf realmId (sentOf realmId ++ accepts chunks)) := by
  induction chunks with
  | nil =>
      intro server final sentOf spread filled run
      obtain ⟨-, rfl⟩ := Exec.pure_eq_ok.mp run
      simpa [accepts] using filled
  | cons chunk chunks ih =>
      intro server final sentOf spread filled run
      rw [Exec.forEach_cons, Exec.bind_eq_ok] at run
      obtain ⟨⟨⟩, middle, first, rest⟩ := run
      have written := realizeContinue_filled small spread filled first
      have rest := ih (spread.ofTenure (realizeContinue_tenure.keeps _ _ _ first)) written rest
      rwa [Function.update_self, Function.update_idem, List.append_assoc,
        List.singleton_append] at rest

theorem fillChunks_err_filled {realmId : RealmId} {error : Failure} (chunks : List FillChunk)
    (small : ∀ slot, base.Free slot → slot < 2 ^ (base.radix % 64)) :
    ∀ {server final : ResourceServer K E} {sentOf : RealmId → List Sent},
      server.Spread base built sizes lost reserved slotOf →
      server.FilledWith services.platform.sha256 sentOf →
      (Exec.forEach chunks fun chunk => realizeContinue services realmId chunk.objectIndex
        chunk.fillEntryIndex chunk.content) server = .err error final →
      final.FilledWith services.platform.sha256
        (Function.update sentOf realmId (sentOf realmId ++ server.looked services realmId chunks)) := by
  induction chunks with
  | nil =>
      intro server final sentOf _ _ failed
      exact absurd failed (by simp)
  | cons chunk chunks ih =>
      intro server final sentOf spread filled failed
      rw [Exec.forEach_cons] at failed
      rcases Exec.bind_eq_err.mp failed with refused | ⟨⟨⟩, middle, accepted, rest⟩
      · simp only [looked, refused]
        exact realizeContinue_err_filled small spread filled refused
      · simp only [looked, accepted]
        have written := realizeContinue_filled small spread filled accepted
        have rest := ih (spread.ofTenure (realizeContinue_tenure.keeps _ _ _ accepted)) written rest
        rwa [Function.update_self, Function.update_idem, List.append_assoc,
          List.singleton_append] at rest

/-! ## Runs -/

/-- The frames of the realm have in them what its fill entries say. -/
def Intact (sha256 : List UInt8 → List UInt8) (subsystem : PartialSubsystem)
    (server : ResourceServer K E) : Prop :=
  ∀ i fill, subsystem.model.fillAt i = some fill → ∀ entry ∈ fill,
    ∃ frame, subsystem.frame i = some frame ∧
      sha256 (window (server.realizer.frames frame) entry.offset entry.length) =
        entry.contentDigest

end ResourceServer

/-- For each fill entry of the realm there was a chunk that is still there. -/
def Complete (sent : List Sent) (subsystem : PartialSubsystem) : Prop :=
  ∀ i fill, subsystem.model.fillAt i = some fill → ∀ (index : Nat) (entry : FillEntry),
    fill[index]? = some entry → Lasts fill i index entry sent

variable {event : Event} {round : Round} {before after server : ResourceServer K E} {base : CRegion}
  {built : Node} {sentOf : RealmId → List Sent}

theorem Step.filled (small : ∀ slot, base.Free slot → slot < 2 ^ (base.radix % 64))
    (spread : before.IsSpread base built services.platform.sizes)
    (filled : before.FilledWith services.platform.sha256 sentOf)
    (step : Step services event before after) :
    after.FilledWith services.platform.sha256 ((Round.answered event).fill sentOf) := by
  cases step with
  | yieldBack run => exact absurd run ResourceServer.yieldBack_ne_ok
  | @dispatch nodeIndex request _ _ run =>
      cases request with
      | declare id size =>
          obtain ⟨_, rfl⟩ := ResourceServer.declare_eq_ok run
          exact filled
      | specChunk id offset content =>
          obtain ⟨_, _, rfl⟩ := ResourceServer.incorporateSpecChunk_eq_ok run
          exact filled
      | realizeStart id => exact ResourceServer.realizeStart_filled filled run
      | realizeFinish id =>
          obtain ⟨_, _, _, isStorage⟩ := ResourceServer.realizeFinish_storage run
          exact filled.erase isStorage
      | destroy id => exact filled.congr (ResourceServer.destroy_storage _ _ _ run)
      | fillChunks id chunks =>
          obtain ⟨lost, reserved, slotOf, spread⟩ := spread
          exact ResourceServer.fillChunks_filled chunks small spread filled run
      | hackRun id =>
          exact filled.congr (ResourceServer.storage_unscheduled.toUnshared.hackRun.keeps _ _ _ run)
      | yieldTo physicalNode id virtualNode ns =>
          exact filled.congr (ResourceServer.storage_unscheduled.yieldTo.keeps _ _ _ run)
      | hostEvent =>
          exact filled.congr (ResourceServer.storage_unscheduled.hostEvent.keeps _ _ _ run)
      | timeout =>
          exact filled.congr (ResourceServer.storage_unscheduled.timeout.keeps _ _ _ run)

/-- A round that fails, too, leaves in the frames what it has not written over. -/
theorem Rounds.filled (small : ∀ slot, base.Free slot → slot < 2 ^ (base.radix % 64))
    (spread : before.IsSpread base built services.platform.sizes)
    (filled : before.FilledWith services.platform.sha256 sentOf)
    (rounds : Rounds services round before after) :
    after.FilledWith services.platform.sha256 (round.fill sentOf) := by
  cases rounds with
  | answered step => exact step.filled small spread filled
  | @failed nodeIndex request error _ _ notDestroy run =>
      cases request with
      | declare id size => exact absurd run (ResourceServer.declare_infallible _ _ _)
      | specChunk id offset content =>
          exact absurd run (ResourceServer.incorporateSpecChunk_infallible _ _ _)
      | realizeStart id =>
          obtain ⟨model, realizer, inner, rfl⟩ := ResourceServer.realizeStart_err run
          have frames := Realizer.realizeStart_frames _ _ (.inr ⟨error, inner⟩)
          exact filled.congr (congrArg (Prod.mk before.partialRealms) frames)
      | realizeFinish id =>
          obtain ⟨_, _, partials, _, _, frames⟩ := ResourceServer.realizeFinish_err run
          exact filled.erase (Prod.ext partials frames)
      | destroy id => simp [Request.isDestroy] at notDestroy
      | fillChunks id chunks =>
          obtain ⟨lost, reserved, slotOf, spread⟩ := spread
          exact ResourceServer.fillChunks_err_filled chunks small spread filled run
      | hackRun id =>
          exact filled.congr (ResourceServer.storage_unscheduled.toUnshared.hackRun _ _
            (.inr ⟨error, run⟩))
      | yieldTo physicalNode id virtualNode ns =>
          exact filled.congr (ResourceServer.storage_unscheduled.yieldTo _ _ (.inr ⟨error, run⟩))
      | hostEvent =>
          exact filled.congr (ResourceServer.storage_unscheduled.hostEvent _ _ (.inr ⟨error, run⟩))
      | timeout =>
          exact filled.congr (ResourceServer.storage_unscheduled.timeout _ _ (.inr ⟨error, run⟩))

/-- Along a run the frames of a realm have in them the chunks it was sent since it was started. -/
theorem run_filled {first : ResourceServer K E} {taken : List (ResourceServer K E × Round)}
    (small : ∀ slot, base.Free slot → slot < 2 ^ (base.radix % 64))
    (spread : first.IsSpread base built services.platform.sizes)
    (filled : first.FilledWith services.platform.sha256 (fills []))
    (run : Recorded (Rounds services) first taken server) :
    server.FilledWith services.platform.sha256 (fills (taken.map Prod.snd)) := by
  induction run with
  | start => exact filled
  | step run moved ih =>
      rw [List.map_append, List.map_singleton, fills_concat]
      exact moved.filled small (run.always spread fun _ _ _ spread rounds => rounds.spread spread) ih

/-- In every run, with requests that fail, a realm that is finished after for each of its fill
entries there was a chunk that is still there has in its frames what the entries say. -/
theorem run_integrity {builder : AllocatorBuilder} (wellFormed : builder.WellFormed)
    {root : RelativeCPtr} {guardValue guardSize : UInt64} {radix : Nat}
    (isNew : CRegion.new root guardValue guardSize radix = some builder.cregion)
    {allocator : Allocator} (isBuilt : builder.build = some allocator) (kernel : K)
    (externs : Externs) (frames : Frames) {cnode : CPtr} {nodeLocal : List NodeLocal} {eventServer : E}
    {taken : List (ResourceServer K E × Round)}
    (run : Recorded (Rounds services) (ResourceServer.new services
      ⟨⟨allocator, kernel⟩, externs, frames⟩ cnode nodeLocal eventServer) taken server)
    {nodeIndex : Nat} {realmId : RealmId} {final : ResourceServer K E}
    (finished : Step services (.request nodeIndex (.realizeFinish realmId)) server final) :
    ∃ subsystem, server.partialRealms[realmId]? = some subsystem ∧
      (Complete (fills (taken.map Prod.snd) realmId) subsystem →
        final.Intact services.platform.sha256 subsystem) := by
  have small : ∀ slot, allocator.cregion.Free slot → slot < 2 ^ (allocator.cregion.radix % 64) := by
    rw [AllocatorBuilder.build_cregion isBuilt]
    exact fun slot => CRegion.new_small isNew
  have spread := @new_isSpread _ _ services _ wellFormed _ isBuilt kernel externs frames cnode
    nodeLocal eventServer
  have filled := run_filled small spread
    (fun id subsystem isPartial => by simp [ResourceServer.new] at isPartial) run
  cases finished with
  | dispatch finishRun =>
      obtain ⟨subsystem, isPartial, areFrames, isStorage⟩ :=
        ResourceServer.realizeFinish_storage finishRun
      simp only [ResourceServer.storage, Prod.mk.injEq] at isStorage
      refine ⟨subsystem, isPartial, fun complete i fill isFill entry isEntry => ?_⟩
      obtain ⟨frame, isFrame⟩ := areFrames i (Model.isLocal_of_fillAt isFill)
      obtain ⟨index, isIndex⟩ := List.mem_iff_getElem?.mp isEntry
      rw [isStorage.2]
      exact ⟨frame, isFrame, (filled realmId subsystem isPartial).of_lasts isFill isIndex isFrame
        (complete i fill isFill index entry isIndex)⟩

/-! ## A realm with one page -/

theorem exampleServerBuilder_isNew :
    CRegion.new ⟨1, ⟨2, 40⟩⟩ 0 2 5 = some exampleServerBuilder.cregion := rfl

/-- The digests of the contents that a page with one byte may have here. -/
def exampleSha256 (content : List UInt8) : List UInt8 :=
  if content = [0] then
    [0x6e, 0x34, 0x0b, 0x9c, 0xff, 0xb3, 0x7a, 0x98, 0x9c, 0xa5, 0x44, 0xe6, 0xbb, 0x78, 0x0a, 0x2c,
     0x78, 0x90, 0x1d, 0x3f, 0xb3, 0x37, 0x38, 0x76, 0x85, 0x11, 0xa3, 0x06, 0x17, 0xaf, 0xa0, 0x1d]
  else if content = [1] then
    [0x4b, 0xf5, 0x12, 0x2f, 0x34, 0x45, 0x54, 0xc5, 0x3b, 0xde, 0x2e, 0xbb, 0x8c, 0xd2, 0xb7, 0xe3,
     0xd1, 0x60, 0x0a, 0xd6, 0x31, 0xc3, 0x85, 0xa5, 0xd7, 0xcc, 0xe2, 0x3c, 0x77, 0x85, 0x45, 0x9a]
  else []

/-- The first byte is to be 1. -/
def fillModel : Model :=
  ⟨1, [⟨.localObj (.smallPage [⟨0, 1, exampleSha256 [1]⟩]), "ram"⟩]⟩

/-- The model as `postcard` encodes it. -/
def fillSpec : List UInt8 :=
  [1, 0, 0, 0, 0, 0, 0, 0, 1, 0, 6, 1] ++ List.replicate 8 0 ++ [1, 0, 0, 0, 0, 0, 0, 0, 0] ++
    List.replicate 8 0 ++ 32 :: exampleSha256 [1] ++ [3, 0x72, 0x61, 0x6d]

def fillServices : Services Unit Unit :=
  { exampleServices with
    platform := { Realms.examplePlatform with sha256 := exampleSha256 }
    decodeModel := fun raw => if raw = fillSpec then some fillModel else none }

def fillServer (allocator : Allocator) : ResourceServer Unit Unit :=
  ResourceServer.new fillServices ⟨⟨allocator, ()⟩, ∅, fun _ _ => 0⟩ 5 [⟨6⟩, ⟨7⟩] ()

theorem fillServer_run (rounds : List Round)
    (check : List (ResourceServer Unit Unit × Round) × ResourceServer Unit Unit → Bool)
    (evaluates : (exampleServerBuilder.build.bind fun allocator =>
      Recorded.record (Round.serve fillServices) rounds (fillServer allocator)).any check = true) :
    ∃ allocator taken server, exampleServerBuilder.build = some allocator ∧
      Recorded (Rounds fillServices) (fillServer allocator) taken server ∧
      taken.map Prod.snd = rounds ∧ check (taken, server) = true :=
  serves_run Round.serve_rounds rounds check evaluates

/-- The realm is started, -/
def exampleStarted : List Round :=
  [.answered (.request 0 (.declare 0 74)), .answered (.request 0 (.specChunk 0 0 fillSpec)),
    .answered (.request 0 (.realizeStart 0))]

/-- and its page is filled, first with something that is refused. -/
def exampleFilled : List Round :=
  exampleStarted ++ [.failed 0 (.fillChunks 0 [⟨0, 0, [2]⟩]) [⟨⟨0, 0, [2]⟩, false⟩],
    .answered (.request 1 (.fillChunks 0 [⟨0, 0, [1]⟩]))]

def isFillModel (subsystem : PartialSubsystem) : Bool :=
  decide (subsystem.model.objects.length = 1 ∧
    subsystem.model.fillAt 0 = some [⟨0, 1, exampleSha256 [1]⟩])

theorem exampleFilled_complete {subsystem : PartialSubsystem} (isModel : isFillModel subsystem = true) :
    Complete (fills exampleFilled 0) subsystem := by
  obtain ⟨one, isFill⟩ := of_decide_eq_true isModel
  intro i fill isOther index entry isEntry
  obtain ⟨obj, isObject⟩ := Model.isLocal_of_fillAt isOther
  obtain ⟨top, isTop, _⟩ := Option.map_eq_some_iff.mp isObject
  have inside := (List.getElem?_eq_some_iff.mp isTop).1
  obtain rfl : i = 0 := Nat.lt_one_iff.mp (one ▸ inside)
  obtain rfl := Option.some.inj (isFill.symm.trans isOther)
  obtain ⟨isFirst, rfl⟩ := List.getElem?_eq_some_iff.mp isEntry
  obtain rfl : index = 0 := by simpa using isFirst
  exact ⟨[⟨⟨0, 0, [2]⟩, false⟩], ⟨0, 0, [1]⟩, [], rfl, rfl, rfl, rfl, by simp [writesTo]⟩

theorem run_integrity_exampleFilled : ∃ allocator taken server final subsystem,
    exampleServerBuilder.build = some allocator ∧
      Recorded (Rounds fillServices) (fillServer allocator) taken server ∧
      taken.map Prod.snd = exampleFilled ∧
      Step fillServices (.request 1 (.realizeFinish 0)) server final ∧
      server.partialRealms[0]? = some subsystem ∧ final.Intact exampleSha256 subsystem := by
  obtain ⟨allocator, taken, server, isBuilt, run, events, checked⟩ := fillServer_run exampleFilled
    (fun run => (run.2.partialRealms[0]?).any isFillModel &&
      (ResourceServer.dispatch fillServices 1 (.realizeFinish 0) run.2).isOk) (by decide +kernel)
  obtain ⟨isModel, isOk⟩ := Bool.and_eq_true_iff.mp checked
  obtain ⟨⟨⟩, final, finishRun⟩ := Outcome.isOk_iff.mp isOk
  obtain ⟨subsystem, isPartial, intact⟩ := run_integrity exampleServerBuilder_wellFormed
    exampleServerBuilder_isNew isBuilt () ∅ (fun _ _ => 0) run (.dispatch finishRun)
  rw [isPartial, Option.any_some] at isModel
  rw [events] at intact
  exact ⟨allocator, taken, server, final, subsystem, isBuilt, run, events, .dispatch finishRun,
    isPartial, intact (exampleFilled_complete isModel)⟩

/-- What is refused is in the page all the same. -/
example : (exampleServerBuilder.build.bind fun allocator =>
    Recorded.record (Round.serve fillServices)
      (exampleFilled ++ [.failed 0 (.fillChunks 0 [⟨0, 0, [2]⟩]) [⟨⟨0, 0, [2]⟩, false⟩]])
      (fillServer allocator)).any (fun run =>
        (run.2.partialRealms[0]?).any fun subsystem => (subsystem.frame 0).any fun frame =>
          run.2.realizer.frames frame 0 == 2) = true := by
  decide +kernel

/-- The realm is finished without the content of its page: the first byte is still 0. -/
theorem unfilled_not_intact : ∃ allocator taken server final subsystem,
    exampleServerBuilder.build = some allocator ∧
      Recorded (Rounds fillServices) (fillServer allocator) taken server ∧
      taken.map Prod.snd = exampleStarted ∧
      Step fillServices (.request 0 (.realizeFinish 0)) server final ∧
      server.partialRealms[0]? = some subsystem ∧ ¬ final.Intact exampleSha256 subsystem := by
  obtain ⟨allocator, taken, server, isBuilt, run, events, checked⟩ := fillServer_run exampleStarted
    (fun run => (run.2.partialRealms[0]?).any fun subsystem => isFillModel subsystem &&
      ((ResourceServer.dispatch fillServices 0 (.realizeFinish 0) run.2).returned).any fun final =>
        (subsystem.frame 0).all fun frame => final.realizer.frames frame 0 == 0)
    (by decide +kernel)
  obtain ⟨subsystem, isPartial, checked⟩ := (Option.any_eq_true _ _).mp checked
  obtain ⟨isModel, checked⟩ := Bool.and_eq_true_iff.mp checked
  obtain ⟨final, isFinal, isZero⟩ := (Option.any_eq_true _ _).mp checked
  obtain ⟨⟨⟩, finishRun⟩ := Outcome.returned_eq_some.mp isFinal
  refine ⟨allocator, taken, server, final, subsystem, isBuilt, run, events, .dispatch finishRun,
    isPartial, fun intact => ?_⟩
  obtain ⟨frame, isFrame, digest⟩ := intact 0 _ (of_decide_eq_true isModel).2 _
    List.mem_cons_self
  rw [isFrame, Option.all_some, beq_iff_eq] at isZero
  have isWindow : window (final.realizer.frames frame) 0 1 = [0] := by simp [window, isZero]
  rw [isWindow] at digest
  exact absurd digest (by decide)

end IceCap.Resources
