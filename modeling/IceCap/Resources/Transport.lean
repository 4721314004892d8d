import Mathlib.Algebra.Group.Nat.Defs
import IceCap.Library.Packing
import IceCap.Resources.Server

/-!
# Sending a realm to the resource server

`Host::create_realm` of the host's tool and the byte-level side of the resource
server's handlers.  The tool is given a model followed by the contents of its
frames.  It sends the model in chunks, and the contents each behind a header,
as many of them in a message as fit.

The host writes a message to a device, and from there it gets into the bulk
region, at the start.  Device and region are another program's: `Device` tells
which operations on the device fail, and `Driver` what a write does to the
region.  `take_from_bytes` and `to_allocvec` are those of `postcard`.
-/

set_option autoImplicit false

namespace IceCap.Resources

open IceCap.Library IceCap.Sel4 IceCap.Dyndl

structure FillChunkHeader where
  objectIndex : Nat
  fillEntryIndex : Nat
  size : Nat
  deriving DecidableEq, Repr

/-- The fields are of type `usize`. -/
def FillChunkHeader.Fits (header : FillChunkHeader) : Prop :=
  header.objectIndex < 2 ^ 64 ∧ header.fillEntryIndex < 2 ^ 64 ∧ header.size < 2 ^ 64

structure HeaderCodec where
  toAllocvec : FillChunkHeader → List UInt8
  takeFromBytes : List UInt8 → Option (FillChunkHeader × List UInt8)

/-- A header is taken off the bytes it is in front of. -/
def HeaderCodec.Lawful (codec : HeaderCodec) : Prop :=
  ∀ header : FillChunkHeader, header.Fits → ∀ rest,
    codec.takeFromBytes (codec.toAllocvec header ++ rest) = some (header, rest)

/-- The requests of the host as they are sent. -/
inductive WireRequest where
  | declare (realmId : RealmId) (specSize : Nat)
  | specChunk (realmId : RealmId) (bulkDataOffset bulkDataSize offset : Nat)
  | fillChunks (realmId : RealmId) (bulkDataOffset bulkDataSize : Nat)
  | realizeStart (realmId : RealmId)
  | realizeFinish (realmId : RealmId)
  deriving DecidableEq, Repr

inductive HostAction where
  | send (bytes : List UInt8)
  | syscall (request : WireRequest)
  deriving DecidableEq, Repr

/-- The error of the next operation on the device, after what was done so far. -/
abbrev Device := List HostAction → Option String

def syscall (request : WireRequest) : Exec String (List HostAction) Unit :=
  Exec.modify fun actions => actions ++ [.syscall request]

/-! ## The host -/

namespace BulkTransport

variable (device : Device)

def open_ : Exec String (List HostAction) Unit := fun actions =>
  match device actions with
  | none => .ok () actions
  | some error => .err error actions

def send (bytes : List UInt8) : Exec String (List HostAction) Unit := fun actions =>
  match device actions with
  | none => .ok () (actions ++ [.send bytes])
  | some error => .err error actions

/-- `spec.chunks(chunk_size)`. -/
def chunks (chunkSize : Nat) (bytes : List UInt8) : List (List UInt8) :=
  (List.range ((bytes.length + chunkSize - 1) / chunkSize)).map fun i =>
    (bytes.drop (i * chunkSize)).take chunkSize

/-- A chunk size of zero panics. -/
def sendSpec (realmId : RealmId) (spec : List UInt8) (chunkSize : Nat) :
    Exec String (List HostAction) Unit := do
  Exec.assert (chunkSize ≠ 0)
  Exec.forEach (chunks chunkSize spec).zipIdx fun chunk => do
    let offset := chunk.2 * chunkSize
    send device chunk.1
    syscall (.specChunk realmId 0 chunk.1.length offset)

def sendFill (realmId : RealmId) (content : List UInt8) : Exec String (List HostAction) Unit := do
  send device content
  syscall (.fillChunks realmId 0 content.length)

end BulkTransport

namespace Host

variable (codec : HeaderCodec) (device : Device) (realmId : RealmId) (chunkSize : Nat)
  (fillContent : List UInt8)

def fillOf : AnyObj → Option Fill
  | .localObj (.smallPage fill) => some fill
  | .localObj (.largePage fill) => some fill
  | _ => none

/-- The body of the loop over the entries of a fill, from `acc` and `offset`. -/
def accumulate (objectIndex : Nat) (acc : List UInt8 × Nat) (entry : FillEntry × Nat) :
    Exec String (List HostAction) (List UInt8 × Nat) := do
  Exec.assert (acc.2 + entry.1.length ≤ fillContent.length)
  let content := (fillContent.drop acc.2).take entry.1.length
  let header := codec.toAllocvec ⟨objectIndex, entry.2, content.length⟩
  let size := header.length + content.length
  let kept ← if acc.1.length + size > chunkSize then do
      BulkTransport.sendFill device realmId acc.1
      pure []
    else pure acc.1
  pure (kept ++ header ++ content, acc.2 + entry.1.length)

def createRealm (takeModel : List UInt8 → Option (Model × List UInt8)) (spec : List UInt8) :
    Exec String (List HostAction) Unit := do
  let (model, fillContent) ← Exec.unwrap (takeModel spec)
  let modelSize := spec.length - fillContent.length
  syscall (.declare realmId modelSize)
  BulkTransport.open_ device
  BulkTransport.sendSpec device realmId (spec.take modelSize) chunkSize
  syscall (.realizeStart realmId)
  let acc ← Exec.foldEach model.objects.zipIdx ([], 0) fun acc object =>
    match fillOf object.1.object with
    | none => pure acc
    | some fill => Exec.foldEach fill.zipIdx acc
        (accumulate codec device realmId chunkSize fillContent object.2)
  Exec.assert (acc.1.length ≤ chunkSize)
  BulkTransport.sendFill device realmId acc.1
  syscall (.realizeFinish realmId)

end Host

/-! ## The resource server -/

/-- What a write to the device makes of the bulk region. -/
abbrev Driver := List UInt8 → List UInt8 → List UInt8

/-- Bytes that fit are written to the start of the region. -/
def Driver.Lawful (driver : Driver) : Prop :=
  ∀ bytes region, bytes.length ≤ region.length →
    (driver bytes region).length = region.length ∧ (driver bytes region).take bytes.length = bytes

namespace ResourceServer

variable {K E : Type} (services : Services K E) (codec : HeaderCodec) (nodeIndex : Nat)

/-- The loop over the content of a message.  A header has at least one byte, so there are no more
rounds than bytes. -/
def continueEach (realmId : RealmId) : Nat → List UInt8 → Exec Failure (ResourceServer K E) Unit
  | _, [] => pure ()
  | 0, _ :: _ => Exec.panic
  | rounds + 1, aggregateContent => do
      let (header, rest) ← Exec.unwrap (codec.takeFromBytes aggregateContent)
      Exec.assert (header.size ≤ rest.length)
      realizeContinue services realmId header.objectIndex header.fillEntryIndex
        (rest.take header.size)
      continueEach realmId rounds (rest.drop header.size)

/-- A request of the host, with the bulk region as it is then. -/
def receive (bulkRegion : List UInt8) : WireRequest → Exec Failure (ResourceServer K E) Unit
  | .declare realmId specSize => dispatch services nodeIndex (.declare realmId specSize)
  | .specChunk realmId bulkDataOffset bulkDataSize offset => do
      Exec.assert (bulkDataOffset + bulkDataSize ≤ bulkRegion.length)
      dispatch services nodeIndex
        (.specChunk realmId offset ((bulkRegion.drop bulkDataOffset).take bulkDataSize))
  | .fillChunks realmId bulkDataOffset bulkDataSize => do
      Exec.assert (bulkDataOffset + bulkDataSize ≤ bulkRegion.length)
      let aggregateContent := (bulkRegion.drop bulkDataOffset).take bulkDataSize
      continueEach services codec realmId aggregateContent.length aggregateContent
  | .realizeStart realmId => dispatch services nodeIndex (.realizeStart realmId)
  | .realizeFinish realmId => dispatch services nodeIndex (.realizeFinish realmId)

/-- The server is fed what the host has done. -/
def feed (driver : Driver) : List HostAction → List UInt8 → Exec Failure (ResourceServer K E) Unit
  | [], _ => pure ()
  | .send bytes :: actions, bulkRegion => feed driver actions (driver bytes bulkRegion)
  | .syscall request :: actions, bulkRegion => do
      receive services codec nodeIndex bulkRegion request
      feed driver actions bulkRegion

end ResourceServer

/-! ## What the host sends -/

/-- The entries of all fills, each with the index of its object and its own. -/
def fillEntries (model : Model) : List (Nat × FillEntry × Nat) :=
  model.objects.zipIdx.flatMap fun object =>
    match Host.fillOf object.1.object with
    | none => []
    | some fill => fill.zipIdx.map fun entry => (object.2, entry)

def fillSize (entries : List (Nat × FillEntry × Nat)) : Nat :=
  (entries.map fun entry => entry.2.1.length).sum

/-- The contents of the entries, one after the other. -/
def fillChunks : List (Nat × FillEntry × Nat) → List UInt8 → List FillChunk
  | [], _ => []
  | (objectIndex, entry, fillEntryIndex) :: entries, content =>
      ⟨objectIndex, fillEntryIndex, content.take entry.length⟩ ::
        fillChunks entries (content.drop entry.length)

/-- What the host is given: a model and the contents of its frames behind it.  The numbers of
objects, of entries and of bytes are of type `usize`. -/
structure Given (takeModel : List UInt8 → Option (Model × List UInt8)) (modelBytes : List UInt8)
    (model : Model) (fillContent : List UInt8) : Prop where
  taken : takeModel (modelBytes ++ fillContent) = some (model, fillContent)
  whole : fillContent.length = fillSize (fillEntries model)
  objects : model.objects.length < 2 ^ 64
  fills : ∀ object ∈ model.objects, ∀ fill, Host.fillOf object.object = some fill →
    fill.length < 2 ^ 64
  bytes : (modelBytes ++ fillContent).length < 2 ^ 64

section Encoding
variable (codec : HeaderCodec)

def headerOf (chunk : FillChunk) : FillChunkHeader :=
  ⟨chunk.objectIndex, chunk.fillEntryIndex, chunk.content.length⟩

def encodeChunk (chunk : FillChunk) : List UInt8 :=
  codec.toAllocvec (headerOf chunk) ++ chunk.content

def encodeChunks (chunks : List FillChunk) : List UInt8 := chunks.flatMap (encodeChunk codec)

def encodedSize (chunk : FillChunk) : Nat := (encodeChunk codec chunk).length

theorem encodeChunks_length (chunks : List FillChunk) :
    (encodeChunks codec chunks).length = (chunks.map (encodedSize codec)).sum := by
  rw [encodeChunks, List.length_flatMap]
  rfl

theorem encodeChunks_nil : encodeChunks codec [] = [] := rfl

theorem encodeChunks_append (first second : List FillChunk) :
    encodeChunks codec (first ++ second) = encodeChunks codec first ++ encodeChunks codec second :=
  List.flatMap_append

theorem encodeChunks_singleton (chunk : FillChunk) :
    encodeChunks codec [chunk] = encodeChunk codec chunk := List.append_nil _

end Encoding

def specMessage (realmId : RealmId) (chunkSize : Nat) (chunk : List UInt8 × Nat) :
    List HostAction :=
  [.send chunk.1, .syscall (.specChunk realmId 0 chunk.1.length (chunk.2 * chunkSize))]

def fillMessage (realmId : RealmId) (content : List UInt8) : List HostAction :=
  [.send content, .syscall (.fillChunks realmId 0 content.length)]

section Sending
variable {codec : HeaderCodec} {device : Device} {realmId : RealmId} {chunkSize : Nat}
  {fillContent : List UInt8} {actions : List HostAction}

theorem syscall_eq (request : WireRequest) :
    syscall request actions = .ok () (actions ++ [.syscall request]) := rfl

/-- No operation on the device fails. -/
def Device.Works (device : Device) : Prop := ∀ actions, device actions = none

theorem send_eq (works : device.Works) (bytes : List UInt8) :
    BulkTransport.send device bytes actions = .ok () (actions ++ [.send bytes]) := by
  simp [BulkTransport.send, works actions]

theorem sendFill_eq (works : device.Works) (content : List UInt8) :
    BulkTransport.sendFill device realmId content actions =
      .ok () (actions ++ fillMessage realmId content) := by
  rw [BulkTransport.sendFill, Exec.bind_of_ok (send_eq works content), syscall_eq,
    List.append_assoc]
  rfl

theorem sendSpec_eq (works : device.Works) (positive : chunkSize ≠ 0) (spec : List UInt8) :
    BulkTransport.sendSpec device realmId spec chunkSize actions =
      .ok () (actions ++ (BulkTransport.chunks chunkSize spec).zipIdx.flatMap
        (specMessage realmId chunkSize)) := by
  have sends : ∀ (chunks : List (List UInt8 × Nat)) (actions : List HostAction),
      Exec.forEach chunks (fun chunk => do
        BulkTransport.send device chunk.1
        syscall (.specChunk realmId 0 chunk.1.length (chunk.2 * chunkSize))) actions =
      .ok () (actions ++ chunks.flatMap (specMessage realmId chunkSize)) := by
    intro chunks
    induction chunks with
    | nil =>
        intro actions
        rw [List.flatMap_nil, List.append_nil]
        rfl
    | cons chunk chunks ih =>
        intro actions
        rw [Exec.forEach_cons, Exec.bind_assoc, Exec.bind_of_ok (send_eq works chunk.1),
          Exec.bind_of_ok (syscall_eq _), ih, List.flatMap_cons, List.append_assoc,
          List.append_assoc]
        rfl
  rw [BulkTransport.sendSpec, Exec.assert_bind positive]
  exact sends _ actions

/-- An entry whose content is there. -/
def chunkOf (objectIndex : Nat) (entry : FillEntry × Nat) (content : List UInt8) : FillChunk :=
  ⟨objectIndex, entry.2, content.take entry.1.length⟩

theorem accumulate_eq (works : device.Works) (objectIndex : Nat) {offset : Nat}
    {entry : FillEntry × Nat} (packet : List FillChunk)
    (within : offset + entry.1.length ≤ fillContent.length) {chunk : FillChunk}
    (isChunk : chunk = chunkOf objectIndex entry (fillContent.drop offset)) :
    Host.accumulate codec device realmId chunkSize fillContent objectIndex
      (encodeChunks codec packet, offset) entry actions =
    if chunkSize < (packet.map (encodedSize codec)).sum + encodedSize codec chunk then
      .ok (encodeChunks codec [chunk], offset + entry.1.length)
        (actions ++ fillMessage realmId (encodeChunks codec packet))
    else .ok (encodeChunks codec (packet ++ [chunk]), offset + entry.1.length) actions := by
  rw [Host.accumulate, Exec.assert_bind within, ← encodeChunks_length, encodeChunks_append,
    encodeChunks_singleton, isChunk]
  simp only [encodedSize, encodeChunk, headerOf, chunkOf, List.length_append]
  split_ifs with full
  · rw [Exec.bind_of_ok (sendFill_eq works _)]
    rfl
  · rw [← List.append_assoc]
    rfl

theorem chunks_bounded {modelBytes : List UInt8} :
    ∀ chunk ∈ (BulkTransport.chunks chunkSize modelBytes).zipIdx, chunk.1.length ≤ chunkSize := by
  intro chunk isChunk
  obtain ⟨index, _, slice⟩ := List.mem_map.mp (List.fst_mem_of_mem_zipIdx isChunk)
  rw [← slice]
  exact List.length_take_le _ _

/-- The chunks of the messages that the loop sends, and those that are left over for the last
one. -/
def packets (codec : HeaderCodec) (chunkSize : Nat) (packet chunks : List FillChunk) :
    List (List FillChunk) × List FillChunk :=
  pack chunkSize (encodedSize codec) packet chunks

def fillMessages (codec : HeaderCodec) (realmId : RealmId) (groups : List (List FillChunk)) :
    List HostAction :=
  groups.flatMap fun group => fillMessage realmId (encodeChunks codec group)

theorem accumulateEach_eq (works : device.Works) {entries : List (Nat × FillEntry × Nat)}
    {offset : Nat} {packet : List FillChunk}
    (within : offset + fillSize entries ≤ fillContent.length) :
    Exec.foldEach entries (encodeChunks codec packet, offset)
      (fun acc entry =>
        Host.accumulate codec device realmId chunkSize fillContent entry.1 acc entry.2) actions =
    .ok (encodeChunks codec
        (packets codec chunkSize packet (fillChunks entries (fillContent.drop offset))).2,
      offset + fillSize entries) (actions ++ fillMessages codec realmId
        (packets codec chunkSize packet (fillChunks entries (fillContent.drop offset))).1) := by
  induction entries generalizing packet offset actions with
  | nil => simp [packets, fillChunks, pack_nil, fillSize, fillMessages]
  | cons entry entries ih =>
      have size : fillSize (entry :: entries) = entry.2.1.length + fillSize entries := by
        simp [fillSize]
      rw [size, ← Nat.add_assoc] at within
      have chunks : fillChunks (entry :: entries) (fillContent.drop offset) =
          chunkOf entry.1 entry.2 (fillContent.drop offset) ::
            fillChunks entries (fillContent.drop (offset + entry.2.1.length)) := by
        rw [← List.drop_drop]
        rfl
      have entryWithin := Nat.le_of_add_right_le within
      rw [Exec.foldEach_cons, chunks, size, ← Nat.add_assoc]
      by_cases fits : (packet.map (encodedSize codec)).sum +
          encodedSize codec (chunkOf entry.1 entry.2 (fillContent.drop offset)) ≤ chunkSize
      · rw [Exec.bind_of_ok ((accumulate_eq works entry.1 packet entryWithin rfl).trans
          (if_neg (Nat.not_lt.mpr fits))), ih within, packets, packets, pack_fits fits]
      · have full := Nat.lt_of_not_le fits
        rw [Exec.bind_of_ok ((accumulate_eq works entry.1 packet entryWithin rfl).trans
          (if_pos full)), ih within, packets, packets, pack_full full, List.append_assoc]
        rfl

/-- The loops over the objects and over their fills are one loop over the entries. -/
theorem foldEach_fillEntries {model : Model} :
    (Exec.foldEach model.objects.zipIdx ([], 0) fun acc object =>
      match Host.fillOf object.1.object with
      | none => pure acc
      | some fill => Exec.foldEach fill.zipIdx acc
          (Host.accumulate codec device realmId chunkSize fillContent object.2)) =
    Exec.foldEach (fillEntries model) ([], 0) fun acc entry =>
      Host.accumulate codec device realmId chunkSize fillContent entry.1 acc entry.2 := by
  rw [fillEntries, Exec.foldEach_flatMap]
  congr 1
  funext acc object
  cases Host.fillOf object.1.object with
  | none => rfl
  | some fill =>
      dsimp only
      rw [Exec.foldEach_map]

/-- The messages in which the chunks are sent. -/
def groupsOf (codec : HeaderCodec) (chunkSize : Nat) (chunks : List FillChunk) :
    List (List FillChunk) :=
  (packets codec chunkSize [] chunks).1 ++ [(packets codec chunkSize [] chunks).2]

theorem groupsOf_flatten {chunks : List FillChunk} :
    (groupsOf codec chunkSize chunks).flatten = chunks := by
  rw [groupsOf, List.flatten_append, List.flatten_singleton]
  exact pack_flatten

theorem groupsOf_bounded {chunks : List FillChunk}
    (each : ∀ chunk ∈ chunks, encodedSize codec chunk ≤ chunkSize) :
    ∀ group ∈ groupsOf codec chunkSize chunks, (encodeChunks codec group).length ≤ chunkSize := by
  obtain ⟨closedBounded, lastBounded⟩ :=
    @pack_bounded _ chunkSize (encodedSize codec) [] chunks (Nat.zero_le _) each
  intro group isGroup
  rw [encodeChunks_length]
  cases List.mem_append.mp isGroup with
  | inl isClosed => exact closedBounded group isClosed
  | inr isLast =>
      rw [List.mem_singleton.mp isLast]
      exact lastBounded

/-- Everything that the host does, in its order. -/
def transmission (codec : HeaderCodec) (realmId : RealmId) (chunkSize : Nat)
    (modelBytes : List UInt8) (chunks : List FillChunk) : List HostAction :=
  [.syscall (.declare realmId modelBytes.length)] ++
    (BulkTransport.chunks chunkSize modelBytes).zipIdx.flatMap (specMessage realmId chunkSize) ++
    [.syscall (.realizeStart realmId)] ++
    fillMessages codec realmId (groupsOf codec chunkSize chunks) ++
    [.syscall (.realizeFinish realmId)]

theorem transmission_bounded {modelBytes bytes : List UInt8} {chunks : List FillChunk}
    (each : ∀ chunk ∈ chunks, encodedSize codec chunk ≤ chunkSize)
    (isSent : .send bytes ∈ transmission codec realmId chunkSize modelBytes chunks) :
    bytes.length ≤ chunkSize := by
  simp only [transmission, fillMessages, specMessage, fillMessage, List.mem_append,
    List.mem_flatMap, List.mem_cons, List.not_mem_nil, HostAction.send.injEq, reduceCtorEq,
    or_false, false_or] at isSent
  obtain ⟨chunk, isChunk, rfl⟩ | ⟨group, isGroup, rfl⟩ := isSent
  · exact chunks_bounded chunk isChunk
  · exact groupsOf_bounded each group isGroup

theorem createRealm_eq (works : device.Works) (positive : chunkSize ≠ 0)
    {takeModel : List UInt8 → Option (Model × List UInt8)} {modelBytes : List UInt8}
    {model : Model} (given : Given takeModel modelBytes model fillContent)
    (each : ∀ chunk ∈ fillChunks (fillEntries model) fillContent,
      encodedSize codec chunk ≤ chunkSize) :
    Host.createRealm codec device realmId chunkSize takeModel (modelBytes ++ fillContent) [] =
      .ok () (transmission codec realmId chunkSize modelBytes
        (fillChunks (fillEntries model) fillContent)) := by
  have modelSize : (modelBytes ++ fillContent).length - fillContent.length = modelBytes.length := by
    rw [List.length_append, Nat.add_sub_cancel]
  have opens : ∀ actions, BulkTransport.open_ device actions = .ok () actions := by
    intro actions
    simp [BulkTransport.open_, works actions]
  have within : 0 + fillSize (fillEntries model) ≤ fillContent.length := by
    rw [given.whole, Nat.zero_add]
  have lastFits := groupsOf_bounded each _ (List.mem_append_right _ (List.mem_singleton_self _))
  rw [Host.createRealm, Exec.unwrap_bind given.taken]
  simp only [modelSize, List.take_left', foldEach_fillEntries]
  rw [Exec.bind_of_ok (syscall_eq _), Exec.bind_of_ok (opens _),
    Exec.bind_of_ok (sendSpec_eq works positive _), Exec.bind_of_ok (syscall_eq _),
    ← encodeChunks_nil codec, Exec.bind_of_ok (accumulateEach_eq works within), List.drop_zero,
    Exec.assert_bind lastFits, Exec.bind_of_ok (sendFill_eq works _), syscall_eq]
  simp [transmission, groupsOf, fillMessages]

end Sending

theorem mem_fillChunks {entries : List (Nat × FillEntry × Nat)} {content : List UInt8}
    {chunk : FillChunk} (isChunk : chunk ∈ fillChunks entries content) :
    chunk.content.length ≤ content.length ∧ ∃ entry ∈ entries,
      chunk.objectIndex = entry.1 ∧ chunk.fillEntryIndex = entry.2.2 := by
  induction entries generalizing content with
  | nil => exact absurd isChunk List.not_mem_nil
  | cons entry entries ih =>
      cases List.mem_cons.mp isChunk with
      | inl isFirst =>
          rw [isFirst]
          exact ⟨List.length_take_le' _ _, entry, List.mem_cons_self, rfl, rfl⟩
      | inr isLater =>
          obtain ⟨shorter, found, isEntry, same⟩ := ih isLater
          rw [List.length_drop] at shorter
          exact ⟨by omega, found, List.mem_cons_of_mem _ isEntry, same⟩

theorem mem_fillEntries {model : Model} {entry : Nat × FillEntry × Nat}
    (isEntry : entry ∈ fillEntries model) : entry.1 < model.objects.length ∧
      ∃ object ∈ model.objects, ∃ fill, Host.fillOf object.object = some fill ∧
        entry.2.2 < fill.length := by
  obtain ⟨⟨object, index⟩, isObject, isEntry⟩ := List.mem_flatMap.mp isEntry
  obtain ⟨inRange, isAt⟩ := List.mem_zipIdx' isObject
  cases isFill : Host.fillOf object.object with
  | none => simp [isFill] at isEntry
  | some fill =>
      simp only [isFill] at isEntry
      obtain ⟨⟨found, place⟩, isFound, rfl⟩ := List.mem_map.mp isEntry
      exact ⟨inRange, object, isAt ▸ List.getElem_mem _, fill, isFill,
        (List.mem_zipIdx' isFound).1⟩

/-- All headers that the host makes. -/
theorem Given.headers_fit {takeModel : List UInt8 → Option (Model × List UInt8)}
    {modelBytes fillContent : List UInt8} {model : Model}
    (given : Given takeModel modelBytes model fillContent) :
    ∀ chunk ∈ fillChunks (fillEntries model) fillContent, (headerOf chunk).Fits := by
  intro chunk isChunk
  obtain ⟨shorter, entry, isEntry, sameObject, sameEntry⟩ := mem_fillChunks isChunk
  obtain ⟨objectInRange, object, isObject, fill, isFill, entryInRange⟩ := mem_fillEntries isEntry
  have size := given.bytes
  rw [List.length_append] at size
  refine ⟨?_, ?_, ?_⟩
  · exact sameObject.trans_lt (objectInRange.trans given.objects)
  · exact sameEntry.trans_lt (entryInRange.trans (given.fills object isObject fill isFill))
  · exact Nat.lt_of_le_of_lt shorter (by omega)

/-! ## What the server makes of it -/

section Receiving
variable {codec : HeaderCodec} {driver : Driver}

/-- No header is empty, or the bytes of another one would begin with it. -/
theorem HeaderCodec.Lawful.nonempty (lawful : codec.Lawful) {header : FillChunkHeader}
    (fits : header.Fits) : codec.toAllocvec header ≠ [] := by
  intro isEmpty
  let other : FillChunkHeader := { header with size := if header.size = 0 then 1 else 0 }
  have otherFits : other.Fits := ⟨fits.1, fits.2.1, by simp only [other]; split <;> decide⟩
  have taken := lawful header fits (codec.toAllocvec other)
  have otherTaken := lawful other otherFits []
  rw [isEmpty, List.nil_append] at taken
  rw [List.append_nil, taken] at otherTaken
  have same := congrArg FillChunkHeader.size (Prod.mk.inj (Option.some.inj otherTaken)).1
  simp only [other] at same
  split at same <;> omega

namespace ResourceServer

variable {K E : Type} {services : Services K E} {nodeIndex : Nat} {realmId : RealmId}

def continueWith (services : Services K E) (realmId : RealmId) (chunk : FillChunk) :
    Exec Failure (ResourceServer K E) Unit :=
  realizeContinue services realmId chunk.objectIndex chunk.fillEntryIndex chunk.content

theorem continueEach_succ {rounds : Nat} {aggregateContent : List UInt8}
    (nonempty : aggregateContent ≠ []) :
    continueEach services codec realmId (rounds + 1) aggregateContent = (do
      let (header, rest) ← Exec.unwrap (codec.takeFromBytes aggregateContent)
      Exec.assert (header.size ≤ rest.length)
      realizeContinue services realmId header.objectIndex header.fillEntryIndex
        (rest.take header.size)
      continueEach services codec realmId rounds (rest.drop header.size)) := by
  cases aggregateContent with
  | nil => exact absurd rfl nonempty
  | cons => rfl

theorem continueEach_eq (lawful : codec.Lawful) {chunks : List FillChunk} {rounds : Nat}
    (fits : ∀ chunk ∈ chunks, (headerOf chunk).Fits)
    (enough : (encodeChunks codec chunks).length ≤ rounds) :
    continueEach services codec realmId rounds (encodeChunks codec chunks) =
      Exec.forEach chunks (continueWith services realmId) := by
  induction chunks generalizing rounds with
  | nil => cases rounds <;> rfl
  | cons chunk chunks ih =>
      obtain ⟨chunkFits, fits⟩ := List.forall_mem_cons.mp fits
      have encoded : encodeChunks codec (chunk :: chunks) = codec.toAllocvec (headerOf chunk) ++
          (chunk.content ++ encodeChunks codec chunks) := List.append_assoc _ _ _
      have nonempty : encodeChunks codec (chunk :: chunks) ≠ [] := by
        rw [encoded]
        exact List.append_ne_nil_of_left_ne_nil (lawful.nonempty chunkFits) _
      have longer : (encodeChunks codec chunks).length <
          (encodeChunks codec (chunk :: chunks)).length := by
        have := List.length_pos_of_ne_nil (lawful.nonempty chunkFits)
        rw [encoded, List.length_append, List.length_append]
        omega
      cases rounds with
      | zero => exact absurd enough (by omega)
      | succ rounds =>
          have isContent : (headerOf chunk).size ≤
              (chunk.content ++ encodeChunks codec chunks).length := by simp [headerOf]
          rw [continueEach_succ nonempty, encoded, Exec.forEach_cons]
          funext server
          rw [Exec.unwrap_bind (lawful _ chunkFits _)]
          dsimp only
          rw [Exec.assert_bind isContent, headerOf, List.take_left, List.drop_left,
            ih fits (by omega)]
          rfl

theorem receive_specChunk {bulkRegion chunk : List UInt8} {offset : Nat}
    (fits : chunk.length ≤ bulkRegion.length) (isChunk : bulkRegion.take chunk.length = chunk) :
    receive services codec nodeIndex bulkRegion (.specChunk realmId 0 chunk.length offset) =
      dispatch services nodeIndex (.specChunk realmId offset chunk) := by
  funext server
  rw [receive, Exec.assert_bind (by omega), List.drop_zero, isChunk]

theorem receive_fillChunks (lawful : codec.Lawful) {bulkRegion : List UInt8}
    {chunks : List FillChunk} (headersFit : ∀ chunk ∈ chunks, (headerOf chunk).Fits)
    (fits : (encodeChunks codec chunks).length ≤ bulkRegion.length)
    (isContent : bulkRegion.take (encodeChunks codec chunks).length = encodeChunks codec chunks) :
    receive services codec nodeIndex bulkRegion
        (.fillChunks realmId 0 (encodeChunks codec chunks).length) =
      dispatch services nodeIndex (.fillChunks realmId chunks) := by
  funext server
  rw [receive, Exec.assert_bind (by omega), List.drop_zero, isContent,
    continueEach_eq lawful headersFit (Nat.le_refl _)]
  rfl

/-- A stretch of what the host does comes to the requests, whatever is in the region, and then the
rest of it. -/
def Delivers (services : Services K E) (codec : HeaderCodec) (nodeIndex : Nat) (driver : Driver)
    (regionSize : Nat) (actions : List HostAction) (requests : List Request) : Prop :=
  ∀ region : List UInt8, region.length = regionSize → ∃ after : List UInt8,
    after.length = regionSize ∧ ∀ rest,
      feed services codec nodeIndex driver (actions ++ rest) region =
        Exec.forEach requests (dispatch services nodeIndex) >>= fun _ =>
          feed services codec nodeIndex driver rest after

variable {regionSize : Nat}

theorem Delivers.append {first second : List HostAction} {firstRequests secondRequests :
    List Request} (firstDelivers : Delivers services codec nodeIndex driver regionSize first
      firstRequests)
    (secondDelivers : Delivers services codec nodeIndex driver regionSize second secondRequests) :
    Delivers services codec nodeIndex driver regionSize (first ++ second)
      (firstRequests ++ secondRequests) := by
  intro region isRegion
  obtain ⟨middle, isMiddle, firstFed⟩ := firstDelivers region isRegion
  obtain ⟨after, isAfter, secondFed⟩ := secondDelivers middle isMiddle
  refine ⟨after, isAfter, fun rest => ?_⟩
  rw [List.append_assoc, firstFed, secondFed, Exec.forEach_append, Exec.bind_assoc]

theorem Delivers.flatMap {Item : Type} {items : List Item} {actions : Item → List HostAction}
    {request : Item → Request} (each : ∀ item ∈ items,
      Delivers services codec nodeIndex driver regionSize (actions item) [request item]) :
    Delivers services codec nodeIndex driver regionSize (items.flatMap actions)
      (items.map request) := by
  induction items with
  | nil => exact fun region isRegion => ⟨region, isRegion, fun _ => rfl⟩
  | cons item items ih =>
      obtain ⟨first, others⟩ := List.forall_mem_cons.mp each
      exact first.append (ih others)

/-- A request that does not look at the region. -/
theorem Delivers.syscall {wire : WireRequest} {request : Request}
    (same : ∀ region, receive services codec nodeIndex region wire =
      dispatch services nodeIndex request) :
    Delivers services codec nodeIndex driver regionSize [.syscall wire] [request] := by
  intro region isRegion
  refine ⟨region, isRegion, fun rest => ?_⟩
  change (receive services codec nodeIndex region wire >>= fun _ => _) = _
  rw [same, Exec.forEach_cons, Exec.bind_assoc]
  rfl

/-- Bytes and a request that reads them from the region. -/
theorem Delivers.message (driverLawful : driver.Lawful) {bytes : List UInt8} {wire : WireRequest}
    {request : Request} (fits : bytes.length ≤ regionSize)
    (same : ∀ region : List UInt8, bytes.length ≤ region.length →
      region.take bytes.length = bytes →
      receive services codec nodeIndex region wire = dispatch services nodeIndex request) :
    Delivers services codec nodeIndex driver regionSize [.send bytes, .syscall wire] [request] := by
  intro region isRegion
  obtain ⟨sameLength, isThere⟩ := driverLawful bytes region (by omega)
  refine ⟨driver bytes region, by omega, fun rest => ?_⟩
  change (receive services codec nodeIndex (driver bytes region) wire >>= fun _ => _) = _
  rw [same _ (by omega) isThere, Exec.forEach_cons, Exec.bind_assoc]
  rfl

/-- The requests that the transmission comes to. -/
def requests (codec : HeaderCodec) (realmId : RealmId) (chunkSize : Nat) (modelBytes : List UInt8)
    (chunks : List FillChunk) : List Request :=
  [.declare realmId modelBytes.length] ++
    (BulkTransport.chunks chunkSize modelBytes).zipIdx.map
      (fun chunk => .specChunk realmId (chunk.2 * chunkSize) chunk.1) ++
    [.realizeStart realmId] ++
    (groupsOf codec chunkSize chunks).map (.fillChunks realmId) ++
    [.realizeFinish realmId]

theorem transmission_delivers (services : Services K E) (nodeIndex : Nat) (realmId : RealmId)
    (lawful : codec.Lawful) (driverLawful : driver.Lawful) {chunkSize : Nat}
    (small : chunkSize ≤ regionSize) (modelBytes : List UInt8)
    {chunks : List FillChunk} (headersFit : ∀ chunk ∈ chunks, (headerOf chunk).Fits)
    (each : ∀ chunk ∈ chunks, encodedSize codec chunk ≤ chunkSize) :
    Delivers services codec nodeIndex driver regionSize
      (transmission codec realmId chunkSize modelBytes chunks)
      (requests codec realmId chunkSize modelBytes chunks) := by
  have spec : Delivers services codec nodeIndex driver regionSize
      ((BulkTransport.chunks chunkSize modelBytes).zipIdx.flatMap (specMessage realmId chunkSize))
      ((BulkTransport.chunks chunkSize modelBytes).zipIdx.map fun chunk =>
        .specChunk realmId (chunk.2 * chunkSize) chunk.1) := by
    apply Delivers.flatMap
    intro chunk isChunk
    apply Delivers.message driverLawful ((chunks_bounded chunk isChunk).trans small)
    exact fun region fits isThere => receive_specChunk fits isThere
  have fill : Delivers services codec nodeIndex driver regionSize
      (fillMessages codec realmId (groupsOf codec chunkSize chunks))
      ((groupsOf codec chunkSize chunks).map (.fillChunks realmId)) := by
    apply Delivers.flatMap
    intro group isGroup
    apply Delivers.message driverLawful ((groupsOf_bounded each group isGroup).trans small)
    have groupFits : ∀ chunk ∈ group, (headerOf chunk).Fits := fun chunk isChunk =>
      headersFit chunk (by
        rw [← @groupsOf_flatten codec chunkSize chunks]
        exact List.mem_flatten_of_mem isGroup isChunk)
    exact fun region fits isThere => receive_fillChunks lawful groupFits fits isThere
  exact ((((Delivers.syscall fun _ => rfl).append spec).append (.syscall fun _ => rfl)).append
    fill).append (.syscall fun _ => rfl)

/-! ## The spec, chunk by chunk -/

/-- The bytes of a realm's spec are there, and all else is as before. -/
structure Rebuilt (before : ResourceServer K E) (realmId : RealmId) (spec : List UInt8)
    (after : ResourceServer K E) : Prop where
  spec : after.partialSpecs[realmId]? = some spec
  others : ∀ other ≠ realmId, after.partialSpecs[other]? = before.partialSpecs[other]?
  rest : { after with partialSpecs := before.partialSpecs } = before

variable {before server : ResourceServer K E} {spec modelBytes : List UInt8} {chunkSize : Nat}

def withSpec (realmId : RealmId) (spec : List UInt8) (server : ResourceServer K E) :
    ResourceServer K E :=
  { server with partialSpecs := server.partialSpecs.insert realmId spec }

theorem Rebuilt.start : Rebuilt before realmId spec (withSpec realmId spec before) where
  spec := Std.TreeMap.getElem?_insert_self
  others other isOther := by simp [withSpec, Std.TreeMap.getElem?_insert, isOther.symm]
  rest := rfl

theorem Rebuilt.overwrite {overwritten : List UInt8}
    (rebuilt : Rebuilt before realmId spec server) :
    Rebuilt before realmId overwritten (withSpec realmId overwritten server) where
  spec := Std.TreeMap.getElem?_insert_self
  others other isOther := by
    rw [← rebuilt.others other isOther]
    simp [withSpec, Std.TreeMap.getElem?_insert, isOther.symm]
  rest := rebuilt.rest

theorem declare_eq {specSize : Nat} (notPartial : realmId ∉ before.partialSpecs)
    (notRealm : realmId ∉ before.realms) :
    declare realmId specSize before =
      .ok () (withSpec realmId (List.replicate specSize 0) before) := by
  rw [declare, Exec.bind_of_ok (Exec.get_eq_ok.mpr ⟨rfl, rfl⟩), Exec.assert_bind notPartial,
    Exec.assert_bind notRealm]
  rfl

theorem incorporateSpecChunk_eq {offset : Nat} {chunk : List UInt8}
    (isSpec : server.partialSpecs[realmId]? = some spec)
    (fits : offset + chunk.length ≤ spec.length) :
    incorporateSpecChunk realmId offset chunk server =
      .ok () (withSpec realmId
        (spec.take offset ++ chunk ++ spec.drop (offset + chunk.length)) server) := by
  rw [incorporateSpecChunk, Exec.bind_of_ok (Exec.get_eq_ok.mpr ⟨rfl, rfl⟩),
    Exec.unwrap_bind isSpec, Exec.assert_bind fits]
  rfl

/-- What is there after so many chunks. -/
def written (chunkSize : Nat) (modelBytes : List UInt8) (count : Nat) : List UInt8 :=
  modelBytes.take (count * chunkSize) ++ List.replicate (modelBytes.length - count * chunkSize) 0

theorem written_length {count : Nat} :
    (written chunkSize modelBytes count).length = modelBytes.length := by
  rw [written, List.length_append, List.length_take, List.length_replicate]
  omega

theorem written_succ {count : Nat} (more : count * chunkSize ≤ modelBytes.length)
    {chunk : List UInt8} (isChunk : chunk = (modelBytes.drop (count * chunkSize)).take chunkSize) :
    (written chunkSize modelBytes count).take (count * chunkSize) ++ chunk ++
        (written chunkSize modelBytes count).drop (count * chunkSize + chunk.length) =
      written chunkSize modelBytes (count + 1) := by
  have front : (modelBytes.take (count * chunkSize)).length = count * chunkSize := by
    rw [List.length_take, Nat.min_eq_left more]
  have size : chunk.length = min chunkSize (modelBytes.length - count * chunkSize) := by
    rw [isChunk, List.length_take, List.length_drop]
  have left : modelBytes.length - count * chunkSize - chunk.length =
      modelBytes.length - (count * chunkSize + chunkSize) := by omega
  rw [written, written, List.take_left' front, ← List.drop_drop, List.drop_left' front,
    List.drop_replicate, left, Nat.add_one_mul, List.take_add, ← isChunk]

/-- The chunk with its index, as the host enumerates them. -/
theorem chunks_zipIdx : (BulkTransport.chunks chunkSize modelBytes).zipIdx =
    (List.range ((modelBytes.length + chunkSize - 1) / chunkSize)).map fun index =>
      ((modelBytes.drop (index * chunkSize)).take chunkSize, index) := by
  apply List.ext_getElem
  · simp [BulkTransport.chunks]
  · intro index _ _
    simp [BulkTransport.chunks]

theorem chunk_inside {index : Nat}
    (inRange : index < (modelBytes.length + chunkSize - 1) / chunkSize) :
    index * chunkSize < modelBytes.length := by
  have positive : 0 < chunkSize := by
    apply Nat.pos_of_ne_zero
    intro isZero
    simp [isZero] at inRange
  have := (Nat.le_div_iff_mul_le positive).mp inRange
  rw [Nat.succ_mul] at this
  omega

theorem written_all (positive : 0 < chunkSize) :
    written chunkSize modelBytes ((modelBytes.length + chunkSize - 1) / chunkSize) =
      modelBytes := by
  have covers : modelBytes.length ≤
      (modelBytes.length + chunkSize - 1) / chunkSize * chunkSize := by
    have := Nat.lt_div_mul_add (a := modelBytes.length + chunkSize - 1) positive
    omega
  rw [written, List.take_of_length_le covers, Nat.sub_eq_zero_of_le covers, List.replicate_zero,
    List.append_nil]

/-- After so many of the chunks. -/
theorem specChunks_rebuilt {count : Nat}
    (inRange : count ≤ (modelBytes.length + chunkSize - 1) / chunkSize)
    (rebuilt : Rebuilt before realmId (List.replicate modelBytes.length 0) server) :
    ∃ after, Rebuilt before realmId (written chunkSize modelBytes count) after ∧
      Exec.forEach (List.range count) (fun index => incorporateSpecChunk realmId
        (index * chunkSize) ((modelBytes.drop (index * chunkSize)).take chunkSize)) server =
        .ok () after := by
  induction count with
  | zero => exact ⟨server, by simpa [written] using rebuilt, rfl⟩
  | succ count ih =>
      obtain ⟨middle, rebuilt, run⟩ := ih (by omega)
      have inside := chunk_inside inRange
      have fits : count * chunkSize +
          ((modelBytes.drop (count * chunkSize)).take chunkSize).length ≤
          (written chunkSize modelBytes count).length := by
        rw [written_length, List.length_take, List.length_drop]
        omega
      have incorporated := incorporateSpecChunk_eq rebuilt.spec fits
      rw [written_succ inside.le rfl] at incorporated
      refine ⟨_, rebuilt.overwrite, ?_⟩
      rw [List.range_succ, Exec.forEach_append, Exec.bind_of_ok run, Exec.forEach_cons,
        Exec.bind_of_ok incorporated]
      rfl

/-- What is left to do once the spec is there. -/
def realizeRealm (services : Services K E) (nodeIndex : Nat) (realmId : RealmId)
    (chunks : List FillChunk) : Exec Failure (ResourceServer K E) Unit := do
  realizeStart services realmId
  Exec.forEach chunks fun chunk =>
    realizeContinue services realmId chunk.objectIndex chunk.fillEntryIndex chunk.content
  realizeFinish services nodeIndex realmId

theorem fillChunks_eq {chunks : List FillChunk} :
    Exec.forEach ((groupsOf codec chunkSize chunks).map (.fillChunks realmId))
        (dispatch services nodeIndex) =
      Exec.forEach chunks fun chunk => realizeContinue services realmId chunk.objectIndex
        chunk.fillEntryIndex chunk.content := by
  rw [Exec.forEach_map]
  exact Exec.forEach_flatten.symm.trans (by rw [groupsOf_flatten])

theorem requests_eq (services : Services K E) (codec : HeaderCodec) (nodeIndex : Nat)
    (positive : 0 < chunkSize) (chunks : List FillChunk)
    (notPartial : realmId ∉ before.partialSpecs) (notRealm : realmId ∉ before.realms) :
    ∃ declared, Rebuilt before realmId modelBytes declared ∧
      Exec.forEach (requests codec realmId chunkSize modelBytes chunks)
        (dispatch services nodeIndex) before =
        realizeRealm services nodeIndex realmId chunks declared := by
  obtain ⟨declared, rebuilt, specRun⟩ :=
    specChunks_rebuilt (Nat.le_refl _) (@Rebuilt.start _ _ realmId before
      (List.replicate modelBytes.length 0))
  rw [written_all positive] at rebuilt
  refine ⟨declared, rebuilt, ?_⟩
  rw [requests, Exec.forEach_append, Exec.forEach_append, Exec.forEach_append, Exec.forEach_append,
    Exec.forEach_singleton, Exec.forEach_singleton, Exec.forEach_singleton, fillChunks_eq,
    chunks_zipIdx, List.map_map, Exec.forEach_map, Exec.bind_assoc, Exec.bind_assoc, Exec.bind_assoc]
  exact (Exec.bind_of_ok (declare_eq notPartial notRealm)).trans (Exec.bind_of_ok specRun)

end ResourceServer

/-! ## From the host to the server -/

/-- Every message of the host fits, the spec is rebuilt, and then every entry is continued with its
own content, once and in its place. -/
theorem createRealm_transports (realmId : RealmId) {device : Device} (works : device.Works)
    (lawful : codec.Lawful) (driverLawful : driver.Lawful)
    {takeModel : List UInt8 → Option (Model × List UInt8)}
    {modelBytes fillContent bulkRegion : List UInt8} {model : Model} {chunkSize : Nat}
    (given : Given takeModel modelBytes model fillContent)
    (each : ∀ chunk ∈ fillChunks (fillEntries model) fillContent,
      encodedSize codec chunk ≤ chunkSize)
    (positive : 0 < chunkSize) (small : chunkSize ≤ bulkRegion.length) :
    ∃ actions, Host.createRealm codec device realmId chunkSize takeModel
        (modelBytes ++ fillContent) [] = .ok () actions ∧
      (∀ bytes, .send bytes ∈ actions → bytes.length ≤ chunkSize) ∧
      ∀ (K E : Type) (services : Services K E) (nodeIndex : Nat) (server : ResourceServer K E),
        realmId ∉ server.partialSpecs → realmId ∉ server.realms →
        ∃ declared, ResourceServer.Rebuilt server realmId modelBytes declared ∧
          ResourceServer.feed services codec nodeIndex driver actions bulkRegion server =
            ResourceServer.realizeRealm services nodeIndex realmId
              (fillChunks (fillEntries model) fillContent) declared := by
  refine ⟨_, createRealm_eq works positive.ne' given each,
    fun bytes => transmission_bounded each, ?_⟩
  intro K E services nodeIndex server notPartial notRealm
  obtain ⟨declared, rebuilt, run⟩ := ResourceServer.requests_eq services codec nodeIndex positive
    (fillChunks (fillEntries model) fillContent) notPartial notRealm
  refine ⟨declared, rebuilt, ?_⟩
  obtain ⟨after, _, fed⟩ := ResourceServer.transmission_delivers services nodeIndex realmId lawful
    driverLawful small modelBytes given.headers_fit each bulkRegion rfl
  have fedAll := fed []
  rw [List.append_nil] at fedAll
  rw [fedAll, ← run]
  exact congrFun Exec.bind_pure_unit server

end Receiving

/-! ## A realm of one frame -/

/-- A `usize` takes so many bytes, the lowest one first. -/
def usizeBytes : Nat → Nat → List UInt8
  | 0, _ => []
  | width + 1, value => UInt8.ofNat value :: usizeBytes width (value / 256)

def ofUsizeBytes (bytes : List UInt8) : Nat :=
  bytes.foldr (fun byte value => byte.toNat + 256 * value) 0

theorem usizeBytes_length {width value : Nat} : (usizeBytes width value).length = width := by
  induction width generalizing value with
  | zero => rfl
  | succ width ih => exact congrArg (· + 1) ih

theorem ofUsizeBytes_usizeBytes {width value : Nat} (fits : value < 256 ^ width) :
    ofUsizeBytes (usizeBytes width value) = value := by
  induction width generalizing value with
  | zero =>
      rw [Nat.pow_zero, Nat.lt_one_iff] at fits
      rw [fits]
      rfl
  | succ width ih =>
      have rest : value / 256 < 256 ^ width := by
        apply Nat.div_lt_of_lt_mul
        rwa [Nat.mul_comm, ← Nat.pow_succ]
      change (UInt8.ofNat value).toNat + 256 * ofUsizeBytes (usizeBytes width (value / 256)) = value
      rw [ih rest, UInt8.toNat_ofNat']
      exact Nat.mod_add_div value 256

def takeUsize (bytes : List UInt8) : Option (Nat × List UInt8) :=
  if bytes.length < 8 then none else some (ofUsizeBytes (bytes.take 8), bytes.drop 8)

theorem takeUsize_append {value : Nat} (fits : value < 2 ^ 64) (rest : List UInt8) :
    takeUsize (usizeBytes 8 value ++ rest) = some (value, rest) := by
  have size : (usizeBytes 8 value).length = 8 := usizeBytes_length
  rw [takeUsize, if_neg (by rw [List.length_append]; omega), List.take_left' size,
    List.drop_left' size, ofUsizeBytes_usizeBytes fits]

def exampleCodec : HeaderCodec where
  toAllocvec header := usizeBytes 8 header.objectIndex ++
    (usizeBytes 8 header.fillEntryIndex ++ usizeBytes 8 header.size)
  takeFromBytes bytes := do
    let (objectIndex, bytes) ← takeUsize bytes
    let (fillEntryIndex, bytes) ← takeUsize bytes
    let (size, bytes) ← takeUsize bytes
    pure (⟨objectIndex, fillEntryIndex, size⟩, bytes)

theorem exampleCodec_lawful : exampleCodec.Lawful := by
  intro header fits rest
  obtain ⟨objectFits, entryFits, sizeFits⟩ := fits
  simp [exampleCodec, takeUsize_append objectFits, takeUsize_append entryFits,
    takeUsize_append sizeFits]

/-- What does not fit into the region is cut off. -/
def exampleDriver : Driver := fun bytes region =>
  (bytes ++ region.drop bytes.length).take region.length

theorem exampleDriver_lawful : exampleDriver.Lawful := by
  intro bytes region fits
  have size : (exampleDriver bytes region).length = region.length := by
    simp [exampleDriver, fits]
  refine ⟨size, ?_⟩
  rw [exampleDriver, List.take_take, Nat.min_eq_left fits, List.take_left]

def exampleDevice : Device := fun _ => none

/-- A frame with two stretches of content. -/
def exampleModel : Model :=
  ⟨1, [⟨.localObj (.smallPage [⟨0, 3, []⟩, ⟨8, 2, []⟩]), "f"⟩]⟩

/-- The fields that the model leaves out are the name of a file and an offset into it. -/
def exampleModelBytes : List UInt8 :=
  usizeBytes 8 1 ++ [1, 0, 6, 2] ++
    (usizeBytes 8 0 ++ usizeBytes 8 3 ++ [0] ++ usizeBytes 8 0 ++ [0]) ++
    (usizeBytes 8 8 ++ usizeBytes 8 2 ++ [0] ++ usizeBytes 8 0 ++ [0]) ++ [1, 102]

/-- The bytes of one model are known. -/
def knows (model : Model) (modelBytes bytes : List UInt8) : Option (Model × List UInt8) :=
  if bytes.take modelBytes.length = modelBytes then some (model, bytes.drop modelBytes.length)
  else none

theorem exampleModel_given :
    Given (knows exampleModel exampleModelBytes) exampleModelBytes exampleModel [1, 2, 3, 4, 5] where
  taken := rfl
  whole := rfl
  objects := by decide
  fills object isObject fill isFill := by
    rw [List.mem_singleton.mp isObject] at isFill
    rw [← Option.some.inj isFill]
    decide
  bytes := by decide

/-- The entries do not fit into one message. -/
theorem createRealm_transports_exampleModel :
    ∃ actions, Host.createRealm exampleCodec exampleDevice 0 27
        (knows exampleModel exampleModelBytes) (exampleModelBytes ++ [1, 2, 3, 4, 5]) [] =
          .ok () actions ∧
      (∀ bytes, .send bytes ∈ actions → bytes.length ≤ 27) ∧
      ∀ (K E : Type) (services : Services K E) (nodeIndex : Nat) (server : ResourceServer K E),
        0 ∉ server.partialSpecs → 0 ∉ server.realms →
        ∃ declared, ResourceServer.Rebuilt server 0 exampleModelBytes declared ∧
          ResourceServer.feed services exampleCodec nodeIndex exampleDriver actions
              (List.replicate 4096 0) server =
            ResourceServer.realizeRealm services nodeIndex 0
              [⟨0, 0, [1, 2, 3]⟩, ⟨0, 1, [4, 5]⟩] declared :=
  createRealm_transports 0 (fun _ => rfl) exampleCodec_lawful exampleDriver_lawful
    exampleModel_given (by decide) (by decide) (by rw [List.length_replicate]; decide)

def emptyModelBytes : List UInt8 := usizeBytes 8 1 ++ [0]

theorem emptyModel_given :
    Given (knows ⟨1, []⟩ emptyModelBytes) emptyModelBytes ⟨1, []⟩ [] where
  taken := rfl
  whole := rfl
  objects := by decide
  fills object isObject := absurd isObject List.not_mem_nil
  bytes := by decide

/-- Where there is nothing to fill, a chunk size of zero holds every entry, and `chunks` panics.  A
chunk that is larger than the region makes the server panic. -/
theorem createRealm_chunkSize_unchecked :
    (∀ chunk ∈ fillChunks (fillEntries ⟨1, []⟩) [], encodedSize exampleCodec chunk ≤ 0) ∧
    Given (knows ⟨1, []⟩ emptyModelBytes) emptyModelBytes ⟨1, []⟩ [] ∧
    Host.createRealm exampleCodec exampleDevice 0 0 (knows ⟨1, []⟩ emptyModelBytes)
      emptyModelBytes [] = .panic ∧
    ∃ actions, Host.createRealm exampleCodec exampleDevice 0 9 (knows ⟨1, []⟩ emptyModelBytes)
        emptyModelBytes [] = .ok () actions ∧
      ∀ (K E : Type) (services : Services K E) (nodeIndex : Nat) (server : ResourceServer K E),
        0 ∉ server.partialSpecs → 0 ∉ server.realms →
        ResourceServer.feed services exampleCodec nodeIndex exampleDriver actions
          (List.replicate 8 0) server = .panic := by
  refine ⟨by decide, emptyModel_given, rfl, _, rfl, ?_⟩
  intro K E services nodeIndex server notPartial notRealm
  exact Exec.bind_of_ok (ResourceServer.declare_eq notPartial notRealm)

end IceCap.Resources
