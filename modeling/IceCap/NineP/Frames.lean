import IceCap.NineP.Messages

/-!
# Frames

A message goes over the wire in a frame, behind the size of the frame, the type
of the message and a tag.  A reader that knows the size does not read beyond it.
-/

set_option autoImplicit false

namespace IceCap.NineP

open IceCap.Library

variable {μ : Type}

/-- What the implementations for the two kinds of frames match on. -/
structure Messages (μ : Type) where
  byteSize : μ → UInt32
  ty : μ → UInt8
  encode : μ → Exec Error (List UInt8) Unit
  arms : List (UInt8 × Exec Error (List UInt8) μ)

def Messages.decode (messages : Messages μ) (ty : UInt8) : Exec Error (List UInt8) μ :=
  match messages.arms.lookup ty with
  | some call => call
  | none => Exec.fail (.new .invalidData s!"unknown message type {ty}")

def frameByteSize (messages : Messages μ) (msg : μ) : UInt32 := 4 + 1 + 2 + messages.byteSize msg

def encodeFrame (messages : Messages μ) (tag : UInt16) (msg : μ) :
    Exec Error (List UInt8) Unit := do
  WireFormat.encode (frameByteSize messages msg)
  WireFormat.encode (messages.ty msg)
  WireFormat.encode tag
  messages.encode msg

/-- What is decoded behind the size. -/
def decodeContents (messages : Messages μ) : Exec Error (List UInt8) (UInt16 × μ) := do
  let ty ← readExact 1
  let tag : UInt16 ← WireFormat.decode
  let msg ← messages.decode (ty.headD 0)
  pure (tag, msg)

/-- `byte_size` includes the size of itself, which is taken from it without a check. -/
def decodeRest (messages : Messages μ) (byteSize : UInt32) :
    Exec Error (List UInt8) (UInt16 × μ) :=
  Codec.limited (byteSize - 4).toNat (decodeContents messages)

theorem Messages.decode_cases (messages : Messages μ) (ty : UInt8) :
    (∃ entry ∈ messages.arms, messages.decode ty = entry.2) ∨
      ∃ error, messages.decode ty = Exec.fail error := by
  unfold Messages.decode
  cases isCall : messages.arms.lookup ty with
  | none => exact .inr ⟨_, rfl⟩
  | some call =>
      obtain ⟨before, after, isArms, _⟩ := List.lookup_eq_some_iff.mp isCall
      exact .inl ⟨(ty, call), by simp [isArms], rfl⟩

/-! ## The two kinds of frames -/

def Tmessage.all : Messages Tmessage := ⟨Tmessage.byteSize, Tmessage.ty, Tmessage.encode, Tmessage.arms⟩

def Rmessage.all : Messages Rmessage := ⟨Rmessage.byteSize, Rmessage.ty, Rmessage.encode, Rmessage.arms⟩

structure Tframe where
  tag : UInt16
  msg : Tmessage

structure Rframe where
  tag : UInt16
  msg : Rmessage

def Tframe.decode : Exec Error (List UInt8) Tframe := do
  let byteSize : UInt32 ← WireFormat.decode
  Exec.ensure (4 ≤ byteSize.toNat)
    (.new .invalidData s!"byte_size(= {byteSize.toNat}) is less than 4 bytes")
  let contents ← decodeRest Tmessage.all byteSize
  pure ⟨contents.1, contents.2⟩

/-- There is no check that the size is large enough, which `Tframe` has. -/
def Rframe.decode : Exec Error (List UInt8) Rframe := do
  let byteSize : UInt32 ← WireFormat.decode
  let contents ← decodeRest Rmessage.all byteSize
  pure ⟨contents.1, contents.2⟩

instance wireFormatTframe : WireFormat Tframe where
  byteSize frame := frameByteSize Tmessage.all frame.msg
  encode frame := encodeFrame Tmessage.all frame.tag frame.msg
  decode := Tframe.decode

instance wireFormatRframe : WireFormat Rframe where
  byteSize frame := frameByteSize Rmessage.all frame.msg
  encode frame := encodeFrame Rmessage.all frame.tag frame.msg
  decode := Rframe.decode

/-! ## Messages -/

/-- The arm decodes messages of its type only. -/
structure ArmMeets (ty : μ → UInt8) (body : μ → Body)
    (entry : UInt8 × Exec Error (List UInt8) μ) : Prop where
  consumes : ∀ input msg rest, entry.2 input = .ok msg rest →
    entry.1 = ty msg ∧ (body msg).Fits ∧ (body msg).Kept ∧
      ∃ used, input = used ++ rest ∧ used.length = (body msg).bytes.length
  returns : ∀ input, entry.2 input ≠ .panic

structure MessagesMeet (messages : Messages μ) (body : μ → Body) : Prop where
  byteSize : ∀ msg, messages.byteSize msg = .ofNat (body msg).bytes.length
  writes : ∀ msg out, (body msg).Fits →
    messages.encode msg out = .ok () (out ++ (body msg).bytes)
  refuses : ∀ msg out, ¬ (body msg).Fits → ∃ error left, messages.encode msg out = .err error left
  reads : ∀ msg, ∃ call, messages.arms.lookup (messages.ty msg) = some call ∧
    ∀ rest, (body msg).Fits → (body msg).Kept → call ((body msg).bytes ++ rest) = .ok msg rest
  arms : ∀ entry ∈ messages.arms, ArmMeets messages.ty body entry

section Arms
variable {α : Type} [WireFormat α] [LawfulWireFormat α] {ty : μ → UInt8} {body : μ → Body}
  {make : α → μ}

open LawfulWireFormat

theorem armMeets_arm {type : UInt8} (isTy : ∀ fields, type = ty (make fields))
    (isBody : ∀ fields, body (make fields) = .of fields) : ArmMeets ty body (type, arm make) where
  consumes input msg rest read := by
    obtain ⟨fields, _, readFields, made⟩ := Exec.bind_eq_ok.mp read
    obtain ⟨rfl, rfl⟩ := Exec.pure_eq_ok.mp made
    rw [isBody]
    exact ⟨isTy fields, meets.consumes _ _ _ readFields⟩
  returns input panicked := by
    rcases Exec.bind_eq_panic.mp panicked with first | ⟨_, _, _, rest⟩
    · exact meets.returns input first
    · exact Exec.pure_ne_panic.mp rest

theorem armMeets_pure {type : UInt8} {msg : μ} (isTy : type = ty msg) (isBody : body msg = .empty) :
    ArmMeets ty body (type, pure msg) where
  consumes input found rest read := by
    obtain ⟨rfl, rfl⟩ := Exec.pure_eq_ok.mp read
    rw [isBody]
    exact ⟨isTy, trivial, trivial, [], rfl, rfl⟩
  returns _ := Exec.pure_ne_panic.mp

theorem arm_reads {fields : α} (rest : List UInt8) (fits : (Body.of fields).Fits)
    (kept : (Body.of fields).Kept) :
    arm make ((Body.of fields).bytes ++ rest) = .ok (make fields) rest :=
  Exec.bind_eq_ok.mpr ⟨fields, rest, meets.reads fields rest fits kept, rfl⟩

end Arms

section Requests

theorem Tmessage.byteSize_eq (msg : Tmessage) : msg.byteSize = .ofNat msg.body.bytes.length := by
  cases msg <;> exact LawfulWireFormat.byteSize_eq _

theorem Tmessage.writes (msg : Tmessage) (out : List UInt8) (fits : msg.body.Fits) :
    msg.encode out = .ok () (out ++ msg.body.bytes) := by
  cases msg <;> exact LawfulWireFormat.meets.writes _ _ fits

theorem Tmessage.refuses (msg : Tmessage) (out : List UInt8) (unfit : ¬ msg.body.Fits) :
    ∃ error left, msg.encode out = .err error left := by
  cases msg <;> exact LawfulWireFormat.meets.refuses _ _ unfit

theorem Tmessage.reads (msg : Tmessage) : ∃ call, Tmessage.arms.lookup msg.ty = some call ∧
    ∀ rest, msg.body.Fits → msg.body.Kept → call (msg.body.bytes ++ rest) = .ok msg rest := by
  cases msg <;> exact ⟨arm _, rfl, arm_reads⟩

theorem Tmessage.arms_meet : ∀ entry ∈ Tmessage.arms, ArmMeets Tmessage.ty Tmessage.body entry := by
  simp only [Tmessage.arms, List.forall_mem_cons, List.not_mem_nil, false_implies, implies_true,
    and_true]
  repeat' apply And.intro
  all_goals exact armMeets_arm (fun _ => rfl) fun _ => rfl

theorem tmessages_meet : MessagesMeet Tmessage.all Tmessage.body :=
  ⟨Tmessage.byteSize_eq, Tmessage.writes, Tmessage.refuses, Tmessage.reads, Tmessage.arms_meet⟩

end Requests

section Replies

theorem Rmessage.byteSize_eq (msg : Rmessage) : msg.byteSize = .ofNat msg.body.bytes.length := by
  cases msg <;> first | exact LawfulWireFormat.byteSize_eq _ | rfl

theorem Rmessage.writes (msg : Rmessage) (out : List UInt8) (fits : msg.body.Fits) :
    msg.encode out = .ok () (out ++ msg.body.bytes) := by
  cases msg <;> first
    | exact LawfulWireFormat.meets.writes _ _ fits
    | exact congrArg _ (List.append_nil out).symm

theorem Rmessage.refuses (msg : Rmessage) (out : List UInt8) (unfit : ¬ msg.body.Fits) :
    ∃ error left, msg.encode out = .err error left := by
  cases msg <;> first
    | exact LawfulWireFormat.meets.refuses _ _ unfit
    | exact absurd trivial unfit

theorem Rmessage.reads (msg : Rmessage) : ∃ call, Rmessage.arms.lookup msg.ty = some call ∧
    ∀ rest, msg.body.Fits → msg.body.Kept → call (msg.body.bytes ++ rest) = .ok msg rest := by
  cases msg <;> first
    | exact ⟨arm _, rfl, arm_reads⟩
    | exact ⟨pure _, rfl, fun _ _ _ => rfl⟩

theorem Rmessage.arms_meet : ∀ entry ∈ Rmessage.arms, ArmMeets Rmessage.ty Rmessage.body entry := by
  simp only [Rmessage.arms, List.forall_mem_cons, List.not_mem_nil, false_implies, implies_true,
    and_true]
  repeat' apply And.intro
  all_goals first | exact armMeets_arm (fun _ => rfl) fun _ => rfl | exact armMeets_pure rfl rfl

theorem rmessages_meet : MessagesMeet Rmessage.all Rmessage.body :=
  ⟨Rmessage.byteSize_eq, Rmessage.writes, Rmessage.refuses, Rmessage.reads, Rmessage.arms_meet⟩

end Replies

/-! ## Contents of a frame -/

section Contents
variable {messages : Messages μ} {body : μ → Body} {tag : UInt16} {msg : μ}

def contentsBytes (messages : Messages μ) (body : μ → Body) (tag : UInt16) (msg : μ) : List UInt8 :=
  leBytes 1 (messages.ty msg).toNat ++ (leBytes 2 tag.toNat ++ (body msg).bytes)

/-- The size of the frame. -/
def frameSize (body : μ → Body) (msg : μ) : Nat := 7 + (body msg).bytes.length

def frameBytes (messages : Messages μ) (body : μ → Body) (tag : UInt16) (msg : μ) : List UInt8 :=
  leBytes 4 (frameByteSize messages msg).toNat ++ contentsBytes messages body tag msg

theorem length_contentsBytes :
    (contentsBytes messages body tag msg).length = 3 + (body msg).bytes.length := by
  simp [contentsBytes]
  omega

theorem length_frameBytes : (frameBytes messages body tag msg).length = frameSize body msg := by
  rw [frameBytes, List.length_append, length_leBytes, length_contentsBytes, frameSize]
  omega

variable (meet : MessagesMeet messages body)
include meet

theorem frameByteSize_eq : frameByteSize messages msg = .ofNat (frameSize body msg) := by
  rw [frameByteSize, meet.byteSize, frameSize, UInt32.ofNat_add]
  rfl

theorem encodeFrame_fits {out : List UInt8} (fits : (body msg).Fits) :
    encodeFrame messages tag msg out = .ok () (out ++ frameBytes messages body tag msg) := by
  refine Exec.bind_eq_ok.mpr ⟨(), _, encodeUint_eq .., ?_⟩
  refine Exec.bind_eq_ok.mpr ⟨(), _, encodeUint_eq .., ?_⟩
  refine Exec.bind_eq_ok.mpr ⟨(), _, encodeUint_eq .., ?_⟩
  rw [meet.writes msg _ fits]
  simp [frameBytes, contentsBytes]

theorem encodeFrame_refuses {out : List UInt8} (unfit : ¬ (body msg).Fits) :
    ∃ error left, encodeFrame messages tag msg out = .err error left := by
  obtain ⟨error, left, failed⟩ := meet.refuses msg
    (out ++ leBytes 4 (frameByteSize messages msg).toNat ++ leBytes 1 (messages.ty msg).toNat ++
      leBytes 2 tag.toNat) unfit
  refine ⟨error, left, Exec.bind_eq_err.mpr (.inr ⟨(), _, encodeUint_eq .., ?_⟩)⟩
  refine Exec.bind_eq_err.mpr (.inr ⟨(), _, encodeUint_eq .., ?_⟩)
  exact Exec.bind_eq_err.mpr (.inr ⟨(), _, encodeUint_eq .., failed⟩)

theorem decodeContents_append {rest : List UInt8} (fits : (body msg).Fits) (kept : (body msg).Kept) :
    decodeContents messages (contentsBytes messages body tag msg ++ rest) = .ok (tag, msg) rest := by
  obtain ⟨call, isCall, reads⟩ := meet.reads msg
  rw [contentsBytes, List.append_assoc, List.append_assoc]
  refine Exec.bind_eq_ok.mpr ⟨_, _, Codec.readExact_append (length_leBytes ..), ?_⟩
  refine Exec.bind_eq_ok.mpr ⟨tag, _, LawfulWireFormat.meets.reads tag _ trivial trivial, ?_⟩
  have isType : (leBytes 1 (messages.ty msg).toNat).headD 0 = messages.ty msg := UInt8.ofNat_toNat
  refine Exec.bind_eq_ok.mpr ⟨msg, rest, ?_, rfl⟩
  rw [isType, Messages.decode, isCall]
  exact reads rest fits kept

theorem decodeContents_uses {input rest : List UInt8}
    (read : decodeContents messages input = .ok (tag, msg) rest) :
    (body msg).Fits ∧ (body msg).Kept ∧
      ∃ used, input = used ++ rest ∧ used.length = 3 + (body msg).bytes.length := by
  obtain ⟨ty, middle, readTy, readRest⟩ := Exec.bind_eq_ok.mp read
  obtain ⟨rfl, lengthTy⟩ := Codec.readExact_eq_ok.mp readTy
  obtain ⟨_, left, readTag, readLast⟩ := Exec.bind_eq_ok.mp readRest
  obtain ⟨usedTag, rfl, lengthTag⟩ := decode_u16_uses readTag
  obtain ⟨_, _, readMsg, made⟩ := Exec.bind_eq_ok.mp readLast
  obtain ⟨same, rfl⟩ := Exec.pure_eq_ok.mp made
  obtain ⟨rfl, rfl⟩ := Prod.mk.inj same
  rcases messages.decode_cases (ty.headD 0) with ⟨entry, isArm, isCall⟩ | ⟨error, fails⟩
  · rw [isCall] at readMsg
    obtain ⟨_, fits, kept, used, rfl, length⟩ := (meet.arms entry isArm).consumes _ _ _ readMsg
    refine ⟨fits, kept, ty ++ usedTag ++ used, by simp, ?_⟩
    rw [List.length_append, List.length_append, lengthTy, lengthTag, length]
  · rw [fails] at readMsg
    simp at readMsg

theorem decodeContents_ne_panic {input : List UInt8} : decodeContents messages input ≠ .panic := by
  intro panicked
  rcases Exec.bind_eq_panic.mp panicked with first | ⟨ty, middle, _, rest⟩
  · exact Codec.readExact_ne_panic.mp first
  rcases Exec.bind_eq_panic.mp rest with second | ⟨_, left, _, rest⟩
  · exact (LawfulWireFormat.meets (α := UInt16)).returns middle second
  rcases Exec.bind_eq_panic.mp rest with third | ⟨_, _, _, last⟩
  · rcases messages.decode_cases (ty.headD 0) with ⟨entry, isArm, isCall⟩ | ⟨error, fails⟩
    · exact (meet.arms entry isArm).returns left (isCall ▸ third)
    · rw [fails] at third
      simp at third
  · exact Exec.pure_ne_panic.mp last

theorem decodeRest_append {rest : List UInt8} (fits : (body msg).Fits) (kept : (body msg).Kept)
    (small : frameSize body msg < 2 ^ 32 + 4) :
    decodeRest messages (frameByteSize messages msg) (contentsBytes messages body tag msg ++ rest) =
      .ok (tag, msg) rest := by
  have four : 4 ≤ frameSize body msg := by rw [frameSize]; omega
  have isLimit : (frameByteSize messages msg - 4).toNat = frameSize body msg - 4 := by
    have isDifference : UInt32.ofNat (frameSize body msg) - 4 = .ofNat (frameSize body msg - 4) :=
      (UInt32.ofNat_sub four).symm
    rw [frameByteSize_eq meet, isDifference, UInt32.toNat_ofNat']
    omega
  have decoded : decodeContents messages (contentsBytes messages body tag msg ++ []) =
      .ok (tag, msg) [] := decodeContents_append meet fits kept
  rw [List.append_nil] at decoded
  refine Codec.limited_append ?_ decoded
  rw [length_contentsBytes, isLimit, frameSize]
  omega

theorem decodeRest_uses {size : UInt32} {input rest : List UInt8}
    (read : decodeRest messages size input = .ok (tag, msg) rest) :
    (body msg).Fits ∧ (body msg).Kept ∧ frameSize body msg ≤ (size - 4).toNat + 4 ∧
      ∃ used, input = used ++ rest ∧ used.length = 3 + (body msg).bytes.length := by
  obtain ⟨left, decoded, rfl⟩ := Codec.limited_eq_ok.mp read
  obtain ⟨fits, kept, used, isInput, length⟩ := decodeContents_uses meet decoded
  refine ⟨fits, kept, ?_, used, ?_, length⟩
  · have within := congrArg List.length isInput
    rw [List.length_take, List.length_append, length] at within
    rw [frameSize]
    omega
  · rw [← List.append_assoc, ← isInput, List.take_append_drop]

end Contents

/-! ## The frames are lawful -/

theorem decode_header {size : UInt32} {rest : List UInt8} :
    WireFormat.decode (leBytes 4 size.toNat ++ rest) = .ok size rest :=
  LawfulWireFormat.meets.reads size rest trivial trivial

section Requests
variable {frame : Tframe} {input rest : List UInt8}

theorem Tframe.encode_fits (frame : Tframe) (out : List UInt8) (fits : frame.msg.body.Fits) :
    encodeFrame Tmessage.all frame.tag frame.msg out =
      .ok () (out ++ frameBytes Tmessage.all Tmessage.body frame.tag frame.msg) :=
  encodeFrame_fits tmessages_meet fits

theorem Tframe.encode_refuses (frame : Tframe) (out : List UInt8)
    (unfit : ¬ frame.msg.body.Fits) :
    ∃ error left, encodeFrame Tmessage.all frame.tag frame.msg out = .err error left :=
  encodeFrame_refuses tmessages_meet unfit

theorem Tframe.decode_append (fits : frame.msg.body.Fits) (kept : frame.msg.body.Kept)
    (small : frameSize Tmessage.body frame.msg < 2 ^ 32) :
    Tframe.decode (frameBytes Tmessage.all Tmessage.body frame.tag frame.msg ++ rest) =
      .ok frame rest := by
  have isSize : (frameByteSize Tmessage.all frame.msg).toNat =
      frameSize Tmessage.body frame.msg := by
    rw [frameByteSize_eq tmessages_meet, UInt32.toNat_ofNat', Nat.mod_eq_of_lt small]
  rw [frameBytes, List.append_assoc]
  refine Exec.bind_eq_ok.mpr ⟨frameByteSize Tmessage.all frame.msg, _, decode_header, ?_⟩
  refine Exec.bind_eq_ok.mpr ⟨(), _, Exec.ensure_eq_ok.mpr ⟨?_, rfl⟩, ?_⟩
  · rw [isSize, frameSize]
    omega
  · exact Exec.bind_eq_ok.mpr ⟨_, _, decodeRest_append tmessages_meet fits kept (by omega), rfl⟩

theorem Tframe.decode_uses (read : Tframe.decode input = .ok frame rest) :
    frame.msg.body.Fits ∧ frame.msg.body.Kept ∧ frameSize Tmessage.body frame.msg < 2 ^ 32 ∧
      ∃ used, input = used ++ rest ∧ used.length = frameSize Tmessage.body frame.msg := by
  obtain ⟨size, _, readSize, readRest⟩ := Exec.bind_eq_ok.mp read
  obtain ⟨usedSize, rfl, lengthSize⟩ := decode_u32_uses readSize
  obtain ⟨_, _, isLarge, readFrame⟩ := Exec.bind_eq_ok.mp readRest
  obtain ⟨large, rfl⟩ := Exec.ensure_eq_ok.mp isLarge
  obtain ⟨⟨tag, msg⟩, _, readContents, made⟩ := Exec.bind_eq_ok.mp readFrame
  obtain ⟨rfl, rfl⟩ := Exec.pure_eq_ok.mp made
  obtain ⟨fits, kept, small, used, rfl, length⟩ := decodeRest_uses tmessages_meet readContents
  have less := size.toNat_lt
  have isDifference : (size - 4).toNat = size.toNat - 4 := UInt32.toNat_sub_of_le _ _ large
  have within : frameSize Tmessage.body msg < 2 ^ 32 := by omega
  refine ⟨fits, kept, within, usedSize ++ used, (List.append_assoc ..).symm, ?_⟩
  rw [List.length_append, lengthSize, length]
  exact (Nat.add_assoc 4 3 msg.body.bytes.length).symm

theorem Tframe.decode_ne_panic : Tframe.decode input ≠ .panic := by
  intro panicked
  rcases Exec.bind_eq_panic.mp panicked with first | ⟨size, middle, _, rest⟩
  · exact (LawfulWireFormat.meets (α := UInt32)).returns input first
  rcases Exec.bind_eq_panic.mp rest with second | ⟨_, left, _, rest⟩
  · exact Exec.ensure_ne_panic.mp second
  rcases Exec.bind_eq_panic.mp rest with third | ⟨_, _, _, last⟩
  · exact decodeContents_ne_panic tmessages_meet (Codec.limited_eq_panic.mp third)
  · exact Exec.pure_ne_panic.mp last

instance lawfulTframe : LawfulWireFormat Tframe where
  spec := ⟨fun frame => frameBytes Tmessage.all Tmessage.body frame.tag frame.msg,
    fun frame => frame.msg.body.Fits,
    fun frame => frame.msg.body.Kept ∧ frameSize Tmessage.body frame.msg < 2 ^ 32⟩
  byteSize_eq frame := by
    rw [length_frameBytes]
    exact frameByteSize_eq tmessages_meet
  meets :=
    { writes := Tframe.encode_fits
      refuses := Tframe.encode_refuses
      reads := fun _ _ fits kept => Tframe.decode_append fits kept.1 kept.2
      consumes := fun input frame rest read => by
        obtain ⟨fits, kept, small, used, isInput, length⟩ := Tframe.decode_uses read
        exact ⟨fits, ⟨kept, small⟩, used, isInput, by rw [length, length_frameBytes]⟩
      returns := fun _ => Tframe.decode_ne_panic }

end Requests

section Replies
variable {frame : Rframe} {input rest : List UInt8}

theorem Rframe.encode_fits (frame : Rframe) (out : List UInt8) (fits : frame.msg.body.Fits) :
    encodeFrame Rmessage.all frame.tag frame.msg out =
      .ok () (out ++ frameBytes Rmessage.all Rmessage.body frame.tag frame.msg) :=
  encodeFrame_fits rmessages_meet fits

theorem Rframe.encode_refuses (frame : Rframe) (out : List UInt8)
    (unfit : ¬ frame.msg.body.Fits) :
    ∃ error left, encodeFrame Rmessage.all frame.tag frame.msg out = .err error left :=
  encodeFrame_refuses rmessages_meet unfit

theorem Rframe.decode_append (fits : frame.msg.body.Fits) (kept : frame.msg.body.Kept)
    (small : frameSize Rmessage.body frame.msg < 2 ^ 32 + 4) :
    Rframe.decode (frameBytes Rmessage.all Rmessage.body frame.tag frame.msg ++ rest) =
      .ok frame rest := by
  rw [frameBytes, List.append_assoc]
  refine Exec.bind_eq_ok.mpr ⟨frameByteSize Rmessage.all frame.msg, _, decode_header, ?_⟩
  exact Exec.bind_eq_ok.mpr ⟨_, _, decodeRest_append rmessages_meet fits kept small, rfl⟩

theorem Rframe.decode_uses (read : Rframe.decode input = .ok frame rest) :
    frame.msg.body.Fits ∧ frame.msg.body.Kept ∧
      frameSize Rmessage.body frame.msg < 2 ^ 32 + 4 ∧
      ∃ used, input = used ++ rest ∧ used.length = frameSize Rmessage.body frame.msg := by
  obtain ⟨size, _, readSize, readFrame⟩ := Exec.bind_eq_ok.mp read
  obtain ⟨usedSize, rfl, lengthSize⟩ := decode_u32_uses readSize
  obtain ⟨⟨tag, msg⟩, _, readContents, made⟩ := Exec.bind_eq_ok.mp readFrame
  obtain ⟨rfl, rfl⟩ := Exec.pure_eq_ok.mp made
  obtain ⟨fits, kept, small, used, rfl, length⟩ := decodeRest_uses rmessages_meet readContents
  have less := (size - 4).toNat_lt
  have within : frameSize Rmessage.body msg < 2 ^ 32 + 4 := by omega
  refine ⟨fits, kept, within, usedSize ++ used, (List.append_assoc ..).symm, ?_⟩
  rw [List.length_append, lengthSize, length]
  exact (Nat.add_assoc 4 3 msg.body.bytes.length).symm

theorem Rframe.decode_ne_panic : Rframe.decode input ≠ .panic := by
  intro panicked
  rcases Exec.bind_eq_panic.mp panicked with first | ⟨size, middle, _, rest⟩
  · exact (LawfulWireFormat.meets (α := UInt32)).returns input first
  rcases Exec.bind_eq_panic.mp rest with second | ⟨_, _, _, last⟩
  · exact decodeContents_ne_panic rmessages_meet (Codec.limited_eq_panic.mp second)
  · exact Exec.pure_ne_panic.mp last

/-- A size that is too small for its own four bytes wraps around, as the size of a frame of `2 ^ 32`
bytes and a few more does. -/
instance lawfulRframe : LawfulWireFormat Rframe where
  spec := ⟨fun frame => frameBytes Rmessage.all Rmessage.body frame.tag frame.msg,
    fun frame => frame.msg.body.Fits,
    fun frame => frame.msg.body.Kept ∧ frameSize Rmessage.body frame.msg < 2 ^ 32 + 4⟩
  byteSize_eq frame := by
    rw [length_frameBytes]
    exact frameByteSize_eq rmessages_meet
  meets :=
    { writes := Rframe.encode_fits
      refuses := Rframe.encode_refuses
      reads := fun _ _ fits kept => Rframe.decode_append fits kept.1 kept.2
      consumes := fun input frame rest read => by
        obtain ⟨fits, kept, small, used, isInput, length⟩ := Rframe.decode_uses read
        exact ⟨fits, ⟨kept, small⟩, used, isInput, by rw [length, length_frameBytes]⟩
      returns := fun _ => Rframe.decode_ne_panic }

end Replies

/-! ## Round trips -/

/-- A request comes back from its encoding, whatever is behind it in the stream, exactly if it can be
encoded, its data is not too long, and its size is not too large for a `u32`. -/
theorem Tframe.request_roundTrips_iff (frame : Tframe) :
    (∃ out, WireFormat.encode frame [] = .ok () out ∧
      ∀ rest, Tframe.decode (out ++ rest) = .ok frame rest) ↔
    frame.msg.body.Fits ∧ frame.msg.body.Kept ∧ frameSize Tmessage.body frame.msg < 2 ^ 32 :=
  (LawfulWireFormat.meets (α := Tframe)).roundTrips_iff

theorem Rframe.reply_roundTrips_iff (frame : Rframe) :
    (∃ out, WireFormat.encode frame [] = .ok () out ∧
      ∀ rest, Rframe.decode (out ++ rest) = .ok frame rest) ↔
    frame.msg.body.Fits ∧ frame.msg.body.Kept ∧
      frameSize Rmessage.body frame.msg < 2 ^ 32 + 4 :=
  (LawfulWireFormat.meets (α := Rframe)).roundTrips_iff

/-- What is accepted as a request can be encoded again, in as many bytes, and is then accepted as the
same request: only how long a string says it is, and how long the frame, may have been different. -/
theorem Tframe.decode_normalizes {input rest : List UInt8} {frame : Tframe}
    (read : Tframe.decode input = .ok frame rest) :
    ∃ used out, input = used ++ rest ∧ WireFormat.encode frame [] = .ok () out ∧
      out.length = used.length ∧ ∀ more, Tframe.decode (out ++ more) = .ok frame more :=
  (LawfulWireFormat.meets (α := Tframe)).normalizes read

theorem Tframe.decode_normalizes_example : ∃ used out : List UInt8,
    WireFormat.encode (⟨1, .clunk ⟨7⟩⟩ : Tframe) [] = .ok () out ∧ out.length = used.length ∧
      Tframe.decode (out ++ [0]) = .ok ⟨1, .clunk ⟨7⟩⟩ [0] := by
  have read : Tframe.decode ([11, 0, 0, 0, 120, 1, 0, 7, 0, 0, 0, 9] : List UInt8) =
      .ok ⟨1, .clunk ⟨7⟩⟩ [9] := rfl
  obtain ⟨used, out, _, encoded, length, decoded⟩ := Tframe.decode_normalizes read
  exact ⟨used, out, encoded, length, decoded [0]⟩

end IceCap.NineP
