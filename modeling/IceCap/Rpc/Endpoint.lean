import Mathlib.Order.Lattice
import Mathlib.Order.Basic
import IceCap.Rpc.Transit

/-!
# Calls over message registers

A message is written to the message registers of a thread, and the kernel
copies them to those of another.  What `libsel4` and the kernel do is the
parameter `Libsel4`: how many message registers there are, how a length is
kept in a message's info, and what a thread finds in its registers when a
message gets to it.
-/

set_option autoImplicit false

namespace IceCap.Rpc

open IceCap.Library

/-- The message registers of a thread, by their indices. -/
abbrev Registers := Nat → ParameterValue

def Registers.set (registers : Registers) (register : Nat) (value : ParameterValue) : Registers :=
  fun i => if i = register then value else registers i

structure Libsel4 where
  MessageInfo : Type
  msgMaxLength : UInt32
  messageInfoNew : (label capsUnwrapped extraCaps length : UInt64) → MessageInfo
  messageInfoGetLength : MessageInfo → UInt64
  /-- The sender's info and registers, and the registers of the receiver. -/
  transfer : MessageInfo → Registers → Registers → MessageInfo × Registers

/-- The info keeps a length up to the number of message registers, and so many registers are copied. -/
structure Libsel4.Lawful (libsel4 : Libsel4) : Prop where
  length_new : ∀ length : UInt64, length.toNat ≤ libsel4.msgMaxLength.toNat →
    libsel4.messageInfoGetLength (libsel4.messageInfoNew 0 0 0 length) = length
  length_transfer : ∀ info sender receiver,
    (libsel4.messageInfoGetLength info).toNat ≤ libsel4.msgMaxLength.toNat →
    libsel4.messageInfoGetLength (libsel4.transfer info sender receiver).1 =
      libsel4.messageInfoGetLength info
  copied : ∀ info sender receiver,
    (libsel4.messageInfoGetLength info).toNat ≤ libsel4.msgMaxLength.toNat →
    ∀ i < (libsel4.messageInfoGetLength info).toNat,
      (libsel4.transfer info sender receiver).2 i = sender i

structure ReceivingImpl where
  length : Nat
  cursor : Nat
  deriving DecidableEq, Repr

structure SendingImpl where
  cursor : Nat
  deriving DecidableEq, Repr

section Methods
variable {ε σ α β : Type} (libsel4 : Libsel4) (postcard : Postcard α) (registers : Registers)

/-- `MessageRegister::new(cursor as i32)`, where the assertion casts the index to `u32`. -/
def messageRegister (cursor : Nat) : Exec ε σ Nat := do
  Exec.assert (cursor % 2 ^ 32 < libsel4.msgMaxLength.toNat)
  pure (cursor % 2 ^ 32)

def receivingImpl : Receiving ε ReceivingImpl where
  readValue := do
    let self ← Exec.get
    Exec.assert (self.cursor ≠ self.length)
    let register ← messageRegister libsel4 self.cursor
    let value := registers register
    Exec.modify fun self => { self with cursor := self.cursor + 1 }
    pure value
  remaining self := self.length - self.cursor

def sendingImpl : Sending ε (SendingImpl × Registers) where
  writeValue value := do
    let self ← Exec.get
    let register ← messageRegister libsel4 self.1.cursor
    Exec.modify fun self =>
      ({ self.1 with cursor := self.1.cursor + 1 }, self.2.set register value)

def ReceivingImpl.complete (info : libsel4.MessageInfo) : Exec ε Registers α := do
  let registers ← Exec.get
  Exec.on ⟨(libsel4.messageInfoGetLength info).toNat, 0⟩
    (recv postcard (receivingImpl libsel4 registers))

def SendingImpl.complete (message : α) : Exec ε Registers libsel4.MessageInfo := do
  let sent ← Exec.own ⟨0⟩ (send postcard (sendingImpl libsel4) message)
  let length := sent.2.cursor
  pure (libsel4.messageInfoNew 0 0 0 (.ofNat length))

namespace Server

def recv (info : libsel4.MessageInfo) : Exec ε Registers α :=
  ReceivingImpl.complete libsel4 postcard info

def reply (output : α) : Exec ε Registers libsel4.MessageInfo :=
  SendingImpl.complete libsel4 postcard output

end Server

namespace Proxy

def down (info : libsel4.MessageInfo) : Exec ε Registers (List ParameterValue) := do
  let registers ← Exec.get
  let length := (libsel4.messageInfoGetLength info).toNat
  Exec.on ⟨length, 0⟩ (Exec.foldEach (List.range length) [] fun parameters _ => do
    let value ← (receivingImpl libsel4 registers).readValue
    pure (parameters ++ [value]))

def up (parameters : List ParameterValue) : Exec ε Registers libsel4.MessageInfo := do
  let _ ← Exec.own ⟨0⟩ (Exec.forEach parameters (sendingImpl libsel4).writeValue)
  pure (libsel4.messageInfoNew 0 0 0 (.ofNat parameters.length))

end Proxy

/-- The message registers of a client and of the server that serves it. -/
structure Threads where
  client : Registers
  server : Registers

/-- The call that the kernel makes of a message, a run of the server and its reply. -/
def endpointCall (serve : libsel4.MessageInfo → Exec ε Registers libsel4.MessageInfo)
    (info : libsel4.MessageInfo) : Exec ε Threads libsel4.MessageInfo := do
  let threads ← Exec.get
  let message := libsel4.transfer info threads.client threads.server
  let reply ← Exec.focus Threads.server (fun server threads => { threads with server })
    (do Exec.modify fun _ => message.2
        serve message.1)
  let threads ← Exec.get
  let message := libsel4.transfer reply threads.server threads.client
  Exec.modify fun threads => { threads with client := message.2 }
  pure message.1

/-- `Client::call`, of a type with its own serialization for what is returned. -/
def Client.call (returned : Postcard β)
    (serve : libsel4.MessageInfo → Exec ε Registers libsel4.MessageInfo) (input : α) :
    Exec ε Threads β := do
  let info ← Exec.focus Threads.client (fun client threads => { threads with client })
    (SendingImpl.complete libsel4 postcard input)
  let info ← endpointCall libsel4 serve info
  Exec.focus Threads.client (fun client threads => { threads with client })
    (ReceivingImpl.complete libsel4 returned info)

/-- A server that receives an input, and replies with what a handler makes of it. -/
def serve (returned : Postcard β) (handler : α → β) (info : libsel4.MessageInfo) :
    Exec ε Registers libsel4.MessageInfo := do
  let input ← Server.recv libsel4 postcard info
  Server.reply libsel4 returned (handler input)

end Methods

/-! ## Messages -/

/-- The message has the words, and they are in the registers. -/
structure Carries (libsel4 : Libsel4) (words : List ParameterValue) (info : libsel4.MessageInfo)
    (registers : Registers) : Prop where
  length : (libsel4.messageInfoGetLength info).toNat = words.length
  holds : ∀ i word, words[i]? = some word → registers i = word

section Messages
variable {ε σ α : Type} {libsel4 : Libsel4} {postcard : Postcard α} {value : α}
  {bytes : List UInt8} {words : List ParameterValue} {registers : Registers} {cursor : Nat}

@[simp]
theorem Registers.set_same {word : ParameterValue} : registers.set cursor word cursor = word := if_pos rfl

theorem Registers.set_other {word : ParameterValue} {i : Nat} (differs : i ≠ cursor) :
    registers.set cursor word i = registers i := if_neg differs

/-- The registers from an index on are set. -/
def stored (words : List ParameterValue) (start : Nat) (registers : Registers) : Registers :=
  fun i => if i < start then registers i else words[i - start]?.getD (registers i)

theorem messageRegister_eq {state : σ} (isRegister : cursor < libsel4.msgMaxLength.toNat) :
    (messageRegister libsel4 cursor : Exec ε σ Nat) state = .ok cursor state := by
  have isWord := libsel4.msgMaxLength.toNat_lt
  have isSame : cursor % 2 ^ 32 = cursor := Nat.mod_eq_of_lt (lt_trans isRegister isWord)
  unfold messageRegister
  rw [isSame, Exec.assert_bind isRegister]
  rfl

/-- The index behind the last one does not wrap either. -/
theorem messageRegister_panics {state : σ} :
    (messageRegister libsel4 libsel4.msgMaxLength.toNat : Exec ε σ Nat) state = .panic := by
  have isSame : libsel4.msgMaxLength.toNat % 2 ^ 32 = libsel4.msgMaxLength.toNat :=
    Nat.mod_eq_of_lt libsel4.msgMaxLength.toNat_lt
  have outside : ¬ libsel4.msgMaxLength.toNat < libsel4.msgMaxLength.toNat := Nat.lt_irrefl _
  unfold messageRegister
  rw [isSame, Exec.bind_apply, Exec.assert, if_neg outside]

theorem writeValue_eq (word : ParameterValue) (isRegister : cursor < libsel4.msgMaxLength.toNat) :
    (sendingImpl (ε := ε) libsel4).writeValue word (⟨cursor⟩, registers) =
      .ok () (⟨cursor + 1⟩, registers.set cursor word) := by
  unfold sendingImpl
  dsimp only
  rw [Exec.get_bind, Exec.bind_of_ok (messageRegister_eq isRegister)]
  rfl

theorem stored_cons {word : ParameterValue} :
    stored words (cursor + 1) (registers.set cursor word) = stored (word :: words) cursor registers := by
  funext i
  unfold stored
  rcases Nat.lt_trichotomy i cursor with before | rfl | after
  · rw [if_pos (by omega), if_pos before, Registers.set_other (by omega)]
  · rw [if_pos (by omega), if_neg (by omega), Registers.set_same, Nat.sub_self]
    rfl
  · have isNext : i - cursor = i - (cursor + 1) + 1 := by omega
    rw [if_neg (by omega), if_neg (by omega), Registers.set_other (by omega), isNext,
      List.getElem?_cons_succ]

theorem writeAll_eq (fits : cursor + words.length ≤ libsel4.msgMaxLength.toNat) :
    Exec.forEach words (sendingImpl (ε := ε) libsel4).writeValue (⟨cursor⟩, registers) =
      .ok () (⟨cursor + words.length⟩, stored words cursor registers) := by
  induction words generalizing cursor registers with
  | nil =>
      have isSame : stored [] cursor registers = registers := by
        funext i
        unfold stored
        split <;> rfl
      rw [isSame]
      rfl
  | cons word words ih =>
      rw [List.length_cons] at fits
      have isNext : cursor + 1 + words.length = cursor + (word :: words).length := by
        rw [List.length_cons]
        omega
      rw [Exec.forEach_cons, Exec.bind_of_ok (writeValue_eq word (by omega)), ih (by omega),
        stored_cons, isNext]

theorem writeAll_panics (before : cursor ≤ libsel4.msgMaxLength.toNat)
    (tooLong : libsel4.msgMaxLength.toNat < cursor + words.length) :
    Exec.forEach words (sendingImpl (ε := ε) libsel4).writeValue (⟨cursor⟩, registers) = .panic := by
  induction words generalizing cursor registers with
  | nil => exact absurd tooLong (Nat.not_lt.mpr before)
  | cons word words ih =>
      rw [List.length_cons] at tooLong
      rw [Exec.forEach_cons]
      rcases Nat.lt_or_eq_of_le before with isRegister | rfl
      · rw [Exec.bind_of_ok (writeValue_eq word isRegister)]
        exact ih isRegister (by omega)
      · have panics : (sendingImpl (ε := ε) libsel4).writeValue word
            (⟨libsel4.msgMaxLength.toNat⟩, registers) = .panic := by
          unfold sendingImpl
          dsimp only
          rw [Exec.get_bind, Exec.bind_apply, messageRegister_panics]
        rw [Exec.bind_apply, panics]

theorem stored_holds {i : Nat} {word : ParameterValue} (isWord : words[i]? = some word) :
    stored words 0 registers i = word := by
  unfold stored
  rw [if_neg (Nat.not_lt_zero i), Nat.sub_zero, isWord]
  rfl

/-- Where the words are in the registers already nothing changes. -/
theorem stored_same (holds : ∀ i word, words[i]? = some word → registers i = word) :
    stored words 0 registers = registers := by
  funext i
  unfold stored
  rw [if_neg (Nat.not_lt_zero i), Nat.sub_zero]
  cases isWord : words[i]? with
  | none => rfl
  | some word => exact (holds i word isWord).symm

theorem stored_carries (lawful : libsel4.Lawful) (fits : words.length ≤ libsel4.msgMaxLength.toNat)
    (registers : Registers) :
    Carries libsel4 words (libsel4.messageInfoNew 0 0 0 (.ofNat words.length))
      (stored words 0 registers) := by
  have isWord := libsel4.msgMaxLength.toNat_lt
  have isLength : (UInt64.ofNat words.length).toNat = words.length := by
    rw [UInt64.toNat_ofNat', Nat.mod_eq_of_lt (by omega)]
  refine ⟨?_, fun i word => stored_holds⟩
  rw [lawful.length_new _ (by omega), isLength]

theorem complete_eq (isBytes : postcard.toAllocvec value = some bytes)
    (fits : (wordsOf bytes).length ≤ libsel4.msgMaxLength.toNat) :
    (SendingImpl.complete libsel4 postcard value : Exec ε Registers _) registers =
      .ok (libsel4.messageInfoNew 0 0 0 (.ofNat (wordsOf bytes).length))
        (stored (wordsOf bytes) 0 registers) := by
  have run : send postcard (sendingImpl libsel4) value (⟨0⟩, registers) =
      (.ok () (⟨0 + (wordsOf bytes).length⟩, stored (wordsOf bytes) 0 registers) :
        Outcome ε (SendingImpl × Registers) Unit) :=
    (send_eq isBytes).trans (writeAll_eq (by omega))
  unfold SendingImpl.complete
  rw [Exec.own_bind run, Nat.zero_add]
  rfl

theorem complete_panics (isBytes : postcard.toAllocvec value = some bytes)
    (tooLong : libsel4.msgMaxLength.toNat < (wordsOf bytes).length) :
    (SendingImpl.complete libsel4 postcard value : Exec ε Registers _) registers = .panic := by
  have run : send postcard (sendingImpl libsel4) value (⟨0⟩, registers) =
      (.panic : Outcome ε (SendingImpl × Registers) Unit) :=
    (send_eq isBytes).trans (writeAll_panics (Nat.zero_le _) (by omega))
  exact Exec.own_panics run

theorem up_eq (fits : words.length ≤ libsel4.msgMaxLength.toNat) :
    (Proxy.up libsel4 words : Exec ε Registers _) registers =
      .ok (libsel4.messageInfoNew 0 0 0 (.ofNat words.length)) (stored words 0 registers) := by
  have run := @writeAll_eq ε libsel4 words registers 0 (by omega)
  exact Exec.own_bind run

/-- Writing the words to the registers they are in makes the message again. -/
theorem Carries.up {info : libsel4.MessageInfo} (lawful : libsel4.Lawful)
    (carries : Carries libsel4 words info registers)
    (fits : words.length ≤ libsel4.msgMaxLength.toNat) :
    ∃ again, (Proxy.up libsel4 words : Exec ε Registers _) registers = .ok again registers ∧
      Carries libsel4 words again registers := by
  have isMessage := stored_carries lawful fits registers
  rw [stored_same carries.holds] at isMessage
  refine ⟨_, ?_, isMessage⟩
  rw [up_eq fits, stored_same carries.holds]

/-- The kernel hands the message on. -/
theorem Carries.transfer {info : libsel4.MessageInfo} (lawful : libsel4.Lawful)
    (carries : Carries libsel4 words info registers)
    (fits : words.length ≤ libsel4.msgMaxLength.toNat) (receiver : Registers) :
    Carries libsel4 words (libsel4.transfer info registers receiver).1
      (libsel4.transfer info registers receiver).2 := by
  have isShort : (libsel4.messageInfoGetLength info).toNat ≤ libsel4.msgMaxLength.toNat :=
    carries.length ▸ fits
  constructor
  · rw [lawful.length_transfer info registers receiver isShort, carries.length]
  · intro i word isWord
    have less : i < (libsel4.messageInfoGetLength info).toNat :=
      carries.length ▸ (List.getElem?_eq_some_iff.mp isWord).1
    rw [lawful.copied info registers receiver isShort i less]
    exact carries.holds i word isWord

/-- The registers are read in order up to the length. -/
theorem receivingImpl_delivers {length : Nat} (isLength : length = cursor + words.length)
    (fits : length ≤ libsel4.msgMaxLength.toNat)
    (holds : ∀ i word, words[i]? = some word → registers (cursor + i) = word) :
    (receivingImpl (ε := ε) libsel4 registers).Delivers words ⟨length, cursor⟩ := by
  induction words generalizing cursor with
  | nil => trivial
  | cons word words ih =>
      rw [List.length_cons] at isLength
      have isMore : cursor ≠ length := by omega
      have isRegister : cursor < libsel4.msgMaxLength.toNat := by omega
      have isFirst : registers cursor = word := holds 0 word rfl
      refine ⟨⟨length, cursor + 1⟩, ?_, ?_⟩
      · unfold receivingImpl
        dsimp only
        rw [Exec.get_bind, Exec.assert_bind isMore, Exec.bind_of_ok (messageRegister_eq isRegister),
          isFirst]
        rfl
      · apply ih (by omega)
        intro i other isOther
        have isLater : cursor + 1 + i = cursor + (i + 1) := by omega
        rw [isLater]
        exact holds (i + 1) other isOther

theorem Carries.delivers {info : libsel4.MessageInfo} (carries : Carries libsel4 words info registers)
    (fits : words.length ≤ libsel4.msgMaxLength.toNat) :
    (receivingImpl (ε := ε) libsel4 registers).Delivers words
      ⟨(libsel4.messageInfoGetLength info).toNat, 0⟩ := by
  apply receivingImpl_delivers (by rw [carries.length, Nat.zero_add]) (carries.length ▸ fits)
  intro i word isWord
  rw [Nat.zero_add]
  exact carries.holds i word isWord

theorem Carries.received {info : libsel4.MessageInfo}
    (carries : Carries libsel4 (wordsOf bytes) info registers)
    (fits : (wordsOf bytes).length ≤ libsel4.msgMaxLength.toNat)
    (isBytes : postcard.toAllocvec value = some bytes) (restores : postcard.Restores value) :
    (ReceivingImpl.complete libsel4 postcard info : Exec ε Registers α) registers =
      .ok value registers := by
  obtain ⟨final, run⟩ := recv_eq isBytes restores carries.length (carries.delivers (ε := ε) fits)
  unfold ReceivingImpl.complete
  rw [Exec.get_bind]
  exact Exec.on_eq_ok.mpr ⟨⟨final, run⟩, rfl⟩

theorem Carries.down {info : libsel4.MessageInfo} (carries : Carries libsel4 words info registers)
    (fits : words.length ≤ libsel4.msgMaxLength.toNat) :
    (Proxy.down libsel4 info : Exec ε Registers _) registers = .ok words registers := by
  have isLength : (List.range (libsel4.messageInfoGetLength info).toNat).length = words.length := by
    rw [List.length_range, carries.length]
  obtain ⟨final, run⟩ := readEach_eq isLength (carries.delivers (ε := ε) fits) []
  rw [List.nil_append, List.flatMap_singleton'] at run
  unfold Proxy.down
  rw [Exec.get_bind]
  exact Exec.on_eq_ok.mpr ⟨⟨final, run⟩, rfl⟩

end Messages

end IceCap.Rpc
