import IceCap.Rpc.Endpoint

/-!
# The transport loses nothing

A value arrives as it was sent: over a vector, over the message registers of
two threads and of a proxy between them, and over the seven registers of a
system call.  Message registers and system calls have room for so many words,
and the assertions of the sender panic for a value with more.
-/

set_option autoImplicit false

namespace IceCap.Rpc

open IceCap.Library

/-! ## The registers of a system call -/

/-- What the host hands to the driver, with seven registers. -/
structure Passthru where
  sysId : UInt64
  regs : List UInt64
  deriving DecidableEq, Repr

/-- The registers of a thread whose system call is not one of the kernel's. -/
structure UnknownSyscall where
  x0 : UInt64
  x1 : UInt64
  x2 : UInt64
  x3 : UInt64
  x4 : UInt64
  x5 : UInt64
  x6 : UInt64
  x7 : UInt64
  deriving DecidableEq, Repr

/-- There are eight registers, and another index panics. -/
def UnknownSyscall.gpr (fault : UnknownSyscall) : Nat → Option UInt64
  | 0 => some fault.x0
  | 1 => some fault.x1
  | 2 => some fault.x2
  | 3 => some fault.x3
  | 4 => some fault.x4
  | 5 => some fault.x5
  | 6 => some fault.x6
  | 7 => some fault.x7
  | _ => none

/-- What `userspace_syscall` of the VMM takes for the parameters. -/
def UnknownSyscall.parameters {ε σ : Type} (fault : UnknownSyscall) :
    Exec ε σ (List ParameterValue) :=
  Exec.mapEach (List.range fault.x0.toNat) fun i => Exec.unwrap (fault.gpr (i + 1))

namespace Passthru

/-- `&passthru.regs[1..][..passthru.regs[0] as usize]` -/
def parameters (passthru : Passthru) : Option (List ParameterValue) :=
  match passthru.regs with
  | [] => none
  | length :: rest => if length.toNat ≤ rest.length then some (rest.take length.toNat) else none

/-- The system call has these registers. -/
def IsCall (passthru : Passthru) (fault : UnknownSyscall) : Prop :=
  ∀ i < 7, fault.gpr i = passthru.regs[i]?

section Calls
variable {ε σ α β : Type} (postcard : Postcard α)

/-- What `call_passthru` has filled in before the call of `ioctl_passthru`. -/
def build (sysId : UInt64) (input : α) : Exec ε σ Passthru := do
  let vIn ← sendToVec postcard input
  let length := vIn.length
  Exec.assert (length ≤ 6)
  let vIn := resizeWith 6 0 vIn
  Exec.assert (vIn.length = 6)
  pure { sysId, regs := .ofNat length :: vIn }

/-- `call_passthru`, for a driver that changes the registers in some way. -/
def call (returned : Postcard β) (ioctlPassthru : Passthru → Exec ε σ Passthru) (sysId : UInt64)
    (input : α) : Exec ε σ β := do
  let passthru ← build postcard sysId input
  let passthru ← ioctlPassthru passthru
  let parameters ← Exec.unwrap passthru.parameters
  recvFromSlice returned parameters

end Calls

section Build
variable {ε σ α : Type} {postcard : Postcard α} {value : α} {bytes : List UInt8} {state : σ}
  {sysId : UInt64} {words : List ParameterValue}

/-- A block with the words, and zeros behind them. -/
def of (sysId : UInt64) (words : List ParameterValue) : Passthru :=
  ⟨sysId, .ofNat words.length :: resizeWith 6 0 words⟩

theorem build_eq (isBytes : postcard.toAllocvec value = some bytes)
    (fits : (wordsOf bytes).length ≤ 6) :
    (build postcard sysId value : Exec ε σ Passthru) state = .ok (of sysId (wordsOf bytes)) state := by
  unfold build
  rw [Exec.bind_of_ok (sendToVec_eq isBytes), Exec.assert_bind fits,
    Exec.assert_bind (length_resizeWith 0)]
  rfl

theorem parameters_of (fits : words.length ≤ 6) : (of sysId words).parameters = some words := by
  have isLength : (UInt64.ofNat words.length).toNat = words.length := by
    rw [UInt64.toNat_ofNat', Nat.mod_eq_of_lt (by omega)]
  have isRest := resizeWith_of_le (0 : ParameterValue) fits
  unfold parameters of
  dsimp only
  rw [isLength, length_resizeWith, if_pos fits, isRest, List.take_left' rfl]

/-- The VMM finds the words in the registers behind the first. -/
theorem parameters_of_call {fault : UnknownSyscall} (fits : words.length ≤ 6)
    (isCall : (of sysId words).IsCall fault) :
    (fault.parameters : Exec ε σ _) state = .ok words state := by
  have isFirst : fault.x0 = .ofNat words.length := Option.some.inj (isCall 0 (by decide))
  have isLength : fault.x0.toNat = words.length := by
    rw [isFirst, UInt64.toNat_ofNat', Nat.mod_eq_of_lt (by omega)]
  have isRest := resizeWith_of_le (0 : ParameterValue) fits
  have found : (List.range words.length).map (fun i => fault.gpr (i + 1)) = words.map some := by
    apply List.ext_getElem
    · simp
    · intro i isLess isLess'
      rw [List.length_map] at isLess'
      rw [List.getElem_map, List.getElem_map, List.getElem_range, isCall (i + 1) (by omega), of,
        List.getElem?_cons_succ, isRest, List.getElem?_append_left isLess']
      exact List.getElem?_eq_getElem isLess'
  unfold UnknownSyscall.parameters
  rw [isLength]
  exact Exec.mapEach_unwrap found

end Build

end Passthru

/-! ## Every way of transport -/

section Transport
variable (ε : Type) {α : Type} (libsel4 : Libsel4) (postcard : Postcard α) (value : α)
  (words : List ParameterValue)

/-- The value is got back from the vector it is sent to. -/
def OverVec : Prop :=
  (sendToVec postcard value : Exec ε Unit _) () = .ok words () ∧
    (recvFromSlice postcard words : Exec ε Unit α) () = .ok value ()

/-- A message that a proxy reads as the words, and a server as the value. -/
def Arrives (message : libsel4.MessageInfo × Registers) : Prop :=
  (Proxy.down libsel4 message.1 : Exec ε Registers _) message.2 = .ok words message.2 ∧
    (Server.recv libsel4 postcard message.1 : Exec ε Registers α) message.2 = .ok value message.2

/-- What is sent arrives, and arrives again when it is passed on from the registers it is in. -/
def OverRegisters : Prop :=
  ∀ sender receiver next : Registers, ∃ info sent again,
    (SendingImpl.complete libsel4 postcard value : Exec ε Registers _) sender = .ok info sent ∧
    Arrives ε libsel4 postcard value words (libsel4.transfer info sent receiver) ∧
    (Proxy.up libsel4 words : Exec ε Registers _) (libsel4.transfer info sent receiver).2 =
      .ok again (libsel4.transfer info sent receiver).2 ∧
    Arrives ε libsel4 postcard value words
      (libsel4.transfer again (libsel4.transfer info sent receiver).2 next)

/-- There are message registers for all of the value's words. -/
def Fits {β : Type} (returned : Postcard β) (output : β) : Prop :=
  ∃ bytes, returned.toAllocvec output = some bytes ∧
    (wordsOf bytes).length ≤ libsel4.msgMaxLength.toNat

/-- A call to a server is a call of its handler. -/
def OverCalls : Prop :=
  ∀ {β : Type} (returned : Postcard β) (handler : α → β), returned.Restores (handler value) →
    Fits libsel4 returned (handler value) → ∀ threads, ∃ final,
      (Client.call libsel4 postcard returned (serve libsel4 postcard returned handler) value :
        Exec ε Threads β) threads = .ok (handler value) final

/-- The host's tool and the VMM both read the words from the block. -/
def OverPassthru : Prop :=
  ∀ sysId, ∃ block : Passthru,
    (Passthru.build postcard sysId value : Exec ε Unit _) () = .ok block () ∧
    block.regs.length = 7 ∧ block.parameters = some words ∧
    ∀ fault, block.IsCall fault → (fault.parameters : Exec ε Unit _) () = .ok words ()

variable {ε libsel4 postcard value} {bytes : List UInt8} {registers : Registers}

theorem Carries.arrives {info : libsel4.MessageInfo}
    (carries : Carries libsel4 (wordsOf bytes) info registers)
    (fits : (wordsOf bytes).length ≤ libsel4.msgMaxLength.toNat)
    (isBytes : postcard.toAllocvec value = some bytes) (restores : postcard.Restores value) :
    Arrives ε libsel4 postcard value (wordsOf bytes) (info, registers) :=
  ⟨carries.down fits, carries.received fits isBytes restores⟩

theorem overRegisters (lawful : libsel4.Lawful)
    (fits : (wordsOf bytes).length ≤ libsel4.msgMaxLength.toNat)
    (isBytes : postcard.toAllocvec value = some bytes) (restores : postcard.Restores value) :
    OverRegisters ε libsel4 postcard value (wordsOf bytes) := by
  intro sender receiver next
  have sent := stored_carries lawful fits sender
  have arrived := sent.transfer lawful fits receiver
  obtain ⟨again, isUp, isMessage⟩ := arrived.up (ε := ε) lawful fits
  have passed := isMessage.transfer lawful fits next
  exact ⟨_, _, again, complete_eq isBytes fits, arrived.arrives fits isBytes restores, isUp,
    passed.arrives fits isBytes restores⟩

/-- A server that gets the value replies with what its handler makes of it. -/
theorem serve_eq {β : Type} {returned : Postcard β} {handler : α → β} {output : List UInt8}
    {info : libsel4.MessageInfo} (carries : Carries libsel4 (wordsOf bytes) info registers)
    (fits : (wordsOf bytes).length ≤ libsel4.msgMaxLength.toNat)
    (isBytes : postcard.toAllocvec value = some bytes) (restores : postcard.Restores value)
    (isOutput : returned.toAllocvec (handler value) = some output)
    (outputFits : (wordsOf output).length ≤ libsel4.msgMaxLength.toNat) :
    (serve libsel4 postcard returned handler info : Exec ε Registers _) registers =
      .ok (libsel4.messageInfoNew 0 0 0 (.ofNat (wordsOf output).length))
        (stored (wordsOf output) 0 registers) := by
  have isInput : (Server.recv libsel4 postcard info : Exec ε Registers α) registers =
      .ok value registers := carries.received fits isBytes restores
  unfold serve
  rw [Exec.bind_of_ok isInput]
  exact complete_eq isOutput outputFits

theorem endpointCall_eq {run : libsel4.MessageInfo → Exec ε Registers libsel4.MessageInfo}
    {info reply : libsel4.MessageInfo} {threads : Threads} {served : Registers}
    (isServed : run (libsel4.transfer info threads.client threads.server).1
      (libsel4.transfer info threads.client threads.server).2 = .ok reply served) :
    endpointCall libsel4 run info threads =
      .ok (libsel4.transfer reply served threads.client).1
        ⟨(libsel4.transfer reply served threads.client).2, served⟩ := by
  have isReply : Exec.focus Threads.server (fun server threads => { threads with server })
      (do Exec.modify fun _ => (libsel4.transfer info threads.client threads.server).2
          run (libsel4.transfer info threads.client threads.server).1) threads =
      .ok reply ⟨threads.client, served⟩ := by
    apply Exec.focus_eq_ok.mpr
    exact ⟨served, isServed, rfl⟩
  unfold endpointCall
  rw [Exec.get_bind, Exec.bind_of_ok isReply]
  rfl

theorem overCalls (lawful : libsel4.Lawful)
    (fits : (wordsOf bytes).length ≤ libsel4.msgMaxLength.toNat)
    (isBytes : postcard.toAllocvec value = some bytes) (restores : postcard.Restores value) :
    OverCalls ε libsel4 postcard value := by
  intro β returned handler outputRestores outputFits threads
  obtain ⟨output, isOutput, fitsOutput⟩ := outputFits
  have sent := stored_carries lawful fits threads.client
  have isSent : Exec.focus Threads.client (fun client threads => { threads with client })
      (SendingImpl.complete libsel4 postcard value : Exec ε Registers _) threads =
      .ok (libsel4.messageInfoNew 0 0 0 (.ofNat (wordsOf bytes).length))
        ⟨stored (wordsOf bytes) 0 threads.client, threads.server⟩ :=
    Exec.focus_eq_ok.mpr ⟨_, complete_eq isBytes fits, rfl⟩
  have isServed := serve_eq (ε := ε) (sent.transfer lawful fits threads.server) fits isBytes restores
    isOutput fitsOutput
  have isResult := fun served => ((stored_carries lawful fitsOutput served).transfer lawful fitsOutput
    (stored (wordsOf bytes) 0 threads.client)).received (ε := ε) fitsOutput isOutput outputRestores
  unfold Client.call
  rw [Exec.bind_of_ok isSent, Exec.bind_of_ok (endpointCall_eq isServed)]
  exact ⟨_, Exec.focus_eq_ok.mpr ⟨_, isResult _, rfl⟩⟩

theorem overPassthru (fits : (wordsOf bytes).length ≤ 6)
    (isBytes : postcard.toAllocvec value = some bytes) :
    OverPassthru ε postcard value (wordsOf bytes) := by
  intro sysId
  refine ⟨_, Passthru.build_eq isBytes fits, ?_, Passthru.parameters_of fits,
    fun fault => Passthru.parameters_of_call fits⟩
  rw [Passthru.of, List.length_cons, length_resizeWith]

/-- A value gets across in every way that has room for it, and panics at the sender's assertion where
the message registers have none. -/
theorem transport_lossless (lawful : libsel4.Lawful) (restores : postcard.Restores value) :
    ∃ words, OverVec ε postcard value words ∧
      (words.length ≤ libsel4.msgMaxLength.toNat →
        OverRegisters ε libsel4 postcard value words ∧ OverCalls ε libsel4 postcard value) ∧
      (libsel4.msgMaxLength.toNat < words.length → ∀ registers,
        (SendingImpl.complete libsel4 postcard value : Exec ε Registers _) registers = .panic) ∧
      (words.length ≤ 6 → OverPassthru ε postcard value words) := by
  obtain ⟨bytes, isBytes, restored⟩ := restores
  have restores : postcard.Restores value := ⟨bytes, isBytes, restored⟩
  refine ⟨wordsOf bytes, ⟨sendToVec_eq isBytes, recvFromSlice_eq isBytes restores⟩, ?_, ?_, ?_⟩
  · intro fits
    exact ⟨overRegisters lawful fits isBytes restores, overCalls lawful fits isBytes restores⟩
  · intro tooLong registers
    exact complete_panics isBytes tooLong
  · intro fits
    exact overPassthru fits isBytes

end Transport

/-! ## Arrays of bytes -/

/-- An array is serialized as its bytes, and what is behind them is not looked at. -/
def byteArray (size : Nat) : Postcard { bytes : List UInt8 // bytes.length = size } where
  toAllocvec array := some array.val
  fromBytes bytes :=
    if enough : size ≤ bytes.length then
      some ⟨bytes.take size, by rw [List.length_take, Nat.min_eq_left enough]⟩
    else none

theorem byteArray_restores {size : Nat} (array : { bytes : List UInt8 // bytes.length = size }) :
    (byteArray size).Restores array := by
  obtain ⟨bytes, rfl⟩ := array
  refine ⟨bytes, rfl, fun padding _ => ?_⟩
  have enough : bytes.length ≤ (bytes ++ List.replicate padding 0).length := by
    rw [List.length_append]
    exact Nat.le_add_right _ _
  unfold byteArray
  dsimp only
  rw [dif_pos enough]
  exact congrArg some (Subtype.ext (List.take_left' rfl))

/-- There are 120 message registers.  An info has its length in the lowest seven bits, and the
kernel copies that many registers. -/
def seL4 : Libsel4 where
  MessageInfo := UInt64
  msgMaxLength := 120
  messageInfoNew label capsUnwrapped extraCaps length :=
    label <<< 12 ||| (capsUnwrapped &&& 7) <<< 9 ||| (extraCaps &&& 3) <<< 7 ||| length &&& 127
  messageInfoGetLength info := info &&& 127
  transfer info sender receiver :=
    (info, fun i => if i < (info &&& 127).toNat then sender i else receiver i)

theorem seL4_lawful : seL4.Lawful where
  length_new length few := by
    have isLess : length.toNat < 2 ^ 7 := lt_of_le_of_lt few (by decide)
    have isSame : length &&& 127 = length := by
      apply UInt64.toNat_inj.mp
      rw [UInt64.toNat_and]
      exact (Nat.and_two_pow_sub_one_eq_mod _ 7).trans (Nat.mod_eq_of_lt isLess)
    have isInfo : seL4.messageInfoNew 0 0 0 length = length &&& 127 := by
      change (0 : UInt64) ||| (0 : UInt64) ||| (0 : UInt64) ||| length &&& 127 = length &&& 127
      simp
    have isLength : seL4.messageInfoGetLength (length &&& 127) = length := by
      change (length &&& 127) &&& 127 = length
      rw [isSame, isSame]
    rw [isInfo, isLength]
  length_transfer info sender receiver few := rfl
  copied info sender receiver few i less := if_pos less

theorem transport_lossless_threeBytes :
    wordsOf [1, 2, 3] = [0x030201] ∧
    ∃ words, OverVec Empty (byteArray 3) ⟨[1, 2, 3], rfl⟩ words ∧
      (words.length ≤ 120 → OverRegisters Empty seL4 (byteArray 3) ⟨[1, 2, 3], rfl⟩ words ∧
        OverCalls Empty seL4 (byteArray 3) ⟨[1, 2, 3], rfl⟩) ∧
      (120 < words.length → ∀ registers,
        (SendingImpl.complete seL4 (byteArray 3) ⟨[1, 2, 3], rfl⟩ : Exec Empty Registers _) registers =
          .panic) ∧
      (words.length ≤ 6 → OverPassthru Empty (byteArray 3) ⟨[1, 2, 3], rfl⟩ words) :=
  ⟨by decide, transport_lossless seL4_lawful (byteArray_restores ⟨[1, 2, 3], rfl⟩)⟩

/-- An array of 124 words. -/
def longArray : { bytes : List UInt8 // bytes.length = 992 } :=
  ⟨List.replicate 992 0, List.length_replicate⟩

/-- There is no message register for its 121st word. -/
theorem call_longArray_panics :
    (byteArray 992).Restores longArray ∧
      (Client.call seL4 (byteArray 992) (byteArray 992)
        (serve seL4 (byteArray 992) (byteArray 992) id) longArray : Exec Empty Threads _)
        ⟨fun _ => 0, fun _ => 0⟩ = .panic := by
  refine ⟨byteArray_restores longArray, ?_⟩
  have tooLong : seL4.msgMaxLength.toNat < (wordsOf longArray.val).length := by
    rw [length_wordsOf, longArray.property]
    decide
  have panics : (SendingImpl.complete seL4 (byteArray 992) longArray : Exec Empty Registers _)
      (fun _ => 0) = .panic := complete_panics rfl tooLong
  unfold Client.call
  rw [Exec.bind_apply, Exec.focus, panics]

end IceCap.Rpc
