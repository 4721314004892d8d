import IceCap.Library.Loop
import IceCap.Library.Words

/-!
# Values as lists of parameters

A value is sent as its serialization, in words, and received from the words
that are left to read.  `Postcard` is the serialization of a type's values.

A method that only a sender or a receiver has is an operation on its state;
what the two carry out on vectors and on slices is here.
-/

set_option autoImplicit false

namespace IceCap.Rpc

open IceCap.Library

abbrev ParameterValue := UInt64

structure Receiving (ε σ : Type) where
  readValue : Exec ε σ ParameterValue
  remaining : σ → Nat

structure Sending (ε σ : Type) where
  writeValue : ParameterValue → Exec ε σ Unit

/-- The serialization of a type, where it has one, and what bytes are deserialized to. -/
structure Postcard (α : Type) where
  toAllocvec : α → Option (List UInt8)
  fromBytes : List UInt8 → Option α

/-- The value is got back from its serialization with up to seven zero bytes behind it. -/
def Postcard.Restores {α : Type} (postcard : Postcard α) (value : α) : Prop :=
  ∃ bytes, postcard.toAllocvec value = some bytes ∧
    ∀ padding ≤ 7, postcard.fromBytes (bytes ++ List.replicate padding 0) = some value

section Methods
variable {ε σ α : Type} (postcard : Postcard α)

def send (sending : Sending ε σ) (value : α) : Exec ε σ Unit := do
  let bytes ← Exec.unwrap (postcard.toAllocvec value)
  let numParameters := (bytes.length + 8 - 1) / 8
  let bytes := resizeWith (numParameters * 8) 0 bytes
  Exec.assert ((remainder 8 bytes).length = 0)
  Exec.forEach (chunksExact 8 bytes) fun chunk => do
    Exec.assert (chunk.length = 8)
    sending.writeValue (wordOf chunk)

def recv (receiving : Receiving ε σ) : Exec ε σ α := do
  let start ← Exec.get
  let bytes ← Exec.foldEach (List.range (receiving.remaining start)) [] fun bytes _ => do
    let value ← receiving.readValue
    pure (bytes ++ bytesOf value)
  Exec.unwrap (postcard.fromBytes bytes)

/-- `impl Sending for Vec<ParameterValue>` -/
def vecSending : Sending ε (List ParameterValue × σ) where
  writeValue value := Exec.modify fun state => (state.1 ++ [value], state.2)

/-- `impl Receiving for SliceReader`. What is read first is in front. -/
def sliceReader : Receiving ε (List ParameterValue) where
  readValue := do
    let unread ← Exec.get
    let value ← Exec.unwrap unread.head?
    Exec.modify List.tail
    pure value
  remaining := List.length

def sendToVec (value : α) : Exec ε σ (List ParameterValue) := do
  let sent ← Exec.own [] (send postcard vecSending value)
  pure sent.2

def recvFromSlice (parameters : List ParameterValue) : Exec ε σ α :=
  Exec.on parameters (recv postcard sliceReader)

end Methods

/-! ## Sending -/

section Send
variable {ε σ α : Type} {postcard : Postcard α} {value : α} {bytes : List UInt8} {state : σ}

/-- What is sent are the words of the serialization. -/
theorem send_eq {sending : Sending ε σ} (isBytes : postcard.toAllocvec value = some bytes) :
    send postcard sending value state =
      Exec.forEach (wordsOf bytes) sending.writeValue state := by
  have isWhole : (remainder 8 (resizeWith ((bytes.length + 8 - 1) / 8 * 8) 0 bytes)).length = 0 :=
    congrArg List.length (remainder_padded bytes)
  have writes : ∀ (chunks : List (List UInt8)) (state : σ), (∀ chunk ∈ chunks, chunk.length = 8) →
      Exec.forEach chunks (fun chunk => do
        Exec.assert (chunk.length = 8)
        sending.writeValue (wordOf chunk)) state =
      Exec.forEach (chunks.map wordOf) sending.writeValue state := by
    intro chunks
    induction chunks with
    | nil => exact fun _ _ => rfl
    | cons chunk chunks ih =>
        intro state areWords
        rw [List.map_cons, Exec.forEach_cons, Exec.forEach_cons, Exec.bind_assoc,
          Exec.assert_bind (areWords chunk List.mem_cons_self), Exec.bind_apply, Exec.bind_apply]
        have rest := fun middle => ih middle fun other member => areWords other (List.mem_cons_of_mem _ member)
        cases sending.writeValue (wordOf chunk) state with
        | ok done middle => exact rest middle
        | err error middle => rfl
        | panic => rfl
  unfold send
  rw [Exec.unwrap_bind isBytes, Exec.assert_bind isWhole]
  exact writes _ state fun chunk => length_of_mem_chunksExact

theorem writeAll_vec (words sent : List ParameterValue) :
    Exec.forEach words (vecSending (ε := ε)).writeValue (sent, state) = .ok () (sent ++ words, state) := by
  induction words generalizing sent with
  | nil => rw [List.append_nil]; rfl
  | cons word words ih =>
      have first : (vecSending (ε := ε)).writeValue word (sent, state) = .ok () (sent ++ [word], state) := rfl
      rw [Exec.forEach_cons, Exec.bind_of_ok first, ih, List.append_assoc]
      rfl

theorem sendToVec_eq (isBytes : postcard.toAllocvec value = some bytes) :
    (sendToVec postcard value : Exec ε σ (List ParameterValue)) state = .ok (wordsOf bytes) state := by
  have run : send postcard vecSending value (([] : List ParameterValue), state) =
      (.ok () (wordsOf bytes, state) : Outcome ε (List ParameterValue × σ) Unit) :=
    (send_eq isBytes).trans (writeAll_vec (wordsOf bytes) [])
  exact Exec.own_bind run

end Send

/-! ## Receiving -/

section Receive
variable {ε σ α : Type} {postcard : Postcard α} {value : α} {bytes : List UInt8} {state : σ}

/-- The words are read one after the other. -/
def Receiving.Delivers (receiving : Receiving ε σ) : List ParameterValue → σ → Prop
  | [], _ => True
  | word :: words, state =>
      ∃ next, receiving.readValue state = .ok word next ∧ receiving.Delivers words next

/-- A loop that collects something for every word it reads. -/
theorem readEach_eq {γ : Type} {receiving : Receiving ε σ} {collect : ParameterValue → List γ}
    {rounds : List Nat} {words : List ParameterValue} (isLength : rounds.length = words.length)
    (delivers : receiving.Delivers words state) (read : List γ) :
    ∃ final, Exec.foldEach rounds read (fun read _ => do
      let value ← receiving.readValue
      pure (read ++ collect value)) state = .ok (read ++ words.flatMap collect) final := by
  induction words generalizing rounds state read with
  | nil =>
      obtain rfl := List.eq_nil_of_length_eq_zero isLength
      exact ⟨state, by rw [List.flatMap_nil, List.append_nil]; rfl⟩
  | cons word words ih =>
      obtain ⟨next, isRead, delivers⟩ := delivers
      obtain ⟨round, rounds, rfl⟩ := List.exists_cons_of_length_eq_add_one isLength
      obtain ⟨final, run⟩ := ih (Nat.succ.inj isLength) delivers (read ++ collect word)
      refine ⟨final, ?_⟩
      rw [Exec.foldEach_cons, Exec.bind_assoc, Exec.bind_of_ok isRead, Exec.pure_value_bind, run,
        List.flatMap_cons, List.append_assoc]

theorem recv_eq {receiving : Receiving ε σ} (isBytes : postcard.toAllocvec value = some bytes)
    (restores : postcard.Restores value)
    (isRemaining : receiving.remaining state = (wordsOf bytes).length)
    (delivers : receiving.Delivers (wordsOf bytes) state) :
    ∃ final, recv postcard receiving state = .ok value final := by
  obtain ⟨other, isOther, restored⟩ := restores
  obtain rfl := Option.some.inj (isOther.symm.trans isBytes)
  have isLength : (List.range (receiving.remaining state)).length = (wordsOf other).length := by
    rw [List.length_range, isRemaining]
  obtain ⟨final, run⟩ := readEach_eq isLength delivers []
  obtain ⟨padding, few, isPadded⟩ := padded_eq other
  rw [List.nil_append, bytesOf_wordsOf, isPadded] at run
  refine ⟨final, ?_⟩
  unfold recv
  rw [Exec.get_bind, Exec.bind_of_ok run]
  exact Exec.unwrap_eq_ok.mpr ⟨restored padding few, rfl⟩

theorem sliceReader_delivers (words : List ParameterValue) :
    (sliceReader (ε := ε)).Delivers words words := by
  induction words with
  | nil => trivial
  | cons word words ih => exact ⟨words, rfl, ih⟩

theorem recvFromSlice_eq (isBytes : postcard.toAllocvec value = some bytes)
    (restores : postcard.Restores value) :
    (recvFromSlice postcard (wordsOf bytes) : Exec ε σ α) state = .ok value state := by
  obtain ⟨final, run⟩ := recv_eq isBytes restores rfl (sliceReader_delivers (ε := ε) (wordsOf bytes))
  exact Exec.on_eq_ok.mpr ⟨⟨final, run⟩, rfl⟩

end Receive

end IceCap.Rpc
