import IceCap.Library.Exec

/-!
# Formats that are written and read back

A codec writes a value behind what has been written so far, and reads one from
the front of what there is to read.  What it is to do is a `Spec`: the bytes of
every value, the values that it writes at all, and those of them that it reads
again.  `Meets` is the relation between the two, and the rest of the module
shows that it is kept when codecs are put together.
-/

set_option autoImplicit false

namespace IceCap.Library

/-- The state of `encode` is what has been written, that of `decode` what has not been read. -/
structure Codec (ε α : Type) where
  encode : α → Exec ε (List UInt8) Unit
  decode : Exec ε (List UInt8) α

namespace Codec

variable {ε α β : Type}

structure Spec (α : Type) where
  bytes : α → List UInt8
  Fits : α → Prop
  Kept : α → Prop

/-- A reader gets as many bytes as it asks for, but may get other bytes for the same value: `consumes`
speaks of their number only. -/
structure Meets (codec : Codec ε α) (spec : Spec α) : Prop where
  writes : ∀ value out, spec.Fits value → codec.encode value out = .ok () (out ++ spec.bytes value)
  refuses : ∀ value out, ¬ spec.Fits value → ∃ error left, codec.encode value out = .err error left
  reads : ∀ value rest, spec.Fits value → spec.Kept value →
    codec.decode (spec.bytes value ++ rest) = .ok value rest
  consumes : ∀ input value rest, codec.decode input = .ok value rest →
    spec.Fits value ∧ spec.Kept value ∧
      ∃ used, input = used ++ rest ∧ used.length = (spec.bytes value).length
  returns : ∀ input, codec.decode input ≠ .panic

section RoundTrip
variable {codec : Codec ε α} {spec : Spec α} (meets : codec.Meets spec) {value : α}
include meets

theorem Meets.fits_of_encode {out left : List UInt8} (run : codec.encode value out = .ok () left) :
    spec.Fits value ∧ left = out ++ spec.bytes value := by
  by_cases fits : spec.Fits value
  · obtain ⟨_, rfl⟩ := Outcome.ok.inj ((meets.writes value out fits).symm.trans run)
    exact ⟨fits, rfl⟩
  · obtain ⟨_, _, failed⟩ := meets.refuses value out fits
    simp [failed] at run

/-- Exactly the values that are written and kept come back, whatever follows them. -/
theorem Meets.roundTrips_iff :
    (∃ out, codec.encode value [] = .ok () out ∧
      ∀ rest, codec.decode (out ++ rest) = .ok value rest) ↔ spec.Fits value ∧ spec.Kept value := by
  constructor
  · intro ⟨out, written, read⟩
    exact ⟨(meets.fits_of_encode written).1, (meets.consumes _ _ _ (read [])).2.1⟩
  · intro ⟨fits, kept⟩
    exact ⟨spec.bytes value, by simp [meets.writes value [] fits], fun rest =>
      meets.reads value rest fits kept⟩

/-- What is read can be written, in as many bytes, and comes back when these are read. -/
theorem Meets.normalizes {input rest : List UInt8} (read : codec.decode input = .ok value rest) :
    ∃ used out, input = used ++ rest ∧ codec.encode value [] = .ok () out ∧
      out.length = used.length ∧ ∀ more, codec.decode (out ++ more) = .ok value more := by
  obtain ⟨fits, kept, used, isInput, length⟩ := meets.consumes _ _ _ read
  obtain ⟨out, written, readAgain⟩ := meets.roundTrips_iff.mpr ⟨fits, kept⟩
  obtain ⟨_, rfl⟩ := meets.fits_of_encode written
  exact ⟨used, _, isInput, written, by simp [length], readAgain⟩

end RoundTrip

/-! ## One after another -/

def pair (first : Codec ε α) (second : Codec ε β) : Codec ε (α × β) where
  encode value := do
    first.encode value.1
    second.encode value.2
  decode := do
    let one ← first.decode
    let two ← second.decode
    pure (one, two)

def Spec.pair (first : Spec α) (second : Spec β) : Spec (α × β) where
  bytes value := first.bytes value.1 ++ second.bytes value.2
  Fits value := first.Fits value.1 ∧ second.Fits value.2
  Kept value := first.Kept value.1 ∧ second.Kept value.2

theorem Meets.pair {first : Codec ε α} {second : Codec ε β} {firstSpec : Spec α}
    {secondSpec : Spec β} (firstMeets : first.Meets firstSpec)
    (secondMeets : second.Meets secondSpec) :
    (first.pair second).Meets (firstSpec.pair secondSpec) where
  writes value out fits := by
    refine Exec.bind_eq_ok.mpr ⟨(), _, firstMeets.writes value.1 out fits.1, ?_⟩
    rw [secondMeets.writes value.2 _ fits.2, List.append_assoc]
    rfl
  refuses value out unfit := by
    by_cases fits : firstSpec.Fits value.1
    · obtain ⟨error, left, failed⟩ := secondMeets.refuses value.2 (out ++ firstSpec.bytes value.1)
        fun fitsToo => unfit ⟨fits, fitsToo⟩
      exact ⟨error, left, Exec.bind_eq_err.mpr (.inr ⟨(), _, firstMeets.writes value.1 out fits,
        failed⟩)⟩
    · obtain ⟨error, left, failed⟩ := firstMeets.refuses value.1 out fits
      exact ⟨error, left, Exec.bind_eq_err.mpr (.inl failed)⟩
  reads value rest fits kept := by
    simp only [Codec.pair, Exec.bind_eq_ok, Exec.pure_eq_ok, Spec.pair, List.append_assoc]
    exact ⟨value.1, _, firstMeets.reads value.1 _ fits.1 kept.1, value.2, rest,
      secondMeets.reads value.2 rest fits.2 kept.2, rfl, rfl⟩
  consumes input value rest read := by
    simp only [Codec.pair, Exec.bind_eq_ok, Exec.pure_eq_ok] at read
    obtain ⟨one, middle, readOne, two, _, readTwo, rfl, rfl⟩ := read
    obtain ⟨fitsOne, keptOne, usedOne, rfl, lengthOne⟩ := firstMeets.consumes _ _ _ readOne
    obtain ⟨fitsTwo, keptTwo, usedTwo, rfl, lengthTwo⟩ := secondMeets.consumes _ _ _ readTwo
    exact ⟨⟨fitsOne, fitsTwo⟩, ⟨keptOne, keptTwo⟩, usedOne ++ usedTwo,
      (List.append_assoc ..).symm, by simp [Spec.pair, lengthOne, lengthTwo]⟩
  returns input panicked := by
    simp only [Codec.pair, Exec.bind_eq_panic, Exec.pure_ne_panic, and_false, exists_false,
      or_false] at panicked
    rcases panicked with first | ⟨one, middle, _, second⟩
    · exact firstMeets.returns input first
    · exact secondMeets.returns middle second

/-- The same bytes for what can be taken apart and put together again. -/
def map (parts : β → α) (make : α → β) (codec : Codec ε α) : Codec ε β where
  encode value := codec.encode (parts value)
  decode := do
    let found ← codec.decode
    pure (make found)

def Spec.map (parts : β → α) (spec : Spec α) : Spec β where
  bytes value := spec.bytes (parts value)
  Fits value := spec.Fits (parts value)
  Kept value := spec.Kept (parts value)

theorem Meets.map {codec : Codec ε α} {spec : Spec α} {parts : β → α} {make : α → β}
    (meets : codec.Meets spec) (made : ∀ value, make (parts value) = value)
    (taken : ∀ found, parts (make found) = found) :
    (codec.map parts make).Meets (spec.map parts) where
  writes value out fits := meets.writes (parts value) out fits
  refuses value out unfit := meets.refuses (parts value) out unfit
  reads value rest fits kept := by
    simp only [Codec.map, Exec.bind_eq_ok, Exec.pure_eq_ok]
    exact ⟨parts value, rest, meets.reads (parts value) rest fits kept, made value, rfl⟩
  consumes input value rest read := by
    simp only [Codec.map, Exec.bind_eq_ok, Exec.pure_eq_ok] at read
    obtain ⟨found, _, read, rfl, rfl⟩ := read
    simpa only [Spec.map, taken] using meets.consumes input found _ read
  returns input panicked := by
    simp only [Codec.map, Exec.bind_eq_panic, Exec.pure_ne_panic, and_false, exists_false,
      or_false] at panicked
    exact meets.returns input panicked

/-! ## Many of a kind -/

section Many
variable {codec : Codec ε α} {spec : Spec α} (meets : codec.Meets spec)
include meets

theorem Meets.writesEach (values : List α) (out : List UInt8)
    (fits : ∀ value ∈ values, spec.Fits value) :
    Exec.forEach values codec.encode out = .ok () (out ++ values.flatMap spec.bytes) := by
  induction values generalizing out with
  | nil => simp
  | cons value values ih =>
      obtain ⟨fitsFirst, fitsRest⟩ := List.forall_mem_cons.mp fits
      refine Exec.bind_eq_ok.mpr ⟨(), _, meets.writes value out fitsFirst, ?_⟩
      rw [ih _ fitsRest, List.flatMap_cons, List.append_assoc]

theorem Meets.refusesEach (values : List α) (out : List UInt8)
    (unfit : ¬ ∀ value ∈ values, spec.Fits value) :
    ∃ error left, Exec.forEach values codec.encode out = .err error left := by
  induction values generalizing out with
  | nil => simp at unfit
  | cons value values ih =>
      rw [Exec.forEach_cons]
      by_cases fits : spec.Fits value
      · obtain ⟨error, left, failed⟩ := ih (out ++ spec.bytes value) fun fitsRest =>
          unfit (List.forall_mem_cons.mpr ⟨fits, fitsRest⟩)
        exact ⟨error, left, Exec.bind_eq_err.mpr (.inr ⟨(), _, meets.writes value out fits, failed⟩)⟩
      · obtain ⟨error, left, failed⟩ := meets.refuses value out fits
        exact ⟨error, left, Exec.bind_eq_err.mpr (.inl failed)⟩

theorem Meets.readsEach {rounds : List β} (values : List α) (rest : List UInt8)
    (length : rounds.length = values.length) (fits : ∀ value ∈ values, spec.Fits value)
    (kept : ∀ value ∈ values, spec.Kept value) :
    Exec.mapEach rounds (fun _ => codec.decode) (values.flatMap spec.bytes ++ rest) =
      .ok values rest := by
  induction values generalizing rounds with
  | nil =>
      obtain rfl := List.length_eq_zero_iff.mp length
      simp
  | cons value values ih =>
      obtain ⟨round, rounds, rfl⟩ := List.exists_cons_of_length_eq_add_one length
      obtain ⟨fitsFirst, fitsRest⟩ := List.forall_mem_cons.mp fits
      obtain ⟨keptFirst, keptRest⟩ := List.forall_mem_cons.mp kept
      simp only [Exec.mapEach_cons, Exec.bind_eq_ok, Exec.pure_eq_ok, List.flatMap_cons,
        List.append_assoc]
      exact ⟨value, _, meets.reads value _ fitsFirst keptFirst, values, rest,
        ih (Nat.succ.inj length) fitsRest keptRest, rfl, rfl⟩

theorem Meets.consumesEach {rounds : List β} {input rest : List UInt8} {values : List α}
    (read : Exec.mapEach rounds (fun _ => codec.decode) input = .ok values rest) :
    values.length = rounds.length ∧ (∀ value ∈ values, spec.Fits value) ∧
      (∀ value ∈ values, spec.Kept value) ∧
      ∃ used, input = used ++ rest ∧ used.length = (values.flatMap spec.bytes).length := by
  induction rounds generalizing input values with
  | nil =>
      obtain ⟨rfl, rfl⟩ := Exec.pure_eq_ok.mp read
      exact ⟨rfl, by simp, by simp, [], rfl, rfl⟩
  | cons round rounds ih =>
      simp only [Exec.mapEach_cons, Exec.bind_eq_ok, Exec.pure_eq_ok] at read
      obtain ⟨value, middle, readFirst, others, _, readRest, rfl, rfl⟩ := read
      obtain ⟨fits, kept, used, rfl, isLength⟩ := meets.consumes _ _ _ readFirst
      obtain ⟨length, fitsRest, keptRest, usedRest, rfl, isLengthRest⟩ := ih readRest
      exact ⟨by simp [length], List.forall_mem_cons.mpr ⟨fits, fitsRest⟩,
        List.forall_mem_cons.mpr ⟨kept, keptRest⟩, used ++ usedRest,
        (List.append_assoc ..).symm, by simp [isLength, isLengthRest]⟩

theorem Meets.returnsEach (rounds : List β) (input : List UInt8) :
    Exec.mapEach rounds (fun _ => codec.decode) input ≠ .panic := by
  induction rounds generalizing input with
  | nil => exact Exec.pure_ne_panic.mp
  | cons round rounds ih =>
      intro panicked
      simp only [Exec.mapEach_cons, Exec.bind_eq_panic, Exec.pure_ne_panic, and_false, exists_false,
        or_false] at panicked
      rcases panicked with first | ⟨value, middle, _, rest⟩
      · exact meets.returns input first
      · exact ih middle rest

end Many

/-! ## Readers -/

/-- Read so many bytes or none. -/
def readExact (short : ε) (count : Nat) : Exec ε (List UInt8) (List UInt8) := fun input =>
  if count ≤ input.length then .ok (input.take count) (input.drop count) else .err short []

/-- Read to the end. -/
def readToEnd : Exec ε (List UInt8) (List UInt8) := fun input => .ok input []

/-- A reader that comes to the end after so many bytes. -/
def limited (limit : Nat) (call : Exec ε (List UInt8) α) : Exec ε (List UInt8) α := fun input =>
  match call (input.take limit) with
  | .ok value left => .ok value (left ++ input.drop limit)
  | .err error left => .err error (left ++ input.drop limit)
  | .panic => .panic

variable {short : ε} {count limit : Nat} {input rest : List UInt8}

theorem readExact_append {bytes : List UInt8} (length : bytes.length = count) :
    readExact short count (bytes ++ rest) = .ok bytes rest := by
  simp [readExact, ← length]

theorem readExact_eq_ok {bytes : List UInt8} :
    readExact short count input = .ok bytes rest ↔ input = bytes ++ rest ∧ bytes.length = count := by
  constructor
  · intro read
    unfold readExact at read
    split at read
    · next enough =>
        obtain ⟨rfl, rfl⟩ := Outcome.ok.inj read
        exact ⟨(List.take_append_drop ..).symm, by simp [enough]⟩
    · simp at read
  · rintro ⟨rfl, length⟩
    exact readExact_append length

theorem readExact_ne_panic : readExact short count input = .panic ↔ False := by
  unfold readExact
  split <;> simp

theorem readToEnd_eq_ok {bytes : List UInt8} :
    (readToEnd : Exec ε _ _) input = .ok bytes rest ↔ input = bytes ∧ rest = [] := by
  simp [readToEnd, eq_comm]

theorem readToEnd_ne_panic : (readToEnd : Exec ε _ _) input = .panic ↔ False := by
  simp [readToEnd]

section Limited
variable {call : Exec ε (List UInt8) α} {value : α}

theorem limited_eq_ok : limited limit call input = .ok value rest ↔
    ∃ left, call (input.take limit) = .ok value left ∧ left ++ input.drop limit = rest := by
  unfold limited
  cases call (input.take limit) <;> simp [and_assoc]

theorem limited_eq_panic : limited limit call input = .panic ↔ call (input.take limit) = .panic := by
  unfold limited
  cases call (input.take limit) <;> simp

theorem limited_append {bytes left : List UInt8} (length : bytes.length = limit)
    (run : call bytes = .ok value left) :
    limited limit call (bytes ++ rest) = .ok value (left ++ rest) := by
  subst length
  simp [limited, run]

end Limited

end Codec

end IceCap.Library
