import IceCap.Resources.Transport

/-!
# The bulk region

The handlers that take a part of the bulk region.  Offset and size are words of
the host, and in the release profile their sum wraps.  The region is what is at
the first bytes of `memory`, and what is behind them is not the host's.

`take_from_bytes` is that of `postcard`, and what it leaves is the end of what
it was given.
-/

set_option autoImplicit false

namespace IceCap.Resources

open IceCap.Library IceCap.Sel4 IceCap.Dyndl

/-- A slice of the memory, by where it starts. -/
structure Slice where
  start : Nat
  bytes : List UInt8
  deriving DecidableEq, Repr

namespace Slice

def stop (slice : Slice) : Nat := slice.start + slice.bytes.length

/-- `split_at` panics beyond the end. -/
def splitAt (slice : Slice) (mid : Nat) : Option (Slice × Slice) :=
  if mid ≤ slice.bytes.length then
    some (⟨slice.start, slice.bytes.take mid⟩, ⟨slice.start + mid, slice.bytes.drop mid⟩)
  else none

/-- The end of a slice that has so many bytes. -/
def lastBytes (slice : Slice) (bytes : List UInt8) : Slice :=
  ⟨slice.start + (slice.bytes.length - bytes.length), bytes⟩

def Within (inner outer : Slice) : Prop := outer.start ≤ inner.start ∧ inner.stop ≤ outer.stop

variable {first second third : Slice}

theorem Within.trans (inner : Within first second) (outer : Within second third) :
    Within first third :=
  ⟨outer.1.trans inner.1, inner.2.trans outer.2⟩

theorem splitAt_within {mid : Nat} (isSplit : first.splitAt mid = some (second, third)) :
    Within second first ∧ Within third first ∧ third.bytes.length = first.bytes.length - mid := by
  unfold splitAt at isSplit
  split at isSplit
  · next fits =>
      obtain ⟨rfl, rfl⟩ := Prod.mk.inj (Option.some.inj isSplit)
      refine ⟨⟨le_refl _, ?_⟩, ⟨Nat.le_add_right _ _, ?_⟩, List.length_drop⟩
      · simp only [stop, List.length_take]
        omega
      · simp only [stop, List.length_drop]
        omega
  · cases isSplit

theorem lastBytes_within {bytes : List UInt8} (fewer : bytes.length ≤ first.bytes.length) :
    Within (first.lastBytes bytes) first := by
  simp only [Within, stop, lastBytes]
  omega

end Slice

/-- At least one byte is taken, and the end is left. -/
def HeaderCodec.Consumes (codec : HeaderCodec) : Prop :=
  ∀ bytes header rest, codec.takeFromBytes bytes = some (header, rest) →
    rest <:+ bytes ∧ rest.length < bytes.length

namespace ResourceServer

variable {ε σ : Type} (codec : HeaderCodec) (call : FillChunkHeader → Slice → Exec ε σ Unit)

/-- One round of the loop over a slice, which hands on what it has not gone through. -/
def fillRound (aggregateContent : Slice) : Exec ε σ Slice := do
  let (header, rest) ← Exec.unwrap (codec.takeFromBytes aggregateContent.bytes)
  let (content, rest) ← Exec.unwrap ((aggregateContent.lastBytes rest).splitAt header.size)
  call header content
  pure rest

/-- At most so many rounds. -/
def fillRounds : Nat → Slice → Exec ε σ Slice
  | 0, aggregateContent => pure aggregateContent
  | rounds + 1, aggregateContent =>
      if aggregateContent.bytes = [] then pure aggregateContent
      else do
        let rest ← fillRound codec call aggregateContent
        fillRounds rounds rest

/-- The slice of a handler, once its assertion has passed. -/
def bulkData (memory : Nat → UInt8) (bulkRegionSize bulkDataOffset bulkDataSize : UInt64) :
    Option Slice :=
  if bulkDataOffset + bulkDataSize ≤ bulkRegionSize then
    some ⟨bulkDataOffset.toNat,
      (List.range bulkDataSize.toNat).map fun i => memory (bulkDataOffset.toNat + i)⟩
  else none

section Handlers
variable {K E : Type} (services : Services K E) (memory : Nat → UInt8)
  (bulkRegionSize : UInt64) (realmId : RealmId) (bulkDataOffset bulkDataSize : UInt64)

def specChunk (offset : Nat) : Exec Failure (ResourceServer K E) Unit := do
  let content ← Exec.unwrap (bulkData memory bulkRegionSize bulkDataOffset bulkDataSize)
  incorporateSpecChunk realmId offset content.bytes

/-- A round takes a byte or more, so there are no more rounds than bytes. -/
def fillChunks : Exec Failure (ResourceServer K E) Unit := do
  let aggregateContent ←
    Exec.unwrap (bulkData memory bulkRegionSize bulkDataOffset bulkDataSize)
  let _ ← fillRounds codec (fun header content =>
      realizeContinue services realmId header.objectIndex header.fillEntryIndex content.bytes)
    aggregateContent.bytes.length aggregateContent
  pure ()

end Handlers

/-! ## The loop stays inside its slice -/

section Loop
variable {codec : HeaderCodec} {call other : FillChunkHeader → Slice → Exec ε σ Unit}
  {slice rest : Slice} {state final : σ} {rounds : Nat}

/-- Where a round gets to its call. -/
theorem fillRound_eq_ok (consumes : codec.Consumes)
    (run : fillRound codec call slice state = .ok rest final) :
    Slice.Within rest slice ∧ rest.bytes.length < slice.bytes.length := by
  simp only [fillRound, Exec.bind_eq_ok, Exec.unwrap_eq_ok, Exec.pure_eq_ok] at run
  obtain ⟨⟨header, left⟩, _, ⟨isTaken, rfl⟩, ⟨content, after⟩, _, ⟨isSplit, rfl⟩, _, _, _, rfl, _⟩ := run
  obtain ⟨_, fewer⟩ := consumes _ _ _ isTaken
  obtain ⟨_, within, isLength⟩ := Slice.splitAt_within isSplit
  refine ⟨within.trans (Slice.lastBytes_within (Nat.le_of_lt fewer)), ?_⟩
  exact isLength ▸ lt_of_le_of_lt (Nat.sub_le _ _) fewer

/-- A round hands out no slice but one within its own. -/
theorem fillRound_congr (consumes : codec.Consumes)
    (same : ∀ header content, Slice.Within content slice → call header content = other header content) :
    fillRound codec call slice = fillRound codec other slice := by
  funext state
  unfold fillRound
  cases isTaken : codec.takeFromBytes slice.bytes with
  | none => rfl
  | some taken =>
      obtain ⟨header, left⟩ := taken
      have fewer := (consumes slice.bytes header left isTaken).2
      rw [Exec.unwrap_bind rfl, Exec.unwrap_bind rfl]
      simp only
      cases isSplit : (slice.lastBytes left).splitAt header.size with
      | none => rfl
      | some parts =>
          obtain ⟨content, rest⟩ := parts
          have within := (Slice.splitAt_within isSplit).1
          rw [Exec.unwrap_bind rfl, Exec.unwrap_bind rfl]
          simp only
          rw [same header content (within.trans (Slice.lastBytes_within (Nat.le_of_lt fewer)))]

theorem fillRounds_ends (consumes : codec.Consumes) (enough : slice.bytes.length ≤ rounds)
    (run : fillRounds codec call rounds slice state = .ok rest final) : rest.bytes = [] := by
  induction rounds generalizing slice state with
  | zero =>
      obtain ⟨rfl, _⟩ := Exec.pure_eq_ok.mp run
      exact List.eq_nil_of_length_eq_zero (Nat.le_zero.mp enough)
  | succ rounds ih =>
      rw [fillRounds] at run
      split at run
      · next isEmpty =>
          obtain ⟨rfl, _⟩ := Exec.pure_eq_ok.mp run
          exact isEmpty
      · obtain ⟨next, middle, roundRun, run⟩ := Exec.bind_eq_ok.mp run
        have fewer := (fillRound_eq_ok consumes roundRun).2
        exact ih (by omega) run

theorem fillRounds_congr (consumes : codec.Consumes)
    (same : ∀ header content, Slice.Within content slice → call header content = other header content) :
    fillRounds codec call rounds slice = fillRounds codec other rounds slice := by
  induction rounds generalizing slice with
  | zero => rfl
  | succ rounds ih =>
      rw [fillRounds, fillRounds]
      split
      · rfl
      · funext state
        rw [fillRound_congr consumes same, Exec.bind_apply, Exec.bind_apply]
        cases run : fillRound codec other slice state with
        | ok next middle =>
            have within := (fillRound_eq_ok consumes run).1
            exact congrFun (ih fun header content inner => same header content (inner.trans within)) middle
        | err error middle => rfl
        | panic => rfl

end Loop

/-! ## Requests whose sum does not wrap -/

section Receive
variable {K E : Type} {services : Services K E} {codec : HeaderCodec} {realmId : RealmId}
  {memory : Nat → UInt8} {bulkRegionSize bulkDataOffset bulkDataSize : UInt64}

/-- The bytes at the start of the memory. -/
def bulkRegion (memory : Nat → UInt8) (bulkRegionSize : UInt64) : List UInt8 :=
  (List.range bulkRegionSize.toNat).map memory

theorem bulkRegion_slice {offset size : Nat} (inside : offset + size ≤ bulkRegionSize.toNat) :
    ((bulkRegion memory bulkRegionSize).drop offset).take size =
      (List.range size).map fun i => memory (offset + i) := by
  apply List.ext_getElem
  · simp only [bulkRegion, List.length_take, List.length_drop, List.length_map, List.length_range]
    omega
  · intro i isLess isLess'
    simp [bulkRegion]

theorem continueEach_fillRounds (consumes : codec.Consumes) {rounds : Nat} {slice : Slice}
    (enough : slice.bytes.length ≤ rounds) :
    continueEach services codec realmId rounds slice.bytes = (do
      let _ ← fillRounds codec (fun header content =>
          realizeContinue services realmId header.objectIndex header.fillEntryIndex content.bytes)
        rounds slice
      pure ()) := by
  induction rounds generalizing slice with
  | zero =>
      have isEmpty := List.eq_nil_of_length_eq_zero (Nat.le_zero.mp enough)
      rw [isEmpty]
      rfl
  | succ rounds ih =>
      rw [fillRounds]
      split
      · next isEmpty =>
          rw [isEmpty]
          rfl
      · next notEmpty =>
          obtain ⟨first, others, isCons⟩ := List.exists_cons_of_ne_nil notEmpty
          rw [isCons, continueEach, ← isCons, Exec.bind_assoc, fillRound, Exec.bind_assoc]
          funext state
          cases isTaken : codec.takeFromBytes slice.bytes with
          | none => rfl
          | some taken =>
              obtain ⟨header, left⟩ := taken
              have fewer := (consumes slice.bytes header left isTaken).2
              rw [Exec.unwrap_bind rfl, Exec.unwrap_bind rfl]
              simp only
              by_cases fits : header.size ≤ left.length
              · have isSplit : (slice.lastBytes left).splitAt header.size =
                    some (⟨_, left.take header.size⟩, ⟨_, left.drop header.size⟩) := if_pos fits
                rw [Exec.assert_bind fits, isSplit, Exec.bind_assoc, Exec.unwrap_bind rfl]
                simp only [Exec.bind_assoc]
                rw [Exec.bind_apply, Exec.bind_apply]
                cases run : realizeContinue services realmId header.objectIndex
                    header.fillEntryIndex (left.take header.size) state with
                | ok value middle =>
                    have less : (left.drop header.size).length ≤ rounds := by
                      rw [List.length_drop]
                      omega
                    exact congrFun (@ih ⟨_, left.drop header.size⟩ less) middle
                | err error middle => rfl
                | panic => rfl
              · have isSplit : (slice.lastBytes left).splitAt header.size = none := if_neg fits
                have fails : (Exec.assert (header.size ≤ left.length) :
                    Exec Failure (ResourceServer K E) Unit) state = .panic := if_neg fits
                rw [isSplit, Exec.bind_apply, fails]
                rfl
          · exact nofun

/-- The assertion and the slice, on bounds that do not wrap. -/
theorem assert_bulkData {ε σ : Type} (small : bulkDataOffset.toNat + bulkDataSize.toNat < 2 ^ 64)
    (next : Slice → Exec ε σ Unit) :
    (do
      Exec.assert (bulkDataOffset.toNat + bulkDataSize.toNat ≤
        (bulkRegion memory bulkRegionSize).length)
      next ⟨bulkDataOffset.toNat,
        ((bulkRegion memory bulkRegionSize).drop bulkDataOffset.toNat).take bulkDataSize.toNat⟩) =
    (do
      let slice ← Exec.unwrap (bulkData memory bulkRegionSize bulkDataOffset bulkDataSize)
      next slice) := by
  have isSum := UInt64.toNat_add bulkDataOffset bulkDataSize
  have isLength : (bulkRegion memory bulkRegionSize).length = bulkRegionSize.toNat := by
    simp [bulkRegion]
  rw [isLength, bulkData]
  funext state
  by_cases passes : bulkDataOffset + bulkDataSize ≤ bulkRegionSize
  · have isLess := UInt64.le_iff_toNat_le.mp passes
    have inside : bulkDataOffset.toNat + bulkDataSize.toNat ≤ bulkRegionSize.toNat := by omega
    rw [if_pos passes, Exec.assert_bind inside, Exec.unwrap_bind rfl, bulkRegion_slice inside]
  · have isMore := UInt64.lt_iff_toNat_lt.mp (UInt64.not_le.mp passes)
    have fails : (Exec.assert (bulkDataOffset.toNat + bulkDataSize.toNat ≤
        bulkRegionSize.toNat) : Exec ε σ Unit) state = .panic := if_neg (by omega)
    rw [if_neg passes, Exec.bind_apply, fails]
    rfl

/-- The handlers are those that the host's tool is served by. -/
theorem receive_eq_specChunk (small : bulkDataOffset.toNat + bulkDataSize.toNat < 2 ^ 64)
    (nodeIndex offset : Nat) :
    receive services codec nodeIndex (bulkRegion memory bulkRegionSize)
        (.specChunk realmId bulkDataOffset.toNat bulkDataSize.toNat offset) =
      specChunk memory bulkRegionSize realmId bulkDataOffset bulkDataSize offset :=
  assert_bulkData small fun content => incorporateSpecChunk realmId offset content.bytes

theorem receive_eq_fillChunks (consumes : codec.Consumes)
    (small : bulkDataOffset.toNat + bulkDataSize.toNat < 2 ^ 64) (nodeIndex : Nat) :
    receive services codec nodeIndex (bulkRegion memory bulkRegionSize)
        (.fillChunks realmId bulkDataOffset.toNat bulkDataSize.toNat) =
      fillChunks codec services memory bulkRegionSize realmId bulkDataOffset bulkDataSize := by
  unfold fillChunks
  refine Eq.trans ?_ (assert_bulkData small _)
  refine bind_congr fun _ => ?_
  exact @continueEach_fillRounds K E services codec realmId consumes _ ⟨_, _⟩ (le_refl _)

end Receive

/-! ## Bounds -/

/-- What a handler is to make sure of: its slice is in the region, the loop over it ends, and hands out
no slice but one within it. -/
structure Bounded (codec : HeaderCodec) (bulkRegionSize bulkDataOffset bulkDataSize : UInt64) :
    Prop where
  inside : ∀ memory slice,
    bulkData memory bulkRegionSize bulkDataOffset bulkDataSize = some slice →
      slice.start = bulkDataOffset.toNat ∧ slice.bytes.length = bulkDataSize.toNat ∧
        slice.stop ≤ bulkRegionSize.toNat
  ends : ∀ memory slice,
    bulkData memory bulkRegionSize bulkDataOffset bulkDataSize = some slice →
      ∀ (ε σ : Type) (call : FillChunkHeader → Slice → Exec ε σ Unit) state rest final,
        fillRounds codec call slice.bytes.length slice state = .ok rest final → rest.bytes = []
  handed : ∀ memory slice,
    bulkData memory bulkRegionSize bulkDataOffset bulkDataSize = some slice →
      ∀ (ε σ : Type) (call other : FillChunkHeader → Slice → Exec ε σ Unit),
        (∀ header content, Slice.Within content slice →
          call header content = other header content) →
        fillRounds codec call slice.bytes.length slice =
          fillRounds codec other slice.bytes.length slice

/-- The handlers stay within the bulk region if and only if the sum that they check does not wrap.
Then they are the handlers that see nothing but the region. -/
theorem bounded_iff {codec : HeaderCodec} (consumes : codec.Consumes)
    (bulkRegionSize bulkDataOffset bulkDataSize : UInt64) :
    (Bounded codec bulkRegionSize bulkDataOffset bulkDataSize ↔
      bulkRegionSize < bulkDataOffset + bulkDataSize ∨
        bulkDataOffset.toNat + bulkDataSize.toNat < 2 ^ 64) ∧
    (bulkDataOffset.toNat + bulkDataSize.toNat < 2 ^ 64 →
      ∀ (K E : Type) (services : Services K E) (memory : Nat → UInt8) (realmId : RealmId)
        (nodeIndex : Nat),
        (∀ offset, specChunk memory bulkRegionSize realmId bulkDataOffset bulkDataSize offset =
          receive services codec nodeIndex (bulkRegion memory bulkRegionSize)
            (.specChunk realmId bulkDataOffset.toNat bulkDataSize.toNat offset)) ∧
        fillChunks codec services memory bulkRegionSize realmId bulkDataOffset bulkDataSize =
          receive services codec nodeIndex (bulkRegion memory bulkRegionSize)
            (.fillChunks realmId bulkDataOffset.toNat bulkDataSize.toNat)) := by
  refine ⟨?_, fun small K E services memory realmId nodeIndex =>
    ⟨fun offset => (receive_eq_specChunk small nodeIndex offset).symm,
      (receive_eq_fillChunks consumes small nodeIndex).symm⟩⟩
  have isSum := UInt64.toNat_add bulkDataOffset bulkDataSize
  have isBelow := bulkRegionSize.toNat_lt
  have isSlice : ∀ memory slice,
      bulkData memory bulkRegionSize bulkDataOffset bulkDataSize = some slice →
        slice.start = bulkDataOffset.toNat ∧ slice.bytes.length = bulkDataSize.toNat ∧
          (bulkDataOffset + bulkDataSize).toNat ≤ bulkRegionSize.toNat := by
    intro memory slice isData
    unfold bulkData at isData
    split at isData
    · next passes =>
        obtain rfl := Option.some.inj isData
        exact ⟨rfl, by simp, UInt64.le_iff_toNat_le.mp passes⟩
    · cases isData
  constructor
  · intro bounded
    by_cases passes : bulkDataOffset + bulkDataSize ≤ bulkRegionSize
    · have stops := (bounded.inside (fun _ => 0) _ (if_pos passes)).2.2
      have isLength : (List.range bulkDataSize.toNat).length = bulkDataSize.toNat := List.length_range
      simp only [Slice.stop, List.length_map, isLength] at stops
      exact .inr (by omega)
    · exact .inl (UInt64.not_le.mp passes)
  · intro condition
    refine ⟨?_, ?_, ?_⟩
    · intro memory slice isData
      obtain ⟨isStart, isLength, passes⟩ := isSlice memory slice isData
      refine ⟨isStart, isLength, ?_⟩
      rcases condition with fails | small
      · exact absurd passes (Nat.not_le.mpr (UInt64.lt_iff_toNat_lt.mp fails))
      · rw [Slice.stop, isStart, isLength]
        omega
    · intro memory slice _ ε σ call state rest final run
      exact fillRounds_ends consumes (le_refl _) run
    · intro memory slice _ ε σ call other same
      exact fillRounds_congr consumes same

theorem takeUsize_consumes {bytes rest : List UInt8} {value : Nat}
    (isTaken : takeUsize bytes = some (value, rest)) :
    rest <:+ bytes ∧ rest.length < bytes.length := by
  unfold takeUsize at isTaken
  split at isTaken
  · cases isTaken
  · obtain ⟨_, rfl⟩ := Prod.mk.inj (Option.some.inj isTaken)
    refine ⟨List.drop_suffix _ _, ?_⟩
    rw [List.length_drop]
    omega

theorem exampleCodec_consumes : exampleCodec.Consumes := by
  intro bytes header rest isTaken
  simp only [exampleCodec, Option.bind_eq_bind, Option.bind_eq_some_iff, Option.pure_def,
    Option.some.injEq, Prod.mk.injEq] at isTaken
  obtain ⟨⟨_, first⟩, isFirst, ⟨_, second⟩, isSecond, ⟨_, third⟩, isThird, _, rfl⟩ := isTaken
  have one := takeUsize_consumes isFirst
  have two := takeUsize_consumes isSecond
  have three := takeUsize_consumes isThird
  exact ⟨three.1.trans (two.1.trans one.1), three.2.trans (two.2.trans one.2)⟩

/-- The tool of the host puts its messages at the start of the region. -/
theorem bounded_iff_start : Bounded exampleCodec 4096 0 4096 :=
  (bounded_iff exampleCodec_consumes 4096 0 4096).1.mpr (.inr (by decide))

/-- The last byte before the region is followed by two of its own. -/
theorem wrapped_offset_outside : ¬ Bounded exampleCodec 4096 18446744073709551615 2 := by
  intro bounded
  have stops := (bounded.inside (fun _ => 0) _ (if_pos (by decide))).2.2
  exact absurd stops (by decide)

end ResourceServer

end IceCap.Resources
