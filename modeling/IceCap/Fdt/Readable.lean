import IceCap.Fdt.Total

/-!
# Which blobs can be read

The header's offsets and sizes are used as slice bounds as they are found.
`Readable` says for which blobs that goes well: the blob is rejected before they
are used, or they are within the blob, as far as the reader comes to them.
-/

set_option autoImplicit false

namespace IceCap.Fdt

open IceCap.Library

/-- A byte slice, of a length that a slice can have. -/
structure Blob where
  bytes : List UInt8
  fits : bytes.length < maxSliceLength

/-- `Ok`, or `Err` with the error of the source: there is no panic, and the loops end. -/
def Returns {σ α : Type} (outcome : Outcome Failure σ α) : Prop :=
  Exec.Meets Expected (fun _ _ => True) outcome

def wordAt (buf : List UInt8) (i : Nat) : UInt32 := .ofNat (ofBeBytes ((buf.drop i).take 4))

/-- The header that the first 40 bytes are. -/
def headerOf (dtb : List UInt8) : Header where
  magic := wordAt dtb 0
  totalsize := wordAt dtb 4
  offDtStruct := wordAt dtb 8
  offDtStrings := wordAt dtb 12
  offMemRsvmap := wordAt dtb 16
  version := wordAt dtb 20
  lastCompVersion := wordAt dtb 24
  bootCpuidPhys := wordAt dtb 28
  sizeDtStrings := wordAt dtb 32
  sizeDtStruct := wordAt dtb 36

/-- The blob has a header of the version that is supported. -/
def Recognised (dtb : List UInt8) : Prop :=
  headerSize ≤ dtb.length ∧ (headerOf dtb).magic = magic ∧ (headerOf dtb).version = version ∧
    (headerOf dtb).lastCompVersion = lastCompVersion

/-- The block ends within the blob, and its end is a word of 32 bits. -/
def Contains (dtb : List UInt8) (offset size : UInt32) : Prop :=
  offset.toNat + size.toNat < u32Modulus ∧ offset.toNat + size.toNat ≤ dtb.length

def Readable (dtb : List UInt8) : Prop :=
  Recognised dtb →
    (headerOf dtb).offMemRsvmap.toNat ≤ dtb.length ∧
      (Cursor.TerminatedFrom (dtb.drop (headerOf dtb).offMemRsvmap.toNat) 0 →
        Contains dtb (headerOf dtb).offDtStrings (headerOf dtb).sizeDtStrings ∧
        Contains dtb (headerOf dtb).offDtStruct (headerOf dtb).sizeDtStruct)

instance (dtb : List UInt8) (offset size : UInt32) : Decidable (Contains dtb offset size) :=
  instDecidableAnd

namespace Cursor

variable {checks : Bool} {before : Cursor}

theorem readBeU32_eq (sound : before.Sound) (inside : before.i + 4 ≤ before.buf.length) :
    readBeU32 checks before = .ok (wordAt before.buf before.i) ⟨before.buf, before.i + 4⟩ := by
  have isRead := readBe_eq checks (sound.less (n := 4) (by decide))
  rw [if_pos inside] at isRead
  unfold readBeU32
  rw [Exec.bind_of_ok isRead]
  rfl

theorem start_sound {buf : List UInt8} (fits : buf.length < maxSliceLength) : (start buf).Sound :=
  ⟨fits, Nat.zero_le _⟩

theorem Takes.word {α : Type} {n : Nat} {next : UInt32 → Exec Failure Cursor α} (sound : before.Sound)
    (rest : ∀ word after, after.Sound → Takes n after (next word after)) :
    Takes (4 + n) before ((readBeU32 checks >>= next) before) := by
  apply Takes.bind (readBeU32_takes sound)
  intro word after steps
  exact rest word after steps.2.1

theorem word_bind {α : Type} {dtb : List UInt8} {i : Nat} {next : UInt32 → Exec Failure Cursor α}
    (fits : dtb.length < maxSliceLength) (inside : i + 4 ≤ dtb.length) :
    (readBeU32 checks >>= next) ⟨dtb, i⟩ = next (wordAt dtb i) ⟨dtb, i + 4⟩ := by
  have sound : Sound ⟨dtb, i⟩ := ⟨fits, le_trans (Nat.le_add_right i 4) (le_trans inside (Nat.le_add_right _ 3))⟩
  exact Exec.bind_of_ok (readBeU32_eq sound inside)

theorem readHeader_takes (checks : Bool) (sound : before.Sound) : Takes 40 before (readHeader checks before) := by
  apply Takes.word (n := 36) sound
  intro magic _ sound
  apply Takes.word (n := 32) sound
  intro totalsize _ sound
  apply Takes.word (n := 28) sound
  intro offDtStruct _ sound
  apply Takes.word (n := 24) sound
  intro offDtStrings _ sound
  apply Takes.word (n := 20) sound
  intro offMemRsvmap _ sound
  apply Takes.word (n := 16) sound
  intro version _ sound
  apply Takes.word (n := 12) sound
  intro lastCompVersion _ sound
  apply Takes.word (n := 8) sound
  intro bootCpuidPhys _ sound
  apply Takes.word (n := 4) sound
  intro sizeDtStrings _ sound
  apply Takes.word (n := 0) sound
  intro sizeDtStruct _ sound
  exact Takes.pure sound _

theorem readHeader_eq {dtb : List UInt8} (fits : dtb.length < maxSliceLength)
    (inside : headerSize ≤ dtb.length) :
    readHeader checks (start dtb) = .ok (headerOf dtb) ⟨dtb, headerSize⟩ := by
  have isSize : headerSize = 40 := rfl
  unfold readHeader start
  rw [word_bind fits (by omega), word_bind fits (by omega), word_bind fits (by omega),
    word_bind fits (by omega), word_bind fits (by omega), word_bind fits (by omega),
    word_bind fits (by omega), word_bind fits (by omega), word_bind fits (by omega),
    word_bind fits (by omega)]
  rfl

theorem rsvmapRound_takes {v : List ReserveEntry} (sound : before.Sound) :
    Takes 16 before (rsvmapRound checks v before) := by
  unfold rsvmapRound
  apply Takes.bind (m := 0) (readReserveEntry_takes checks sound)
  intro entry after steps
  split
  · exact Takes.pure steps.2.1 _
  · exact Takes.pure steps.2.1 _

end Cursor

namespace DeviceTree

variable {checks : Bool} {dtb : List UInt8} {α : Type}

/-- A block is sliced out when the blob contains it.  Otherwise its end overflows, and is checked,
or ends up in front of its start, or is behind the end of the blob. -/
theorem slice_block {offset size : UInt32} {next : List UInt8 → Exec Failure Unit α} :
    (add checks u32Modulus offset.toNat size.toNat >>= fun stop =>
      Exec.unwrap (slice dtb offset.toNat stop) >>= next) () =
      if Contains dtb offset size then next ((dtb.drop offset.toNat).take size.toNat) ()
      else .panic := by
  have isWord := size.toNat_lt
  split
  · next contained =>
      have isSlice : slice dtb offset.toNat (offset.toNat + size.toNat) =
          some ((dtb.drop offset.toNat).take size.toNat) := by
        rw [slice, if_pos ⟨Nat.le_add_right _ _, contained.2⟩, Nat.add_sub_cancel_left]
      rw [add_eq contained.1, Exec.pure_value_bind, Exec.unwrap_bind isSlice]
  · next outside =>
      unfold add
      split
      · next less =>
          have isNone : slice dtb offset.toNat (offset.toNat + size.toNat) = none :=
            if_neg fun inside => outside ⟨less, inside.2⟩
          rw [Exec.pure_value_bind, isNone]
          rfl
      · next overflows =>
          split
          · rfl
          · have isInverted : (offset.toNat + size.toNat) % u32Modulus < offset.toNat := by
              have isOffset := offset.toNat_lt
              unfold u32Modulus at overflows
              unfold u32Modulus
              omega
            have isNone : slice dtb offset.toNat ((offset.toNat + size.toNat) % u32Modulus) = none :=
              if_neg fun inside => absurd inside.1 (Nat.not_le.mpr isInverted)
            rw [Exec.pure_value_bind, isNone]
            rfl

/-- What is read once the header is recognised. -/
theorem read_eq (fits : dtb.length < maxSliceLength) (recognised : Recognised dtb) :
    read checks dtb () = (do
      let rsvmap ← Exec.unwrap (sliceFrom dtb (headerOf dtb).offMemRsvmap.toNat)
      let memRsvmap ← Exec.on (.start rsvmap) (Cursor.readMemRsvmap checks (rounds dtb))
      let table ← add checks u32Modulus (headerOf dtb).offDtStrings.toNat
        (headerOf dtb).sizeDtStrings.toNat >>= fun stop =>
          Exec.unwrap (slice dtb (headerOf dtb).offDtStrings.toNat stop)
      let buf ← add checks u32Modulus (headerOf dtb).offDtStruct.toNat
        (headerOf dtb).sizeDtStruct.toNat >>= fun stop =>
          Exec.unwrap (slice dtb (headerOf dtb).offDtStruct.toNat stop)
      let root ← Exec.on (.start buf) (readStruct checks ⟨table⟩ (rounds dtb))
      pure { memRsvmap, root, bootCpuidPhys := (headerOf dtb).bootCpuidPhys } :
        Exec Failure Unit DeviceTree) () := by
  obtain ⟨inside, isMagic, isVersion, isLast⟩ := recognised
  unfold read
  rw [Exec.on_bind (Cursor.readHeader_eq fits inside), Exec.ensure_bind isMagic,
    Exec.ensure_bind isVersion, Exec.ensure_bind isLast]
  simp only [Exec.bind_assoc]

theorem read_unrecognised (fits : dtb.length < maxSliceLength) (unrecognised : ¬ Recognised dtb) :
    read checks dtb () = .err .malformed () := by
  unfold read
  by_cases inside : headerSize ≤ dtb.length
  · rw [Exec.on_bind (Cursor.readHeader_eq fits inside)]
    by_cases isMagic : (headerOf dtb).magic = magic
    · rw [Exec.ensure_bind isMagic]
      by_cases isVersion : (headerOf dtb).version = version
      · have notLast : (headerOf dtb).lastCompVersion ≠ lastCompVersion :=
          fun isLast => unrecognised ⟨inside, isMagic, isVersion, isLast⟩
        rw [Exec.ensure_bind isVersion, Exec.bind_apply, Exec.ensure, if_neg notLast]
      · rw [Exec.bind_apply, Exec.ensure, if_neg isVersion]
    · rw [Exec.bind_apply, Exec.ensure, if_neg isMagic]
  · have takes := Cursor.readHeader_takes checks (Cursor.start_sound fits)
    have fewer : (Cursor.start dtb).remaining < 40 := Nat.not_le.mp inside
    obtain ⟨final, failed⟩ := takes.fails fewer
    have isErr : (Exec.on (.start dtb) (Cursor.readHeader checks) : Exec Failure Unit Header) () =
        .err .malformed () := Exec.on_eq_err.mpr ⟨⟨final, failed⟩, rfl⟩
    rw [Exec.bind_apply, isErr]

/-- The bytes of a block are enough for the rounds of the blob. -/
theorem rounds_enough {part : List UInt8} (shorter : part.length ≤ dtb.length) :
    (Cursor.start part).remaining < 4 * rounds dtb := by
  have isSum := Nat.div_add_mod dtb.length 4
  have inRound := Nat.mod_lt dtb.length (show 4 > 0 by decide)
  have isRemaining : (Cursor.start part).remaining = part.length := rfl
  unfold rounds
  omega

theorem readMemRsvmap_ends (checks : Bool) (fits : dtb.length < maxSliceLength) {part : List UInt8}
    (shorter : part.length ≤ dtb.length) :
    (Cursor.TerminatedFrom part 0 → ∃ entries final,
      Cursor.readMemRsvmap checks (rounds dtb) (.start part) = .ok entries final) ∧
    (¬ Cursor.TerminatedFrom part 0 → ∃ final,
      Cursor.readMemRsvmap checks (rounds dtb) (.start part) = .err .malformed final) :=
  Cursor.rsvmapLoop_eq (Cursor.start_sound (lt_of_le_of_lt shorter fits)) (rounds_enough shorter)

theorem readStruct_returns (fits : dtb.length < maxSliceLength) {part : List UInt8}
    (shorter : part.length ≤ dtb.length) {strings : Strings} {make : Node → DeviceTree} :
    Returns ((Exec.on (.start part) (readStruct checks strings (rounds dtb)) >>= fun root =>
      pure (make root) : Exec Failure Unit DeviceTree) ()) := by
  have sound := Cursor.start_sound (lt_of_le_of_lt shorter fits)
  have isNode : Exec.Meets Expected (fun _ _ => True)
      ((Exec.on (.start part) (readStruct checks strings (rounds dtb)) : Exec Failure Unit Node) ()) := by
    apply Exec.Meets.on (Cursor.readStruct_takes sound (rounds_enough shorter))
    intro root final steps
    trivial
  apply Exec.Meets.bind isNode
  intro root state isTrue
  trivial

theorem read_recognised (fits : dtb.length < maxSliceLength) (recognised : Recognised dtb) :
    Returns (read checks dtb ()) ↔
      (headerOf dtb).offMemRsvmap.toNat ≤ dtb.length ∧
        (Cursor.TerminatedFrom (dtb.drop (headerOf dtb).offMemRsvmap.toNat) 0 →
          Contains dtb (headerOf dtb).offDtStrings (headerOf dtb).sizeDtStrings ∧
          Contains dtb (headerOf dtb).offDtStruct (headerOf dtb).sizeDtStruct) := by
  rw [read_eq fits recognised]
  by_cases inside : (headerOf dtb).offMemRsvmap.toNat ≤ dtb.length
  · have isRest : sliceFrom dtb (headerOf dtb).offMemRsvmap.toNat =
        some (dtb.drop (headerOf dtb).offMemRsvmap.toNat) := if_pos inside
    rw [Exec.unwrap_bind isRest]
    have shorter : (dtb.drop (headerOf dtb).offMemRsvmap.toNat).length ≤ dtb.length := by
      rw [List.length_drop]
      omega
    have ends := readMemRsvmap_ends checks fits shorter
    by_cases terminated : Cursor.TerminatedFrom (dtb.drop (headerOf dtb).offMemRsvmap.toNat) 0
    · obtain ⟨entries, final, run⟩ := ends.1 terminated
      rw [Exec.on_bind run, Exec.bind_assoc, slice_block]
      by_cases strings : Contains dtb (headerOf dtb).offDtStrings (headerOf dtb).sizeDtStrings
      · rw [if_pos strings, Exec.bind_assoc, slice_block]
        by_cases struct : Contains dtb (headerOf dtb).offDtStruct (headerOf dtb).sizeDtStruct
        · rw [if_pos struct]
          apply iff_of_true
          · apply readStruct_returns fits
            rw [List.length_take, List.length_drop]
            omega
          · exact ⟨inside, fun _ => ⟨strings, struct⟩⟩
        · rw [if_neg struct]
          exact iff_of_false id fun readable => struct (readable.2 terminated).2
      · rw [if_neg strings]
        exact iff_of_false id fun readable => strings (readable.2 terminated).1
    · obtain ⟨final, failed⟩ := ends.2 terminated
      have isErr : (Exec.on (.start (dtb.drop (headerOf dtb).offMemRsvmap.toNat))
          (Cursor.readMemRsvmap checks (rounds dtb)) : Exec Failure Unit _) () = .err .malformed () :=
        Exec.on_eq_err.mpr ⟨⟨final, failed⟩, rfl⟩
      rw [Exec.bind_apply, isErr]
      exact iff_of_true expected_malformed ⟨inside, fun isTerminated => absurd isTerminated terminated⟩
  · have isNone : sliceFrom dtb (headerOf dtb).offMemRsvmap.toNat = none := if_neg inside
    rw [isNone]
    exact iff_of_false id fun readable => inside readable.1

/-- Reading returns exactly for the blobs that are readable, and no loop goes on without having taken
four bytes. -/
theorem read_returns_iff (checks : Bool) (dtb : Blob) :
    (Returns (read checks dtb.bytes ()) ↔ Readable dtb.bytes) ∧
    (∀ v before, before.Sound → Cursor.Takes 4 before (Cursor.rsvmapRound checks v before)) ∧
    ∀ strings bound maps before, before.Sound → before.remaining < 4 * (bound + 1) →
      Cursor.Takes 4 before
        (Cursor.nodeRound checks strings (Cursor.readNode checks strings bound) maps before) := by
  refine ⟨?_, ?_, ?_⟩
  · by_cases recognised : Recognised dtb.bytes
    · rw [read_recognised dtb.fits recognised]
      exact ⟨fun inside _ => inside, fun readable => readable recognised⟩
    · rw [read_unrecognised dtb.fits recognised]
      exact iff_of_true expected_malformed fun isRecognised => absurd isRecognised recognised
  · intro v before sound
    exact (Cursor.rsvmapRound_takes sound).weaken (by decide)
  · intro strings bound maps before sound enough
    apply Cursor.nodeRound_takes maps sound
    intro child childSound fewer
    exact Cursor.readNode_takes childSound (by omega)

/-- A header alone, whose reservation map starts behind it. -/
def shortBlob : Blob where
  bytes := [
    0xd0, 0x0d, 0xfe, 0xed, 0, 0, 0, 40, 0, 0, 0, 40, 0, 0, 0, 40, 0, 0, 0, 41,
    0, 0, 0, 17, 0, 0, 0, 16, 0, 0, 0, 0, 0, 0, 0, 0, 0, 0, 0, 0]
  fits := by decide

/-- The slice that starts at the reservation map panics, whether or not overflow is checked for. -/
theorem read_shortBlob_panics :
    read false shortBlob.bytes () = .panic ∧ ¬ Returns (read false shortBlob.bytes ()) ∧
      ¬ Returns (read true shortBlob.bytes ()) :=
  ⟨rfl, fun returns => returns, fun returns => returns⟩

end DeviceTree

end IceCap.Fdt
