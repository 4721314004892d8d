import IceCap.Fdt.Read

/-!
# Reading returns

The loops of the reader take four bytes in each round, so they end, and no
access through the cursor panics.  What panics is slicing by the header's
offsets.  The theorem at the end says for which blobs none of that happens.
-/

set_option autoImplicit false

namespace IceCap.Fdt

open IceCap.Library

/-- The error of the source, and not the end of a loop's rounds. -/
def Expected (failure : Failure) : Prop := failure = .malformed

theorem expected_malformed : Expected .malformed := rfl

/-- No slice is longer than `isize::MAX`. -/
def maxSliceLength : Nat := 2 ^ 63

namespace Cursor

variable {α β : Type} {checks : Bool} {before after : Cursor} {n m : Nat}

/-- Aligning can leave the cursor up to three bytes behind the end. -/
def Sound (self : Cursor) : Prop := self.buf.length < maxSliceLength ∧ self.i ≤ self.buf.length + 3

/-- The bytes the cursor has not come to. -/
def remaining (self : Cursor) : Nat := self.buf.length - self.i

/-- A step that takes so many bytes or more. -/
def Steps (n : Nat) (before after : Cursor) : Prop :=
  after.buf = before.buf ∧ after.Sound ∧ after.remaining + n ≤ before.remaining

/-- A call that takes so many bytes, or more, where it returns, and does not panic. -/
def Takes (n : Nat) (before : Cursor) (outcome : Outcome Failure Cursor α) : Prop :=
  Exec.Meets Expected (fun _ after => Steps n before after) outcome

theorem Steps.refl (sound : before.Sound) : Steps 0 before before := ⟨rfl, sound, le_refl _⟩

theorem Steps.trans {middle : Cursor} (first : Steps n before middle) (second : Steps m middle after) :
    Steps (n + m) before after := by
  obtain ⟨sameBuf, _, taken⟩ := first
  obtain ⟨sameBufLater, sound, takenLater⟩ := second
  exact ⟨sameBufLater.trans sameBuf, sound, by omega⟩

theorem Steps.weaken (steps : Steps n before after) (less : m ≤ n) : Steps m before after :=
  ⟨steps.1, steps.2.1, le_trans (Nat.add_le_add_left less _) steps.2.2⟩

theorem Takes.later {middle : Cursor} {outcome : Outcome Failure Cursor α}
    (takes : Takes m middle outcome) (steps : Steps n before middle) :
    Takes (n + m) before outcome := takes.imp fun _ _ later => steps.trans later

theorem Takes.bind {call : Exec Failure Cursor α} {next : α → Exec Failure Cursor β}
    (first : Takes n before (call before))
    (rest : ∀ value after, Steps n before after → Takes m after (next value after)) :
    Takes (n + m) before ((call >>= next) before) := by
  apply Exec.Meets.bind first
  intro value middle steps
  exact Takes.later (rest value middle steps) steps

theorem Takes.pure (sound : before.Sound) (value : α) :
    Takes 0 before ((Pure.pure value : Exec Failure Cursor α) before) := Steps.refl sound

theorem Takes.fail : Takes n before ((Exec.fail .malformed : Exec Failure Cursor α) before) :=
  Exec.Meets.fail expected_malformed

theorem Takes.weaken {outcome : Outcome Failure Cursor α} (takes : Takes n before outcome)
    (less : m ≤ n) : Takes m before outcome := takes.imp fun _ _ steps => steps.weaken less

/-! ## The methods of the cursor -/

theorem advance_eq (less : before.i + n < usizeModulus) :
    advance checks n before = .ok () ⟨before.buf, before.i + n⟩ := by
  unfold advance
  rw [Exec.get_bind, add_eq less]
  rfl

theorem align_eq (less : before.i + 4 ≤ usizeModulus) :
    align checks 4 before = .ok () ⟨before.buf, aligned before.i 2⟩ := by
  have isNext : (alignUp checks before.i 4 : Exec Failure Cursor Nat) = Pure.pure (aligned before.i 2) :=
    alignUp_eq (k := 2) less
  unfold align
  rw [Exec.get_bind, isNext]
  rfl

theorem read_eq (checks : Bool) (less : before.i + n < usizeModulus) :
    read checks n before =
      if before.i + n ≤ before.buf.length then
        .ok ((before.buf.drop before.i).take n) ⟨before.buf, before.i + n⟩
      else .err .malformed before := by
  unfold read
  rw [Exec.get_bind, add_eq less, Exec.pure_value_bind]
  split
  · next inside =>
      have isSlice : slice before.buf before.i (before.i + n) =
          some ((before.buf.drop before.i).take n) := by
        rw [slice, if_pos ⟨Nat.le_add_right _ _, inside⟩, Nat.add_sub_cancel_left]
      rw [isSlice, Exec.okOr_some_bind, Exec.bind_of_ok (advance_eq less)]
      rfl
  · next outside =>
      rw [slice, if_neg fun isInside => outside isInside.2, Exec.okOr_none_bind]

theorem readBe_eq (checks : Bool) (less : before.i + n < usizeModulus) :
    readBe checks n before =
      if before.i + n ≤ before.buf.length then
        .ok (ofBeBytes ((before.buf.drop before.i).take n)) ⟨before.buf, before.i + n⟩
      else .err .malformed before := by
  have isRead := read_eq checks less
  unfold readBe
  split
  · next inside =>
      rw [if_pos inside] at isRead
      have isFull : ((before.buf.drop before.i).take n).length = n := by
        rw [List.length_take, List.length_drop]
        omega
      rw [Exec.bind_of_ok isRead, Exec.assert_bind isFull]
      rfl
  · next outside =>
      rw [if_neg outside] at isRead
      rw [Exec.bind_apply, isRead]

/-- Sums of words do not overflow while the cursor is sound. -/
theorem Sound.less (sound : before.Sound) (small : n < u32Modulus) : before.i + n < usizeModulus := by
  obtain ⟨short, near⟩ := sound
  unfold maxSliceLength at short
  unfold u32Modulus at small
  unfold usizeModulus
  omega

theorem Steps.of_inside (sound : before.Sound) (inside : before.i + n ≤ before.buf.length) :
    Steps n before ⟨before.buf, before.i + n⟩ := by
  refine ⟨rfl, ⟨sound.1, le_trans inside (Nat.le_add_right _ _)⟩, ?_⟩
  unfold remaining
  dsimp only
  omega

theorem readBe_takes (sound : before.Sound) (small : n < u32Modulus) :
    Takes n before (readBe checks n before) := by
  rw [readBe_eq checks (sound.less small)]
  split
  · next inside => exact Steps.of_inside sound inside
  · exact expected_malformed

theorem align_takes (sound : before.Sound) (inside : before.i ≤ before.buf.length) :
    Takes 0 before (align checks 4 before) := by
  have less : before.i + 4 ≤ usizeModulus := le_of_lt (sound.less (by decide))
  rw [align_eq less]
  have later := le_aligned before.i 2
  have near := aligned_lt before.i 2
  refine ⟨rfl, ⟨sound.1, ?_⟩, ?_⟩
  · dsimp only
    omega
  · unfold remaining
    dsimp only
    omega

theorem readBeU32_takes (sound : before.Sound) : Takes 4 before (readBeU32 checks before) := by
  unfold readBeU32
  apply Takes.bind (m := 0) (readBe_takes sound (by decide))
  intro word after steps
  exact Takes.pure steps.2.1 _

theorem readBeU64_takes (sound : before.Sound) : Takes 8 before (readBeU64 checks before) := by
  unfold readBeU64
  apply Takes.bind (m := 0) (readBe_takes sound (by decide))
  intro word after steps
  exact Takes.pure steps.2.1 _

theorem readPropHeader_takes (sound : before.Sound) :
    Takes 8 before (readPropHeader checks before) := by
  unfold readPropHeader
  apply Takes.bind (m := 4) (readBeU32_takes sound)
  intro len middle steps
  apply Takes.bind (m := 0) (readBeU32_takes steps.2.1)
  intro nameOff after steps
  exact Takes.pure steps.2.1 _

theorem readReserveEntry_takes (checks : Bool) (sound : before.Sound) :
    Takes 16 before (readReserveEntry checks before) := by
  unfold readReserveEntry
  apply Takes.bind (m := 8) (readBeU64_takes sound)
  intro address middle steps
  apply Takes.bind (m := 0) (readBeU64_takes steps.2.1)
  intro size after steps
  exact Takes.pure steps.2.1 _

theorem readValue_takes (sound : before.Sound) (small : n < u32Modulus) :
    Takes 0 before (readValue checks n before) := by
  have isRead := read_eq checks (sound.less small)
  unfold readValue
  split at isRead
  · next inside =>
      have steps := Steps.of_inside sound inside
      rw [Exec.bind_of_ok isRead]
      apply Takes.weaken _ (Nat.zero_le (n + 0))
      apply Takes.later _ steps
      apply Takes.bind (m := 0) (align_takes steps.2.1 inside)
      intro done after aligned
      exact Takes.pure aligned.2.1 _
  · rw [Exec.bind_apply, isRead]
    exact expected_malformed

/-- A string is found in front of the byte that ends it. -/
theorem cstringAt_meets (buf : List UInt8) (offset : Nat) :
    Exec.Meets Expected
      (fun s after => after = before ∧ offset + s.utf8ByteSize + 1 ≤ buf.length)
      (cstringAt buf offset before) := by
  unfold cstringAt
  have isRest : Exec.Meets Expected
      (fun sub after => after = before ∧ offset + sub.length = buf.length)
      (Exec.okOr (sliceFrom buf offset) .malformed before) := by
    apply Exec.Meets.okOr expected_malformed
    intro sub isSub
    unfold sliceFrom at isSub
    split at isSub
    · next inside =>
        cases isSub
        rw [List.length_drop]
        exact ⟨rfl, by omega⟩
    · cases isSub
  apply Exec.Meets.bind isRest
  intro sub after isSub
  have isEnd : Exec.Meets Expected (fun n last => last = before ∧ n < sub.length)
      (Exec.okOr (sub.findIdx? (· == 0)) .malformed after) := by
    apply Exec.Meets.okOr expected_malformed
    intro n isFound
    exact ⟨isSub.1, (List.findIdx?_eq_some_iff_getElem.mp isFound).1⟩
  apply Exec.Meets.bind isEnd
  intro n last isFound
  apply Exec.Meets.okOr expected_malformed
  intro s isString
  refine ⟨isFound.1, ?_⟩
  have isSize := fromUtf8_size isString
  rw [List.length_take, Nat.min_eq_left (Nat.le_of_lt isFound.2)] at isSize
  omega

theorem readUnitName_takes (sound : before.Sound) :
    Takes 0 before (readUnitName checks before) := by
  unfold readUnitName
  rw [Exec.get_bind]
  apply Exec.Meets.bind (cstringAt_meets before.buf before.i)
  intro s same isInside
  obtain ⟨rfl, inside⟩ := isInside
  have less : s.utf8ByteSize + 1 < usizeModulus := by
    obtain ⟨short, _⟩ := sound
    unfold maxSliceLength at short
    unfold usizeModulus
    omega
  have lessSum : same.i + (s.utf8ByteSize + 1) < usizeModulus := by
    obtain ⟨short, _⟩ := sound
    unfold maxSliceLength at short
    unfold usizeModulus
    omega
  have steps : Steps (s.utf8ByteSize + 1) same ⟨same.buf, same.i + (s.utf8ByteSize + 1)⟩ :=
    Steps.of_inside sound inside
  rw [add_eq less, Exec.pure_value_bind, Exec.bind_of_ok (advance_eq lessSum)]
  apply Takes.weaken _ (Nat.zero_le (s.utf8ByteSize + 1 + 0))
  apply Takes.later _ steps
  apply Takes.bind (m := 0) (align_takes steps.2.1 inside)
  intro done after aligned
  exact Takes.pure aligned.2.1 _

/-! ## Nodes -/

theorem Takes.ensure {condition : Prop} [Decidable condition] (sound : before.Sound) :
    Takes 0 before ((Exec.ensure condition .malformed : Exec Failure Cursor Unit) before) :=
  Exec.Meets.ensure expected_malformed fun _ => Steps.refl sound

/-- A round takes its token, when the call for a child does not go back. -/
theorem nodeRound_takes {strings : Strings} {readNode : Exec Failure Cursor Node} (maps : Maps)
    (sound : before.Sound)
    (child : ∀ middle, middle.Sound → middle.remaining + 4 ≤ before.remaining →
      Takes 0 middle (readNode middle)) :
    Takes 4 before (nodeRound checks strings readNode maps before) := by
  unfold nodeRound
  apply Takes.bind (m := 0) (readBeU32_takes sound)
  intro tok middle token
  split
  · exact Takes.pure token.2.1 _
  · split
    · apply Takes.weaken _ (Nat.zero_le (8 + 0))
      apply Takes.bind (m := 0) (readPropHeader_takes token.2.1)
      intro prop afterHeader header
      apply Exec.Meets.bind (cstringAt_meets strings.table prop.nameOff.toNat)
      intro name same isName
      obtain ⟨rfl, _⟩ := isName
      have small : prop.len.toNat < u32Modulus := prop.len.toNat_lt
      apply Takes.bind (m := 0) (readValue_takes header.2.1 small)
      intro value after steps
      exact Takes.pure steps.2.1 _
    · split
      · apply Takes.bind (m := 0) (readUnitName_takes token.2.1)
        intro name inner named
        have fewer : inner.remaining + 4 ≤ before.remaining :=
          le_trans (Nat.add_le_add_right named.2.2 4) token.2.2
        apply Takes.bind (m := 0) (child inner named.2.1 fewer)
        intro node after steps
        exact Takes.pure steps.2.1 _
      · split
        · exact Takes.pure token.2.1 _
        · exact Takes.fail

/-- The rounds suffice for the loop, and what is left of them for the children. -/
theorem readNode_takes {strings : Strings} {bound : Nat} (sound : before.Sound)
    (enough : before.remaining < 4 * bound) : Takes 0 before (readNode checks strings bound before) := by
  induction bound generalizing before with
  | zero => omega
  | succ bound ih =>
      rw [readNode]
      apply Exec.Meets.loop (fun _ after => Steps 0 before after) remaining 4 _ (Steps.refl sound)
        enough
      intro maps middle steps
      have isBehind := steps.2.2
      have takes : Takes 4 middle (nodeRound checks strings (readNode checks strings bound) maps middle) := by
        apply nodeRound_takes maps steps.2.1
        intro child childSound fewer
        exact ih childSound (by omega)
      apply takes.imp
      intro next after later
      cases next with
      | inl maps => exact ⟨(steps.trans later).weaken (Nat.zero_le _), later.2.2⟩
      | inr node => exact (steps.trans later).weaken (Nat.zero_le _)

theorem readStruct_takes {strings : Strings} {bound : Nat} (sound : before.Sound) (enough : before.remaining < 4 * bound) :
    Takes 0 before (DeviceTree.readStruct checks strings bound before) := by
  unfold DeviceTree.readStruct
  apply Takes.weaken _ (Nat.zero_le (4 + 0))
  apply Takes.bind (m := 0) (readBeU32_takes sound)
  intro tok afterToken token
  apply Takes.bind (m := 0) (Takes.ensure token.2.1)
  intro isBegin afterBegin begin
  apply Takes.bind (m := 0) (readUnitName_takes begin.2.1)
  intro name afterName named
  apply Takes.bind (m := 0) (Takes.ensure named.2.1)
  intro isRoot afterRoot root
  have fewer : afterRoot.remaining < 4 * bound := by
    have first := token.2.2
    have second := begin.2.2
    have third := named.2.2
    have fourth := root.2.2
    omega
  apply Takes.bind (m := 0) (readNode_takes root.2.1 fewer)
  intro node afterNode inner
  apply Takes.weaken _ (Nat.zero_le (4 + 0))
  apply Takes.bind (m := 0) (readBeU32_takes inner.2.1)
  intro last afterLast ending
  apply Takes.bind (m := 0) (Takes.ensure ending.2.1)
  intro isEnd after steps
  exact Takes.pure steps.2.1 _

/-! ## The reservation map -/

def entryAt (buf : List UInt8) (i : Nat) : ReserveEntry where
  address := .ofNat (ofBeBytes ((buf.drop i).take 8))
  size := .ofNat (ofBeBytes ((buf.drop (i + 8)).take 8))

/-- Sixteen zero bytes, where the entries from there on come to them. -/
def TerminatedFrom (buf : List UInt8) (i : Nat) : Prop :=
  ∃ k, i + 16 * k + 16 ≤ buf.length ∧ (buf.drop (i + 16 * k)).take 16 = List.replicate 16 0

theorem entryAt_eq_zero {buf : List UInt8} {i : Nat} (inside : i + 16 ≤ buf.length) :
    ((entryAt buf i).address = 0 ∧ (entryAt buf i).size = 0) ↔
      (buf.drop i).take 16 = List.replicate 16 0 := by
  have isZero : ∀ {start : Nat}, start + 8 ≤ buf.length →
      (UInt64.ofNat (ofBeBytes ((buf.drop start).take 8)) = 0 ↔
        (buf.drop start).take 8 = List.replicate 8 0) := by
    intro start isInside
    have isLength : ((buf.drop start).take 8).length = 8 := by
      rw [List.length_take, List.length_drop]
      omega
    have less := ofBeBytes_lt ((buf.drop start).take 8)
    have isModulus : 256 ^ 8 = 2 ^ 64 := rfl
    rw [isLength, isModulus] at less
    rw [← UInt64.toNat_inj, UInt64.toNat_ofNat', Nat.mod_eq_of_lt less]
    have isZero := @ofBeBytes_eq_zero ((buf.drop start).take 8)
    rwa [isLength] at isZero
  have isPair : (buf.drop i).take 16 = (buf.drop i).take 8 ++ (buf.drop (i + 8)).take 8 := by
    rw [← List.drop_drop, ← List.take_add]
  have isLength : ((buf.drop i).take 8).length = (List.replicate 8 (0 : UInt8)).length := by
    rw [List.length_take, List.length_drop, List.length_replicate]
    omega
  have isZeros : List.replicate 16 (0 : UInt8) = List.replicate 8 0 ++ List.replicate 8 0 := rfl
  rw [isPair, isZeros]
  apply Iff.trans (and_congr (isZero (by omega)) (isZero (by omega)))
  constructor
  · intro both
    rw [both.1, both.2]
  · intro same
    exact List.append_inj same isLength

theorem readBeU64_eq (sound : before.Sound) (inside : before.i + 8 ≤ before.buf.length) :
    readBeU64 checks before =
      .ok (.ofNat (ofBeBytes ((before.buf.drop before.i).take 8))) ⟨before.buf, before.i + 8⟩ := by
  have isRead := readBe_eq checks (sound.less (n := 8) (by decide))
  rw [if_pos inside] at isRead
  unfold readBeU64
  rw [Exec.bind_of_ok isRead]
  rfl

theorem readReserveEntry_eq (checks : Bool) (sound : before.Sound) (inside : before.i + 16 ≤ before.buf.length) :
    readReserveEntry checks before =
      .ok (entryAt before.buf before.i) ⟨before.buf, before.i + 16⟩ := by
  have steps : Steps 8 before ⟨before.buf, before.i + 8⟩ := Steps.of_inside sound (by omega)
  unfold readReserveEntry
  rw [Exec.bind_of_ok (readBeU64_eq sound (by omega)),
    Exec.bind_of_ok (readBeU64_eq steps.2.1 (by simpa [Nat.add_assoc] using inside))]
  rfl

/-- Where a call takes more than what is left it fails. -/
theorem Takes.fails {outcome : Outcome Failure Cursor α} (takes : Takes n before outcome)
    (more : before.remaining < n) : ∃ final, outcome = .err .malformed final := by
  cases outcome with
  | ok value final =>
      have taken := takes.2.2
      omega
  | err error final => exact ⟨final, congrArg (Outcome.err · final) takes⟩
  | panic => exact takes.elim

theorem terminatedFrom_iff {buf : List UInt8} {i : Nat} :
    TerminatedFrom buf i ↔ i + 16 ≤ buf.length ∧
      ((buf.drop i).take 16 = List.replicate 16 0 ∨ TerminatedFrom buf (i + 16)) := by
  constructor
  · intro terminated
    obtain ⟨k, inside, isZero⟩ := terminated
    refine ⟨by omega, ?_⟩
    cases k with
    | zero => exact .inl isZero
    | succ k =>
        have isLater : i + 16 * (k + 1) = i + 16 + 16 * k := by omega
        rw [isLater] at inside isZero
        exact .inr ⟨k, inside, isZero⟩
  · intro either
    obtain ⟨inside, isZero | later⟩ := either
    · exact ⟨0, inside, isZero⟩
    · obtain ⟨k, inside, isZero⟩ := later
      have isLater : i + 16 + 16 * k = i + 16 * (k + 1) := by omega
      rw [isLater] at inside isZero
      exact ⟨k + 1, inside, isZero⟩

/-- The loop returns when it comes to the entry that ends the map, and fails at the end of the bytes
when there is none. -/
theorem rsvmapLoop_eq {rounds : Nat} {v : List ReserveEntry} (sound : before.Sound)
    (enough : before.remaining < 4 * rounds) :
    (TerminatedFrom before.buf before.i →
      ∃ entries final, Exec.loop .unfinished (rsvmapRound checks) rounds v before = .ok entries final) ∧
    (¬ TerminatedFrom before.buf before.i →
      ∃ final, Exec.loop .unfinished (rsvmapRound checks) rounds v before = .err .malformed final) := by
  induction rounds generalizing before v with
  | zero => omega
  | succ rounds ih =>
      rw [Exec.loop, terminatedFrom_iff]
      by_cases inside : before.i + 16 ≤ before.buf.length
      · have steps : Steps 16 before ⟨before.buf, before.i + 16⟩ := Steps.of_inside sound inside
        have isRead := readReserveEntry_eq checks sound inside
        have isZero := entryAt_eq_zero inside
        unfold rsvmapRound
        rw [Exec.bind_assoc, Exec.bind_of_ok isRead]
        by_cases ends : (before.buf.drop before.i).take 16 = List.replicate 16 0
        · rw [if_pos (isZero.mpr ends)]
          exact ⟨fun _ => ⟨v, _, rfl⟩, fun absent => absurd ⟨inside, .inl ends⟩ absent⟩
        · have fewer := steps.2.2
          rw [if_neg fun zero => ends (isZero.mp zero)]
          have later := ih (v := v ++ [entryAt before.buf before.i]) steps.2.1 (by omega)
          refine ⟨?_, ?_⟩
          · intro terminated
            exact later.1 (terminated.2.resolve_left ends)
          · intro absent
            exact later.2 fun terminated => absent ⟨inside, .inr terminated⟩
      · have fewer : before.remaining < 16 := by
          unfold remaining
          omega
        obtain ⟨final, failed⟩ := (readReserveEntry_takes checks sound).fails fewer
        refine ⟨fun terminated => absurd terminated.1 inside, fun _ => ⟨final, ?_⟩⟩
        unfold rsvmapRound
        rw [Exec.bind_assoc, Exec.bind_apply, failed]

end Cursor

end IceCap.Fdt
