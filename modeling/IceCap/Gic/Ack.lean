import IceCap.Gic.Slots

/-!
# What an acknowledgement does

`ack` clears the active bit of an interrupt.  It clears the pending bit as well,
except for an SGI that is pending from another source than cpu 0, which is the
only source it takes back.
-/

set_option autoImplicit false

namespace IceCap.Gic.Distributor

open IceCap.Library

variable {numNodes : Nat} {dist after : Distributor numNodes} {irq node : Nat}

instance (irq cpu other seer : Nat) : Decidable (Family.SameBit irq cpu other seer) :=
  inferInstanceAs (Decidable (other = irq ∧ Family.Sees (irq / 32) cpu seer))

/-- An SGI is pending on a cpu from another source than cpu 0. -/
def OtherSource (dist : Distributor numNodes) (irq cpu : Nat) : Prop :=
  irq < 16 ∧ ∃ source, 0 < source ∧ source < 8 ∧
    (dist.sgiWord (irq / 4) cpu).getLsbD ((irq % 4) * 8 + source) = true

instance (dist : Distributor numNodes) (irq cpu : Nat) : Decidable (dist.OtherSource irq cpu) :=
  decidable_of_iff (irq < 16 ∧ ∃ source < 8, 0 < source ∧
      (dist.sgiWord (irq / 4) cpu).getLsbD ((irq % 4) * 8 + source) = true)
    ⟨fun ⟨isSgi, source, below, positive, isSet⟩ => ⟨isSgi, source, positive, below, isSet⟩,
      fun ⟨isSgi, source, positive, below, isSet⟩ => ⟨isSgi, source, below, positive, isSet⟩⟩

/-- Bits outside the byte of an interrupt of an SGI register are not its sources. -/
theorem sgi_byte {reg : Register32} {place : Nat}
    (one : ∀ source, 0 < source → source < 8 → reg.getLsbD (place * 8 + source) = false) :
    clearBits reg (1#32 <<< (0 + place * 8)) &&& (0xFF#32 <<< (place * 8)) = 0 := by
  apply BitVec.eq_of_getLsbD_eq
  intro i less
  simp only [clearBits, BitVec.getLsbD_and, BitVec.getLsbD_not, BitVec.getLsbD_shiftLeft,
    less, decide_true, Bool.true_and, Nat.zero_add]
  by_cases inByte : place * 8 ≤ i ∧ i < place * 8 + 8
  · obtain ⟨source, rfl⟩ := Nat.exists_eq_add_of_le inByte.1
    by_cases isFirst : source = 0
    · subst isFirst
      simp
    · rw [one source (by omega) (by omega)]
      simp
  · by_cases low : i < place * 8
    · simp [low]
    · have high : (0xFF#32).getLsbD (i - place * 8) = false := by
        have : 8 ≤ i - place * 8 := by omega
        rw [show 0xFF#32 = BitVec.setWidth 32 0xFF#8 from rfl, BitVec.getLsbD_setWidth,
          BitVec.getLsbD_of_ge _ _ this]
        simp
      simp [high]

/-- The test that `clear_sgi_pending` makes. -/
theorem stillPending_eq_zero {reg : Register32} {place : Nat} (isPlace : place < 4) :
    clearBits reg (1#32 <<< (0 + place * 8)) &&& (0xFF#32 <<< (place * 8)) = 0 ↔
      ∀ source, 0 < source → source < 8 → reg.getLsbD (place * 8 + source) = false := by
  refine ⟨fun isZero source positive below => ?_, sgi_byte⟩
  have isClear := congrArg (fun word => word.getLsbD (place * 8 + source)) isZero
  have inRange : place * 8 + source < 32 := by omega
  have isMask : (0xFF#32).getLsbD source = true := by
    rw [show 0xFF#32 = BitVec.setWidth 32 (BitVec.allOnes 8) from rfl, BitVec.getLsbD_setWidth,
      BitVec.getLsbD_allOnes]
    simp only [below, decide_true, Bool.and_true, decide_eq_true_eq]
    omega
  have notBelow : ¬ place * 8 + source < place * 8 := by omega
  have notFirst : (1#32).getLsbD source = false := by
    rw [BitVec.getLsbD_one]
    simp only [Bool.and_eq_false_iff, decide_eq_false_iff_not]
    omega
  have zeroBit : (0 : Register32).getLsbD (place * 8 + source) = false := BitVec.getLsbD_zero
  simpa only [clearBits, BitVec.getLsbD_and, BitVec.getLsbD_not, BitVec.getLsbD_shiftLeft,
    Nat.zero_add, inRange, notBelow, Nat.add_sub_cancel_left, notFirst, isMask, decide_true,
    decide_false, Bool.not_false, Bool.and_true, Bool.true_and, zeroBit] using isClear

theorem clearSgiPending_eq_ok (isSgi : irq < 16)
    (run : clearSgiPending irq 0 node dist = .ok () after) :
    actives.bit after = actives.bit dist ∧
    (∀ regNum cpu, after.sgiWord regNum cpu = if regNum = irq / 4 ∧ cpu = node then
      clearBits (dist.sgiWord regNum cpu) (1#32 <<< ((irq % 4) * 8)) else dist.sgiWord regNum cpu) ∧
    (dist.OtherSource irq node → pendings.bit after = pendings.bit dist) ∧
    (¬ dist.OtherSource irq node → ∀ other cpu, pendings.bit after other cpu =
      if Family.SameBit irq node other cpu then false else pendings.bit dist other cpu) := by
  unfold clearSgiPending at run
  split at run
  · simp at run
  split at run
  · simp at run
  split at run
  · simp at run
  obtain ⟨prev, middle, updated, rest⟩ := Exec.bind_eq_ok.mp run
  obtain ⟨isPrev, ⟨_, isPut⟩, words⟩ := updateSgiPending_eq_ok updated
  have samePending : pendings.bit middle = pendings.bit dist := by
    subst isPut
    rfl
  have sameActive : actives.bit middle = actives.bit dist := by
    subst isPut
    rfl
  have middleWords : ∀ regNum cpu, middle.sgiWord regNum cpu =
      if regNum = irq / 4 ∧ cpu = node then
        clearBits (dist.sgiWord regNum cpu) (1#32 <<< ((irq % 4) * 8))
      else dist.sgiWord regNum cpu := by
    intro regNum cpu
    rw [words]
    split
    · next same => rw [same.1, same.2, isPrev, Nat.zero_add]
    · rfl
  have isZero : clearBits prev (1#32 <<< (0 + (irq % 4) * 8)) &&& (0xFF#32 <<< ((irq % 4) * 8)) = 0 ↔
      ¬ dist.OtherSource irq node := by
    rw [stillPending_eq_zero (Nat.mod_lt _ (by decide)), isPrev, OtherSource]
    simp [isSgi]
  split at rest
  · next isCleared =>
      rw [Exec.orPanic_eq_ok] at rest
      obtain ⟨_, _, ⟨_, _, rfl⟩, _⟩ := Family.updateBit_eq_ok rest
      refine ⟨sameActive, middleWords, fun isSource => absurd isSource (isZero.mp isCleared),
        fun _ other cpu => ?_⟩
      obtain ⟨same, differ⟩ := Family.clear_bit rest other cpu
      split
      · next isSame => exact same isSame
      · next isOther => rw [differ isOther, samePending]
  · next notCleared =>
      obtain ⟨_, rfl⟩ := Exec.pure_eq_ok.mp rest
      exact ⟨sameActive, middleWords, fun _ => samePending,
        fun noSource => absurd (isZero.mpr noSource) notCleared⟩

/-- All that `ack` changes. -/
theorem ack_eq_ok (run : ack irq node dist = .ok () after) :
    node < numNodes ∧
    (∀ other cpu, actives.bit after other cpu =
      if Family.SameBit irq node other cpu then false else actives.bit dist other cpu) ∧
    (∀ regNum cpu, after.sgiWord regNum cpu = if irq < 16 ∧ regNum = irq / 4 ∧ cpu = node then
      clearBits (dist.sgiWord regNum cpu) (1#32 <<< ((irq % 4) * 8)) else dist.sgiWord regNum cpu) ∧
    (dist.OtherSource irq node → pendings.bit after = pendings.bit dist) ∧
    (¬ dist.OtherSource irq node → ∀ other cpu, pendings.bit after other cpu =
      if Family.SameBit irq node other cpu then false else pendings.bit dist other cpu) := by
  unfold ack at run
  split at run
  · simp at run
  next inside =>
  obtain ⟨_, middle, cleared, rest⟩ := Exec.bind_eq_ok.mp run
  obtain ⟨_, _, ⟨_, _, isPut⟩, _⟩ := Family.updateBit_eq_ok rest
  have samePending : pendings.bit after = pendings.bit middle := by
    subst isPut
    rfl
  have sameWords : after.sgiWord = middle.sgiWord := by
    subst isPut
    rfl
  have activeBits : ∀ other cpu, actives.bit after other cpu =
      if Family.SameBit irq node other cpu then false else actives.bit middle other cpu := by
    intro other cpu
    obtain ⟨same, differ⟩ := Family.clear_bit rest other cpu
    split
    · next isSame => exact same isSame
    · next isOther => exact differ isOther
  rw [samePending, sameWords]
  refine ⟨Nat.lt_of_not_ge inside, ?_⟩
  split at cleared
  · next isSgi =>
      obtain ⟨sameActive, words, kept, lost⟩ := clearSgiPending_eq_ok isSgi cleared
      rw [sameActive] at activeBits
      exact ⟨activeBits, by simpa only [isSgi, true_and] using words, kept, lost⟩
  · next notSgi =>
      obtain ⟨_, _, ⟨_, _, rfl⟩, _⟩ := Family.updateBit_eq_ok cleared
      have noSource : ¬ dist.OtherSource irq node := fun isSource => notSgi isSource.1
      refine ⟨activeBits, fun _ _ => by simp only [notSgi, false_and, if_false]; rfl,
        fun isSource => absurd isSource noSource, fun _ other cpu => ?_⟩
      obtain ⟨same, differ⟩ := Family.clear_bit cleared other cpu
      split
      · next isSame => exact same isSame
      · next isOther => exact differ isOther

/-- What is neither pending nor active nor the source of an SGI is left alone. -/
theorem ack_keeps {γ : Type} {view : Distributor numNodes → γ} (pending : pendings.Leaves view)
    (active : actives.Leaves view)
    (sources : ∀ dist sgiPending, view { dist with sgiPending } = view dist) :
    Exec.Keeps view (ack irq node) := by
  refine .ite (.fail _) (.bind (.ite ?_ (Family.updateBit_keeps pending)) fun _ =>
    Family.updateBit_keeps active)
  exact .ite (.fail _) (.ite (.fail _) (.ite (.fail _) ((updateSgiPending_keeps sources).bind
    fun _ => .ite (.orPanic (Family.updateBit_keeps pending)) (.pure _))))

end IceCap.Gic.Distributor
