import Mathlib.Algebra.Order.Ring.Nat

/-!
# The BCM system timer

A counter of 64 bits behind two registers of 32 bits.  It runs on between the
accesses of the driver, so `get_count_split` reads the higher half once more, and
the lower half again if the higher one has changed.
-/

set_option autoImplicit false

namespace IceCap.Drivers

/-- The counter over time, and the times at which the accesses of the driver take place. -/
structure CounterTrace (Time : Type) [Preorder Time] where
  counter : Time → UInt64
  access : Nat → Time
  nondecreasing : ∀ first second, first ≤ second → counter first ≤ counter second
  inOrder : ∀ first second, first ≤ second → access first ≤ access second

/-- The accesses so far, and what was written last to `compare[match_ix]`. -/
structure TimerState where
  accesses : Nat
  compare : UInt32

def splitReg (whole : UInt64) : UInt32 × UInt32 :=
  let hi := (whole >>> 32).toUInt32
  let lo := (whole &&& ((1 : UInt64) <<< 32 - 1)).toUInt32
  (hi, lo)

def joinReg (hi lo : UInt32) : UInt64 := hi.toUInt64 <<< 32 ||| lo.toUInt64

namespace BcmSystemTimerDevice

variable {Time : Type} [Preorder Time] (trace : CounterTrace Time)

/-- What the counter is at an access. -/
def counterAt (index : Nat) : UInt64 := trace.counter (trace.access index)

def counterHi : StateM TimerState UInt32 := fun state =>
  (.ofNat ((counterAt trace state.accesses).toNat / 2 ^ 32),
    { state with accesses := state.accesses + 1 })

def counterLo : StateM TimerState UInt32 := fun state =>
  (.ofNat (counterAt trace state.accesses).toNat, { state with accesses := state.accesses + 1 })

def writeCompare (value : UInt32) : StateM TimerState Unit := fun state =>
  ((), ⟨state.accesses + 1, value⟩)

def getCountSplit : StateM TimerState (UInt32 × UInt32) := do
  let hi0 ← counterHi trace
  let lo0 ← counterLo trace
  let hi ← counterHi trace
  let lo ← if hi0 = hi then pure lo0 else counterLo trace
  pure (hi, lo)

def getCount : StateM TimerState UInt64 := do
  let (hi, lo) ← getCountSplit trace
  pure (joinReg hi lo)

/-- The count that is read first is for a message only. -/
def setCompare (compare : UInt64) : StateM TimerState Bool := do
  let (_, compareLo) := splitReg compare
  let _ ← getCountSplit trace
  writeCompare compareLo
  let count ← getCount trace
  pure (compare ≥ count)

/-! ## Halves of a word -/

theorem joinReg_toNat (hi lo : UInt32) : (joinReg hi lo).toNat = hi.toNat * 2 ^ 32 + lo.toNat := by
  have hiLess := hi.toNat_lt
  have loLess := lo.toNat_lt
  have shifted : (hi.toUInt64 <<< 32).toNat = hi.toNat <<< 32 := by
    rw [UInt64.toNat_shiftLeft, UInt32.toNat_toUInt64]
    apply Nat.mod_eq_of_lt
    rw [Nat.shiftLeft_eq]
    simp
    omega
  rw [joinReg, UInt64.toNat_or, shifted, UInt32.toNat_toUInt64,
    ← Nat.shiftLeft_add_eq_or_of_lt loLess, Nat.shiftLeft_eq]

theorem joinReg_halves (whole : UInt64) :
    joinReg (.ofNat (whole.toNat / 2 ^ 32)) (.ofNat whole.toNat) = whole := by
  have less := whole.toNat_lt
  apply UInt64.toNat_inj.mp
  rw [joinReg_toNat, UInt32.toNat_ofNat', UInt32.toNat_ofNat']
  omega

theorem splitReg_eq (whole : UInt64) :
    splitReg whole = (.ofNat (whole.toNat / 2 ^ 32), .ofNat whole.toNat) := by
  have less := whole.toNat_lt
  have isMask : ((1 : UInt64) <<< 32 - 1).toNat = 2 ^ 32 - 1 := rfl
  apply Prod.ext
  · apply UInt32.toNat_inj.mp
    rw [splitReg, UInt64.toNat_toUInt32, UInt64.toNat_shiftRight, UInt32.toNat_ofNat',
      Nat.shiftRight_eq_div_pow]
    rfl
  · apply UInt32.toNat_inj.mp
    rw [splitReg, UInt64.toNat_toUInt32, UInt64.toNat_and, isMask, UInt32.toNat_ofNat',
      Nat.and_two_pow_sub_one_eq_mod, Nat.mod_mod]

/-! ## What a call returns -/

variable {trace} {state : TimerState}

theorem counterAt_le {first second : Nat} (before : first ≤ second) :
    counterAt trace first ≤ counterAt trace second :=
  trace.nondecreasing _ _ (trace.inOrder _ _ before)

def highAt (trace : CounterTrace Time) (index : Nat) : Nat :=
  (counterAt trace index).toNat / 2 ^ 32

theorem highAt_le {first second : Nat} (before : first ≤ second) :
    highAt trace first ≤ highAt trace second :=
  Nat.div_le_div_right (counterAt_le before)

theorem ofNat_highAt_inj {first second : Nat} :
    UInt32.ofNat (highAt trace first) = UInt32.ofNat (highAt trace second) ↔
      highAt trace first = highAt trace second := by
  have firstLess := (counterAt trace first).toNat_lt
  have secondLess := (counterAt trace second).toNat_lt
  unfold highAt
  rw [← UInt32.toNat_inj, UInt32.toNat_ofNat', UInt32.toNat_ofNat']
  omega

/-- Two accesses between which the higher half does not change read one value. -/
theorem joinReg_accesses {highAccess lowAccess : Nat}
    (same : highAt trace highAccess = highAt trace lowAccess) :
    joinReg (.ofNat (highAt trace highAccess)) (.ofNat (counterAt trace lowAccess).toNat) =
      counterAt trace lowAccess := by
  rw [same]
  exact joinReg_halves _

theorem getCount_run : (getCount trace).run state =
    if highAt trace state.accesses = highAt trace (state.accesses + 2) then
      (joinReg (.ofNat (highAt trace (state.accesses + 2)))
        (.ofNat (counterAt trace (state.accesses + 1)).toNat),
        { state with accesses := state.accesses + 3 })
    else
      (joinReg (.ofNat (highAt trace (state.accesses + 2)))
        (.ofNat (counterAt trace (state.accesses + 3)).toNat),
        { state with accesses := state.accesses + 4 }) := by
  have decided := @ofNat_highAt_inj _ _ trace state.accesses (state.accesses + 2)
  unfold highAt at decided
  split
  · next same =>
      have isSame := decided.mpr same
      simp only [getCount, getCountSplit, counterHi, counterLo, StateT.run, bind, StateT.bind,
        Nat.add_assoc, Nat.reduceAdd, isSame, if_true]
      rfl
  · next differs =>
      have differ := mt decided.mp differs
      simp only [getCount, getCountSplit, counterHi, counterLo, StateT.run, bind, StateT.bind,
        Nat.add_assoc, Nat.reduceAdd, differ, if_false]
      rfl

/-- The last access that a call of `get_count` makes. -/
def lastAccess (trace : CounterTrace Time) (state : TimerState) : Nat :=
  ((getCount trace).run state).2.accesses - 1

/-- The counter advances by fewer than `2 ^ 32` ticks during a call. -/
def Slow (trace : CounterTrace Time) (state : TimerState) : Prop :=
  (counterAt trace (lastAccess trace state)).toNat - (counterAt trace state.accesses).toNat < 2 ^ 32

/-- A carry between the third and the fourth access would be the second one of the call. -/
theorem highAt_settled (slow : (counterAt trace (state.accesses + 3)).toNat -
      (counterAt trace state.accesses).toNat < 2 ^ 32)
    (differs : highAt trace state.accesses ≠ highAt trace (state.accesses + 2)) :
    highAt trace (state.accesses + 2) = highAt trace (state.accesses + 3) := by
  have carried := @highAt_le _ _ trace state.accesses (state.accesses + 2) (by omega)
  have later := @highAt_le _ _ trace (state.accesses + 2) (state.accesses + 3) (by omega)
  unfold highAt at carried later differs ⊢
  omega

/-- Either half is from the access whose value the other one belongs to. -/
theorem getCount_reads (slow : Slow trace state) :
    ∃ index, state.accesses ≤ index ∧ index ≤ lastAccess trace state ∧
      ((getCount trace).run state).1 = counterAt trace index := by
  unfold Slow lastAccess at slow
  unfold lastAccess
  rw [getCount_run] at slow ⊢
  split at slow
  · next same =>
      have first := @highAt_le _ _ trace state.accesses (state.accesses + 1) (by omega)
      have second := @highAt_le _ _ trace (state.accesses + 1) (state.accesses + 2) (by omega)
      have between : highAt trace (state.accesses + 2) = highAt trace (state.accesses + 1) := by omega
      rw [if_pos same]
      exact ⟨state.accesses + 1, by omega, by simp, joinReg_accesses between⟩
  · next differs =>
      rw [if_neg differs]
      exact ⟨state.accesses + 3, by omega, by simp, joinReg_accesses (highAt_settled slow differs)⟩

theorem accesses_lt : state.accesses < ((getCount trace).run state).2.accesses := by
  rw [getCount_run]
  split <;> simp

/-! ## Calls in succession -/

/-- Calls of `get_count` with other accesses in between, and the counts that they return. -/
inductive Calls (trace : CounterTrace Time) : TimerState → List UInt64 → Prop where
  | none (state : TimerState) : Calls trace state []
  | call {state next : TimerState} {counts : List UInt64} (slow : Slow trace state)
      (later : ((getCount trace).run state).2.accesses ≤ next.accesses)
      (calls : Calls trace next counts) :
      Calls trace state (((getCount trace).run state).1 :: counts)

theorem Calls.since {counts : List UInt64} (calls : Calls trace state counts) :
    ∀ count ∈ counts, counterAt trace state.accesses ≤ count := by
  induction calls with
  | none => simp
  | @call state next counts slow later _ ih =>
      intro count member
      rcases List.mem_cons.mp member with rfl | member
      · obtain ⟨index, since, _, isValue⟩ := getCount_reads slow
        rw [isValue]
        exact counterAt_le since
      · have advanced := @accesses_lt _ _ trace state
        exact UInt64.le_trans (counterAt_le (by omega)) (ih count member)

theorem Calls.sorted {counts : List UInt64} (calls : Calls trace state counts) :
    counts.Pairwise (· ≤ ·) := by
  induction calls with
  | none => exact .nil
  | @call state next counts slow later calls ih =>
      apply List.pairwise_cons.mpr
      refine ⟨fun count member => ?_, ih⟩
      obtain ⟨index, _, within, isValue⟩ := getCount_reads slow
      rw [isValue]
      have before : index ≤ next.accesses := by
        unfold lastAccess at within
        omega
      exact UInt64.le_trans (counterAt_le before) (calls.since count member)

/-- Every count is the value of the counter at one of the call's accesses, and the counts of
successive calls do not go backwards. -/
theorem getCount_linearizable (trace : CounterTrace Time) (state : TimerState) :
    (Slow trace state → ∃ index, state.accesses ≤ index ∧ index ≤ lastAccess trace state ∧
      ((getCount trace).run state).1 = trace.counter (trace.access index)) ∧
    ∀ counts, Calls trace state counts → counts.Pairwise (· ≤ ·) :=
  ⟨getCount_reads, fun _ calls => calls.sorted⟩

/-- A counter that carries into the higher half after the first two accesses. -/
def carrying : CounterTrace Nat where
  counter time := if time < 2 then 0xffffffff else 0x100000000
  access index := index
  nondecreasing first second before := by
    split <;> split
    · exact UInt64.le_refl _
    · decide
    · omega
    · exact UInt64.le_refl _
  inOrder _ _ before := before

theorem getCount_linearizable_carrying :
    ((getCount carrying).run ⟨0, 0⟩).1 = 0x100000000 ∧ ∃ index, 0 ≤ index ∧
      index ≤ lastAccess carrying ⟨0, 0⟩ ∧
      ((getCount carrying).run ⟨0, 0⟩).1 = carrying.counter (carrying.access index) :=
  ⟨by decide +kernel, (getCount_linearizable carrying ⟨0, 0⟩).1 (by unfold Slow; decide +kernel)⟩

/-! ## Arming the compare register -/

/-- The state in which `set_compare` reads the count again. -/
def armed (trace : CounterTrace Time) (compare : UInt64) (state : TimerState) : TimerState :=
  ⟨((getCountSplit trace).run state).2.accesses + 1, .ofNat compare.toNat⟩

theorem setCompare_run (compare : UInt64) : (setCompare trace compare).run state =
    (decide (((getCount trace).run (armed trace compare state)).1 ≤ compare),
      ((getCount trace).run (armed trace compare state)).2) := by
  have isLow : (splitReg compare).2 = .ofNat compare.toNat := by rw [splitReg_eq]
  unfold armed
  rw [← isLow]
  rfl

theorem setCompare_compare (compare : UInt64) :
    ((setCompare trace compare).run state).2.compare = .ofNat compare.toNat := by
  rw [setCompare_run, getCount_run]
  split <;> rfl

/-- A lower half is met once in `2 ^ 32` ticks. -/
theorem splitReg_low_iff {count compare : UInt64} (before : count ≤ compare)
    (near : compare.toNat < count.toNat + 2 ^ 32) :
    (splitReg count).2 = .ofNat compare.toNat ↔ count = compare := by
  have isBefore := UInt64.le_iff_toNat_le.mp before
  rw [splitReg_eq, ← UInt32.toNat_inj, UInt32.toNat_ofNat', UInt32.toNat_ofNat', ← UInt64.toNat_inj]
  omega

/-- `true` is returned for a time that the counter had not passed when it was written, `false` for
one that it has passed.  The register is met then, and not in the `2 ^ 32` ticks before. -/
theorem setCompare_tells (trace : CounterTrace Time) (state : TimerState) {compare : UInt64}
    (slow : Slow trace (armed trace compare state)) :
    (((setCompare trace compare).run state).1 = true →
      counterAt trace (armed trace compare state).accesses ≤ compare) ∧
    (((setCompare trace compare).run state).1 = false →
      compare < counterAt trace (lastAccess trace (armed trace compare state))) ∧
    ∀ count : UInt64, count ≤ compare → compare.toNat < count.toNat + 2 ^ 32 →
      ((splitReg count).2 = ((setCompare trace compare).run state).2.compare ↔ count = compare) := by
  obtain ⟨index, since, within, isValue⟩ := getCount_reads slow
  refine ⟨fun isTrue => ?_, fun isFalse => ?_, fun count before near => ?_⟩
  · rw [setCompare_run, isValue] at isTrue
    exact UInt64.le_trans (counterAt_le since) (of_decide_eq_true isTrue)
  · rw [setCompare_run, isValue] at isFalse
    exact UInt64.lt_of_lt_of_le (UInt64.not_le.mp (of_decide_eq_false isFalse)) (counterAt_le within)
  · rw [setCompare_compare]
    exact splitReg_low_iff before near

theorem setCompare_tells_carrying :
    ((setCompare carrying 0x100000007).run ⟨0, 0⟩).1 = true ∧
      counterAt carrying (armed carrying 0x100000007 ⟨0, 0⟩).accesses ≤ 0x100000007 := by
  have isTrue : ((setCompare carrying 0x100000007).run ⟨0, 0⟩).1 = true := by decide +kernel
  have slow : Slow carrying (armed carrying 0x100000007 ⟨0, 0⟩) := by
    unfold Slow
    decide +kernel
  exact ⟨isTrue, (setCompare_tells carrying ⟨0, 0⟩ slow).1 isTrue⟩

end BcmSystemTimerDevice

end IceCap.Drivers
