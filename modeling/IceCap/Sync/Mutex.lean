import Mathlib.Data.Fintype.Card
import Mathlib.Logic.Relation
import IceCap.Library.Census
import IceCap.Sel4.Notification

/-!
# The mutex

`RawGenericMutex` of `icecap-sync`, with any number of threads.  `lock` and
`unlock` make two accesses each at most: one to the counter, and one to the
notification where the counter says so.  Between the two any other thread may
run.

The counter is an `isize`: one less than the number of threads that have asked
for the lock and not given it up, until it wraps around.
-/

set_option autoImplicit false

namespace IceCap.Sync

open IceCap.Library IceCap.Sel4

structure RawGenericMutex where
  notification : Notification
  value : BitVec 64
  deriving DecidableEq, Repr

def RawGenericMutex.new : RawGenericMutex := ⟨.empty, 1⟩

/-- Where a thread is: outside, in `lock` before its `wait`, between a completed `lock` and its
`unlock`, or in `unlock` before its `signal`. -/
inductive Pc where
  | outside
  | waiting
  | holding
  | signalling
  deriving DecidableEq, Repr

structure System (Thread : Type) where
  mutex : RawGenericMutex
  pc : Thread → Pc

namespace System

variable {Thread : Type}

def start : System Thread := ⟨RawGenericMutex.new, fun _ => .outside⟩

variable [DecidableEq Thread]

def goto (system : System Thread) (thread : Thread) (place : Pc) : System Thread :=
  { system with pc := Function.update system.pc thread place }

def setValue (system : System Thread) (value : BitVec 64) : System Thread :=
  { system with mutex := { system.mutex with value } }

def setNotification (system : System Thread) (notification : Notification) : System Thread :=
  { system with mutex := { system.mutex with notification } }

/-- `fetch_sub` of `lock`, and the test of the old value. -/
def fetchSub (system : System Thread) (thread : Thread) : System Thread :=
  let oldValue := system.mutex.value.toInt
  (system.setValue (system.mutex.value - 1)).goto thread
    (if oldValue ≤ 0 then .waiting else .holding)

/-- `fetch_add` of `unlock`, and the test of the old value. -/
def fetchAdd (system : System Thread) (thread : Thread) : System Thread :=
  let oldValue := system.mutex.value.toInt
  (system.setValue (system.mutex.value + 1)).goto thread
    (if oldValue < 0 then .signalling else .outside)

/-- The next access of a thread; `badge` is the badge of the capability that the mutex signals. -/
inductive Step (badge : Badge) : System Thread → System Thread → Prop where
  | lock {system : System Thread} (thread : Thread) (isOutside : system.pc thread = .outside) :
      Step badge system (system.fetchSub thread)
  | wait {system : System Thread} (thread : Thread) (isWaiting : system.pc thread = .waiting)
      {received : Badge} {notification : Notification}
      (run : system.mutex.notification.wait = some (received, notification)) :
      Step badge system ((system.setNotification notification).goto thread .holding)
  | unlock {system : System Thread} (thread : Thread) (isHolding : system.pc thread = .holding) :
      Step badge system (system.fetchAdd thread)
  | signal {system : System Thread} (thread : Thread)
      (isSignalling : system.pc thread = .signalling) :
      Step badge system ((system.setNotification (system.mutex.notification.signal badge)).goto
        thread .outside)

end System

/-! ## The invariant -/

/-- The thread has asked for the lock and not given it up. -/
def Pc.isIn : Pc → Bool
  | waiting | holding => true
  | _ => false

def Pc.isHolding (pc : Pc) : Bool := pc == .holding

def Pc.isSignalling (pc : Pc) : Bool := pc == .signalling

namespace System

variable {Thread : Type} [Fintype Thread] {system final : System Thread} {badge : Badge}

/-- The lock is with a thread that holds it, with the notification, or with a thread that is about
to signal. -/
def tokens (system : System Thread) : Nat :=
  census Pc.isHolding system.pc + system.mutex.notification.pending.isSome.toNat +
    census Pc.isSignalling system.pc

structure Invariant (system : System Thread) : Prop where
  counted : system.mutex.value.toInt = 1 - census Pc.isIn system.pc
  single : system.tokens = if census Pc.isIn system.pc = 0 then 0 else 1

theorem start_invariant : Invariant (start : System Thread) := by
  have noneIn : census Pc.isIn (start : System Thread).pc = 0 := census_eq_zero.mpr fun _ => rfl
  have noneHold : census Pc.isHolding (start : System Thread).pc = 0 :=
    census_eq_zero.mpr fun _ => rfl
  have noneSignal : census Pc.isSignalling (start : System Thread).pc = 0 :=
    census_eq_zero.mpr fun _ => rfl
  constructor
  · rw [noneIn]
    rfl
  · rw [noneIn, tokens, noneHold, noneSignal]
    rfl

/-- A thread that is about to signal has the lock, so the notification does not. -/
theorem Invariant.notPending {thread : Thread} (holds : system.Invariant)
    (isSignalling : system.pc thread = .signalling) :
    system.mutex.notification.pending = none := by
  have single := holds.single
  have signalling : 0 < census Pc.isSignalling system.pc :=
    census_pos.mpr ⟨thread, by rw [isSignalling]; rfl⟩
  cases isPending : system.mutex.notification.pending with
  | none => rfl
  | some old =>
      simp only [tokens, isPending, Option.isSome_some, Bool.toNat_true] at single
      split at single <;> omega

variable [DecidableEq Thread]

/-- One thread moves, and the counter and the notification change with it. -/
theorem Invariant.moved {mutex : RawGenericMutex} {thread : Thread} {old new : Pc}
    (holds : system.Invariant) (isOld : system.pc thread = old)
    (value : mutex.value.toInt + new.isIn.toNat = system.mutex.value.toInt + old.isIn.toNat)
    (tokens : (new.isHolding.toNat + mutex.notification.pending.isSome.toNat +
          new.isSignalling.toNat : Int) -
        (old.isHolding.toNat + system.mutex.notification.pending.isSome.toNat +
          old.isSignalling.toNat) =
      (if mutex.value.toInt = 1 then 0 else 1) - if system.mutex.value.toInt = 1 then 0 else 1) :
    Invariant ⟨mutex, Function.update system.pc thread new⟩ := by
  obtain ⟨counted, single⟩ := holds
  have inside := census_update Pc.isIn system.pc thread new
  have holding := census_update Pc.isHolding system.pc thread new
  have signalling := census_update Pc.isSignalling system.pc thread new
  rw [isOld] at inside holding signalling
  have counted' : mutex.value.toInt =
      1 - census Pc.isIn (Function.update system.pc thread new) := by omega
  refine ⟨counted', ?_⟩
  simp only [System.tokens] at single ⊢
  split at single <;> split <;> split at tokens <;> split at tokens <;> omega

theorem toInt_sub_one (value : BitVec 64) (above : -2 ^ 63 < value.toInt) :
    (value - 1).toInt = value.toInt - 1 := by
  have below := BitVec.toInt_lt (x := value)
  rw [BitVec.toInt_sub, show (1 : BitVec 64).toInt = 1 from rfl]
  exact Int.bmod_eq_of_le (by omega) (by omega)

theorem toInt_add_one (value : BitVec 64) (below : value.toInt < 2 ^ 63 - 1) :
    (value + 1).toInt = value.toInt + 1 := by
  have above := BitVec.le_toInt (x := value)
  rw [BitVec.toInt_add, show (1 : BitVec 64).toInt = 1 from rfl]
  exact Int.bmod_eq_of_le (by omega) (by omega)

/-- The counter does not wrap as long as there are no more threads than it can count. -/
theorem fetchSub_invariant {thread : Thread} (few : Fintype.card Thread ≤ 2 ^ 63 + 1)
    (holds : system.Invariant) (isOutside : system.pc thread = .outside) :
    (system.fetchSub thread).Invariant := by
  have counted := holds.counted
  have room : census Pc.isIn system.pc < Fintype.card Thread := census_lt (by rw [isOutside]; rfl)
  have value := toInt_sub_one system.mutex.value (by omega)
  by_cases contended : system.mutex.value.toInt ≤ 0
  · simp only [fetchSub, if_pos contended]
    refine holds.moved isOutside ?_ ?_
    · change (system.mutex.value - 1).toInt + 1 = system.mutex.value.toInt + 0
      omega
    · change (0 + system.mutex.notification.pending.isSome.toNat + 0 : Int) -
          (0 + system.mutex.notification.pending.isSome.toNat + 0) =
        (if (system.mutex.value - 1).toInt = 1 then 0 else 1) -
          if system.mutex.value.toInt = 1 then 0 else 1
      rw [if_neg (by omega), if_neg (by omega)]
      omega
  · simp only [fetchSub, if_neg contended]
    refine holds.moved isOutside ?_ ?_
    · change (system.mutex.value - 1).toInt + 1 = system.mutex.value.toInt + 0
      omega
    · change (1 + system.mutex.notification.pending.isSome.toNat + 0 : Int) -
          (0 + system.mutex.notification.pending.isSome.toNat + 0) =
        (if (system.mutex.value - 1).toInt = 1 then 0 else 1) -
          if system.mutex.value.toInt = 1 then 0 else 1
      rw [if_neg (by omega), if_pos (by omega)]
      omega

theorem fetchAdd_invariant {thread : Thread} (holds : system.Invariant)
    (isHolding : system.pc thread = .holding) : (system.fetchAdd thread).Invariant := by
  have counted := holds.counted
  have inside : 0 < census Pc.isIn system.pc :=
    census_pos.mpr ⟨thread, by rw [isHolding]; rfl⟩
  have value := toInt_add_one system.mutex.value (by omega)
  by_cases contended : system.mutex.value.toInt < 0
  · simp only [fetchAdd, if_pos contended]
    refine holds.moved isHolding ?_ ?_
    · change (system.mutex.value + 1).toInt + 0 = system.mutex.value.toInt + 1
      omega
    · change (0 + system.mutex.notification.pending.isSome.toNat + 1 : Int) -
          (1 + system.mutex.notification.pending.isSome.toNat + 0) =
        (if (system.mutex.value + 1).toInt = 1 then 0 else 1) -
          if system.mutex.value.toInt = 1 then 0 else 1
      rw [if_neg (by omega), if_neg (by omega)]
      omega
  · simp only [fetchAdd, if_neg contended]
    refine holds.moved isHolding ?_ ?_
    · change (system.mutex.value + 1).toInt + 0 = system.mutex.value.toInt + 1
      omega
    · change (0 + system.mutex.notification.pending.isSome.toNat + 0 : Int) -
          (1 + system.mutex.notification.pending.isSome.toNat + 0) =
        (if (system.mutex.value + 1).toInt = 1 then 0 else 1) -
          if system.mutex.value.toInt = 1 then 0 else 1
      rw [if_pos (by omega), if_neg (by omega)]
      omega

theorem wait_invariant {thread : Thread} {received : Badge} {notification : Notification}
    (holds : system.Invariant) (isWaiting : system.pc thread = .waiting)
    (run : system.mutex.notification.wait = some (received, notification)) :
    ((system.setNotification notification).goto thread .holding).Invariant := by
  obtain ⟨wasPending, rfl⟩ := Notification.wait_eq_some.mp run
  refine holds.moved isWaiting rfl ?_
  change (1 + 0 + 0 : Int) - (0 + system.mutex.notification.pending.isSome.toNat + 0) =
    (if system.mutex.value.toInt = 1 then 0 else 1) - if system.mutex.value.toInt = 1 then 0 else 1
  rw [wasPending]
  simp

theorem signal_invariant {thread : Thread} (holds : system.Invariant)
    (isSignalling : system.pc thread = .signalling) :
    ((system.setNotification (system.mutex.notification.signal badge)).goto thread
      .outside).Invariant := by
  refine holds.moved isSignalling rfl ?_
  change (0 + 1 + 0 : Int) - (0 + system.mutex.notification.pending.isSome.toNat + 1) =
    (if system.mutex.value.toInt = 1 then 0 else 1) - if system.mutex.value.toInt = 1 then 0 else 1
  rw [holds.notPending isSignalling]
  simp

theorem Step.invariant (few : Fintype.card Thread ≤ 2 ^ 63 + 1) (holds : system.Invariant)
    (step : Step badge system final) : final.Invariant := by
  cases step with
  | lock thread isOutside => exact fetchSub_invariant few holds isOutside
  | wait thread isWaiting run => exact wait_invariant holds isWaiting run
  | unlock thread isHolding => exact fetchAdd_invariant holds isHolding
  | signal thread isSignalling => exact signal_invariant holds isSignalling

theorem run_invariant (few : Fintype.card Thread ≤ 2 ^ 63 + 1)
    (run : Relation.ReflTransGen (Step badge) start system) : system.Invariant := by
  induction run with
  | refl => exact start_invariant
  | tail _ step ih => exact step.invariant few ih

/-- In every state of a run at most one thread holds the lock, no signal is absorbed, and the lock
is never lost. -/
theorem run_excludes (few : Fintype.card Thread ≤ 2 ^ 63 + 1)
    (run : Relation.ReflTransGen (Step badge) start system) :
    (∀ first second, system.pc first = .holding → system.pc second = .holding → first = second) ∧
    (∀ thread, system.pc thread = .signalling → system.mutex.notification.pending = none) ∧
    (system.mutex.value.toInt < 1 → (∃ thread, system.pc thread = .holding) ∨
      system.mutex.notification.pending ≠ none ∨ ∃ thread, system.pc thread = .signalling) := by
  have holds := run_invariant few run
  have single := holds.single
  refine ⟨fun first second isFirst isSecond => ?_, fun thread => holds.notPending, fun taken => ?_⟩
  · have few : census Pc.isHolding system.pc ≤ 1 := by
      simp only [tokens] at single
      split at single <;> omega
    exact census_unique few (by rw [isFirst]; rfl) (by rw [isSecond]; rfl)
  · by_contra lost
    simp only [not_or, not_exists, ne_eq, not_not] at lost
    obtain ⟨noHolder, noPending, noSignaller⟩ := lost
    have holding : census Pc.isHolding system.pc = 0 :=
      census_eq_zero.mpr fun thread => by simpa [Pc.isHolding] using noHolder thread
    have signalling : census Pc.isSignalling system.pc = 0 :=
      census_eq_zero.mpr fun thread => by simpa [Pc.isSignalling] using noSignaller thread
    have counted := holds.counted
    simp only [tokens, holding, noPending, signalling] at single
    split at single
    · omega
    · simp at single

/-- One of two threads has the lock and the other waits for it. -/
theorem run_excludes_contended : ∃ system : System (Fin 2),
    Relation.ReflTransGen (Step 1) start system ∧ system.pc 0 = .holding ∧
      system.pc 1 = .waiting ∧ ∀ thread, system.pc thread = .holding → thread = 0 := by
  have run : Relation.ReflTransGen (Step 1) (start : System (Fin 2))
      (((start : System (Fin 2)).fetchSub 0).fetchSub 1) :=
    (Relation.ReflTransGen.single (.lock 0 rfl)).tail (.lock 1 rfl)
  refine ⟨_, run, rfl, rfl, fun thread isHolding => ?_⟩
  exact (run_excludes (by decide) run).1 thread 0 isHolding rfl

/-! ## More threads than the counter can count -/

/-- The first `asked` of the threads have asked for the lock. -/
def asking (threads asked : Nat) : System (Fin threads) where
  mutex := ⟨.empty, 1 - BitVec.ofNat 64 asked⟩
  pc thread := if thread.val < asked then (if thread.val = 0 then .holding else .waiting)
    else .outside

theorem asking_value {threads asked : Nat} : (asking threads asked).mutex.value.toInt =
    (1 - asked : Int).bmod (2 ^ 64) := by
  have one : (1 : BitVec 64).toInt = 1 := rfl
  rw [asking, BitVec.toInt_sub, one, BitVec.toInt_ofNat', Int.sub_bmod_bmod]

theorem asking_step {threads asked : Nat} (isThread : asked < threads)
    (countable : asked ≤ 2 ^ 63 + 1) :
    Step badge (asking threads asked) (asking threads (asked + 1)) := by
  have value : (asking threads asked).mutex.value.toInt = 1 - asked := by
    rw [asking_value]
    exact Int.bmod_eq_of_le (by omega) (by omega)
  have isOutside : (asking threads asked).pc ⟨asked, isThread⟩ = .outside := by simp [asking]
  suffices same : (asking threads asked).fetchSub ⟨asked, isThread⟩ =
      asking threads (asked + 1) from same ▸ .lock _ isOutside
  have counter : (1 : BitVec 64) - BitVec.ofNat 64 asked - 1 = 1 - BitVec.ofNat 64 (asked + 1) := by
    rw [BitVec.ofNat_add, BitVec.sub_sub]
    rfl
  simp only [fetchSub, goto, setValue, value]
  refine System.mk.injEq _ _ _ _ |>.mpr ⟨by simp only [asking, counter], funext fun thread => ?_⟩
  by_cases isNew : thread = ⟨asked, isThread⟩
  · subst isNew
    rw [Function.update_self]
    by_cases isFirst : asked = 0
    · simp [isFirst]
    · have contended : (1 - asked : Int) ≤ 0 := by omega
      simp [isFirst, contended]
  · have differs : thread.val ≠ asked := fun same => isNew (Fin.ext same)
    have same : (thread.val < asked + 1) = (thread.val < asked) := by
      apply propext
      omega
    simp [asking, Function.update_of_ne isNew, same]

theorem asking_run {threads : Nat} (asked : Nat) (areThreads : asked ≤ threads)
    (countable : asked ≤ 2 ^ 63 + 2) :
    Relation.ReflTransGen (Step badge) start (asking threads asked) := by
  induction asked with
  | zero =>
      have isStart : asking threads 0 = start := by
        simp [asking, start, RawGenericMutex.new]
      rw [isStart]
  | succ asked ih => exact (ih (by omega) (by omega)).tail (asking_step (by omega) (by omega))

/-- With so many threads the counter wraps around, and the last of them finds it positive while
the first has the lock. -/
theorem counter_wraps : ∃ system : System (Fin (2 ^ 63 + 3)),
    Relation.ReflTransGen (Step 1) start system ∧
      ∃ first second, first ≠ second ∧ system.pc first = .holding ∧
        system.pc second = .holding := by
  have value : (asking (2 ^ 63 + 3) (2 ^ 63 + 2)).mutex.value.toInt = 2 ^ 63 - 1 := by
    rw [asking_value]
    rfl
  have isOutside : (asking (2 ^ 63 + 3) (2 ^ 63 + 2)).pc ⟨2 ^ 63 + 2, by omega⟩ = .outside := by
    simp [asking]
  refine ⟨_, (asking_run (2 ^ 63 + 2) (by omega) (by omega)).tail (.lock _ isOutside),
    ⟨0, by omega⟩, ⟨2 ^ 63 + 2, by omega⟩, by simp, ?_, ?_⟩
  · simp [fetchSub, goto, setValue, asking]
  · have positive : ¬ (asking (2 ^ 63 + 3) (2 ^ 63 + 2)).mutex.value.toInt ≤ 0 := by omega
    simp only [fetchSub, if_neg positive, goto, Function.update_self]

end System

end IceCap.Sync
