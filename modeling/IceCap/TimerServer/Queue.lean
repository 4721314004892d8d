import Mathlib.Data.Finset.Lattice.Lemmas
import Mathlib.Data.List.Basic
import IceCap.TimerServer.Server

/-!
# The queue of timers

The queue is sorted and has one timer for each client and id, whatever is
called.  One call of `update_timers` takes from it the timers that are due and
no others.  The invariant of its loop is carried by `Drained`, which is about
the queue the loop still has to go through.
-/

set_option autoImplicit false

namespace IceCap.TimerServer

open IceCap.Library IceCap.Sel4

/-! ## What it means for a timer to be due -/

/-- The deadlines of a timer that is armed again after every period. -/
def nthDeadline (compare period : Tick) : Nat → Tick
  | 0 => compare
  | n + 1 => nthDeadline (compare + period) period n

namespace Timer

/-- How often a timer expires by `count`: a periodic one at every deadline up to it. -/
def Elapsed (count : Tick) (timer : Timer) (times : Nat) : Prop :=
  match timer.period with
  | none => times = if timer.compare ≤ count then 1 else 0
  | some period =>
      (∀ n < times, nthDeadline timer.compare period n ≤ count) ∧
        count < nthDeadline timer.compare period times

/-- What is left in the queue of a timer that has expired some number of times. -/
def after (timer : Timer) (times : Nat) : Option Timer :=
  match timer.period with
  | none => if times = 0 then some timer else none
  | some period => some { timer with compare := nthDeadline timer.compare period times }

/-- A periodic timer goes back into the queue. -/
def rearmed (timer : Timer) : Option Timer :=
  timer.period.map fun period => { timer with compare := timer.compare + period }

open Classical in
noncomputable def times (count : Tick) (timer : Timer) : Nat :=
  if ends : ∃ times, timer.Elapsed count times then ends.choose else 0

variable {count : Tick} {timer : Timer}

theorem Elapsed.unique {first second : Nat} (isFirst : timer.Elapsed count first)
    (isSecond : timer.Elapsed count second) : first = second := by
  unfold Elapsed at isFirst isSecond
  cases isPeriod : timer.period with
  | none =>
      simp only [isPeriod] at isFirst isSecond
      exact isFirst.trans isSecond.symm
  | some period =>
      simp only [isPeriod] at isFirst isSecond
      apply Nat.le_antisymm
      · apply Nat.le_of_not_lt
        intro less
        exact absurd (isFirst.1 second less) (not_le.mpr isSecond.2)
      · apply Nat.le_of_not_lt
        intro less
        exact absurd (isSecond.1 first less) (not_le.mpr isFirst.2)

theorem Elapsed.times_eq {n : Nat} (elapsed : timer.Elapsed count n) : timer.times count = n := by
  have ends : ∃ times, timer.Elapsed count times := ⟨n, elapsed⟩
  rw [times, dif_pos ends]
  exact ends.choose_spec.unique elapsed

theorem Elapsed.of_times {n : Nat} (elapsed : timer.Elapsed count n) :
    timer.Elapsed count (timer.times count) := elapsed.times_eq.symm ▸ elapsed

theorem elapsed_waiting (waiting : count < timer.compare) : timer.Elapsed count 0 := by
  unfold Elapsed
  cases timer.period with
  | none => simp [not_le.mpr waiting]
  | some period => exact ⟨by simp, waiting⟩

theorem elapsed_oneShot (due : timer.compare ≤ count) (isRearmed : timer.rearmed = none) :
    timer.Elapsed count 1 := by
  have isPeriod : timer.period = none := by simpa [rearmed] using isRearmed
  simp [Elapsed, isPeriod, due]

theorem elapsed_again {again : Timer} {n : Nat} (due : timer.compare ≤ count)
    (isRearmed : timer.rearmed = some again) (elapsed : again.Elapsed count n) :
    timer.Elapsed count (n + 1) := by
  obtain ⟨period, isPeriod, rfl⟩ := Option.map_eq_some_iff.mp isRearmed
  simp only [Elapsed, isPeriod] at elapsed ⊢
  refine ⟨fun m less => ?_, elapsed.2⟩
  cases m with
  | zero => exact due
  | succ m => exact elapsed.1 m (Nat.lt_of_succ_lt_succ less)

theorem after_zero : timer.after 0 = some timer := by
  unfold after
  cases isPeriod : timer.period with
  | none => rfl
  | some period => simp [nthDeadline, ← isPeriod]

theorem after_oneShot (isRearmed : timer.rearmed = none) : timer.after 1 = none := by
  have isPeriod : timer.period = none := by simpa [rearmed] using isRearmed
  simp [after, isPeriod]

theorem after_again {again : Timer} {n : Nat} (isRearmed : timer.rearmed = some again) :
    timer.after (n + 1) = again.after n := by
  obtain ⟨period, isPeriod, rfl⟩ := Option.map_eq_some_iff.mp isRearmed
  simp [after, isPeriod, nthDeadline]

theorem after_of_oneShot {last : Timer} {n : Nat} (isPeriod : timer.period = none)
    (isLast : timer.after n = some last) : n = 0 ∧ last = timer := by
  simp only [after, isPeriod] at isLast
  split at isLast
  · next isZero => exact ⟨isZero, (Option.some.inj isLast).symm⟩
  · cases isLast

theorem rearmed_same {again : Timer} (isRearmed : timer.rearmed = some again) :
    again.client = timer.client ∧ again.timer = timer.timer := by
  obtain ⟨period, _, rfl⟩ := Option.map_eq_some_iff.mp isRearmed
  exact ⟨rfl, rfl⟩

/-- What is left of a timer is not due any more. -/
theorem Elapsed.left {n : Nat} {last : Timer} (elapsed : timer.Elapsed count n)
    (isLast : timer.after n = some last) : count < last.compare := by
  unfold Elapsed at elapsed
  unfold after at isLast
  cases isPeriod : timer.period with
  | none =>
      simp only [isPeriod] at elapsed isLast
      split at isLast
      · next isZero =>
          cases isLast
          rw [isZero] at elapsed
          split at elapsed
          · cases elapsed
          · next notDue => exact not_le.mp notDue
      · cases isLast
  | some period =>
      simp only [isPeriod] at elapsed isLast
      cases isLast
      exact elapsed.2

theorem Elapsed.pos_iff {n : Nat} (elapsed : timer.Elapsed count n) :
    0 < n ↔ timer.compare ≤ count := by
  constructor
  · intro positive
    by_contra notDue
    rw [elapsed.unique (elapsed_waiting (not_le.mp notDue))] at positive
    exact absurd positive (Nat.lt_irrefl 0)
  · intro due
    apply Nat.pos_of_ne_zero
    rintro rfl
    exact absurd due (not_le.mpr (elapsed.left after_zero))

theorem nthDeadline_toInt {compare period : Tick} {n : Nat} (positive : 0 ≤ period.toInt)
    (bound : compare.toInt + n * period.toInt < 2 ^ 63) :
    (nthDeadline compare period n).toInt = compare.toInt + n * period.toInt := by
  induction n generalizing compare with
  | zero => simp [nthDeadline]
  | succ n ih =>
      have low := compare.le_toInt
      have grown : 0 ≤ (n : Int) * period.toInt := Int.mul_nonneg (Int.natCast_nonneg n) positive
      have shifted : ((n + 1 : Nat) : Int) * period.toInt = n * period.toInt + period.toInt := by
        rw [Int.natCast_add, Int.natCast_one, Int.add_mul, Int.one_mul]
      rw [shifted] at bound ⊢
      have next : (compare + period).toInt = compare.toInt + period.toInt := by
        rw [Int64.toInt_add]
        exact Int.bmod_eq_of_le (by omega) (by omega)
      rw [nthDeadline, ih (by omega), next]
      omega

/-- Where no deadline passes the end of `i64`, the periods are counted by a division. -/
theorem times_eq_div {period : Tick} (isPeriod : timer.period = some period)
    (positive : 0 < period.toInt) (due : timer.compare ≤ count)
    (bound : count.toInt + period.toInt < 2 ^ 63) :
    (timer.times count : Int) = (count.toInt - timer.compare.toInt) / period.toInt + 1 := by
  have notBefore := Int64.le_iff_toInt_le.mp due
  have quotient : 0 ≤ (count.toInt - timer.compare.toInt) / period.toInt :=
    Int.ediv_nonneg (by omega) (by omega)
  obtain ⟨n, isQuotient⟩ := Int.eq_ofNat_of_zero_le quotient
  have below : n * period.toInt ≤ count.toInt - timer.compare.toInt := by
    rw [← isQuotient]
    exact Int.ediv_mul_le _ (by omega)
  have above : count.toInt - timer.compare.toInt < (n + 1) * period.toInt := by
    rw [← isQuotient]
    exact Int.lt_ediv_add_one_mul_self _ positive
  rw [Int.add_mul, Int.one_mul] at above
  have elapsed : timer.Elapsed count (n + 1) := by
    simp only [Elapsed, isPeriod]
    constructor
    · intro m less
      have fewer : (m : Int) * period.toInt ≤ n * period.toInt :=
        Int.mul_le_mul_of_nonneg_right (by omega) (by omega)
      rw [Int64.le_iff_toInt_le, nthDeadline_toInt (by omega) (by omega)]
      omega
    · have shifted : ((n + 1 : Nat) : Int) * period.toInt = n * period.toInt + period.toInt := by
        rw [Int.natCast_add, Int.natCast_one, Int.add_mul, Int.one_mul]
      rw [Int64.lt_iff_toInt_lt, nthDeadline_toInt (by omega) (by omega)]
      omega
  rw [elapsed.times_eq, isQuotient]
  rfl

end Timer

/-! ## Insertion -/

namespace Server

variable {δ : Type} {platform : Platform δ} {server final : Server δ} {timer : Timer}

theorem insert_spec (ordered : Ordered Timer.compare server.outstanding)
    (run : insert platform timer server = .ok () final) :
    ∃ outstanding, outstanding.Perm (timer :: server.outstanding) ∧
      Ordered Timer.compare outstanding ∧ final = { server with outstanding } := by
  simp only [insert, Exec.bind_eq_ok, Exec.reads_eq_ok, Exec.modify_eq_ok, Timers.insert] at run
  obtain ⟨outstanding, _, ⟨inserted, rfl⟩, rfl⟩ := run
  split at inserted
  · cases inserted
    exact ⟨_, insertAt_perm, ordered.insertAt, rfl⟩
  · cases inserted

theorem rearm_spec (ordered : Ordered Timer.compare server.outstanding)
    (run : rearm platform timer server = .ok () final) :
    ∃ outstanding, outstanding.Perm (timer.rearmed.toList ++ server.outstanding) ∧
      Ordered Timer.compare outstanding ∧ final = { server with outstanding } := by
  unfold rearm at run
  cases isPeriod : timer.period with
  | none =>
      simp only [isPeriod, Exec.pure_eq_ok] at run
      exact ⟨server.outstanding, by simp [Timer.rearmed, isPeriod], ordered, run.2.symm⟩
  | some period =>
      simp only [isPeriod] at run
      simp only [Timer.rearmed, isPeriod, Option.map_some, Option.toList_some, List.singleton_append]
      exact insert_spec ordered run

/-- One expiry of the timer that was first in the queue. -/
theorem expire_spec (ordered : Ordered Timer.compare server.outstanding)
    (run : expire platform timer server = .ok () final) :
    ∃ outstanding done nfn, outstanding.Perm (timer.rearmed.toList ++ server.outstanding) ∧
      Ordered Timer.compare outstanding ∧ server.completed timer.client = some done ∧
      server.clients[timer.client]? = some nfn ∧
      final = { server with
        outstanding
        completed := Function.update server.completed timer.client
          (some (Insert.insert timer.timer done))
        signalled := server.signalled ++ [nfn] } := by
  simp only [expire, updateCompleted, signal, Exec.bind_eq_ok, Exec.reads_eq_ok,
    Exec.modify_eq_ok] at run
  obtain ⟨_, _, ⟨done, _, ⟨isDone, rfl⟩, rfl⟩, _, middle, rearmRun, nfn, _, ⟨isNfn, rfl⟩, rfl⟩ := run
  obtain ⟨outstanding, perm, stillOrdered, rfl⟩ := rearm_spec (by exact ordered) rearmRun
  exact ⟨outstanding, done, nfn, perm, stillOrdered, isDone, isNfn, rfl⟩

end Server

/-! ## Draining the queue -/

/-- The ids of a client's timers that are due. -/
def dueOf (count : Tick) (client : ClientId) (timers : Timers) : Finset TimerId :=
  ((timers.filter fun timer => timer.client = client ∧ timer.compare ≤ count).map
    Timer.timer).toFinset

theorem mem_dueOf {count : Tick} {client : ClientId} {timers : Timers} {tid : TimerId} :
    tid ∈ dueOf count client timers ↔
      ∃ timer ∈ timers, (timer.client = client ∧ timer.compare ≤ count) ∧ timer.timer = tid := by
  simp [dueOf, and_assoc]

/-- What a call of `update_timers` has done when it returns. -/
structure Drained {δ : Type} (count : Tick) (before after : Server δ) : Prop where
  elapsed : ∀ timer ∈ before.outstanding, timer.Elapsed count (timer.times count)
  outstanding : after.outstanding.Perm
    (before.outstanding.filterMap fun timer => timer.after (timer.times count))
  completed : ∀ client, after.completed client =
    (before.completed client).map (· ∪ dueOf count client before.outstanding)
  signalled : ∃ sent, after.signalled = before.signalled ++ sent ∧
    (sent.map some).Perm (before.outstanding.flatMap fun timer =>
      List.replicate (timer.times count) before.clients[timer.client]?)
  others : after = { before with
    outstanding := after.outstanding
    completed := after.completed
    signalled := after.signalled }

namespace Drained

variable {δ : Type} {platform : Platform δ} {count : Tick} {before after : Server δ}

/-- Nothing is due. -/
theorem refl (waiting : ∀ timer ∈ before.outstanding, count < timer.compare) :
    Drained count before before where
  elapsed timer member := (Timer.elapsed_waiting (waiting timer member)).of_times
  outstanding := by
    have same : ∀ timer ∈ before.outstanding, timer.after (timer.times count) = some timer := by
      intro timer member
      rw [(Timer.elapsed_waiting (waiting timer member)).times_eq]
      exact Timer.after_zero
    rw [List.filterMap_congr same, List.filterMap_some]
  completed client := by
    have nothing : dueOf count client before.outstanding = ∅ := by
      apply Finset.eq_empty_of_forall_notMem
      intro tid member
      obtain ⟨timer, member, ⟨_, due⟩, _⟩ := mem_dueOf.mp member
      exact absurd due (not_le.mpr (waiting timer member))
    simp [nothing]
  signalled := by
    refine ⟨[], by simp, ?_⟩
    have nothing : (before.outstanding.flatMap fun timer =>
        List.replicate (timer.times count) before.clients[timer.client]?) = [] := by
      apply List.flatMap_eq_nil_iff.mpr
      intro timer member
      rw [(Timer.elapsed_waiting (waiting timer member)).times_eq]
      rfl
    rw [nothing]
    exact List.Perm.nil
  others := rfl

/-- The timers that are left are not due. -/
theorem left (drained : Drained count before after) :
    ∀ timer ∈ after.outstanding, count < timer.compare := by
  intro last member
  obtain ⟨timer, member, isLast⟩ := List.mem_filterMap.mp (drained.outstanding.subset member)
  exact (drained.elapsed timer member).left isLast

theorem untouched (drained : Drained count before after) :
    ∀ timer ∈ before.outstanding, count < timer.compare → timer ∈ after.outstanding := by
  intro timer member waiting
  apply drained.outstanding.symm.subset
  apply List.mem_filterMap.mpr
  refine ⟨timer, member, ?_⟩
  rw [(Timer.elapsed_waiting waiting).times_eq]
  exact Timer.after_zero

variable {timer : Timer} {rest : Timers}

/-- What a timer that is due adds to the rounds of the one it is armed again as. -/
theorem times_due (due : timer.compare ≤ count)
    (elapsed : ∀ again ∈ timer.rearmed, again.Elapsed count (again.times count)) :
    timer.Elapsed count (timer.times count) ∧
      (∀ nfn : Option CPtr, List.replicate (timer.times count) nfn =
        nfn :: timer.rearmed.toList.flatMap fun again => List.replicate (again.times count) nfn) ∧
      timer.after (timer.times count) = timer.rearmed.bind fun again =>
        again.after (again.times count) := by
  cases isRearmed : timer.rearmed with
  | none =>
      have once := Timer.elapsed_oneShot due isRearmed
      refine ⟨once.of_times, fun nfn => ?_, ?_⟩
      · rw [once.times_eq]
        rfl
      · rw [once.times_eq]
        exact Timer.after_oneShot isRearmed
  | some again =>
      have more := Timer.elapsed_again due isRearmed (elapsed again isRearmed)
      refine ⟨more.of_times, fun nfn => ?_, ?_⟩
      · rw [more.times_eq, List.replicate_succ]
        simp
      · rw [more.times_eq]
        exact Timer.after_again isRearmed

theorem dueOf_step {again : Timers} {client : ClientId} {tid : TimerId}
    (due : timer.compare ≤ count) (perm : again.Perm (timer.rearmed.toList ++ rest)) :
    tid ∈ dueOf count client (timer :: rest) ↔
      (timer.client = client ∧ timer.timer = tid) ∨ tid ∈ dueOf count client again := by
  simp only [mem_dueOf, perm.mem_iff, List.mem_cons, List.mem_append, Option.mem_toList]
  constructor
  · rintro ⟨other, rfl | inRest, ⟨isClient, otherDue⟩, isTid⟩
    · exact .inl ⟨isClient, isTid⟩
    · exact .inr ⟨other, .inr inRest, ⟨isClient, otherDue⟩, isTid⟩
  · rintro (⟨isClient, isTid⟩ | ⟨other, isAgain | inRest, ⟨isClient, otherDue⟩, isTid⟩)
    · exact ⟨timer, .inl rfl, ⟨isClient, due⟩, isTid⟩
    · obtain ⟨sameClient, sameTid⟩ := Timer.rearmed_same isAgain
      exact ⟨timer, .inl rfl, ⟨sameClient ▸ isClient, due⟩, sameTid ▸ isTid⟩
    · exact ⟨other, .inr inRest, ⟨isClient, otherDue⟩, isTid⟩

/-- One round of the loop, in front of the rounds that follow. -/
theorem step {next : Server δ} {again : Timers} {done : Finset TimerId} {nfn : CPtr}
    (isFirst : before.outstanding = timer :: rest) (due : timer.compare ≤ count)
    (perm : again.Perm (timer.rearmed.toList ++ rest))
    (isDone : before.completed timer.client = some done)
    (isNfn : before.clients[timer.client]? = some nfn)
    (isNext : next = { before with
      outstanding := again
      completed := Function.update before.completed timer.client
        (some (Insert.insert timer.timer done))
      signalled := before.signalled ++ [nfn] })
    (drained : Drained count next after) : Drained count before after := by
  have nextPerm : next.outstanding.Perm (timer.rearmed.toList ++ rest) := isNext ▸ perm
  have sameClients : next.clients = before.clients := by rw [isNext]
  obtain ⟨elapsedFirst, signals, left⟩ := times_due due fun again isAgain =>
    drained.elapsed again (nextPerm.symm.subset
      (List.mem_append_left _ (Option.mem_toList.mpr isAgain)))
  refine ⟨?_, ?_, ?_, ?_, ?_⟩
  · intro other member
    rw [isFirst] at member
    cases List.mem_cons.mp member with
    | inl isTimer => exact isTimer ▸ elapsedFirst
    | inr inRest =>
        exact drained.elapsed other (nextPerm.symm.subset (List.mem_append_right _ inRest))
  · apply drained.outstanding.trans
    apply (nextPerm.filterMap _).trans
    rw [isFirst, List.filterMap_append, List.filterMap_cons, left]
    cases timer.rearmed with
    | none => simp
    | some again => cases isLast : again.after (again.times count) <;> simp [isLast]
  · intro client
    have split : ∀ tid, tid ∈ dueOf count client (timer :: rest) ↔
        (timer.client = client ∧ timer.timer = tid) ∨ tid ∈ dueOf count client next.outstanding :=
      fun _ => dueOf_step due nextPerm
    rw [drained.completed, isFirst]
    by_cases isClient : timer.client = client
    · subst isClient
      rw [isDone, isNext]
      simp only [Function.update_self, Option.map_some, Option.some.injEq]
      ext tid
      rw [isNext] at split
      simp only [Finset.mem_union, Finset.mem_insert, split]
      grind
    · have sameDue : dueOf count client next.outstanding = dueOf count client (timer :: rest) := by
        ext tid
        simp [split, isClient]
      rw [sameDue, isNext]
      simp [Function.update_of_ne (Ne.symm isClient)]
  · obtain ⟨sent, isSent, sentPerm⟩ := drained.signalled
    refine ⟨nfn :: sent, ?_, ?_⟩
    · rw [isSent, isNext]
      simp
    · rw [isFirst, List.flatMap_cons, isNfn, signals, List.map_cons, List.cons_append]
      apply List.Perm.cons
      apply sentPerm.trans
      rw [sameClients]
      apply (nextPerm.flatMap_right _).trans
      rw [List.flatMap_append]
      have sameSignals : (timer.rearmed.toList.flatMap fun again =>
          List.replicate (again.times count) before.clients[again.client]?) =
          timer.rearmed.toList.flatMap fun again =>
            List.replicate (again.times count) (some nfn) := by
        cases isRearmed : timer.rearmed with
        | none => rfl
        | some again => simp [(Timer.rearmed_same isRearmed).1, isNfn]
      rw [sameSignals]
  · rw [drained.others, isNext]

end Drained

/-! ## The invariant -/

/-- Sorted, and at most one timer for each client and id. -/
structure Queue (outstanding : Timers) : Prop where
  ordered : Ordered Timer.compare outstanding
  distinct : (outstanding.map fun timer => (timer.client, timer.timer)).Nodup

theorem Queue.filter {cid : ClientId} {tid : TimerId} {timers : Timers} (queue : Queue timers) :
    Queue (timers.filter fun timer => !timer.isFor cid tid) where
  ordered := queue.ordered.sublist List.filter_sublist
  distinct := List.Nodup.sublist (List.filter_sublist.map _) queue.distinct

namespace Server

variable {δ : Type} {platform : Platform δ} {server final : Server δ} {count : Tick} {fuel : Nat}

theorem updateTimers_drained (ordered : Ordered Timer.compare server.outstanding)
    (run : updateTimers platform count fuel server = .ok () final) :
    Drained count server final ∧ Ordered Timer.compare final.outstanding := by
  induction fuel generalizing server with
  | zero => simp [updateTimers] at run
  | succ fuel ih =>
      simp only [updateTimers, Exec.bind_eq_ok, Exec.get_eq_ok] at run
      obtain ⟨_, _, ⟨rfl, rfl⟩, run⟩ := run
      cases isFirst : server.outstanding with
      | nil =>
          simp only [isFirst, Exec.pure_eq_ok] at run
          obtain ⟨-, rfl⟩ := run
          refine ⟨.refl ?_, ordered⟩
          simp [isFirst]
      | cons timer rest =>
          obtain ⟨first, restOrdered⟩ := ordered_cons.mp (isFirst ▸ ordered)
          simp only [isFirst] at run
          split at run
          · next due =>
              simp only [Exec.bind_eq_ok, Exec.modify_eq_ok] at run
              obtain ⟨_, _, rfl, _, next, expireRun, run⟩ := run
              obtain ⟨again, done, nfn, perm, againOrdered, isDone, isNfn, isNext⟩ :=
                expire_spec (by exact restOrdered) expireRun
              obtain ⟨drained, finalOrdered⟩ := ih (by rw [isNext]; exact againOrdered) run
              exact ⟨drained.step isFirst due perm isDone isNfn isNext, finalOrdered⟩
          · next notDue =>
              obtain ⟨-, rfl⟩ := Exec.pure_eq_ok.mp run
              refine ⟨.refl ?_, ordered⟩
              intro other member
              rw [isFirst] at member
              cases List.mem_cons.mp member with
              | inl isTimer => exact isTimer ▸ not_le.mp notDue
              | inr inRest => exact lt_of_lt_of_le (not_le.mp notDue) (first other inRest)

/-- Expired timers keep their ids. -/
theorem distinct_filterMap {timers : Timers} {change : Timer → Option Timer}
    (same : ∀ timer next, change timer = some next →
      next.client = timer.client ∧ next.timer = timer.timer)
    (distinct : (timers.map fun timer => (timer.client, timer.timer)).Nodup) :
    ((timers.filterMap change).map fun timer => (timer.client, timer.timer)).Nodup := by
  refine List.Nodup.sublist ?_ distinct
  clear distinct
  induction timers with
  | nil => exact List.Sublist.refl _
  | cons timer rest ih =>
      cases isNext : change timer with
      | none =>
          rw [List.filterMap_cons_none isNext]
          exact ih.cons _
      | some next =>
          rw [List.filterMap_cons_some isNext, List.map_cons, List.map_cons]
          obtain ⟨sameClient, sameTid⟩ := same timer next isNext
          rw [sameClient, sameTid]
          exact ih.cons_cons _

theorem after_same {timer next : Timer} {n : Nat}
    (isNext : timer.after n = some next) :
    next.client = timer.client ∧ next.timer = timer.timer := by
  unfold Timer.after at isNext
  split at isNext
  · split at isNext <;> simp_all
  · cases isNext
    exact ⟨rfl, rfl⟩

theorem updateTimers_queue (queue : Queue server.outstanding)
    (run : updateTimers platform count fuel server = .ok () final) : Queue final.outstanding := by
  obtain ⟨drained, ordered⟩ := updateTimers_drained queue.ordered run
  refine ⟨ordered, ?_⟩
  rw [(drained.outstanding.map _).nodup_iff]
  apply distinct_filterMap _ queue.distinct
  intro timer next isNext
  exact after_same isNext

/-- One round of `update`: the queue is empty, or the device accepts the deadline of the first timer,
or it refuses it and another round begins. -/
theorem update_cases (run : update platform (fuel + 1) count server = .ok () final) :
    ∃ middle, updateTimers platform count fuel server = .ok () middle ∧
      ((middle.outstanding = [] ∧
          final = { middle with device := platform.device.setEnable false middle.device }) ∨
        ∃ timer rest accepted device, middle.outstanding = timer :: rest ∧
          platform.device.setCompare timer.compare.toUInt64 middle.device = (accepted, device) ∧
          (accepted = true ∧
              final = { middle with device := platform.device.setEnable true device } ∨
            accepted = false ∧
              update platform fuel (platform.device.getCount device).1.toInt64
                { middle with device := (platform.device.getCount device).2 } = .ok () final)) := by
  simp only [update, Exec.bind_eq_ok] at run
  obtain ⟨_, middle, drainRun, run⟩ := run
  refine ⟨middle, drainRun, ?_⟩
  simp only [updateDevice, Exec.bind_eq_ok, Exec.get_eq_ok] at run
  obtain ⟨_, _, ⟨rfl, rfl⟩, run⟩ := run
  have split : middle.outstanding = [] ∨ ∃ timer rest, middle.outstanding = timer :: rest := by
    cases middle.outstanding <;> simp
  rcases split with isEmpty | ⟨timer, rest, isQueue⟩
  · rw [show Timers.compare middle.outstanding = none by simp [Timers.compare, isEmpty]] at run
    exact .inl ⟨isEmpty, (Exec.modify_eq_ok.mp run).symm⟩
  · rw [show Timers.compare middle.outstanding = some timer.compare by
      simp [Timers.compare, isQueue]] at run
    simp only [Exec.bind_eq_ok, setCompare_eq_ok] at run
    obtain ⟨accepted, _, ⟨isAccepted, rfl⟩, run⟩ := run
    refine .inr ⟨timer, rest, accepted, _, isQueue, Prod.ext isAccepted rfl, ?_⟩
    cases accepted with
    | true =>
        rw [if_pos rfl] at run
        exact .inl ⟨rfl, (Exec.modify_eq_ok.mp run).symm⟩
    | false =>
        simp only [Bool.false_eq_true, if_false, Exec.bind_eq_ok, nowTick_eq_ok] at run
        obtain ⟨now, _, ⟨isNow, rfl⟩, run⟩ := run
        exact .inr ⟨rfl, isNow ▸ run⟩

/-- What the device has no part in, and a call of `update_timers` keeps, `update` keeps. -/
theorem update_keeps {property : Server δ → Prop}
    (device : ∀ server device, property server → property { server with device })
    (drains : ∀ count fuel before after, property before →
      updateTimers platform count fuel before = .ok () after → property after)
    (holds : property server) (run : update platform fuel count server = .ok () final) :
    property final := by
  induction fuel generalizing server count with
  | zero => simp [update] at run
  | succ fuel ih =>
      obtain ⟨middle, drainRun, ends⟩ := update_cases run
      have drained := drains count fuel server middle holds drainRun
      rcases ends with ⟨_, rfl⟩ | ⟨timer, rest, accepted, answer, _, _, ⟨_, rfl⟩ | ⟨_, again⟩⟩
      · exact device middle _ drained
      · exact device middle _ drained
      · exact ih (device middle _ drained) again

theorem update_queue (queue : Queue server.outstanding)
    (run : update platform fuel count server = .ok () final) : Queue final.outstanding :=
  update_keeps (fun _ _ holds => holds) (fun _ _ _ _ holds => updateTimers_queue holds) queue run

theorem updateCompleted_keeps {client : ClientId} {change : Finset TimerId → Finset TimerId} :
    Exec.Keeps (fun server : Server δ => { server with completed := fun _ => none })
      (updateCompleted client change) :=
  .bind (.reads _) fun _ => .modify fun _ => rfl

theorem removeTimer_spec {cid : ClientId} {tid : TimerId}
    (run : removeTimer cid tid server = .ok () final) :
    ∃ completed, final = { server with
      outstanding := server.outstanding.filter fun timer => !timer.isFor cid tid
      completed } := by
  simp only [removeTimer, Exec.bind_eq_ok, Exec.get_eq_ok, Exec.modify_eq_ok] at run
  obtain ⟨_, _, ⟨rfl, rfl⟩, _, _, rfl, run⟩ := run
  have kept := (Exec.Keeps.forEach fun _ => updateCompleted_keeps) _ _ _ run
  exact ⟨final.completed,
    congrArg (fun server : Server δ => { server with completed := final.completed }) kept⟩

/-- The timers that are not drained. -/
theorem not_isFor {cid : ClientId} {tid : TimerId} {timers : Timers} {timer : Timer}
    (member : timer ∈ timers.filter fun timer => !timer.isFor cid tid) :
    timer ∈ timers ∧ ¬ (timer.client = cid ∧ timer.timer = tid) := by
  obtain ⟨member, isLeft⟩ := List.mem_filter.mp member
  refine ⟨member, ?_⟩
  simpa only [Timer.isFor, Bool.not_eq_true', decide_eq_false_iff_not] using isLeft

theorem setTimer_spec {timer : Timer} (queue : Queue server.outstanding)
    (run : setTimer platform timer server = .ok () final) :
    ∃ outstanding completed, final = { server with outstanding, completed } ∧
      Ordered Timer.compare outstanding ∧ outstanding.Perm (timer ::
        server.outstanding.filter fun other => !other.isFor timer.client timer.timer) := by
  simp only [setTimer, Exec.bind_eq_ok] at run
  obtain ⟨_, _, removeRun, insertRun⟩ := run
  obtain ⟨completed, rfl⟩ := removeTimer_spec removeRun
  obtain ⟨outstanding, perm, ordered, rfl⟩ := insert_spec (by exact queue.filter.ordered) insertRun
  exact ⟨outstanding, completed, rfl, ordered, perm⟩

theorem setTimer_queue {timer : Timer} (queue : Queue server.outstanding)
    (run : setTimer platform timer server = .ok () final) : Queue final.outstanding := by
  obtain ⟨outstanding, completed, rfl, ordered, perm⟩ := setTimer_spec queue run
  refine ⟨ordered, ?_⟩
  rw [(perm.map _).nodup_iff, List.map_cons, List.nodup_cons]
  refine ⟨?_, queue.filter.distinct⟩
  intro taken
  obtain ⟨other, member, same⟩ := List.mem_map.mp taken
  exact (not_isFor member).2 ⟨congrArg Prod.fst same, congrArg Prod.snd same⟩

/-- A call that sets a timer updates from there. -/
theorem guarded_cases {tid : TimerId} {timer : Tick → Server δ → Timer}
    (run : (do
      guardTid tid
      let now ← nowTick platform
      let server ← Exec.get
      setTimer platform (timer now server)
      update platform fuel now) server = .ok () final) :
    ∃ device now middle, device = (platform.device.getCount server.device).2 ∧
      setTimer platform (timer now { server with device }) { server with device } =
        .ok () middle ∧
      now = (platform.device.getCount server.device).1.toInt64 ∧
      update platform fuel now middle = .ok () final := by
  simp only [guardTid, Exec.bind_eq_ok, Exec.get_eq_ok, Exec.ensure_eq_ok, nowTick_eq_ok] at run
  obtain ⟨_, _, ⟨_, _, ⟨rfl, rfl⟩, _, rfl⟩, now, _, ⟨isNow, rfl⟩, _, _, ⟨rfl, rfl⟩, _, middle,
    setRun, run⟩ := run
  exact ⟨_, now, middle, rfl, setRun, isNow.symm, run⟩

theorem stop_cases {cid : ClientId} {tid : TimerId} (run : stop cid tid server = .ok () final) :
    removeTimer cid tid server = .ok () final := by
  simp only [stop, guardTid, Exec.bind_eq_ok, Exec.get_eq_ok, Exec.ensure_eq_ok] at run
  obtain ⟨_, _, ⟨_, _, ⟨rfl, rfl⟩, _, rfl⟩, run⟩ := run
  exact run

/-- A call that returns has stopped a timer of its client, or has set one and updated at the count of
the device, or has only updated there. -/
theorem call_cases {call : Call} (run : Server.call platform fuel call server = .ok () final) :
    (∃ cid tid, removeTimer cid tid server = .ok () final) ∨
      ∃ device counted middle, platform.device.Evolves server.device device ∧
        counted = (platform.device.getCount device).2 ∧
        ((call = .handleInterrupt ∧ middle = { server with device := counted }) ∨
          ∃ timer, call.client = some timer.client ∧
            setTimer platform timer { server with device := counted } = .ok () middle) ∧
        update platform fuel (platform.device.getCount device).1.toInt64 middle = .ok () final := by
  cases call with
  | oneshotRelative cid tid ns =>
      obtain ⟨device, now, middle, isCounted, setRun, rfl, run⟩ := guarded_cases run
      exact .inr ⟨_, device, middle, .refl, isCounted, .inr ⟨_, rfl, setRun⟩, run⟩
  | oneshotAbsolute cid tid ns =>
      obtain ⟨device, now, middle, isCounted, setRun, rfl, run⟩ := guarded_cases run
      exact .inr ⟨_, device, middle, .refl, isCounted, .inr ⟨_, rfl, setRun⟩, run⟩
  | periodic cid tid ns =>
      obtain ⟨device, now, middle, isCounted, setRun, rfl, run⟩ := guarded_cases run
      exact .inr ⟨_, device, middle, .refl, isCounted, .inr ⟨_, rfl, setRun⟩, run⟩
  | stop cid tid => exact .inl ⟨cid, tid, stop_cases run⟩
  | handleInterrupt =>
      simp only [Server.call, handleInterrupt, clearInterrupt, Exec.bind_eq_ok, Exec.modify_eq_ok,
        nowTick_eq_ok] at run
      obtain ⟨_, _, rfl, now, _, ⟨rfl, rfl⟩, run⟩ := run
      exact .inr ⟨_, _, _, .single .clearInterrupt, rfl, .inl ⟨rfl, rfl⟩, run⟩

theorem call_queue {call : Call} (queue : Queue server.outstanding)
    (run : Server.call platform fuel call server = .ok () final) : Queue final.outstanding := by
  rcases call_cases run with ⟨cid, tid, stopRun⟩ | ⟨_, _, middle, _, _, before, run⟩
  · obtain ⟨completed, rfl⟩ := removeTimer_spec stopRun
    exact queue.filter
  · apply update_queue _ run
    rcases before with ⟨_, rfl⟩ | ⟨timer, _, setRun⟩
    · exact queue
    · exact setTimer_queue (by exact queue) setRun

end Server

/-! ## Runs -/

section Runs
variable {δ : Type} {platform : Platform δ}

theorem Reached.queue {server : Server δ} (reached : Reached platform server) :
    Queue server.outstanding := by
  induction reached with
  | new isNew =>
      unfold Server.new at isNew
      split at isNew
      · cases isNew
        exact ⟨List.Pairwise.nil, List.nodup_nil⟩
      · cases isNew
  | call fuel call reached ends ih =>
      rcases ends with ⟨⟨⟩, run⟩ | ⟨error, failed⟩
      · exact Server.call_queue ih run
      · exact Server.call_failsClean _ _ _ failed ▸ ih
  | elapse reached elapses ih => exact ih

/-- The states from which a call of `update_timers` can start: those between the calls of a run,
and those inside one. -/
inductive Entered (platform : Platform δ) : Server δ → Prop
  | start {server : Server δ} : Reached platform server → Entered platform server
  | device {server : Server δ} (device : δ) :
      Entered platform server → Entered platform { server with device }
  | setTimer {before after : Server δ} {timer : Timer} : Entered platform before →
      Server.setTimer platform timer before = .ok () after → Entered platform after
  | updateTimers {before after : Server δ} {count : Tick} {fuel : Nat} : Entered platform before →
      Server.updateTimers platform count fuel before = .ok () after → Entered platform after

theorem Entered.queue {server : Server δ} (entered : Entered platform server) :
    Queue server.outstanding := by
  induction entered with
  | start reached => exact reached.queue
  | device device entered ih => exact ih
  | setTimer entered run ih => exact Server.setTimer_queue ih run
  | updateTimers entered run ih => exact Server.updateTimers_queue ih run

theorem run_queue_drained (platform : Platform δ) :
    (∀ server, Reached platform server → Queue server.outstanding) ∧
    ∀ before after count fuel, Entered platform before →
      Server.updateTimers platform count fuel before = .ok () after →
      Drained count before after ∧
      (∀ timer ∈ after.outstanding, count < timer.compare) ∧
      (∀ timer ∈ before.outstanding, 0 < timer.times count ↔ timer.compare ≤ count) ∧
      (∀ timer ∈ before.outstanding, count < timer.compare → timer ∈ after.outstanding) ∧
      (∀ timer ∈ before.outstanding, ∀ period, timer.period = some period → 0 < period.toInt →
        timer.compare ≤ count → count.toInt + period.toInt < 2 ^ 63 →
        (timer.times count : Int) =
          (count.toInt - timer.compare.toInt) / period.toInt + 1) := by
  refine ⟨fun server reached => reached.queue, ?_⟩
  intro before after count fuel entered run
  have drained := (Server.updateTimers_drained entered.queue.ordered run).1
  refine ⟨drained, drained.left, ?_, drained.untouched, ?_⟩
  · intro timer member
    exact (drained.elapsed timer member).pos_iff
  · intro timer member period isPeriod positive due bound
    exact Timer.times_eq_div isPeriod positive due bound

end Runs

/-- A server for one client, when the counter reads five. -/
def freshServer : Server UInt64 where
  clients := [7]
  timersPerClient := 1
  completed client := if client < 1 then some ∅ else none
  outstanding := []
  device := 5
  freq := 1000000000
  signalled := []

/-- The client has asked for a period of ten ticks, and thirty have passed. -/
def periodicServer : Server UInt64 :=
  { freshServer with outstanding := [⟨0, 1, 15, some 10⟩], device := 35 }

theorem periodicServer_reached : Reached counterPlatform periodicServer := by
  have isNew : Server.new counterPlatform [7] 1 5 = some freshServer := rfl
  have isSet : Server.call counterPlatform 3 (.periodic 0 1 10) freshServer =
      .ok () { freshServer with outstanding := [⟨0, 1, 15, some 10⟩] } := rfl
  exact .elapse (.call 3 _ (.new isNew) (.inl ⟨(), isSet⟩)) (show (5 : UInt64) ≤ 35 by decide)

theorem run_queue_drained_periodic :
    Queue periodicServer.outstanding ∧ ∃ after,
      Server.updateTimers counterPlatform 35 9 periodicServer = .ok () after ∧
      Drained 35 periodicServer after ∧ after.signalled = [7, 7, 7] ∧
      after.outstanding = [⟨0, 1, 45, some 10⟩] ∧ after.completed 0 = some {1} := by
  have holds := run_queue_drained counterPlatform
  exact ⟨holds.1 _ periodicServer_reached, _, rfl,
    (holds.2 periodicServer _ 35 9 (.start periodicServer_reached) rfl).1, rfl, rfl, rfl⟩

end IceCap.TimerServer
