import Mathlib.Data.Finset.Sort
import IceCap.Library.Recorded
import IceCap.TimerServer.Arming

/-!
# The requests of the clients

How `main.rs` dispatches the requests, with nanoseconds that are `u64` in a
request and `i64` in the server, and the two methods that return something.
A deadline is exact as long as it is one that `i64` has.
-/

set_option autoImplicit false

namespace IceCap.TimerServer

open IceCap.Library IceCap.Sel4

inductive Request where
  | completed
  | periodic (tid : TimerId) (ns : UInt64)
  | oneshotAbsolute (tid : TimerId) (ns : UInt64)
  | oneshotRelative (tid : TimerId) (ns : UInt64)
  | stop (tid : TimerId)
  | time
  deriving DecidableEq, Repr

inductive Reply where
  | done
  | time (ns : UInt64)
  deriving DecidableEq, Repr

namespace Server

variable {δ : Type} (platform : Platform δ)

def tickToNs (server : Server δ) (tick : Tick) : Option Nanosecond :=
  if server.freq = 0 then none
  else some (Int64.ofInt ((tick.toInt * nsInS).tdiv server.freq.toNat))

def time : Exec Unit (Server δ) Nanosecond := do
  let now ← nowTick platform
  Exec.reads fun server => server.tickToNs now

/-- `mask |= 1 << tid`; a shift goes by the lowest six bits of the amount. -/
def markCompleted (mask : BitVec 64) (tid : TimerId) : BitVec 64 :=
  mask ||| 1#64 <<< (tid.toUInt64.toNat % 64)

/-- The method `completed`. -/
def takeCompleted (cid : ClientId) : Exec Unit (Server δ) (BitVec 64) := do
  let completed ← Exec.reads fun server => server.completed cid
  Exec.modify fun server =>
    { server with completed := Function.update server.completed cid (some ∅) }
  pure ((completed.sort (· ≤ ·)).foldl markCompleted 0)

/-- An error is a reply as well. -/
def handle (fuel : Nat) (cid : ClientId) : Request → Exec Unit (Server δ) Reply
  | .completed => Exec.panic
  | .periodic tid ns => do
      periodic platform fuel cid tid ns.toInt64
      pure .done
  | .oneshotAbsolute tid ns => do
      oneshotAbsolute platform fuel cid tid ns.toInt64
      pure .done
  | .oneshotRelative tid ns => do
      oneshotRelative platform fuel cid tid ns.toInt64
      pure .done
  | .stop tid => do
      stop cid tid
      pure .done
  | .time => do
      let ns ← time platform
      pure (.time ns.toUInt64)

end Server

/-! ## What a request sets -/

/-- The id that a request checks. -/
def Request.guarded : Request → Option TimerId
  | .periodic tid _ => some tid
  | .oneshotAbsolute tid _ => some tid
  | .oneshotRelative tid _ => some tid
  | .stop tid => some tid
  | _ => none

/-- The id of the timer that a request sets. -/
def Request.sets : Request → Option TimerId
  | .periodic tid _ => some tid
  | .oneshotAbsolute tid _ => some tid
  | .oneshotRelative tid _ => some tid
  | _ => none

/-- The timer that a request sets at a count. -/
def Request.timer {δ : Type} (server : Server δ) (now : Tick) (cid : ClientId) : Request → Option Timer
  | .periodic tid ns =>
      let period := server.nsToTick ns.toInt64
      some ⟨cid, tid, now + period, some period⟩
  | .oneshotAbsolute tid ns => some ⟨cid, tid, server.nsToTick ns.toInt64, none⟩
  | .oneshotRelative tid ns => some ⟨cid, tid, now + server.nsToTick ns.toInt64, none⟩
  | _ => none

namespace Server

variable {δ : Type} {platform : Platform δ} {server final : Server δ} {fuel : Nat}
  {cid : ClientId} {request : Request}

/-- The time that a method reads first. -/
def counted (platform : Platform δ) (server : Server δ) : Server δ :=
  { server with device := (platform.device.getCount server.device).2 }

def count (platform : Platform δ) (server : Server δ) : Tick :=
  (platform.device.getCount server.device).1.toInt64

/-- A method that checks an id and sets a timer. -/
theorem guarded_eq {tid : TimerId} {timer : Tick → Server δ → Timer} :
    (do
      guardTid tid
      let now ← nowTick platform
      let server ← Exec.get
      setTimer platform (timer now server)
      update platform fuel now) server =
      if tid ≤ server.timersPerClient then (do
        setTimer platform (timer (server.count platform) (server.counted platform))
        update platform fuel (server.count platform)) (server.counted platform)
      else .err () server := by
  have isChecked : (guardTid tid : Exec Unit (Server δ) Unit) server =
      Exec.ensure (tid ≤ server.timersPerClient) () server := rfl
  have isCounted : nowTick platform server =
      .ok (server.count platform) (server.counted platform) := rfl
  split
  · next allowed =>
      rw [Exec.bind_of_ok (isChecked.trans (if_pos allowed)), Exec.bind_of_ok isCounted]
      rfl
  · next refused =>
      rw [Exec.bind_apply, isChecked, Exec.ensure, if_neg refused]

/-- What a request does that sets a timer. -/
theorem handle_sets {tid : TimerId} {timer : Timer} (isTid : request.guarded = some tid)
    (isTimer : request.timer server (server.count platform) cid = some timer) :
    handle platform fuel cid request server =
      if tid ≤ server.timersPerClient then (do
        setTimer platform timer
        update platform fuel (server.count platform)
        pure Reply.done) (server.counted platform)
      else .err () server := by
  have replies : ∀ {call other : Exec Unit (Server δ) Unit} {middle : Server δ},
      call server = (if tid ≤ server.timersPerClient then other middle else .err () server) →
      (do call; pure Reply.done) server = if tid ≤ server.timersPerClient then
        (do other; pure Reply.done) middle else .err () server := by
    intro call other middle same
    rw [Exec.bind_apply, same]
    by_cases allowed : tid ≤ server.timersPerClient
    · rw [if_pos allowed, if_pos allowed, Exec.bind_apply]
    · rw [if_neg allowed, if_neg allowed]
  cases request with
  | periodic other ns | oneshotAbsolute other ns | oneshotRelative other ns =>
      obtain rfl := Option.some.inj isTid
      obtain rfl := Option.some.inj isTimer
      refine (replies guarded_eq).trans ?_
      rw [Exec.bind_assoc]
      rfl
  | _ => simp [Request.timer] at isTimer

theorem guarded_of_sets {tid : TimerId} (isSet : request.sets = some tid) :
    request.guarded = some tid := by
  cases request with
  | periodic other ns | oneshotAbsolute other ns | oneshotRelative other ns => exact isSet
  | _ => cases isSet

theorem timer_of_sets {tid : TimerId} {now : Tick} (isSet : request.sets = some tid) :
    ∃ timer, request.timer server now cid = some timer := by
  cases request with
  | periodic other ns | oneshotAbsolute other ns | oneshotRelative other ns => exact ⟨_, rfl⟩
  | _ => cases isSet

theorem timer_same {tid : TimerId} {timer : Timer} {now : Tick} (isSet : request.sets = some tid)
    (isTimer : request.timer server now cid = some timer) :
    timer.client = cid ∧ timer.timer = tid := by
  cases request with
  | periodic other ns | oneshotAbsolute other ns | oneshotRelative other ns =>
      obtain rfl := Option.some.inj isTimer
      exact ⟨rfl, Option.some.inj isSet⟩
  | _ => cases isSet

/-- How a request is answered. -/
inductive Handled (platform : Platform δ) (cid : ClientId) : Request → Server δ → Server δ → Prop
  | refused {request : Request} {tid : TimerId} {server : Server δ}
      (isTid : request.guarded = some tid) (tooHigh : server.timersPerClient < tid) :
      Handled platform cid request server server
  | set {request : Request} {tid : TimerId} {timer : Timer} {server middle final : Server δ}
      {fuel : Nat} (isSet : request.sets = some tid) (allowed : tid ≤ server.timersPerClient)
      (isTimer : request.timer server (server.count platform) cid = some timer)
      (setRun : setTimer platform timer (server.counted platform) = .ok () middle)
      (run : update platform fuel (server.count platform) middle = .ok () final) :
      Handled platform cid request server final
  | stopped {tid : TimerId} {server final : Server δ}
      (run : removeTimer cid tid server = .ok () final) : Handled platform cid (.stop tid) server final
  | timed {server : Server δ} : Handled platform cid .time server (server.counted platform)

theorem handle_ends (ends : Exec.Ends (handle platform fuel cid request) server final) :
    Handled platform cid request server final := by
  have isSetting : ∀ tid, request.sets = some tid → Handled platform cid request server final := by
    intro tid isSet
    have isTid := guarded_of_sets isSet
    obtain ⟨timer, isTimer⟩ := timer_of_sets isSet
    have answer := @handle_sets δ platform server fuel cid request tid timer isTid isTimer
    by_cases allowed : tid ≤ server.timersPerClient
    · rw [if_pos allowed] at answer
      have ends := (Exec.ends_congr answer).mp ends
      obtain ⟨_, middle, setRun, ends⟩ := setTimer_infallible.ends_bind ends
      obtain ⟨_, last, run, ends⟩ := update_infallible.ends_bind ends
      rw [Exec.ends_pure] at ends
      subst ends
      exact .set isSet allowed isTimer setRun run
    · rw [if_neg allowed] at answer
      rcases ends with ⟨value, returned⟩ | ⟨error, failed⟩
      · exact absurd (answer.symm.trans returned) (by simp)
      · obtain ⟨_, rfl⟩ := Outcome.err.inj (answer.symm.trans failed)
        exact .refused isTid (not_le.mp allowed)
  cases request with
  | completed => exact absurd rfl ends.ne_panic
  | periodic other ns | oneshotAbsolute other ns | oneshotRelative other ns => exact isSetting _ rfl
  | stop tid =>
      rcases Exec.ends_bind.mp ends with ⟨error, failed⟩ | ⟨_, middle, stopRun, ends⟩
      · have isChecked : (guardTid tid : Exec Unit (Server δ) Unit) server =
            Exec.ensure (tid ≤ server.timersPerClient) () server := rfl
        rcases Exec.bind_eq_err.mp failed with refused | ⟨_, middle, _, failed⟩
        · by_cases allowed : tid ≤ server.timersPerClient
          · rw [isChecked, Exec.ensure, if_pos allowed] at refused
            cases refused
          · rw [isChecked, Exec.ensure, if_neg allowed] at refused
            obtain ⟨_, rfl⟩ := Outcome.err.inj refused
            exact .refused rfl (not_le.mp allowed)
        · exact absurd failed (removeTimer_infallible _ _ _)
      · obtain rfl := Exec.ends_pure.mp ends
        exact .stopped (stop_cases stopRun)
  | time =>
      have infallible : Exec.Infallible (time platform) :=
        nowTick_infallible.bind fun _ => .reads _
      obtain ⟨ns, middle, timeRun, ends⟩ := infallible.ends_bind ends
      obtain rfl := Exec.ends_pure.mp ends
      simp only [time, Exec.bind_eq_ok, nowTick_eq_ok, Exec.reads_eq_ok] at timeRun
      obtain ⟨now, _, ⟨_, rfl⟩, _, rfl⟩ := timeRun
      exact .timed

end Server

/-! ## What happens to a server -/

inductive Action where
  | request (cid : ClientId) (request : Request)
  | completed (cid : ClientId)
  | interrupt
  | elapse
  deriving DecidableEq, Repr

/-- A step that returns. -/
def Act {δ : Type} (platform : Platform δ) : Action → Server δ → Server δ → Prop
  | .request cid request, before, after =>
      ∃ fuel, Exec.Ends (Server.handle platform fuel cid request) before after
  | .completed cid, before, after => ∃ mask, Server.takeCompleted cid before = .ok mask after
  | .interrupt, before, after => ∃ fuel, Server.handleInterrupt platform fuel before = .ok () after
  | .elapse, before, after =>
      ∃ device, platform.device.elapses before.device device ∧ after = { before with device }

/-! ## Deadlines -/

section Deadlines
variable {δ : Type} {server : Server δ} {now ns freq : Nat}

theorem toInt_ofInt_of_lt {n : Nat} (less : n < 2 ^ 63) : (Int64.ofInt n).toInt = n := by
  have size : Int64.size = 2 ^ 64 := rfl
  rw [Int64.toInt_ofInt, size]
  exact Int.bmod_eq_of_le (by omega) (by omega)

theorem toInt_toInt64_of_le {n : UInt64} (large : 2 ^ 63 ≤ n.toNat) :
    n.toInt64.toInt = n.toNat - 2 ^ 64 := by
  have isInt : n.toInt64.toInt = n.toBitVec.toInt := rfl
  have isNat : n.toNat = n.toBitVec.toNat := rfl
  have cases := BitVec.toInt_eq_toNat_cond n.toBitVec
  rw [isInt]
  rw [isNat] at large ⊢
  split at cases <;> omega

/-- Where the nanoseconds are an `i64`, the ticks are those of the division, up to the cast. -/
theorem nsToTick_small {ns : UInt64} (small : ns.toNat < 2 ^ 63) :
    server.nsToTick ns.toInt64 =
      Int64.ofInt ((ns.toNat * server.freq.toNat / 1000000000 : Nat) : Int) := by
  rw [Server.nsToTick, toInt_toInt64 small]
  rfl

/-- Where they are not, they have become negative. -/
theorem nsToTick_large {ns : UInt64} (large : 2 ^ 63 ≤ ns.toNat) :
    server.nsToTick ns.toInt64 =
      Int64.ofInt (-(((2 ^ 64 - ns.toNat) * server.freq.toNat / 1000000000 : Nat) : Int)) := by
  have less := ns.toNat_lt
  have product : ((ns.toNat : Int) - 2 ^ 64) * server.freq.toNat =
      -(((2 ^ 64 - ns.toNat) * server.freq.toNat : Nat) : Int) := by
    rw [Int.natCast_mul, Int.natCast_sub (by omega), ← Int.neg_mul]
    congr 1
    omega
  rw [Server.nsToTick, toInt_toInt64_of_le large, product, Int.neg_tdiv]
  rfl

/-- A deadline is exact where no cast and no sum on the way to it leaves `i64`. -/
theorem deadline_exact {count : Tick} {ns : UInt64} (isCount : count.toInt = now)
    (small : ns.toNat < 2 ^ 63)
    (less : now + ns.toNat * server.freq.toNat / 1000000000 < 2 ^ 63) :
    (count + server.nsToTick ns.toInt64).toInt =
      ((now + ns.toNat * server.freq.toNat / 1000000000 : Nat) : Int) := by
  generalize isTicks : ns.toNat * server.freq.toNat / 1000000000 = q at less
  rw [nsToTick_small small, isTicks, Int64.toInt_add, toInt_ofInt_of_lt (by omega), isCount]
  exact Int.bmod_eq_of_le (by omega) (by omega)

/-- A deadline is exact if and only if no cast and no sum on the way to it leaves `i64`. -/
theorem deadline_exact_iff {count : Tick} {ns : UInt64} (isCount : count.toInt = now)
    (ticks : 0 < server.freq.toNat) :
    (count + server.nsToTick ns.toInt64).toInt =
        ((now + ns.toNat * server.freq.toNat / 1000000000 : Nat) : Int) ↔
      ns.toNat < 2 ^ 63 ∧ now + ns.toNat * server.freq.toNat / 1000000000 < 2 ^ 63 := by
  generalize isTicks : ns.toNat * server.freq.toNat / 1000000000 = q
  have bound := (count + server.nsToTick ns.toInt64).toInt_lt
  constructor
  · intro exact
    rw [exact] at bound
    refine ⟨?_, by omega⟩
    by_contra outside
    have large : 2 ^ 63 ≤ ns.toNat := Nat.le_of_not_lt outside
    have size : Int64.size = 2 ^ 64 := rfl
    rw [nsToTick_large large, Int64.toInt_add, Int64.toInt_ofInt, size, isCount] at exact
    -- The two quotients would differ by a multiple of the word.
    generalize isCast : (2 ^ 64 - ns.toNat) * server.freq.toNat / 1000000000 = w at exact
    have less : w ≤ q := by
      rw [← isTicks, ← isCast]
      exact Nat.div_le_div_right (Nat.mul_le_mul_right _ (by omega))
    have positive : 0 < q := by
      rw [← isTicks]
      apply Nat.div_pos _ (by decide)
      calc 1000000000 ≤ ns.toNat := by omega
        _ ≤ ns.toNat * server.freq.toNat := Nat.le_mul_of_pos_right _ ticks
    simp only [Int.bmod_def] at exact
    split at exact <;> split at exact <;> omega
  · rintro ⟨small, less⟩
    rw [← isTicks] at less ⊢
    exact deadline_exact isCount small less

/-- The same for a deadline that is not relative. -/
theorem nsToTick_exact_iff {ns : UInt64} (ticks : 0 < server.freq.toNat) :
    (server.nsToTick ns.toInt64).toInt =
        ((ns.toNat * server.freq.toNat / 1000000000 : Nat) : Int) ↔
      ns.toNat < 2 ^ 63 ∧ ns.toNat * server.freq.toNat / 1000000000 < 2 ^ 63 := by
  have isZero : (0 : Tick).toInt = ((0 : Nat) : Int) := rfl
  have exactly := @deadline_exact_iff δ server 0 0 ns isZero ticks
  simpa only [Int64.zero_add, Nat.zero_add] using exactly

/-- A count that has reached a deadline as an `i64` has reached it. -/
theorem reached_toNat {deadline : Tick} {n : Nat} {count : UInt64} (isDeadline : deadline.toInt = n)
    (reached : deadline ≤ count.toInt64) : n ≤ count.toNat := by
  have le := Int64.le_iff_toInt_le.mp reached
  have less := count.toNat_lt
  by_cases small : count.toNat < 2 ^ 63
  · rw [isDeadline, toInt_toInt64 small] at le
    exact Int.ofNat_le.mp le
  · rw [isDeadline, toInt_toInt64_of_le (Nat.le_of_not_lt small)] at le
    omega

end Deadlines

namespace Server

variable {δ : Type} {platform : Platform δ} {server : Server δ} {cid : ClientId}
  {request : Request} {tid : TimerId} {ns : UInt64} {deadline : Int}

/-- A request is refused, or it sets a timer with this deadline. -/
def SetsExactly (platform : Platform δ) (server : Server δ) (cid : ClientId) (request : Request)
    (deadline : Int) : Prop :=
  (∀ fuel, handle platform fuel cid request server = .err () server) ∨
    ∃ timer, request.timer server (server.count platform) cid = some timer ∧
      (∀ fuel, handle platform fuel cid request server = (do
        setTimer platform timer
        update platform fuel (server.count platform)
        pure Reply.done) (server.counted platform)) ∧
      timer.compare.toInt = deadline

theorem setsExactly_iff {timer : Timer} (isTid : request.guarded = some tid)
    (isTimer : request.timer server (server.count platform) cid = some timer) :
    SetsExactly platform server cid request deadline ↔
      server.timersPerClient < tid ∨ timer.compare.toInt = deadline := by
  have sets := fun fuel => @handle_sets δ platform server fuel cid request tid timer isTid isTimer
  by_cases allowed : tid ≤ server.timersPerClient
  · simp only [if_pos allowed] at sets
    constructor
    · intro exact
      rcases exact with refused | ⟨other, isOther, _, isDeadline⟩
      · have infallible : Exec.Infallible (do
            setTimer platform timer
            update platform 0 (server.count platform)
            pure Reply.done) :=
          setTimer_infallible.bind fun _ => update_infallible.bind fun _ => .pure _
        exact absurd ((sets 0).symm.trans (refused 0)) (infallible _ _ _)
      · obtain rfl := Option.some.inj (isTimer.symm.trans isOther)
        exact .inr isDeadline
    · intro exact
      exact .inr ⟨timer, isTimer, sets, exact.resolve_left (not_lt.mpr allowed)⟩
  · simp only [if_neg allowed] at sets
    exact iff_of_true (.inl sets) (.inl (not_le.mp allowed))

/-- A one-shot timer is set for the exact deadline if and only if neither the nanoseconds nor the
deadline leave `i64`. -/
theorem oneshot_exact_iff (ticks : 0 < server.freq.toNat)
    (small : (platform.device.getCount server.device).1.toNat < 2 ^ 63) (cid : ClientId)
    (tid : TimerId) (ns : UInt64) :
    (SetsExactly platform server cid (.oneshotRelative tid ns)
        (((platform.device.getCount server.device).1.toNat +
          ns.toNat * server.freq.toNat / 1000000000 : Nat) : Int) ↔
      server.timersPerClient < tid ∨ ns.toNat < 2 ^ 63 ∧
        (platform.device.getCount server.device).1.toNat +
          ns.toNat * server.freq.toNat / 1000000000 < 2 ^ 63) ∧
    (SetsExactly platform server cid (.oneshotAbsolute tid ns)
        ((ns.toNat * server.freq.toNat / 1000000000 : Nat) : Int) ↔
      server.timersPerClient < tid ∨ ns.toNat < 2 ^ 63 ∧
        ns.toNat * server.freq.toNat / 1000000000 < 2 ^ 63) := by
  constructor
  · refine (setsExactly_iff rfl rfl).trans (or_congr_right ?_)
    exact deadline_exact_iff (toInt_toInt64 small) ticks
  · refine (setsExactly_iff rfl rfl).trans (or_congr_right ?_)
    exact nsToTick_exact_iff ticks

theorem oneshot_exact_iff_freshServer :
    SetsExactly counterPlatform freshServer 0 (.oneshotRelative 0 10) 15 :=
  (oneshot_exact_iff (by decide) (by decide) 0 0 10).1.mpr (.inr (by decide))

/-- A timer for 292 years is set for a count that is long past, and a deadline that the counter cannot
reach becomes one that is reached at once. -/
theorem far_becomes_past :
    ¬ SetsExactly counterPlatform { freshServer with freq := 62500000 } 0
        (.oneshotRelative 0 9223372036854775808) 576460752303423493 ∧
    ¬ SetsExactly counterPlatform freshServer 0 (.oneshotRelative 0 9223372036854775807)
        9223372036854775812 ∧
    ∀ timer, Request.timer freshServer 5 0 (.oneshotRelative 0 9223372036854775807) = some timer →
      timer.compare < 0 := by
  refine ⟨fun exact => ?_, fun exact => ?_, fun timer isTimer => ?_⟩
  · exact absurd ((setsExactly_iff rfl rfl).mp exact) (by decide)
  · exact absurd ((setsExactly_iff rfl rfl).mp exact) (by decide)
  · obtain rfl := Option.some.inj isTimer
    decide

end Server

end IceCap.TimerServer
