import Mathlib.Algebra.Order.Ring.Nat
import IceCap.TimerServer.Allotment

/-!
# Periods

The loop of `update_timers` puts a periodic timer back for its next deadline,
and ends where the deadlines pass the count.  They do so when every period is
positive and the first deadline after the count is one that `i64` has.  The
server takes its periods from the requests as they are.
-/

set_option autoImplicit false

namespace IceCap.TimerServer

open IceCap.Library IceCap.Sel4

/-! ## Rounds of the loop -/

namespace Timer

/-- How often the loop takes the timer out of the queue, where no sum wraps. -/
def rounds (count : Tick) (timer : Timer) : Nat :=
  if timer.compare ≤ count then
    match timer.period with
    | none => 1
    | some period => ((count.toInt - timer.compare.toInt) / period.toInt + 1).toNat
  else 0

/-- The first deadline after the count is one that `i64` has. -/
def InRange (count : Tick) (timer : Timer) : Prop :=
  ∀ period, timer.period = some period → timer.compare ≤ count →
    timer.compare.toInt +
      ((count.toInt - timer.compare.toInt) / period.toInt + 1) * period.toInt < 2 ^ 63

def Advancing (timer : Timer) : Prop := ∀ period, timer.period = some period → 0 < period.toInt

/-- None of the sums wraps that arm the timer again, as long as it is due. -/
def Exact (count : Tick) (timer : Timer) : Prop :=
  ∀ period, timer.period = some period →
    ∀ n, (∀ m ≤ n, nthDeadline timer.compare period m ≤ count) →
      (nthDeadline timer.compare period n).toInt + period.toInt < 2 ^ 63

variable {count : Tick} {timer again : Timer} {period : Tick}

/-- The deadlines up to the count, and the first one after it. -/
theorem quotient_bounds (positive : 0 < period.toInt) (due : timer.compare ≤ count) :
    ∃ n : Nat, (count.toInt - timer.compare.toInt) / period.toInt = n ∧
      timer.compare.toInt + n * period.toInt ≤ count.toInt ∧
      count.toInt < timer.compare.toInt + (n + 1) * period.toInt := by
  have notBefore := Int64.le_iff_toInt_le.mp due
  have quotient : 0 ≤ (count.toInt - timer.compare.toInt) / period.toInt :=
    Int.ediv_nonneg (by omega) (by omega)
  obtain ⟨n, isQuotient⟩ := Int.eq_ofNat_of_zero_le quotient
  have below := Int.ediv_mul_le (count.toInt - timer.compare.toInt) (ne_of_gt positive)
  have above := Int.lt_ediv_add_one_mul_self (count.toInt - timer.compare.toInt) positive
  rw [isQuotient] at below above
  exact ⟨n, isQuotient, by omega, by omega⟩

theorem exact_iff (advancing : timer.Advancing) : timer.Exact count ↔ timer.InRange count := by
  constructor
  · intro exact period isPeriod due
    have positive := advancing period isPeriod
    obtain ⟨n, isQuotient, below, above⟩ := quotient_bounds positive due
    have low := count.toInt_lt
    have deadline : ∀ m ≤ n, timer.compare.toInt + m * period.toInt ≤ count.toInt ∧
        (nthDeadline timer.compare period m).toInt = timer.compare.toInt + m * period.toInt := by
      intro m isEarlier
      have fewer : (m : Int) * period.toInt ≤ n * period.toInt :=
        Int.mul_le_mul_of_nonneg_right (by omega) (by omega)
      exact ⟨by omega, nthDeadline_toInt (by omega) (by omega)⟩
    have last := exact period isPeriod n fun m isEarlier => by
      rw [Int64.le_iff_toInt_le, (deadline m isEarlier).2]
      exact (deadline m isEarlier).1
    rw [(deadline n (le_refl n)).2] at last
    rw [isQuotient, Int.add_mul, Int.one_mul]
    omega
  · intro inRange period isPeriod n areDue
    have positive := advancing period isPeriod
    have due : timer.compare ≤ count := areDue 0 (Nat.zero_le n)
    have bound := inRange period isPeriod due
    obtain ⟨q, isQuotient, below, above⟩ := quotient_bounds positive due
    rw [isQuotient, Int.add_mul, Int.one_mul] at bound
    have few : n ≤ q := by
      by_contra more
      -- the deadline after the count would be due
      have late := areDue (q + 1) (Nat.lt_of_not_le more)
      have shifted : ((q + 1 : Nat) : Int) * period.toInt = q * period.toInt + period.toInt := by
        rw [Int.natCast_add, Int.natCast_one, Int.add_mul, Int.one_mul]
      rw [Int64.le_iff_toInt_le, nthDeadline_toInt (by omega) (by omega), shifted] at late
      rw [Int.add_mul, Int.one_mul] at above
      omega
    have fewer : (n : Int) * period.toInt ≤ q * period.toInt :=
      Int.mul_le_mul_of_nonneg_right (by omega) (by omega)
    rw [nthDeadline_toInt (by omega) (by omega)]
    omega

theorem advancing_again (advancing : timer.Advancing) (isAgain : timer.rearmed = some again) :
    again.Advancing := by
  obtain ⟨period, isPeriod, rfl⟩ := Option.map_eq_some_iff.mp isAgain
  exact advancing

/-- A deadline further on. -/
theorem rearmed_spec (advancing : timer.Advancing) (inRange : timer.InRange count)
    (due : timer.compare ≤ count) (isAgain : timer.rearmed = some again) :
    again.InRange count ∧ again.rounds count + 1 = timer.rounds count := by
  obtain ⟨period, isPeriod, rfl⟩ := Option.map_eq_some_iff.mp isAgain
  have positive := advancing period isPeriod
  have bound := inRange period isPeriod due
  obtain ⟨n, isQuotient, below, above⟩ := quotient_bounds positive due
  have low := timer.compare.le_toInt
  rw [isQuotient] at bound
  rw [Int.add_mul, Int.one_mul] at bound above
  have grown : 0 ≤ (n : Int) * period.toInt := Int.mul_nonneg (Int.natCast_nonneg n) (by omega)
  have next : (timer.compare + period).toInt = timer.compare.toInt + period.toInt := by
    rw [Int64.toInt_add]
    exact Int.bmod_eq_of_le (by omega) (by omega)
  have shifted : (count.toInt - (timer.compare.toInt + period.toInt)) / period.toInt = n - 1 := by
    have fewer := Int.add_mul_ediv_right (count.toInt - timer.compare.toInt) (-1) (ne_of_gt positive)
    rw [isQuotient] at fewer
    have same : count.toInt - (timer.compare.toInt + period.toInt) =
        count.toInt - timer.compare.toInt + -1 * period.toInt := by omega
    rw [same, fewer]
    rfl
  constructor
  · intro other isOther _
    obtain rfl := Option.some.inj (isPeriod.symm.trans isOther)
    change (timer.compare + period).toInt +
      ((count.toInt - (timer.compare + period).toInt) / period.toInt + 1) * period.toInt < 2 ^ 63
    rw [next, shifted, Int.sub_add_cancel]
    omega
  · unfold rounds
    rw [if_pos due]
    simp only [isPeriod, isQuotient, next, shifted, Int64.le_iff_toInt_le]
    split
    · next dueAgain =>
        omega
    · next notDue =>
        have first : n = 0 := by
          by_contra more
          have once : 1 * period.toInt ≤ n * period.toInt :=
            Int.mul_le_mul_of_nonneg_right (by omega) (by omega)
          omega
        omega

/-- One round fewer is left when the timer is back in the queue. -/
theorem rounds_due (advancing : timer.Advancing) (inRange : timer.InRange count)
    (due : timer.compare ≤ count) :
    timer.rounds count = (timer.rearmed.toList.map (rounds count)).sum + 1 := by
  cases isAgain : timer.rearmed with
  | none =>
      have isPeriod : timer.period = none := Option.map_eq_none_iff.mp isAgain
      rw [rounds, if_pos due, isPeriod]
      rfl
  | some again =>
      have fewer := (rearmed_spec advancing inRange due isAgain).2
      simpa using fewer.symm

end Timer

/-! ## The loop -/

/-- Every timer is that of a client that the server knows. -/
structure Serving {δ : Type} (clients : Nat) (freq : UInt32) (server : Server δ) : Prop where
  ordered : Ordered Timer.compare server.outstanding
  known : ∀ cid < clients, (server.completed cid).isSome = true
  served : ∀ timer ∈ server.outstanding, timer.client < clients
  isClients : server.clients.length = clients
  isFreq : server.freq = freq

/-- The loop of `update_timers` ends, every period is positive, and no sum wraps that the loop makes. -/
structure Settles {δ : Type} (platform : Platform δ) (count : Tick) (server : Server δ) : Prop where
  ends : ∃ fuel after, Server.updateTimers platform count fuel server = .ok () after
  advancing : ∀ timer ∈ server.outstanding, timer.Advancing
  exact : ∀ timer ∈ server.outstanding, timer.Exact count

namespace Server

variable {δ : Type} {platform : Platform δ} {server : Server δ} {clients : Nat} {freq : UInt32}
  {timer : Timer} {rest : Timers} {count : Tick} {fuel : Nat}

theorem insert_returns (timer : Timer) (ordered : Ordered Timer.compare server.outstanding) :
    ∃ next, insert platform timer server = .ok () next := by
  have fits : platform.binary.position server.outstanding timer ≤ server.outstanding.length :=
    platform.binary.position_le ordered
  have inserted : (Exec.reads fun server : Server δ =>
      Timers.insert platform.binary server.outstanding timer) server =
        (.ok _ server : Outcome Unit _ _) := Exec.reads_eq_ok.mpr ⟨if_pos fits, rfl⟩
  exact ⟨_, Exec.bind_of_ok inserted⟩

theorem rearm_returns (ordered : Ordered Timer.compare server.outstanding) :
    ∃ next, rearm platform timer server = .ok () next := by
  unfold rearm
  cases timer.period with
  | none => exact ⟨server, rfl⟩
  | some period => exact insert_returns _ ordered

/-- The timer of a known client expires. -/
theorem expire_returns (serving : Serving clients freq server) (isClient : timer.client < clients) :
    ∃ next, expire platform timer server = .ok () next := by
  obtain ⟨done, isDone⟩ := Option.isSome_iff_exists.mp (serving.known timer.client isClient)
  have isRead : (Exec.reads fun server : Server δ => server.completed timer.client) server =
      (.ok done server : Outcome Unit _ _) := Exec.reads_eq_ok.mpr ⟨isDone, rfl⟩
  obtain ⟨middle, rearmRun⟩ := @rearm_returns δ platform { server with
    completed := Function.update server.completed timer.client
      (some (Insert.insert timer.timer done)) } timer serving.ordered
  obtain ⟨outstanding, _, _, isMiddle⟩ := rearm_spec (by exact serving.ordered) rearmRun
  have isBelow : timer.client < middle.clients.length := by
    rw [isMiddle]
    exact serving.isClients ▸ isClient
  have isNfn : (Exec.reads fun server : Server δ => server.clients[timer.client]?) middle =
      (.ok middle.clients[timer.client] middle : Outcome Unit _ _) :=
    Exec.reads_eq_ok.mpr ⟨List.getElem?_eq_getElem isBelow, rfl⟩
  refine ⟨{ middle with signalled := middle.signalled ++ [middle.clients[timer.client]] }, ?_⟩
  rw [expire, updateCompleted, Exec.bind_assoc, Exec.bind_of_ok isRead]
  refine (Exec.bind_of_ok rfl).trans ?_
  rw [Exec.bind_of_ok rearmRun, signal, Exec.bind_of_ok isNfn]
  rfl

theorem updateTimers_succ :
    updateTimers platform count (fuel + 1) server = match server.outstanding with
      | [] => .ok () server
      | timer :: rest =>
          if timer.compare ≤ count then (do
            expire platform timer
            updateTimers platform count fuel) { server with outstanding := rest }
          else .ok () server := by
  rw [updateTimers, Exec.bind_of_ok (Exec.get_eq_ok.mpr ⟨rfl, rfl⟩)]
  cases server.outstanding with
  | nil => rfl
  | cons timer rest =>
      by_cases due : timer.compare ≤ count
      · simp only [if_pos due]
        rfl
      · simp only [if_neg due]
        rfl

/-- The state in front of the next round. -/
theorem expire_serving {next : Server δ} (serving : Serving clients freq server)
    (isClient : timer.client < clients) (run : expire platform timer server = .ok () next) :
    Serving clients freq next ∧ next.outstanding.Perm (timer.rearmed.toList ++ server.outstanding) := by
  obtain ⟨outstanding, done, nfn, perm, ordered, isDone, _, rfl⟩ := expire_spec serving.ordered run
  refine ⟨⟨ordered, ?_, ?_, serving.isClients, serving.isFreq⟩, perm⟩
  · intro cid isKnown
    change (Function.update server.completed timer.client _ cid).isSome = true
    by_cases same : cid = timer.client
    · subst same
      rw [Function.update_self]
      rfl
    · rw [Function.update_of_ne same]
      exact serving.known cid isKnown
  · intro other member
    cases List.mem_append.mp (perm.subset member) with
    | inl isAgain => exact (Timer.rearmed_same (Option.mem_toList.mp isAgain)).1 ▸ isClient
    | inr inRest => exact serving.served other inRest

/-- In range, every round has one round fewer to come. -/
theorem updateTimers_returns {total : Nat} (serving : Serving clients freq server)
    (advancing : ∀ timer ∈ server.outstanding, timer.Advancing)
    (inRange : ∀ timer ∈ server.outstanding, timer.InRange count)
    (few : (server.outstanding.map (Timer.rounds count)).sum < total) :
    ∃ fuel after, updateTimers platform count fuel server = .ok () after := by
  induction total generalizing server with
  | zero => exact absurd few (Nat.not_lt_zero _)
  | succ total ih =>
      cases isQueue : server.outstanding with
      | nil =>
          refine ⟨1, server, ?_⟩
          rw [updateTimers_succ, isQueue]
      | cons timer rest =>
          by_cases due : timer.compare ≤ count
          · rw [isQueue] at advancing inRange few
            have isClient := serving.served timer (isQueue ▸ List.mem_cons_self)
            have serving : Serving clients freq { server with outstanding := rest } := by
              refine ⟨(ordered_cons.mp (isQueue ▸ serving.ordered)).2, serving.known, ?_,
                serving.isClients, serving.isFreq⟩
              intro other member
              exact serving.served other (isQueue ▸ List.mem_cons_of_mem _ member)
            obtain ⟨next, expired⟩ := @expire_returns δ platform _ clients freq timer serving isClient
            obtain ⟨serving, perm⟩ := expire_serving serving isClient expired
            have perm : next.outstanding.Perm (timer.rearmed.toList ++ rest) := perm
            have isAdvancing := advancing timer List.mem_cons_self
            have isInRange := inRange timer List.mem_cons_self
            have fewer := Timer.rounds_due isAdvancing isInRange due
            have isTotal := (perm.map (Timer.rounds count)).sum_nat
            rw [List.map_append, List.sum_append_nat] at isTotal
            rw [List.map_cons, List.sum_cons] at few
            have advancingNext : ∀ other ∈ next.outstanding, other.Advancing := by
              intro other member
              cases List.mem_append.mp (perm.subset member) with
              | inl isAgain => exact Timer.advancing_again isAdvancing (Option.mem_toList.mp isAgain)
              | inr inRest => exact advancing other (List.mem_cons_of_mem _ inRest)
            have inRangeNext : ∀ other ∈ next.outstanding, other.InRange count := by
              intro other member
              cases List.mem_append.mp (perm.subset member) with
              | inl isAgain =>
                  exact (Timer.rearmed_spec isAdvancing isInRange due (Option.mem_toList.mp isAgain)).1
              | inr inRest => exact inRange other (List.mem_cons_of_mem _ inRest)
            obtain ⟨fuel, after, run⟩ := ih serving advancingNext inRangeNext (by omega)
            refine ⟨fuel + 1, after, ?_⟩
            rw [updateTimers_succ, isQueue]
            simp only [if_pos due]
            exact (Exec.bind_of_ok expired).trans run
          · refine ⟨1, server, ?_⟩
            rw [updateTimers_succ, isQueue]
            simp only [if_neg due]

theorem settles_iff (serving : Serving clients freq server)
    (advancing : ∀ timer ∈ server.outstanding, timer.Advancing) :
    Settles platform count server ↔ ∀ timer ∈ server.outstanding, timer.InRange count := by
  constructor
  · intro settles timer member
    exact (Timer.exact_iff (advancing timer member)).mp (settles.exact timer member)
  · intro inRange
    refine ⟨updateTimers_returns serving advancing inRange (Nat.lt_succ_self _), advancing, ?_⟩
    intro timer member
    exact (Timer.exact_iff (advancing timer member)).mpr (inRange timer member)

end Server

/-! ## Stages -/

/-- What a server does between two of the states in which the loop can start. -/
inductive Stage where
  | set (cid : ClientId) (request : Request)
  | stop (cid : ClientId) (tid : TimerId)
  | drain (count : Tick)
  | completed (cid : ClientId)
  | device
  deriving DecidableEq, Repr

def Staged {δ : Type} (platform : Platform δ) : Stage → Server δ → Server δ → Prop
  | .set cid request, before, after => ∃ tid timer, request.sets = some tid ∧
      tid ≤ before.timersPerClient ∧
      request.timer before (before.count platform) cid = some timer ∧
      Server.setTimer platform timer (before.counted platform) = .ok () after
  | .stop cid tid, before, after => Server.removeTimer cid tid before = .ok () after
  | .drain count, before, after =>
      ∃ fuel, Server.updateTimers platform count fuel before = .ok () after
  | .completed cid, before, after => ∃ mask, Server.takeCompleted cid before = .ok mask after
  | .device, before, after => ∃ device, after = { before with device }

section Stages
variable {δ : Type} {platform : Platform δ} {before middle after first final : Server δ}
  {action : Action} {clients : Nat} {freq : UInt32}

/-- A stage in which a timer is set is one of a request. -/
def Stage.Of (action : Action) : Stage → Prop
  | .set cid asked => action = .request cid asked
  | _ => True

/-- Stages of one step. -/
def Unfolds (platform : Platform δ) (action : Action) (before after : Server δ) : Prop :=
  ∃ stages, Recorded (Staged platform) before stages after ∧ ∀ entry ∈ stages, entry.2.Of action

theorem Unfolds.refl : Unfolds platform action before before := ⟨[], .start, by simp⟩

theorem Unfolds.trans (earlier : Unfolds platform action before middle)
    (later : Unfolds platform action middle after) : Unfolds platform action before after := by
  obtain ⟨stages, run, own⟩ := earlier
  obtain ⟨rest, restRun, restOwn⟩ := later
  refine ⟨stages ++ rest, run.append restRun, fun entry member => ?_⟩
  exact (List.mem_append.mp member).elim (own entry) (restOwn entry)

theorem Unfolds.stage (stage : Stage) (own : stage.Of action)
    (staged : Staged platform stage before after) : Unfolds platform action before after := by
  refine ⟨[(before, stage)], .step .start staged, fun entry member => ?_⟩
  exact List.mem_singleton.mp member ▸ own

theorem Unfolds.device {device : δ} : Unfolds platform action before { before with device } :=
  .stage .device trivial ⟨device, rfl⟩

theorem update_unfolds {count : Tick} {fuel : Nat}
    (run : Server.update platform fuel count before = .ok () after) :
    Unfolds platform action before after := by
  refine @Server.update_keeps δ platform before after count fuel
    (fun later => Unfolds platform action before later) ?_ ?_ .refl run
  · intro later device unfolds
    exact unfolds.trans .device
  · intro count fuel middle later unfolds run
    exact unfolds.trans (.stage (.drain count) trivial ⟨fuel, run⟩)

theorem act_unfolds (acted : Act platform action before after) :
    Unfolds platform action before after := by
  cases action with
  | request cid request =>
      obtain ⟨fuel, ends⟩ := acted
      cases Server.handle_ends ends with
      | refused isTid tooHigh => exact .refl
      | @set _ tid timer _ middle _ fuel isSet allowed isTimer setRun run =>
          have isStage : Staged platform (.set cid request) before middle :=
            ⟨tid, timer, isSet, allowed, isTimer, setRun⟩
          exact (Unfolds.stage _ (by exact rfl) isStage).trans (update_unfolds run)
      | @stopped tid _ _ run => exact .stage (.stop cid tid) trivial run
      | timed => exact .device
  | completed cid => exact .stage (.completed cid) trivial acted
  | interrupt =>
      obtain ⟨fuel, run⟩ := acted
      simp only [Server.handleInterrupt, Server.clearInterrupt, Exec.bind_eq_ok, Exec.modify_eq_ok,
        Server.nowTick_eq_ok] at run
      obtain ⟨_, _, rfl, now, _, ⟨rfl, rfl⟩, run⟩ := run
      exact Unfolds.device.trans (update_unfolds run)
  | elapse =>
      obtain ⟨device, _, rfl⟩ := acted
      exact .device

/-- Every run is one of stages. -/
theorem acts_staged {taken : List (Server δ × Action)}
    (run : Recorded (Act platform) first taken final) :
    ∃ stages, Recorded (Staged platform) first stages final ∧
      ∀ entry ∈ stages, ∃ action, entry.2.Of action ∧ ∃ state, (state, action) ∈ taken := by
  induction run with
  | start => exact ⟨[], .start, by simp⟩
  | @step taken action before after run acted ih =>
      obtain ⟨stages, staged, own⟩ := ih
      obtain ⟨rest, restStaged, restOwn⟩ := act_unfolds acted
      refine ⟨stages ++ rest, staged.append restStaged, fun entry member => ?_⟩
      cases List.mem_append.mp member with
      | inl isEarlier =>
          obtain ⟨earlier, isOf, state, inTaken⟩ := own entry isEarlier
          exact ⟨earlier, isOf, state, List.mem_append_left _ inTaken⟩
      | inr isLater => exact ⟨action, restOwn entry isLater, before, by simp⟩

/-! ## Runs -/

def Stage.FromClient (clients : Nat) : Stage → Prop
  | .set cid _ => cid < clients
  | _ => True

/-- A period that is asked for is a positive number of ticks. -/
def Stage.Advances (server : Server δ) : Stage → Prop
  | .set _ asked => ∀ tid ns, asked = .periodic tid ns → 0 < (server.nsToTick ns.toInt64).toInt
  | _ => True

theorem nsToTick_congr {other : Server δ} (same : other.freq = before.freq) (ns : Nanosecond) :
    other.nsToTick ns = before.nsToTick ns := by
  rw [Server.nsToTick, Server.nsToTick, same]

theorem timer_advancing_iff {cid : ClientId} {request : Request} {timer : Timer} {now : Tick}
    (same : first.freq = before.freq) (isTimer : request.timer before now cid = some timer) :
    timer.Advancing ↔ (Stage.set cid request).Advances first := by
  cases request with
  | periodic tid ns =>
      obtain rfl := Option.some.inj isTimer
      constructor
      · intro advancing other asked isAsked
        obtain ⟨rfl, rfl⟩ := Request.periodic.inj isAsked
        rw [nsToTick_congr same]
        exact advancing _ rfl
      · intro advances period isPeriod
        obtain rfl := Option.some.inj isPeriod
        rw [← nsToTick_congr same]
        exact advances tid ns rfl
  | oneshotAbsolute tid ns | oneshotRelative tid ns =>
      obtain rfl := Option.some.inj isTimer
      exact iff_of_true nofun nofun
  | _ => cases isTimer

/-- The timer that a stage sets. -/
def Stage.timer (platform : Platform δ) (server : Server δ) : Stage → Option Timer
  | .set cid asked => asked.timer server (server.count platform) cid
  | _ => none

/-- What a stage leaves of the timers, and what it adds. -/
structure Carries (before after : Server δ) (added : Option Timer) : Prop where
  ordered : Ordered Timer.compare after.outstanding
  origin : ∀ timer ∈ after.outstanding, timer ∈ added ∨
    ∃ earlier ∈ before.outstanding, timer.client = earlier.client ∧ timer.period = earlier.period
  present : ∀ timer ∈ added, timer ∈ after.outstanding
  known : ∀ cid, (before.completed cid).isSome = true → (after.completed cid).isSome = true
  clients : after.clients = before.clients
  freq : after.freq = before.freq

/-- A stage that only takes timers away. -/
theorem Carries.of_fewer (ordered : Ordered Timer.compare before.outstanding)
    (fewer : after.outstanding.Sublist before.outstanding)
    (shrunk : Shrunk before.completed after.completed) (clients : after.clients = before.clients)
    (freq : after.freq = before.freq) : Carries before after none where
  ordered := ordered.sublist fewer
  origin timer member := .inr ⟨timer, fewer.subset member, rfl, rfl⟩
  present := nofun
  known := shrunk.known
  clients := clients
  freq := freq

theorem removeTimer_carries {cid : ClientId} {tid : TimerId}
    (ordered : Ordered Timer.compare before.outstanding)
    (run : Server.removeTimer cid tid before = .ok () after) : Carries before after none := by
  have shrunk := Server.removeTimer_shrunk run
  obtain ⟨completed, rfl⟩ := Server.removeTimer_spec run
  exact .of_fewer ordered List.filter_sublist shrunk rfl rfl

theorem setTimer_carries {timer : Timer} (ordered : Ordered Timer.compare before.outstanding)
    (run : Server.setTimer platform timer before = .ok () after) :
    Carries before after (some timer) := by
  simp only [Server.setTimer, Exec.bind_eq_ok] at run
  obtain ⟨_, middle, removeRun, insertRun⟩ := run
  have removed := removeTimer_carries ordered removeRun
  obtain ⟨outstanding, perm, insertedOrdered, rfl⟩ := Server.insert_spec removed.ordered insertRun
  refine ⟨insertedOrdered, ?_, ?_, removed.known, removed.clients, removed.freq⟩
  · intro other member
    cases List.mem_cons.mp (perm.subset member) with
    | inl isTimer => exact .inl (isTimer ▸ rfl)
    | inr inMiddle => exact .inr ((removed.origin other inMiddle).resolve_left nofun)
  · intro other isTimer
    obtain rfl := Option.some.inj isTimer
    exact perm.symm.subset List.mem_cons_self

theorem after_period {timer next : Timer} {n : Nat} (isNext : timer.after n = some next) :
    next.period = timer.period := by
  unfold Timer.after at isNext
  split at isNext
  · next isPeriod =>
      split at isNext
      · exact (congrArg Timer.period (Option.some.inj isNext)).symm
      · cases isNext
  · exact (congrArg Timer.period (Option.some.inj isNext)).symm

theorem updateTimers_carries {count : Tick} {fuel : Nat}
    (ordered : Ordered Timer.compare before.outstanding)
    (run : Server.updateTimers platform count fuel before = .ok () after) :
    Carries before after none := by
  obtain ⟨drained, stillOrdered⟩ := Server.updateTimers_drained ordered run
  refine ⟨stillOrdered, ?_, nofun, ?_, ?_, ?_⟩
  · intro last member
    obtain ⟨timer, member, isLast⟩ := List.mem_filterMap.mp (drained.outstanding.subset member)
    exact .inr ⟨timer, member, (Server.after_same isLast).1, after_period isLast⟩
  · intro cid isKnown
    rw [drained.completed, Option.isSome_map]
    exact isKnown
  · rw [drained.others]
  · rw [drained.others]

theorem staged_carries {stage : Stage} (ordered : Ordered Timer.compare before.outstanding)
    (staged : Staged platform stage before after) :
    Carries before after (stage.timer platform before) := by
  cases stage with
  | set cid request =>
      obtain ⟨tid, timer, isSet, allowed, isTimer, setRun⟩ := staged
      rw [Stage.timer, isTimer]
      have carries := setTimer_carries (by exact ordered) setRun
      exact ⟨carries.ordered, carries.origin, carries.present, carries.known, carries.clients,
        carries.freq⟩
  | drain count =>
      obtain ⟨fuel, run⟩ := staged
      exact updateTimers_carries ordered run
  | stop cid tid => exact removeTimer_carries ordered staged
  | completed cid =>
      obtain ⟨mask, run⟩ := staged
      obtain ⟨done, isDone, _, rfl⟩ := Server.takeCompleted_spec run
      exact .of_fewer ordered (List.Sublist.refl _) (.update isDone (Finset.empty_subset done)) rfl rfl
  | device =>
      obtain ⟨device, rfl⟩ := staged
      exact .of_fewer ordered (List.Sublist.refl _) .refl rfl rfl

theorem staged_serving {stage : Stage} (serving : Serving clients freq before)
    (isClient : stage.FromClient clients) (staged : Staged platform stage before after) :
    Serving clients freq after := by
  have carries := staged_carries serving.ordered staged
  refine ⟨carries.ordered, ?_, ?_, carries.clients.symm ▸ serving.isClients,
    carries.freq.trans serving.isFreq⟩
  · intro cid isKnown
    exact carries.known cid (serving.known cid isKnown)
  · intro timer member
    rcases carries.origin timer member with isAdded | ⟨earlier, member, same, _⟩
    · cases stage with
      | set cid request =>
          obtain ⟨tid, _, isSet, _, _, _⟩ := staged
          rw [(Server.timer_same isSet isAdded).1]
          exact isClient
      | _ => cases isAdded
    · rw [same]
      exact serving.served earlier member

/-- A stage keeps all periods positive unless it sets a timer of another period. -/
theorem staged_advancing {stage : Stage} (ordered : Ordered Timer.compare before.outstanding)
    (same : first.freq = before.freq) (staged : Staged platform stage before after)
    (advancing : ∀ timer ∈ before.outstanding, timer.Advancing) :
    (∀ timer ∈ after.outstanding, timer.Advancing) ↔ stage.Advances first := by
  have carries := staged_carries ordered staged
  have others : (∀ timer ∈ after.outstanding, timer.Advancing) ↔
      ∀ timer ∈ stage.timer platform before, timer.Advancing := by
    constructor
    · intro all timer isAdded
      exact all timer (carries.present timer isAdded)
    · intro added timer member
      rcases carries.origin timer member with isAdded | ⟨earlier, member, _, samePeriod⟩
      · exact added timer isAdded
      · intro period isPeriod
        exact advancing earlier member period (samePeriod ▸ isPeriod)
  rw [others]
  cases stage with
  | set cid request =>
      obtain ⟨tid, timer, isSet, allowed, isTimer, setRun⟩ := staged
      rw [Stage.timer, isTimer, ← timer_advancing_iff same isTimer]
      simp
  | _ => exact iff_of_true nofun trivial

theorem new_serving {ports : List CPtr} {timersPerClient : TimerId} {device : δ}
    (isNew : Server.new platform ports timersPerClient device = some first) :
    Serving ports.length first.freq first ∧ first.outstanding = [] := by
  have known := (new_kept isNew).1.known
  unfold Server.new at isNew
  split at isNew
  · cases isNew
    exact ⟨⟨List.Pairwise.nil, known, nofun, rfl, rfl⟩, rfl⟩
  · cases isNew

/-- Every run is one of stages, and in a run of stages the loop settles at a count if and only if
every period that was asked for is positive, and the clock goes as far as the first deadline after
the count. -/
theorem run_settles_iff {ports : List CPtr} {timersPerClient : TimerId} {device : δ}
    (isNew : Server.new platform ports timersPerClient device = some first) :
    (∀ (taken : List (Server δ × Action)) (final : Server δ),
      Recorded (Act platform) first taken final →
        ∃ stages, Recorded (Staged platform) first stages final ∧
          ∀ entry ∈ stages, ∃ action, entry.2.Of action ∧ ∃ state, (state, action) ∈ taken) ∧
    ∀ (taken : List (Server δ × Stage)) (final : Server δ),
      Recorded (Staged platform) first taken final →
        (∀ entry ∈ taken, entry.2.FromClient ports.length) → ∀ count : Tick,
          (Recorded.Throughout (Staged platform) first taken (Settles platform count) ↔
            (∀ entry ∈ taken, entry.2.Advances first) ∧
            Recorded.Throughout (Staged platform) first taken fun server =>
              ∀ timer ∈ server.outstanding, timer.InRange count) := by
  refine ⟨fun _ _ run => acts_staged run, fun taken final run known count => ?_⟩
  obtain ⟨serving, isEmpty⟩ := new_serving isNew
  have served : ∀ {earlier middle}, earlier <+: taken →
      Recorded (Staged platform) first earlier middle → Serving ports.length first.freq middle := by
    intro earlier middle isEarlier earlierRun
    refine @Recorded.invariant _ _ (Staged platform) _ _ _ _
      (fun _ stage => stage.FromClient ports.length) serving ?_ earlierRun ?_
    · intro stage before after serving staged isClient
      exact staged_serving serving isClient staged
    · intro entry member
      exact known entry (isEarlier.subset member)
  have advances : Recorded.Throughout (Staged platform) first taken
      (fun server => ∀ timer ∈ server.outstanding, timer.Advancing) ↔
        ∀ entry ∈ taken, entry.2.Advances first := by
    refine @Recorded.holds_iff_under _ _ (Staged platform) _ _ _ _
      (fun _ stage => stage.Advances first)
      (fun server => Ordered Timer.compare server.outstanding ∧ first.freq = server.freq)
      ⟨serving.ordered, rfl⟩ ?_ ?_ ?_ run
    · intro stage before after kept staged
      have carries := staged_carries kept.1 staged
      exact ⟨carries.ordered, kept.2.trans carries.freq.symm⟩
    · rw [isEmpty]
      exact nofun
    · intro stage before after kept advancing staged
      exact staged_advancing kept.1 kept.2 staged advancing
  rw [← advances]
  constructor
  · intro throughout
    constructor
    · intro earlier middle isEarlier earlierRun
      exact (throughout earlier middle isEarlier earlierRun).advancing
    · intro earlier middle isEarlier earlierRun
      have settles := throughout earlier middle isEarlier earlierRun
      exact (Server.settles_iff (served isEarlier earlierRun) settles.advancing).mp settles
  · intro both earlier middle isEarlier earlierRun
    have advancing := both.1 earlier middle isEarlier earlierRun
    exact (Server.settles_iff (served isEarlier earlierRun) advancing).mpr
      (both.2 earlier middle isEarlier earlierRun)

end Stages

/-- The client asks for a period of ten ticks, and thirty ticks pass. -/
theorem run_settles_iff_freshServer :
    Recorded.Throughout (Staged counterPlatform) freshServer
      [(freshServer, .set 0 (.periodic 0 10))] (Settles counterPlatform 35) := by
  have isNew : Server.new counterPlatform [7] 1 5 = some freshServer := rfl
  have isSet : Server.setTimer counterPlatform ⟨0, 0, 15, some 10⟩ freshServer =
      .ok () { freshServer with outstanding := [⟨0, 0, 15, some 10⟩] } := rfl
  have staged : Staged counterPlatform (.set 0 (.periodic 0 10)) freshServer
      { freshServer with outstanding := [⟨0, 0, 15, some 10⟩] } :=
    ⟨0, _, rfl, by decide, rfl, isSet⟩
  refine ((run_settles_iff isNew).2 _ _ (Recorded.start.step staged) ?_ 35).mpr ⟨?_, ?_⟩
  · intro entry member
    obtain rfl := List.mem_singleton.mp member
    exact Nat.one_pos
  · intro entry member
    obtain rfl := List.mem_singleton.mp member
    intro tid ns isAsked
    obtain ⟨rfl, rfl⟩ := Request.periodic.inj isAsked
    decide
  · intro earlier middle isEarlier earlierRun
    cases earlierRun with
    | start => exact nofun
    | @step taken stage before after run staged =>
        have isFirst : taken = [] ∧ before = freshServer ∧ stage = .set 0 (.periodic 0 10) := by
          obtain ⟨rest, isWhole⟩ := isEarlier
          cases taken with
          | nil =>
              obtain ⟨isEntry, _⟩ := List.cons.inj isWhole
              exact ⟨rfl, Prod.mk.inj isEntry⟩
          | cons entry entries => simp at isWhole
        obtain ⟨rfl, rfl, rfl⟩ := isFirst
        obtain ⟨tid, timer, _, _, isTimer, setRun⟩ := staged
        obtain rfl := Option.some.inj isTimer
        obtain rfl := (Outcome.ok.inj (isSet.symm.trans setRun)).2
        intro timer member
        obtain rfl := List.mem_singleton.mp member
        intro period isPeriod _
        obtain rfl := Option.some.inj isPeriod
        decide

theorem nthDeadline_zero (compare : Tick) (n : Nat) : nthDeadline compare 0 n = compare := by
  induction n with
  | zero => rfl
  | succ n ih => rwa [nthDeadline, Int64.add_zero]

/-- The client asks for a period of no time at all, and the loop does not end. -/
theorem zero_period_never_ends :
    Server.new counterPlatform [7] 1 5 = some freshServer ∧
      ∃ final, Recorded (Staged counterPlatform) freshServer
        [(freshServer, .set 0 (.periodic 0 0))] final ∧
        ∀ fuel after, Server.updateTimers counterPlatform 5 fuel final ≠ .ok () after := by
  have isSet : Server.setTimer counterPlatform ⟨0, 0, 5, some 0⟩ freshServer =
      .ok () { freshServer with outstanding := [⟨0, 0, 5, some 0⟩] } := rfl
  have staged : Staged counterPlatform (.set 0 (.periodic 0 0)) freshServer
      { freshServer with outstanding := [⟨0, 0, 5, some 0⟩] } := ⟨0, _, rfl, by decide, rfl, isSet⟩
  refine ⟨rfl, _, Recorded.start.step staged, ?_⟩
  intro fuel after run
  have ordered : Ordered Timer.compare [(⟨0, 0, 5, some 0⟩ : Timer)] := by decide
  have drained := (Server.updateTimers_drained (by exact ordered) run).1
  have elapsed := (drained.elapsed ⟨0, 0, 5, some 0⟩ List.mem_cons_self).2
  rw [nthDeadline_zero] at elapsed
  exact absurd elapsed (lt_irrefl _)

end IceCap.TimerServer
