import IceCap.TimerServer.Queue

/-!
# Arming the device

The device is watched through a record of the calls that it gets.  A call that
changes the queue ends with the device armed for the first timer or earlier.
`stop` does not touch the device, and need not: it only takes timers away.
-/

set_option autoImplicit false

namespace IceCap.TimerServer

open IceCap.Library IceCap.Sel4

/-- The last calls of `set_enable` and of `set_compare`, this one with its result. -/
structure DeviceLog where
  enabled : Option Bool
  armed : Option (UInt64 × Bool)
  deriving DecidableEq, Repr

variable {δ : Type}

/-- The device with a record. -/
def TimerDevice.recorded (device : TimerDevice δ) : TimerDevice (δ × DeviceLog) where
  getFreq state := device.getFreq state.1
  setEnable enabled state :=
    (device.setEnable enabled state.1, { state.2 with enabled := some enabled })
  getCount state := ((device.getCount state.1).1, (device.getCount state.1).2, state.2)
  setCompare compare state :=
    let (accepted, next) := device.setCompare compare state.1
    (accepted, next, { state.2 with armed := some (compare, accepted) })
  clearInterrupt state := (device.clearInterrupt state.1, state.2)
  elapses state next := device.elapses state.1 next.1 ∧ next.2 = state.2

def Platform.recorded (platform : Platform δ) : Platform (δ × DeviceLog) :=
  ⟨platform.device.recorded, platform.binary⟩

/-- Where timers wait, the device is enabled and has accepted a deadline no later than theirs. -/
def Armed (outstanding : Timers) (log : DeviceLog) : Prop :=
  outstanding ≠ [] → log.enabled = some true ∧ ∃ compare, log.armed = some (compare, true) ∧
    ∀ timer ∈ outstanding, (compare.toNat : Int) ≤ timer.compare.toInt

theorem Armed.fewer {outstanding left : Timers} {log : DeviceLog} (armed : Armed outstanding log)
    (fewer : left ⊆ outstanding) : Armed left log := by
  intro nonempty
  obtain ⟨timer, member⟩ := List.exists_mem_of_ne_nil _ nonempty
  obtain ⟨enabled, compare, accepted, early⟩ := armed (List.ne_nil_of_mem (fewer member))
  exact ⟨enabled, compare, accepted, fun other isLeft => early other (fewer isLeft)⟩

/-! ## Counts and deadlines -/

theorem toInt_toInt64 {count : UInt64} (bound : count.toNat < 2 ^ 63) :
    count.toInt64.toInt = count.toNat :=
  BitVec.toInt_eq_toNat_of_lt (by simpa using by omega)

/-- A deadline that is not negative survives the cast. -/
theorem toNat_toUInt64 {t : Tick} (notNegative : 0 ≤ t.toInt) :
    (t.toUInt64.toNat : Int) = t.toInt := by
  have isInt : t.toInt = t.toBitVec.toInt := rfl
  have isNat : t.toUInt64.toNat = t.toBitVec.toNat := rfl
  have less := t.toBitVec.isLt
  have cases := BitVec.toInt_eq_toNat_cond t.toBitVec
  rw [isNat]
  rw [isInt] at notNegative ⊢
  split at cases <;> omega

namespace Server

variable {platform : Platform δ} {server final : Server (δ × DeviceLog)} {count : Tick} {fuel : Nat}

theorem update_armed (small : ∀ device, (platform.device.getCount device).1.toNat < 2 ^ 63)
    (queue : Queue server.outstanding) (notNegative : 0 ≤ count.toInt)
    (run : update platform.recorded fuel count server = .ok () final) :
    Armed final.outstanding final.device.2 := by
  induction fuel generalizing server count with
  | zero => simp [update] at run
  | succ fuel ih =>
      obtain ⟨middle, drainRun, ends⟩ := update_cases run
      have drained := updateTimers_queue queue drainRun
      have later := (updateTimers_drained queue.ordered drainRun).1.left
      rcases ends with ⟨isEmpty, rfl⟩ | ⟨timer, rest, accepted, device, isQueue, asked, ends⟩
      · intro nonempty
        exact absurd isEmpty nonempty
      · rcases ends with ⟨rfl, rfl⟩ | ⟨rfl, again⟩
        · -- every deadline that is left is after `count`, so the cast changes none of them
          intro nonempty
          have logged : device.2.armed = some (timer.compare.toUInt64, true) := by
            have isLog := congrArg (fun answer => answer.2.2.armed) asked
            have isAnswer := congrArg Prod.fst asked
            simp only [Platform.recorded, TimerDevice.recorded] at isLog isAnswer
            rw [← isLog, isAnswer]
          refine ⟨rfl, timer.compare.toUInt64, logged, ?_⟩
          intro other member
          change other ∈ middle.outstanding at member
          have afterCount := Int64.lt_iff_toInt_lt.mp (later timer (by simp [isQueue]))
          rw [toNat_toUInt64 (by omega)]
          apply Int64.le_iff_toInt_le.mp
          rw [isQueue] at member drained
          cases List.mem_cons.mp member with
          | inl isTimer => exact (congrArg Timer.compare isTimer).ge
          | inr inRest => exact (ordered_cons.mp drained.ordered).1 other inRest
        · refine ih (by exact drained) ?_ again
          have bound := small device.1
          change 0 ≤ (platform.device.getCount device.1).1.toInt64.toInt
          rw [toInt_toInt64 bound]
          exact Int.natCast_nonneg _

theorem call_armed {call : Call}
    (small : ∀ device, (platform.device.getCount device).1.toNat < 2 ^ 63)
    (queue : Queue server.outstanding) (armed : Armed server.outstanding server.device.2)
    (run : Server.call platform.recorded fuel call server = .ok () final) :
    Armed final.outstanding final.device.2 := by
  rcases call_cases run with ⟨cid, tid, stopRun⟩ | ⟨device, _, middle, _, _, start, run⟩
  · obtain ⟨completed, rfl⟩ := removeTimer_spec stopRun
    apply armed.fewer
    exact List.filter_subset_self _
  · have middleQueue : Queue middle.outstanding := by
      rcases start with ⟨_, rfl⟩ | ⟨timer, _, setRun⟩
      · exact queue
      · exact setTimer_queue (by exact queue) setRun
    apply update_armed small middleQueue _ run
    change 0 ≤ (platform.device.getCount device.1).1.toInt64.toInt
    rw [toInt_toInt64 (small device.1)]
    exact Int.natCast_nonneg _

end Server

/-- After every call the device is armed in time for all timers. -/
theorem run_armed (platform : Platform δ)
    (small : ∀ device, (platform.device.getCount device).1.toNat < 2 ^ 63) :
    ∀ server, Reached platform.recorded server → Armed server.outstanding server.device.2 := by
  intro server reached
  induction reached with
  | new isNew =>
      unfold Server.new at isNew
      split at isNew
      · cases isNew
        intro nonempty
        exact absurd rfl nonempty
      · cases isNew
  | call fuel call reached ends ih =>
      rcases ends with ⟨⟨⟩, run⟩ | ⟨error, failed⟩
      · exact Server.call_armed small reached.queue ih run
      · exact Server.call_failsClean _ _ _ failed ▸ ih
  | elapse reached elapses ih =>
      rw [elapses.2]
      exact ih

theorem counter_small (device : UInt64) : (counter.getCount device).1.toNat < 2 ^ 63 := by
  change (device % 9223372036854775808).toNat < 2 ^ 63
  rw [UInt64.toNat_mod]
  exact Nat.mod_lt _ (by decide)

/-- A client asks for a time-out of ten ticks. -/
theorem run_armed_oneShot : Armed [⟨0, 1, 15, none⟩] ⟨some true, some (15, true)⟩ := by
  have isNew : Server.new counterPlatform.recorded [7] 1 (5, ⟨none, none⟩) =
      some { freshServer with device := (5, ⟨none, none⟩) } := rfl
  have isSet : Server.call counterPlatform.recorded 3 (.oneshotRelative 0 1 10)
      { freshServer with device := (5, ⟨none, none⟩) } =
      .ok () { freshServer with
        outstanding := [⟨0, 1, 15, none⟩]
        device := (5, ⟨some true, some (15, true)⟩) } := rfl
  exact run_armed counterPlatform counter_small _ (.call 3 _ (.new isNew) (.inl ⟨(), isSet⟩))

end IceCap.TimerServer
