import Mathlib.Data.Nat.Find
import Mathlib.Data.Prod.Lex
import Mathlib.Logic.Relation
import Mathlib.Order.WellFounded

/-!
# Fair traces

An infinite trace of a system whose steps carry the action that is taken.  At
some times nothing may happen.  A trace is fair to a set of actions (those of
one thread, as a rule) if the set is not left waiting for ever while one of its
actions could be taken.

`Progress` is what it takes to be sure that such a trace gets where it waits to
get: while it waits, one of the actions can be taken; each of them brings it
closer; no other action takes it further away.
-/

set_option autoImplicit false

namespace IceCap.Library

structure Trace {State Action : Type} (step : Action → State → State → Prop)
    (initial : State) where
  state : Nat → State
  action : Nat → Option Action
  starts : state 0 = initial
  moves : ∀ time, match action time with
    | none => state (time + 1) = state time
    | some taken => step taken (state time) (state (time + 1))

variable {State Action : Type} {step : Action → State → State → Prop} {initial : State}

/-- One of the actions can be taken. -/
def CanAct (step : Action → State → State → Prop) (mine : Action → Prop) (state : State) : Prop :=
  ∃ taken next, mine taken ∧ step taken state next

namespace Trace

variable {trace : Trace step initial} {mine : Action → Prop} {time : Nat}

def Acts (trace : Trace step initial) (mine : Action → Prop) (time : Nat) : Prop :=
  ∃ taken, trace.action time = some taken ∧ mine taken

def Fair (trace : Trace step initial) (mine : Action → Prop) : Prop :=
  ∀ time, ∃ later ≥ time, trace.Acts mine later ∨ ¬ CanAct step mine (trace.state later)

theorem step_of_action {taken : Action} (acted : trace.action time = some taken) :
    step taken (trace.state time) (trace.state (time + 1)) := by
  have moved := trace.moves time
  rw [acted] at moved
  exact moved

theorem state_of_idle (idle : trace.action time = none) :
    trace.state (time + 1) = trace.state time := by
  have moved := trace.moves time
  rw [idle] at moved
  exact moved

/-- The states of a trace are the states of a run. -/
theorem reachable (trace : Trace step initial) (time : Nat) :
    Relation.ReflTransGen (fun before after => ∃ taken, step taken before after) initial
      (trace.state time) := by
  induction time with
  | zero =>
      rw [trace.starts]
  | succ time ih =>
      cases acted : trace.action time with
      | none =>
          rw [state_of_idle acted]
          exact ih
      | some taken => exact ih.tail ⟨taken, step_of_action acted⟩

end Trace

/-- While a state is waiting, the actions lead to a step that is to be reached, by a rank. -/
structure Progress {α : Type} [LT α] (step : Action → State → State → Prop)
    (mine : Action → Prop) (waiting : State → Prop) (reached : Action → State → Prop)
    (rank : State → α) : Prop where
  able : ∀ state, waiting state → CanAct step mine state
  others : ∀ taken before after, step taken before after → waiting before → ¬ mine taken →
    reached taken before ∨ waiting after ∧ rank after = rank before
  acting : ∀ taken before after, step taken before after → waiting before → mine taken →
    reached taken before ∨ waiting after ∧ rank after < rank before

namespace Progress

variable {α : Type} [LT α] {mine : Action → Prop} {waiting : State → Prop}
  {reached : Action → State → Prop} {rank : State → α} {trace : Trace step initial} {time : Nat}

/-- As long as none of the actions is taken, the trace waits at the same rank. -/
theorem waits_until (progress : Progress step mine waiting reached rank)
    (isWaiting : waiting (trace.state time)) (distance : Nat)
    (quiet : ∀ earlier, time ≤ earlier → earlier < time + distance → ¬ trace.Acts mine earlier) :
    (∃ later ≥ time, ∃ taken, trace.action later = some taken ∧
      reached taken (trace.state later)) ∨
    waiting (trace.state (time + distance)) ∧
      rank (trace.state (time + distance)) = rank (trace.state time) := by
  induction distance with
  | zero => exact .inr ⟨isWaiting, rfl⟩
  | succ distance ih =>
      rcases ih (fun earlier from_ below => quiet earlier from_ (by omega)) with done | still
      · exact .inl done
      · rw [← Nat.add_assoc]
        cases acted : trace.action (time + distance) with
        | none =>
            rw [Trace.state_of_idle acted]
            exact .inr still
        | some taken =>
            have notMine : ¬ mine taken := fun isMine =>
              quiet (time + distance) (by omega) (by omega) ⟨taken, acted, isMine⟩
            rcases progress.others _ _ _ (Trace.step_of_action acted) still.1 notMine with
              isReached | ⟨waits, same⟩
            · exact .inl ⟨time + distance, by omega, taken, acted, isReached⟩
            · exact .inr ⟨waits, same.trans still.2⟩

theorem leadsTo [WellFoundedLT α] (progress : Progress step mine waiting reached rank)
    (fair : trace.Fair mine) (isWaiting : waiting (trace.state time)) :
    ∃ later ≥ time, ∃ taken, trace.action later = some taken ∧
      reached taken (trace.state later) := by
  induction isRank : rank (trace.state time) using WellFoundedLT.induction generalizing time with
  | ind current ih =>
      -- the first time from now on at which the thread acts or cannot act
      have turn : ∃ distance, trace.Acts mine (time + distance) ∨
          ¬ CanAct step mine (trace.state (time + distance)) := by
        obtain ⟨later, isLater, turn⟩ := fair time
        exact ⟨later - time, by rwa [Nat.add_sub_cancel' isLater]⟩
      classical
      have quiet : ∀ earlier, time ≤ earlier → earlier < time + Nat.find turn →
          ¬ trace.Acts mine earlier := fun earlier isLater below acts =>
        Nat.find_min turn (m := earlier - time) (by omega)
          (.inl (by rwa [Nat.add_sub_cancel' isLater]))
      rcases progress.waits_until isWaiting (Nat.find turn) quiet with done | ⟨waits, same⟩
      · exact done
      · rcases Nat.find_spec turn with ⟨taken, acted, isMine⟩ | stuck
        · rcases progress.acting _ _ _ (Trace.step_of_action acted) waits isMine with
            isReached | ⟨waits', less⟩
          · exact ⟨_, by omega, taken, acted, isReached⟩
          · obtain ⟨later, isLater, done⟩ := ih _ (by rwa [← isRank, ← same]) waits' rfl
            exact ⟨later, by omega, done⟩
        · exact absurd (progress.able _ waits) stuck

end Progress

end IceCap.Library
