import IceCap.Library.Loop

/-!
# Triples

What a call is sure to do from the states that meet a precondition: it does not
panic, and it ends in a state that meets one postcondition where it returns a
value and another one where it returns an error.
-/

set_option autoImplicit false

namespace IceCap.Library

variable {ε σ α β : Type}

def Outcome.Satisfies (post : α → σ → Prop) (failed : ε → σ → Prop) : Outcome ε σ α → Prop
  | .ok value state => post value state
  | .err error state => failed error state
  | .panic => False

theorem Outcome.Satisfies.mono {post post' : α → σ → Prop} {failed failed' : ε → σ → Prop}
    {outcome : Outcome ε σ α} (meets : outcome.Satisfies post failed)
    (more : ∀ value state, post value state → post' value state)
    (failedMore : ∀ error state, failed error state → failed' error state) :
    outcome.Satisfies post' failed' := by
  cases outcome with
  | ok value state => exact more value state meets
  | err error state => exact failedMore error state meets
  | panic => exact meets

namespace Exec

def Triple (pre : σ → Prop) (call : Exec ε σ α) (post : α → σ → Prop) (failed : ε → σ → Prop) :
    Prop :=
  ∀ state, pre state → (call state).Satisfies post failed

/-- Return the error as a value. -/
def attempt (call : Exec ε σ α) : Exec ε σ (Except ε α) := fun state =>
  match call state with
  | .ok value next => .ok (.ok value) next
  | .err error next => .ok (.error error) next
  | .panic => .panic

/-- `unwrap_or_else` -/
def unwrapOrElse {ε' : Type} (call : Exec ε σ α) (convert : ε → α) : Exec ε' σ α := fun state =>
  match call state with
  | .ok value next => .ok value next
  | .err error next => .ok (convert error) next
  | .panic => .panic

/-- A call that is made only if the condition holds. -/
def when (condition : Prop) [Decidable condition] (call : Exec ε σ Unit) : Exec ε σ Unit :=
  if condition then call else pure ()

section Runs
variable {post : β → σ → Prop} {failed : ε → σ → Prop} {call : Exec ε σ α} {next : α → Exec ε σ β}
  {state middle : σ}

theorem satisfies_of_ok {value : α} (run : call state = .ok value middle)
    (rest : (next value middle).Satisfies post failed) :
    ((call >>= next) state).Satisfies post failed := by
  rwa [bind_of_ok run]

theorem satisfies_of_err {error : ε} (run : call state = .err error middle)
    (holds : failed error middle) : ((call >>= next) state).Satisfies post failed := by
  rwa [bind_eq_err.mpr (.inl run)]

theorem satisfies_pure_of_ok {post : α → σ → Prop} {value : α} (run : call state = .ok value middle)
    (holds : post value middle) : (call state).Satisfies post failed := by
  rwa [run]

end Runs

section Rules
variable {pre : σ → Prop} {post : α → σ → Prop} {failed : ε → σ → Prop} {call : Exec ε σ α}
  {state final : σ}

theorem Triple.ok (triple : Triple pre call post failed) (holds : pre state) {value : α}
    (run : call state = .ok value final) : post value final := by
  have meets := triple state holds
  rwa [run] at meets

/-- The rule of consequence. -/
theorem Triple.mono {pre' : σ → Prop} {post' : α → σ → Prop} {failed' : ε → σ → Prop}
    (triple : Triple pre' call post' failed') (less : ∀ state, pre state → pre' state)
    (more : ∀ value state, post' value state → post value state)
    (failedMore : ∀ error state, failed' error state → failed error state) :
    Triple pre call post failed :=
  fun state holds => Outcome.Satisfies.mono (triple state (less state holds)) more failedMore

theorem Triple.weaken {post' : α → σ → Prop} (triple : Triple pre call post' failed)
    (more : ∀ value state, post' value state → post value state) : Triple pre call post failed :=
  triple.mono (fun _ holds => holds) more fun _ _ holds => holds

theorem Triple.strengthen {pre' : σ → Prop} (triple : Triple pre' call post failed)
    (less : ∀ state, pre state → pre' state) : Triple pre call post failed :=
  triple.mono less (fun _ _ holds => holds) fun _ _ holds => holds

theorem Triple.pure {value : α} (holds : ∀ state, pre state → post value state) :
    Triple pre (Pure.pure value : Exec ε σ α) post failed := holds

theorem Triple.bind {next : α → Exec ε σ β} {post' : β → σ → Prop}
    (first : Triple pre call post failed)
    (rest : ∀ value, Triple (post value) (next value) post' failed) :
    Triple pre (call >>= next) post' failed := by
  intro state holds
  have meets := first state holds
  rw [bind_apply]
  cases run : call state with
  | ok value middle => exact rest value middle (by rwa [run] at meets)
  | err error middle => rwa [run] at meets
  | panic => rwa [run] at meets

theorem Triple.get : Triple pre (Exec.get : Exec ε σ σ) (fun value state => value = state ∧ pre state)
    failed := fun _ holds => ⟨rfl, holds⟩

/-- With what holds between the two. -/
theorem Triple.through (middle : α → σ → Prop) {next : α → Exec ε σ β} {after : β → σ → Prop}
    (first : Triple pre call middle failed)
    (rest : ∀ value, Triple (middle value) (next value) after failed) :
    Triple pre (call >>= next) after failed := first.bind rest

/-- What is known of the state that has been read. -/
theorem Triple.reading {next : σ → Exec ε σ β} {after : β → σ → Prop}
    (rest : ∀ value, pre value → Triple pre (next value) after failed) :
    Triple pre (Exec.get >>= next) after failed := fun state holds => rest state holds state holds

theorem Triple.modify {update : σ → σ} {after : Unit → σ → Prop}
    (holds : ∀ state, pre state → after () (update state)) :
    Triple pre (Exec.modify update) after failed := holds

theorem Triple.fail {error : ε} (holds : ∀ state, pre state → failed error state) :
    Triple pre (Exec.fail error) post failed := holds

theorem Triple.ensure {condition : Prop} [Decidable condition] {error : ε}
    (holds : ∀ state, pre state → ¬ condition → failed error state) :
    Triple pre (Exec.ensure condition error) (fun _ state => condition ∧ pre state) failed := by
  intro state isPre
  by_cases isTrue : condition
  · simpa [Exec.ensure, isTrue, Outcome.Satisfies] using isPre
  · simpa [Exec.ensure, isTrue, Outcome.Satisfies] using holds state isPre isTrue

theorem Triple.assert {condition : Prop} [Decidable condition]
    (holds : ∀ state, pre state → condition) :
    Triple pre (Exec.assert condition) (fun _ state => condition ∧ pre state) failed := by
  intro state isPre
  simpa [Exec.assert, holds state isPre, Outcome.Satisfies] using isPre

theorem Triple.okOr {value : Option α} {error : ε}
    (holds : ∀ state, pre state → value = none → failed error state) :
    Triple pre (Exec.okOr value error) (fun found state => value = some found ∧ pre state) failed := by
  intro state isPre
  cases value with
  | none => exact holds state isPre rfl
  | some found => exact ⟨rfl, isPre⟩

theorem Triple.on {τ : Type} {start : τ} {inner : Exec ε τ α} {met : α → τ → Prop}
    {refused : ε → τ → Prop} (triple : Triple (fun state => state = start) inner met refused)
    (holds : ∀ value last state, pre state → met value last → post value state)
    (fails : ∀ error last state, pre state → refused error last → failed error state) :
    Triple pre (Exec.on start inner) post failed := by
  intro state isPre
  have satisfies := triple start rfl
  unfold Exec.on
  cases run : inner start with
  | ok value last => exact holds value last state isPre (by rwa [run] at satisfies)
  | err error last => exact fails error last state isPre (by rwa [run] at satisfies)
  | panic => rwa [run] at satisfies

theorem Triple.focus {τ : Type} {part : σ → τ} {put : τ → σ → σ} {inner : Exec ε τ α}
    (triple : ∀ state, pre state → (inner (part state)).Satisfies
      (fun value next => post value (put next state)) fun error next => failed error (put next state)) :
    Triple pre (Exec.focus part put inner) post failed := by
  intro state holds
  have satisfies := triple state holds
  unfold Exec.focus
  cases run : inner (part state) with
  | ok value next => rwa [run] at satisfies
  | err error next => rwa [run] at satisfies
  | panic => rwa [run] at satisfies

theorem Triple.ite {condition : Prop} [Decidable condition] {other : Exec ε σ α}
    (isThen : condition → Triple pre call post failed)
    (isElse : ¬ condition → Triple pre other post failed) :
    Triple pre (if condition then call else other) post failed := by
  split
  · exact isThen ‹_›
  · exact isElse ‹_›

theorem Triple.when {condition : Prop} [Decidable condition] {action : Exec ε σ Unit}
    {after : Unit → σ → Prop} (isThen : condition → Triple pre action after failed)
    (otherwise : ∀ state, ¬ condition → pre state → after () state) :
    Triple pre (Exec.when condition action) after failed :=
  .ite isThen fun isElse => .pure fun state holds => otherwise state isElse holds

/-- What is known of the state whatever it is. -/
theorem Triple.of_fact {fact : Prop} (triple : fact → Triple pre call post failed) :
    Triple (fun state => fact ∧ pre state) call post failed :=
  fun state holds => triple holds.1 state holds.2

theorem Triple.of_exists {γ : Type} {cases : γ → σ → Prop}
    (triple : ∀ case, Triple (cases case) call post failed) :
    Triple (fun state => ∃ case, cases case state) call post failed := by
  intro state ⟨case, holds⟩
  exact triple case state holds

theorem Triple.attempt (triple : Triple pre call post failed) {failed' : ε → σ → Prop} :
    Triple pre (Exec.attempt call) (fun result state => match result with
      | .ok value => post value state
      | .error error => failed error state) failed' := by
  intro state holds
  have meets := triple state holds
  unfold Exec.attempt
  cases run : call state with
  | ok value next => rwa [run] at meets
  | err error next => rwa [run] at meets
  | panic => rwa [run] at meets

theorem Triple.unwrapOrElse {ε' : Type} {convert : ε → α} {failed' : ε' → σ → Prop}
    (triple : Triple pre call post failed)
    (converts : ∀ error state, failed error state → post (convert error) state) :
    Triple pre (Exec.unwrapOrElse call convert) post failed' := by
  intro state holds
  have meets := triple state holds
  unfold Exec.unwrapOrElse
  cases run : call state with
  | ok value next => rwa [run] at meets
  | err error next =>
      rw [run] at meets
      exact converts error next meets
  | panic => rwa [run] at meets

theorem Triple.reads {method : σ → Option β} (finds : ∀ state, pre state → ∃ value, method state = some value) :
    Triple pre (Exec.reads method : Exec ε σ β) (fun value state => method state = some value ∧ pre state)
      failed := by
  intro state holds
  obtain ⟨value, isValue⟩ := finds state holds
  simpa [Exec.reads, isValue, Outcome.Satisfies] using holds

theorem Triple.unwrap {value : Option β} (isSome : ∀ state, pre state → ∃ found, value = some found) :
    Triple pre (Exec.unwrap value : Exec ε σ β) (fun found state => value = some found ∧ pre state)
      failed := by
  intro state holds
  obtain ⟨found, rfl⟩ := isSome state holds
  exact ⟨rfl, holds⟩

/-- A value that is there. -/
theorem Triple.unwrapped {value : Option β} {found : β} {next : β → Exec ε σ α}
    (isFound : value = some found) (rest : Triple pre (next found) post failed) :
    Triple pre (Exec.unwrap value >>= next) post failed := by
  intro state holds
  rw [unwrap_bind isFound]
  exact rest state holds

theorem Triple.forEach {items : List β} {body : β → Exec ε σ Unit} {invariant : σ → Prop}
    (each : ∀ item ∈ items, Triple invariant (body item) (fun _ => invariant) failed) :
    Triple invariant (Exec.forEach items body) (fun _ => invariant) failed := by
  induction items with
  | nil => exact .pure fun _ holds => holds
  | cons item items ih =>
      exact (each item List.mem_cons_self).bind fun _ =>
        ih fun other member => each other (List.mem_cons_of_mem _ member)

end Rules

/-! ## Calls that are sure to return -/

section Total
variable {pre : σ → Prop} {post : α → σ → Prop} {call : Exec ε σ α}

/-- From the states that meet the precondition the call returns a value. -/
abbrev Total (pre : σ → Prop) (call : Exec ε σ α) (post : α → σ → Prop) : Prop :=
  Triple pre call post fun _ _ => False

theorem total_iff : Total pre call post ↔
    ∀ state, pre state → ∃ value final, call state = .ok value final ∧ post value final := by
  refine forall_congr' fun state => forall_congr' fun _ => ?_
  cases call state <;> simp [Outcome.Satisfies]

theorem Total.orPanic (total : Total pre call post) : Total pre (Exec.orPanic call) post := by
  rw [total_iff] at total ⊢
  intro state holds
  obtain ⟨value, final, run, isPost⟩ := total state holds
  exact ⟨value, final, orPanic_eq_ok.mpr run, isPost⟩

/-- A call on a part, with errors that are converted. -/
theorem Total.inside {τ ε' : Type} {part : σ → τ} {put : τ → σ → σ} {convert : ε' → ε}
    {inner : Exec ε' τ α} (total : ∀ state, pre state → ∃ value next,
      inner (part state) = .ok value next ∧ post value (put next state)) :
    Total pre (Exec.focus part put (Exec.mapErr convert inner)) post := by
  rw [total_iff]
  intro state holds
  obtain ⟨value, next, run, isPost⟩ := total state holds
  exact ⟨value, put next state, focus_eq_ok.mpr ⟨next, mapErr_eq_ok.mpr run, rfl⟩, isPost⟩

end Total

end Exec

end IceCap.Library
