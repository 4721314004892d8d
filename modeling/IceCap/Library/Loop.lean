import Mathlib.Order.Lattice
import Mathlib.Algebra.Order.Ring.Nat
import IceCap.Library.Exec

/-!
# Loops that end, and calls on values of their own

A `loop` has no bound of its own, so it is modelled with one, and running out
of it is a failure that no call of a program reports itself.  A loop of which
every round that goes on takes so much of a measure does not run out of it.

`Meets` is the contract of a call at a state: it does not panic, it fails only
in ways that are acceptable, and what it returns satisfies a postcondition.
-/

set_option autoImplicit false

namespace IceCap.Library.Exec

variable {ε σ τ α β γ : Type}

/-- At most so many rounds.  A round goes on with `.inl` and leaves the loop with `.inr`. -/
def loop (unfinished : ε) (round : γ → Exec ε σ (γ ⊕ α)) : Nat → γ → Exec ε σ α
  | 0, _ => fail unfinished
  | rounds + 1, value => do
      let next ← round value
      next.elim (loop unfinished round rounds) pure

/-- A call on a value of its own, which is dropped after it. -/
def on (start : τ) (call : Exec ε τ α) : Exec ε σ α := fun state =>
  match call start with
  | .ok value _ => .ok value state
  | .err error _ => .err error state
  | .panic => .panic

/-- A call with a value of its own beside the state, which is returned in the end. -/
def own (start : τ) (call : Exec ε (τ × σ) α) : Exec ε σ (α × τ) := fun state =>
  match call (start, state) with
  | .ok value (last, final) => .ok (value, last) final
  | .err error (_, final) => .err error final
  | .panic => .panic

/-- `None` is returned as the error. -/
def okOr (value : Option α) (error : ε) : Exec ε σ α := fun state =>
  match value with
  | some found => .ok found state
  | none => .err error state

/-! ## Running calls -/

section Run
variable {state : σ}

theorem get_bind {next : σ → Exec ε σ α} : (get >>= next) state = next state state := rfl

theorem pure_value_bind {value : α} {next : α → Exec ε σ β} :
    ((pure value : Exec ε σ α) >>= next) state = next value state := rfl

theorem okOr_some_bind {value : α} {error : ε} {next : α → Exec ε σ β} :
    (okOr (some value) error >>= next) state = next value state := rfl

theorem okOr_none_bind {error : ε} {next : α → Exec ε σ β} :
    (okOr none error >>= next) state = .err error state := rfl

theorem on_bind {start last : τ} {call : Exec ε τ α} {value : α} {next : α → Exec ε σ β}
    (run : call start = .ok value last) : ((on start call : Exec ε σ α) >>= next) state = next value state := by
  apply bind_of_ok
  unfold on
  rw [run]

/-- Values that are all there are collected. -/
theorem mapEach_unwrap {items : List β} {find : β → Option α} {values : List α}
    (found : items.map find = values.map some) :
    (mapEach items fun item => unwrap (find item) : Exec ε σ (List α)) state = .ok values state := by
  induction items generalizing values with
  | nil =>
      obtain rfl := List.map_eq_nil_iff.mp found.symm
      rfl
  | cons item items ih =>
      obtain ⟨value, others, rfl, isValue, areOthers⟩ := List.map_eq_cons_iff.mp found.symm
      rw [mapEach_cons, unwrap_bind isValue.symm, bind_of_ok (ih areOthers.symm)]
      rfl

theorem mapEach_unwrap_found {items : List β} {find : β → Option α} {values : List α} {final : σ}
    (run : (mapEach items fun item => unwrap (find item) : Exec ε σ (List α)) state =
      .ok values final) : items.map find = values.map some ∧ state = final := by
  induction items generalizing values with
  | nil =>
      obtain ⟨rfl, rfl⟩ := pure_eq_ok.mp run
      exact ⟨rfl, rfl⟩
  | cons item items ih =>
      obtain ⟨value, _, found, rest⟩ := bind_eq_ok.mp run
      obtain ⟨isValue, rfl⟩ := unwrap_eq_ok.mp found
      obtain ⟨others, _, areOthers, returned⟩ := bind_eq_ok.mp rest
      obtain ⟨rfl, rfl⟩ := pure_eq_ok.mp returned
      obtain ⟨isRest, rfl⟩ := ih areOthers
      exact ⟨by rw [List.map_cons, List.map_cons, isValue, isRest], rfl⟩

theorem own_bind {start last : τ} {final : σ} {call : Exec ε (τ × σ) α} {value : α}
    {next : α × τ → Exec ε σ β} (run : call (start, state) = .ok value (last, final)) :
    (own start call >>= next) state = next (value, last) final := by
  apply bind_of_ok
  unfold own
  rw [run]

theorem own_panics {start : τ} {call : Exec ε (τ × σ) α} {next : α × τ → Exec ε σ β}
    (panics : call (start, state) = .panic) : (own start call >>= next) state = .panic := by
  rw [bind_apply, own, panics]

theorem loop_goes_on {unfinished : ε} {round : γ → Exec ε σ (γ ⊕ α)} {rounds : Nat} {value next : γ}
    {after : σ} (run : round value state = .ok (.inl next) after) :
    loop unfinished round (rounds + 1) value state = loop unfinished round rounds next after := by
  rw [loop, bind_of_ok run]
  rfl

theorem loop_leaves {unfinished : ε} {round : γ → Exec ε σ (γ ⊕ α)} {rounds : Nat} {value : γ}
    {result : α} {after : σ} (run : round value state = .ok (.inr result) after) :
    loop unfinished round (rounds + 1) value state = .ok result after := by
  rw [loop, bind_of_ok run]
  rfl

theorem ensure_bind {condition : Prop} [Decidable condition] {error : ε} {next : Unit → Exec ε σ α}
    (holds : condition) : (ensure condition error >>= next) state = next () state :=
  bind_of_ok (ensure_eq_ok.mpr ⟨holds, rfl⟩)

end Run

/-! ## Contracts -/

section Meets
variable {acceptable : ε → Prop} {state : σ}

/-- What a call may end with. -/
def Meets (acceptable : ε → Prop) (post : α → σ → Prop) : Outcome ε σ α → Prop
  | .ok value final => post value final
  | .err error _ => acceptable error
  | .panic => False

theorem Meets.imp {post weaker : α → σ → Prop} {outcome : Outcome ε σ α}
    (meets : Meets acceptable post outcome)
    (weaken : ∀ value final, post value final → weaker value final) :
    Meets acceptable weaker outcome := by
  cases outcome with
  | ok value final => exact weaken value final meets
  | err error final => exact meets
  | panic => exact meets

theorem Meets.fail {post : α → σ → Prop} {error : ε} (accepted : acceptable error) :
    Meets acceptable post ((fail error : Exec ε σ α) state) := accepted

theorem Meets.ensure {post : Unit → σ → Prop} {condition : Prop} [Decidable condition] {error : ε}
    (accepted : acceptable error) (holds : condition → post () state) :
    Meets acceptable post ((ensure condition error : Exec ε σ Unit) state) := by
  unfold Exec.ensure
  split
  · next isTrue => exact holds isTrue
  · exact accepted

theorem Meets.okOr {post : α → σ → Prop} {value : Option α} {error : ε}
    (accepted : acceptable error) (holds : ∀ found, value = some found → post found state) :
    Meets acceptable post ((okOr value error : Exec ε σ α) state) := by
  cases value with
  | none => exact accepted
  | some found => exact holds found rfl

theorem Meets.bind {post : β → σ → Prop} {middle : α → σ → Prop} {call : Exec ε σ α}
    {next : α → Exec ε σ β} (first : Meets acceptable middle (call state))
    (rest : ∀ value after, middle value after → Meets acceptable post (next value after)) :
    Meets acceptable post ((call >>= next) state) := by
  rw [bind_apply]
  cases run : call state with
  | ok value after =>
      rw [run] at first
      exact rest value after first
  | err error after =>
      rw [run] at first
      exact first
  | panic =>
      rw [run] at first
      exact first

theorem Meets.on {post : α → σ → Prop} {inner : α → τ → Prop} {start : τ} {call : Exec ε τ α}
    (meets : Meets acceptable inner (call start))
    (holds : ∀ value final, inner value final → post value state) :
    Meets acceptable post ((on start call : Exec ε σ α) state) := by
  unfold Exec.on
  cases run : call start with
  | ok value final =>
      rw [run] at meets
      exact holds value final meets
  | err error final =>
      rw [run] at meets
      exact meets
  | panic =>
      rw [run] at meets
      exact meets

/-- Every round that goes on keeps the invariant and takes the stride of the measure. -/
theorem Meets.loop {post : α → σ → Prop} {unfinished : ε} {round : γ → Exec ε σ (γ ⊕ α)}
    (invariant : γ → σ → Prop) (measure : σ → Nat) (stride : Nat)
    (step : ∀ value before, invariant value before →
      Meets acceptable
        (fun next after => next.elim
          (fun value => invariant value after ∧ measure after + stride ≤ measure before)
          (fun result => post result after))
        (round value before))
    {rounds : Nat} {value : γ} (holds : invariant value state)
    (enough : measure state < stride * rounds) :
    Meets acceptable post (loop unfinished round rounds value state) := by
  induction rounds generalizing value state with
  | zero => omega
  | succ rounds ih =>
      rw [Exec.loop]
      apply Meets.bind (step value state holds)
      intro next after isNext
      cases next with
      | inl value =>
          obtain ⟨kept, taken⟩ := isNext
          rw [Nat.mul_succ] at enough
          exact ih kept (by omega)
      | inr result => exact isNext

end Meets

/-! ## Calls on a value of their own -/

section On
variable {state final : σ} {start : τ} {call : Exec ε τ α}

theorem on_eq_ok {result : α} :
    (on start call : Exec ε σ α) state = .ok result final ↔
      (∃ last, call start = .ok result last) ∧ state = final := by
  unfold on
  cases call start <;> simp

theorem on_eq_err {error : ε} :
    (on start call : Exec ε σ α) state = .err error final ↔
      (∃ last, call start = .err error last) ∧ state = final := by
  unfold on
  cases call start <;> simp

end On

/-! ## What calls return -/

section Yields
variable {property : α → Prop} {middle : β → Prop}

theorem Yields.follows {call : Exec ε σ β} {next : β → Exec ε σ α} (first : Yields middle call)
    (rest : ∀ value, middle value → Yields property (next value)) : Yields property (call >>= next) := by
  intro state value final run
  obtain ⟨found, after, isFirst, isRest⟩ := bind_eq_ok.mp run
  exact rest found (first state found after isFirst) after value final isRest

theorem Yields.okOr {value : Option α} {error : ε} (holds : ∀ found, value = some found → property found) :
    Yields property (okOr value error : Exec ε σ α) := by
  intro state found final run
  unfold Exec.okOr at run
  cases value with
  | none => cases run
  | some result =>
      cases run
      exact holds found rfl

theorem Yields.on {start : τ} {call : Exec ε τ α} (yields : Yields property call) :
    Yields property (on start call : Exec ε σ α) := by
  intro state value final run
  obtain ⟨⟨last, isRun⟩, _⟩ := on_eq_ok.mp run
  exact yields start value last isRun

theorem Yields.loop {unfinished : ε} {round : γ → Exec ε σ (γ ⊕ α)} (invariant : γ → Prop)
    (step : ∀ value, invariant value → Yields (fun next => next.elim invariant property) (round value))
    (rounds : Nat) {value : γ} (holds : invariant value) :
    Yields property (loop unfinished round rounds value) := by
  induction rounds generalizing value with
  | zero => exact Yields.fail unfinished
  | succ rounds ih =>
      rw [Exec.loop]
      refine Yields.follows (step value holds) ?_
      intro next isNext
      cases next with
      | inl value => exact ih isNext
      | inr result => exact Yields.pure isNext

end Yields

end IceCap.Library.Exec
