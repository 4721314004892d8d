import IceCap.Library.Exec

/-!
# Erasing a part of the state

A call may be given a state with a part that nothing but its proof needs, and
errors that stand for what must not happen.  `Erases` says that such a call ends
as the plain one does from what is left of its state when that part is erased:
none of the additional errors is ever returned, and the additional part has no
influence.  It also says which property the state has when the call ends.
-/

set_option autoImplicit false

namespace IceCap.Library

variable {ε δ σ τ α β : Type}

/-- The same outcome, but for what is erased. -/
inductive Outcome.Erased (erase : σ → τ) (lift : δ → ε) (failed : σ → Prop)
    (after : α → σ → Prop) : Outcome ε σ α → Outcome δ τ α → Prop where
  | ok {value : α} {state : σ} (holds : after value state) :
      Erased erase lift failed after (.ok value state) (.ok value (erase state))
  | err (error : δ) {state : σ} (holds : failed state) :
      Erased erase lift failed after (.err (lift error) state) (.err error (erase state))
  | panic : Erased erase lift failed after .panic .panic

namespace Exec

/-- From each state with the property `before`, the full call ends as the plain one. -/
def Erases (erase : σ → τ) (lift : δ → ε) (failed before : σ → Prop) (after : α → σ → Prop)
    (full : Exec ε σ α) (plain : Exec δ τ α) : Prop :=
  ∀ state, before state →
    Outcome.Erased erase lift failed after (full state) (plain (erase state))

section Rules
variable {erase : σ → τ} {lift : δ → ε} {failed before : σ → Prop} {after : α → σ → Prop}
  {full : Exec ε σ α} {plain : Exec δ τ α}

theorem Erases.bind {last : β → σ → Prop} {next : α → Exec ε σ β} {plainNext : α → Exec δ τ β}
    (first : Erases erase lift failed before after full plain)
    (rest : ∀ value, Erases erase lift failed (after value) last (next value) (plainNext value)) :
    Erases erase lift failed before last (full >>= next) (plain >>= plainNext) := by
  intro state holds
  have ends := first state holds
  rw [bind_apply, bind_apply]
  generalize full state = outcome at ends ⊢
  generalize plain (erase state) = plainOutcome at ends ⊢
  cases ends with
  | ok holds => exact rest _ _ holds
  | err _ holds => exact .err _ holds
  | panic => exact .panic

/-- A property that the call says nothing about can be kept on the side. -/
theorem Erases.mono {stronger : σ → Prop} {weaker : α → σ → Prop}
    (erases : Erases erase lift failed before after full plain)
    (starts : ∀ state, stronger state → before state)
    (ends : ∀ value state, after value state → weaker value state) :
    Erases erase lift failed stronger weaker full plain := by
  intro state holds
  have outcome := erases state (starts state holds)
  generalize full state = fullOutcome at outcome ⊢
  generalize plain (erase state) = plainOutcome at outcome ⊢
  cases outcome with
  | ok holds => exact .ok (ends _ _ holds)
  | err _ holds => exact .err _ holds
  | panic => exact .panic

/-- What does not depend on the state may be assumed. -/
theorem Erases.given {fact : Prop}
    (erases : fact → Erases erase lift failed before after full plain) :
    Erases erase lift failed (fun state => before state ∧ fact) after full plain :=
  fun state ⟨isBefore, holds⟩ => erases holds state isBefore

/-- What is known of the full call. -/
theorem Erases.returning (erases : Erases erase lift failed before (fun _ _ => True) full plain)
    (returns : ∀ state value final, before state → full state = .ok value final → after value final) :
    Erases erase lift failed before after full plain := by
  intro state holds
  have outcome := erases state holds
  have onReturn := returns state
  generalize full state = fullOutcome at outcome onReturn ⊢
  generalize plain (erase state) = plainOutcome at outcome ⊢
  cases outcome with
  | ok _ => exact .ok (onReturn _ _ holds rfl)
  | err _ holds => exact .err _ holds
  | panic => exact .panic

theorem Erases.pure {value : α} (holds : ∀ state, before state → after value state) :
    Erases erase lift failed before after (pure value) (pure value) :=
  fun state isBefore => .ok (holds state isBefore)

/-- What was read stays known. -/
theorem Erases.reads_bind {last : β → σ → Prop} {method : σ → Option α}
    {plainMethod : τ → Option α} {next : α → Exec ε σ β} {plainNext : α → Exec δ τ β}
    (same : ∀ state, method state = plainMethod (erase state))
    (rest : ∀ value, Erases erase lift failed (fun state => before state ∧ method state = some value)
      last (next value) (plainNext value)) :
    Erases erase lift failed before last (reads method >>= next) (reads plainMethod >>= plainNext) := by
  intro state isBefore
  rw [bind_apply, bind_apply, reads, reads, ← same]
  cases found : method state with
  | some value => exact rest value state ⟨isBefore, found⟩
  | none => exact .panic

/-- A call that cannot fail, with the errors of the full state. -/
theorem Erases.lifted {call : Exec δ σ α} (infallible : Infallible call)
    (holds : ∀ state value final, before state → call state = .ok value final → after value final) :
    Erases id lift failed before after (mapErr lift call) call := by
  intro state isBefore
  change Outcome.Erased id lift failed after (mapErr lift call state) (call state)
  unfold mapErr
  cases run : call state with
  | ok value final => exact .ok (holds state value final isBefore run)
  | err error final => exact absurd run (infallible state error final)
  | panic => exact .panic

/-- An error in place of a panic, neither of which occurs. -/
theorem Erases.ensure {condition : Prop} [Decidable condition] {error : ε} {after : Unit → σ → Prop}
    (meets : ∀ state, before state → condition) (holds : ∀ state, before state → after () state) :
    Erases erase lift failed before after (ensure condition error) (Exec.assert condition) := by
  intro state isBefore
  unfold Exec.ensure Exec.assert
  rw [if_pos (meets state isBefore), if_pos (meets state isBefore)]
  exact .ok (holds state isBefore)

theorem Erases.modify {update : σ → σ} {plainUpdate : τ → τ} {after : Unit → σ → Prop}
    (same : ∀ state, erase (update state) = plainUpdate (erase state))
    (holds : ∀ state, before state → after () (update state)) :
    Erases erase lift failed before after (modify update) (modify plainUpdate) := by
  intro state isBefore
  unfold Exec.modify
  rw [← same]
  exact .ok (holds state isBefore)

theorem Erases.assert {condition : Prop} [Decidable condition] {after : Unit → σ → Prop}
    (holds : ∀ state, before state → condition → after () state) :
    Erases erase lift failed before after (assert condition) (assert condition) := by
  intro state isBefore
  unfold Exec.assert
  split
  · next meets => exact .ok (holds state isBefore meets)
  · exact .panic

theorem Erases.unwrap_bind {last : β → σ → Prop} {value : Option α} {next : α → Exec ε σ β}
    {plainNext : α → Exec δ τ β}
    (rest : ∀ found, value = some found →
      Erases erase lift failed before last (next found) (plainNext found)) :
    Erases erase lift failed before last (unwrap value >>= next) (unwrap value >>= plainNext) := by
  intro state isBefore
  cases value with
  | some found => exact rest found rfl state isBefore
  | none => exact .panic

theorem Erases.ite {condition : Prop} [Decidable condition] {other : Exec ε σ α}
    {plainOther : Exec δ τ α}
    (isThen : condition → Erases erase lift failed before after full plain)
    (isElse : ¬ condition → Erases erase lift failed before after other plainOther) :
    Erases erase lift failed before after (if condition then full else other)
      (if condition then plain else plainOther) := by
  split
  · next holds => exact isThen holds
  · next fails => exact isElse fails

theorem Erases.forEach {items : List β} {kept : σ → Prop} {body : β → Exec ε σ Unit}
    {plainBody : β → Exec δ τ Unit}
    (each : ∀ item, Erases erase lift failed kept (fun _ => kept) (body item) (plainBody item)) :
    Erases erase lift failed kept (fun _ => kept) (forEach items body) (forEach items plainBody) := by
  induction items with
  | nil => exact .pure fun _ holds => holds
  | cons item rest ih => exact (each item).bind fun _ => ih

/-- A call that ends without a panic can be followed with the full state, -/
theorem Erases.ends {state : σ} {final : τ} {kept : σ → Prop}
    (erases : Erases erase lift kept before (fun _ => kept) full plain) (holds : before state)
    (run : Ends plain (erase state) final) :
    ∃ fullFinal, Ends full state fullFinal ∧ erase fullFinal = final ∧ kept fullFinal := by
  have outcome := erases state holds
  rcases run with ⟨value, run⟩ | ⟨error, run⟩
  · rw [run] at outcome
    generalize isFull : full state = fullOutcome at outcome
    cases outcome with
    | ok holds => exact ⟨_, .inl ⟨value, isFull⟩, rfl, holds⟩
  · rw [run] at outcome
    generalize isFull : full state = fullOutcome at outcome
    cases outcome with
    | err _ holds => exact ⟨_, .inr ⟨lift error, isFull⟩, rfl, holds⟩

/-- no call ends in an error of the full state alone, -/
theorem Erases.isLifted {state final : σ} {error : ε}
    (erases : Erases erase lift failed before after full plain) (holds : before state)
    (run : full state = .err error final) : ∃ plainError, lift plainError = error := by
  have outcome := erases state holds
  rw [run] at outcome
  generalize plain (erase state) = plainOutcome at outcome
  cases outcome with
  | err _ _ => exact ⟨_, rfl⟩

/-- and where nothing is erased of the state, it ends as the plain one. -/
theorem Erases.eq_mapErr {call : Exec δ σ α} {state : σ}
    (erases : Erases id lift failed before after full call) (holds : before state) :
    full state = mapErr lift call state := by
  have outcome := erases state holds
  rw [id_eq] at outcome
  unfold mapErr
  generalize full state = fullOutcome at outcome ⊢
  generalize call state = plainOutcome at outcome ⊢
  cases outcome with
  | ok _ => rfl
  | err _ _ => rfl
  | panic => rfl

end Rules

end Exec

end IceCap.Library
