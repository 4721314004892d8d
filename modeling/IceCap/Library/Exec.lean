import Mathlib.Logic.Basic

/-!
# Calls that return, fail or panic

A method that mutates its receiver ends in one of three ways.  It returns a
value, it returns an error, and in both cases the receiver is left in some
state; or it panics, and then no state is left to speak of.  `Exec` is the
state-passing monad of such methods.

The inversion lemmas at the end are how the other modules take a composed call
apart: a successful sequence is a successful first part followed by a
successful rest, a panicking sequence panics in one of the two.
-/

set_option autoImplicit false

namespace IceCap.Library

inductive Outcome (ε σ α : Type) where
  | ok (value : α) (state : σ)
  | err (error : ε) (state : σ)
  | panic
  deriving DecidableEq

def Outcome.isOk {ε σ α : Type} : Outcome ε σ α → Bool
  | .ok _ _ => true
  | _ => false

theorem Outcome.isOk_iff {ε σ α : Type} {outcome : Outcome ε σ α} :
    outcome.isOk = true ↔ ∃ value state, outcome = .ok value state := by
  cases outcome <;> simp [isOk]

/-- The state after a call that returned. -/
def Outcome.returned {ε σ α : Type} : Outcome ε σ α → Option σ
  | .ok _ state => some state
  | _ => none

theorem Outcome.returned_eq_some {ε σ α : Type} {outcome : Outcome ε σ α} {final : σ} :
    outcome.returned = some final ↔ ∃ value, outcome = .ok value final := by
  cases outcome <;> simp [returned]

/-- The state after a call that failed. -/
def Outcome.refused {ε σ α : Type} : Outcome ε σ α → Option σ
  | .err _ state => some state
  | _ => none

theorem Outcome.refused_eq_some {ε σ α : Type} {outcome : Outcome ε σ α} {final : σ} :
    outcome.refused = some final ↔ ∃ error, outcome = .err error final := by
  cases outcome <;> simp [refused]

def Exec (ε σ α : Type) : Type := σ → Outcome ε σ α

namespace Exec

variable {ε σ τ α β : Type}

instance : Monad (Exec ε σ) where
  pure value := fun state => .ok value state
  bind call next := fun state =>
    match call state with
    | .ok value middle => next value middle
    | .err error middle => .err error middle
    | .panic => .panic

def get : Exec ε σ σ := fun state => .ok state state

def modify (update : σ → σ) : Exec ε σ Unit := fun state => .ok () (update state)

def fail (error : ε) : Exec ε σ α := fun state => .err error state

def panic : Exec ε σ α := fun _ => .panic

def assert (condition : Prop) [Decidable condition] : Exec ε σ Unit := fun state =>
  if condition then .ok () state else .panic

/-- Return early with the error where the condition fails. -/
def ensure (condition : Prop) [Decidable condition] (error : ε) : Exec ε σ Unit := fun state =>
  if condition then .ok () state else .err error state

def unwrap (value : Option α) : Exec ε σ α := fun state =>
  match value with
  | some found => .ok found state
  | none => .panic

/-- A method that only reads its receiver; `none` is a panic. -/
def reads (method : σ → Option α) : Exec ε σ α := fun state =>
  match method state with
  | some value => .ok value state
  | none => .panic

/-- A method that mutates its receiver and has no error path; `none` is a panic. -/
def runs (method : σ → Option (α × σ)) : Exec ε σ α := fun state =>
  match method state with
  | some (value, next) => .ok value next
  | none => .panic

/-- A call on a part of the state. -/
def focus (part : σ → τ) (put : τ → σ → σ) (call : Exec ε τ α) : Exec ε σ α := fun state =>
  match call (part state) with
  | .ok value inner => .ok value (put inner state)
  | .err error inner => .err error (put inner state)
  | .panic => .panic

/-- A call under `unwrap()`. -/
def orPanic (call : Exec ε σ α) : Exec ε σ α := fun state =>
  match call state with
  | .ok value next => .ok value next
  | _ => .panic

/-- A call whose errors are converted by `?`. -/
def mapErr {ε' : Type} (convert : ε → ε') (call : Exec ε σ α) : Exec ε' σ α := fun state =>
  match call state with
  | .ok value next => .ok value next
  | .err error next => .err (convert error) next
  | .panic => .panic

/-- Run the calls in order, stopping at the first that does not return. -/
def forEach (items : List β) (body : β → Exec ε σ Unit) : Exec ε σ Unit :=
  match items with
  | [] => pure ()
  | item :: rest => do
      body item
      forEach rest body

/-- Run the calls in order and collect what they return. -/
def mapEach (items : List β) (body : β → Exec ε σ α) : Exec ε σ (List α) :=
  match items with
  | [] => pure []
  | item :: rest => do
      let value ← body item
      let values ← mapEach rest body
      pure (value :: values)

/-- Run the calls in order, handing a value on from one to the next. -/
def foldEach {γ : Type} (items : List β) (start : γ) (body : γ → β → Exec ε σ γ) : Exec ε σ γ :=
  match items with
  | [] => pure start
  | item :: rest => do
      let next ← body start item
      foldEach rest next body

/-! ## Rearranging calls -/

theorem bind_apply {call : Exec ε σ α} {next : α → Exec ε σ β} {state : σ} :
    (call >>= next) state = match call state with
      | .ok value middle => next value middle
      | .err error middle => .err error middle
      | .panic => .panic := rfl

theorem bind_assoc {γ : Type} {call : Exec ε σ α} {first : α → Exec ε σ β}
    {second : β → Exec ε σ γ} :
    call >>= first >>= second = call >>= fun value => first value >>= second := by
  funext state
  rw [bind_apply, bind_apply, bind_apply]
  cases call state <;> rfl

theorem bind_pure_unit {call : Exec ε σ Unit} : (call >>= fun _ => pure ()) = call := by
  funext state
  rw [bind_apply]
  cases call state <;> rfl

theorem forEach_append {first second : List β} {body : β → Exec ε σ Unit} :
    forEach (first ++ second) body = forEach first body >>= fun _ => forEach second body := by
  induction first with
  | nil => rfl
  | cons item rest ih =>
      change (body item >>= fun _ => forEach (rest ++ second) body) =
        (body item >>= fun _ => forEach rest body) >>= fun _ => forEach second body
      rw [ih, bind_assoc]

theorem forEach_singleton {item : β} {body : β → Exec ε σ Unit} :
    forEach [item] body = body item := bind_pure_unit

theorem forEach_map {γ : Type} {items : List γ} {make : γ → β} {body : β → Exec ε σ Unit} :
    forEach (items.map make) body = forEach items fun item => body (make item) := by
  induction items with
  | nil => rfl
  | cons item items ih => exact bind_congr fun _ => ih

theorem forEach_flatten {groups : List (List β)} {body : β → Exec ε σ Unit} :
    forEach groups.flatten body = forEach groups fun group => forEach group body := by
  induction groups with
  | nil => rfl
  | cons group groups ih =>
      rw [List.flatten_cons, forEach_append, ih]
      rfl

theorem forEach_flatMap {γ : Type} {items : List γ} {expand : γ → List β}
    {body : β → Exec ε σ Unit} :
    forEach (items.flatMap expand) body = forEach items fun item => forEach (expand item) body := by
  rw [List.flatMap_def, forEach_flatten, forEach_map]

theorem foldEach_append {γ : Type} {first second : List β} {start : γ}
    {body : γ → β → Exec ε σ γ} :
    foldEach (first ++ second) start body =
      foldEach first start body >>= fun value => foldEach second value body := by
  induction first generalizing start with
  | nil => rfl
  | cons item rest ih =>
      change (body start item >>= fun value => foldEach (rest ++ second) value body) =
        (body start item >>= fun value => foldEach rest value body) >>= fun value =>
          foldEach second value body
      rw [bind_assoc]
      exact bind_congr fun next => ih

theorem foldEach_flatMap {γ δ : Type} {items : List δ} {expand : δ → List β} {start : γ}
    {body : γ → β → Exec ε σ γ} :
    foldEach (items.flatMap expand) start body =
      foldEach items start fun value item => foldEach (expand item) value body := by
  induction items generalizing start with
  | nil => rfl
  | cons item items ih =>
      rw [List.flatMap_cons, foldEach_append]
      exact bind_congr fun value => ih

theorem foldEach_map {γ δ : Type} {items : List δ} {make : δ → β} {start : γ}
    {body : γ → β → Exec ε σ γ} :
    foldEach (items.map make) start body =
      foldEach items start fun value item => body value (make item) := by
  induction items generalizing start with
  | nil => rfl
  | cons item items ih => exact bind_congr fun next => ih

/-! ## Inversion of successful calls -/

section Ok
variable {state final : σ}

@[simp]
theorem pure_eq_ok {value result : α} :
    (pure value : Exec ε σ α) state = .ok result final ↔ value = result ∧ state = final := by
  change Outcome.ok value state = .ok result final ↔ _
  simp

@[simp]
theorem bind_eq_ok {call : Exec ε σ α} {next : α → Exec ε σ β} {result : β} :
    (call >>= next) state = .ok result final ↔
      ∃ value middle, call state = .ok value middle ∧ next value middle = .ok result final := by
  rw [bind_apply]
  cases call state <;> simp [and_assoc]

@[simp]
theorem get_eq_ok {result : σ} :
    (get : Exec ε σ σ) state = .ok result final ↔ state = result ∧ state = final := by
  simp [get]

@[simp]
theorem modify_eq_ok {update : σ → σ} {result : Unit} :
    (modify update : Exec ε σ Unit) state = .ok result final ↔ update state = final := by
  simp [modify]

@[simp]
theorem fail_ne_ok {error : ε} {result : α} :
    (fail error : Exec ε σ α) state = .ok result final ↔ False := by
  simp [fail]

@[simp]
theorem panic_ne_ok {result : α} :
    (panic : Exec ε σ α) state = .ok result final ↔ False := by
  simp [panic]

@[simp]
theorem assert_eq_ok {condition : Prop} [Decidable condition] {result : Unit} :
    (assert condition : Exec ε σ Unit) state = .ok result final ↔
      condition ∧ state = final := by
  by_cases holds : condition <;> simp [assert, holds]

@[simp]
theorem ensure_eq_ok {condition : Prop} [Decidable condition] {error : ε} {result : Unit} :
    (ensure condition error : Exec ε σ Unit) state = .ok result final ↔
      condition ∧ state = final := by
  unfold ensure
  split <;> simp [*]

@[simp]
theorem unwrap_eq_ok {value : Option α} {result : α} :
    (unwrap value : Exec ε σ α) state = .ok result final ↔
      value = some result ∧ state = final := by
  cases value <;> simp [unwrap]

@[simp]
theorem reads_eq_ok {method : σ → Option α} {result : α} :
    (reads method : Exec ε σ α) state = .ok result final ↔
      method state = some result ∧ state = final := by
  cases found : method state <;> simp [reads, found]

@[simp]
theorem runs_eq_ok {method : σ → Option (α × σ)} {result : α} :
    (runs method : Exec ε σ α) state = .ok result final ↔
      method state = some (result, final) := by
  cases found : method state <;> simp [runs, found, Prod.ext_iff]

@[simp]
theorem focus_eq_ok {part : σ → τ} {put : τ → σ → σ} {call : Exec ε τ α} {result : α} :
    focus part put call state = .ok result final ↔
      ∃ inner, call (part state) = .ok result inner ∧ put inner state = final := by
  cases found : call (part state) <;> simp [focus, found, and_assoc]

@[simp]
theorem orPanic_eq_ok {call : Exec ε σ α} {result : α} :
    orPanic call state = .ok result final ↔ call state = .ok result final := by
  unfold orPanic
  cases call state <;> simp

@[simp]
theorem mapErr_eq_ok {ε' : Type} {convert : ε → ε'} {call : Exec ε σ α} {result : α} :
    mapErr convert call state = .ok result final ↔ call state = .ok result final := by
  unfold mapErr
  cases call state <;> simp

@[simp]
theorem forEach_nil {body : β → Exec ε σ Unit} : forEach [] body = (pure () : Exec ε σ Unit) := rfl

@[simp]
theorem forEach_cons {item : β} {rest : List β} {body : β → Exec ε σ Unit} :
    forEach (item :: rest) body = (do body item; forEach rest body) := rfl

@[simp]
theorem mapEach_nil {body : β → Exec ε σ α} : mapEach [] body = (pure [] : Exec ε σ (List α)) := rfl

@[simp]
theorem mapEach_cons {item : β} {rest : List β} {body : β → Exec ε σ α} :
    mapEach (item :: rest) body = (do
      let value ← body item
      let values ← mapEach rest body
      pure (value :: values)) := rfl

@[simp]
theorem foldEach_nil {γ : Type} {start : γ} {body : γ → β → Exec ε σ γ} :
    foldEach [] start body = (pure start : Exec ε σ γ) := rfl

@[simp]
theorem foldEach_cons {γ : Type} {item : β} {rest : List β} {start : γ}
    {body : γ → β → Exec ε σ γ} :
    foldEach (item :: rest) start body = (do
      let next ← body start item
      foldEach rest next body) := rfl

/-- A loop keeps an invariant that speaks about the items still to come. -/
theorem foldEach_consumes {γ : Type} {body : γ → β → Exec ε σ γ} (invariant : List β → γ → σ → Prop)
    (step : ∀ item rest value next before after, invariant (item :: rest) value before →
      body value item before = .ok next after → invariant rest next after)
    {items : List β} {start result : γ} (holds : invariant items start state)
    (run : foldEach items start body state = .ok result final) : invariant [] result final := by
  induction items generalizing start state with
  | nil =>
      simp only [foldEach_nil, pure_eq_ok] at run
      obtain ⟨rfl, rfl⟩ := run
      exact holds
  | cons item rest ih =>
      simp only [foldEach_cons, bind_eq_ok] at run
      obtain ⟨next, middle, first, run⟩ := run
      exact ih (step item rest start next state middle holds first) run

theorem forEach_consumes {body : β → Exec ε σ Unit} (invariant : List β → σ → Prop)
    (step : ∀ item rest before after, invariant (item :: rest) before →
      body item before = .ok () after → invariant rest after)
    {items : List β} (holds : invariant items state) {result : Unit}
    (run : forEach items body state = .ok result final) : invariant [] final := by
  induction items generalizing state with
  | nil =>
      simp only [forEach_nil, pure_eq_ok] at run
      exact run.2 ▸ holds
  | cons item rest ih =>
      simp only [forEach_cons, bind_eq_ok] at run
      obtain ⟨_, middle, first, run⟩ := run
      exact ih (step item rest state middle holds first) run

/-- What every call of a loop body preserves, the loop preserves. -/
theorem forEach_preserves {items : List β} {body : β → Exec ε σ Unit} (invariant : σ → Prop)
    (step : ∀ item ∈ items, ∀ before after result, invariant before →
      body item before = .ok result after → invariant after)
    (holds : invariant state) {result : Unit} (run : forEach items body state = .ok result final) :
    invariant final := by
  have kept := forEach_consumes (fun rest state => rest ⊆ items ∧ invariant state)
    (fun item rest before after holds first => ⟨(List.cons_subset.mp holds.1).2,
      step item (holds.1 List.mem_cons_self) before after () holds.2 first⟩)
    ⟨List.Subset.refl items, holds⟩ run
  exact kept.2

theorem mapEach_preserves {items : List β} {body : β → Exec ε σ α} (invariant : σ → Prop)
    (step : ∀ item ∈ items, ∀ before after result, invariant before →
      body item before = .ok result after → invariant after)
    {results : List α} (holds : invariant state)
    (run : mapEach items body state = .ok results final) : invariant final := by
  induction items generalizing state results with
  | nil =>
      simp only [mapEach_nil, pure_eq_ok] at run
      exact run.2 ▸ holds
  | cons item rest ih =>
      simp only [mapEach_cons, bind_eq_ok, pure_eq_ok] at run
      obtain ⟨result, middle, first, others, last, run, _, rfl⟩ := run
      have kept := step item (by simp) state middle _ holds first
      exact ih (fun other member => step other (by simp [member])) kept run

/-- What every round of a loop that returned shows of its item. -/
theorem mapEach_forall {items : List β} {body : β → Exec ε σ α} (invariant : σ → Prop)
    (property : β → Prop)
    (step : ∀ item before after result, invariant before → body item before = .ok result after →
      invariant after ∧ property item)
    {results : List α} (holds : invariant state)
    (run : mapEach items body state = .ok results final) : ∀ item ∈ items, property item := by
  induction items generalizing state results with
  | nil => simp
  | cons item rest ih =>
      simp only [mapEach_cons, bind_eq_ok, pure_eq_ok] at run
      obtain ⟨result, middle, first, others, last, run, _, rfl⟩ := run
      obtain ⟨kept, isItem⟩ := step item state middle _ holds first
      exact List.forall_mem_cons.mpr ⟨isItem, ih kept run⟩

/-- What every round shows of what it returns. -/
theorem mapEach_yields {items : List β} {body : β → Exec ε σ α} (invariant : σ → Prop)
    (property : α → Prop)
    (step : ∀ item before after result, invariant before → body item before = .ok result after →
      invariant after ∧ property result)
    {results : List α} (holds : invariant state)
    (run : mapEach items body state = .ok results final) :
    ∀ result ∈ results, property result := by
  induction items generalizing state results with
  | nil =>
      obtain ⟨rfl, _⟩ := pure_eq_ok.mp run
      simp
  | cons item rest ih =>
      simp only [mapEach_cons, bind_eq_ok, pure_eq_ok] at run
      obtain ⟨result, middle, first, others, last, run, rfl, rfl⟩ := run
      obtain ⟨kept, isResult⟩ := step item state middle _ holds first
      exact List.forall_mem_cons.mpr ⟨isResult, ih kept run⟩

end Ok

/-! ## What a call leaves alone -/

section Keeps
variable {γ : Type} {view : σ → γ}

/-- A call that, when it returns, has not changed what `view` shows of the state. -/
def Keeps (view : σ → γ) (call : Exec ε σ α) : Prop :=
  ∀ state value final, call state = .ok value final → view final = view state

theorem Keeps.pure (value : α) : Keeps view (pure value : Exec ε σ α) := by
  intro state result final run
  rw [(pure_eq_ok.mp run).2]

theorem Keeps.fail (error : ε) : Keeps view (fail error : Exec ε σ α) :=
  fun _ _ _ run => (fail_ne_ok.mp run).elim

theorem Keeps.panic : Keeps view (panic : Exec ε σ α) :=
  fun _ _ _ run => (panic_ne_ok.mp run).elim

theorem Keeps.bind {call : Exec ε σ α} {next : α → Exec ε σ β} (first : Keeps view call)
    (rest : ∀ value, Keeps view (next value)) : Keeps view (call >>= next) := by
  intro state result final run
  obtain ⟨value, middle, firstRun, restRun⟩ := bind_eq_ok.mp run
  exact (rest value middle result final restRun).trans (first state value middle firstRun)

theorem Keeps.get : Keeps view (get : Exec ε σ σ) := by
  intro state result final run
  rw [(get_eq_ok.mp run).2]

theorem Keeps.assert (condition : Prop) [Decidable condition] :
    Keeps view (assert condition : Exec ε σ Unit) := by
  intro state result final run
  rw [(assert_eq_ok.mp run).2]

theorem Keeps.unwrap (value : Option α) : Keeps view (unwrap value : Exec ε σ α) := by
  intro state result final run
  rw [(unwrap_eq_ok.mp run).2]

theorem Keeps.reads (method : σ → Option α) : Keeps view (reads method : Exec ε σ α) := by
  intro state result final run
  rw [(reads_eq_ok.mp run).2]

theorem Keeps.modify {update : σ → σ} (same : ∀ state, view (update state) = view state) :
    Keeps view (modify update : Exec ε σ Unit) := by
  intro state result final run
  rw [← modify_eq_ok.mp run, same]

theorem Keeps.runs {method : σ → Option (α × σ)}
    (same : ∀ state value next, method state = some (value, next) → view next = view state) :
    Keeps view (runs method : Exec ε σ α) :=
  fun state value final run => same state value final (runs_eq_ok.mp run)

theorem Keeps.focus {part : σ → τ} {put : τ → σ → σ} {call : Exec ε τ α}
    (same : ∀ inner state, view (put inner state) = view state) :
    Keeps view (focus part put call) := by
  intro state value final run
  obtain ⟨inner, _, rfl⟩ := focus_eq_ok.mp run
  exact same inner state

theorem Keeps.comp {δ : Type} {call : Exec ε σ α} (less : γ → δ) (keeps : Keeps view call) :
    Keeps (fun state => less (view state)) call :=
  fun state value final run => congrArg less (keeps state value final run)

/-- What a call leaves alone of its own part of the state. -/
theorem Keeps.inside {part : σ → τ} {put : τ → σ → σ} {inner : τ → γ} {call : Exec ε τ α}
    (keeps : Keeps inner call) (same : ∀ value state, part (put value state) = value) :
    Keeps (fun state => inner (part state)) (Exec.focus part put call) := by
  intro state value final run
  obtain ⟨last, innerRun, rfl⟩ := focus_eq_ok.mp run
  simp only [same]
  exact keeps _ _ _ innerRun

theorem Keeps.forEach {items : List β} {body : β → Exec ε σ Unit}
    (each : ∀ item, Keeps view (body item)) : Keeps view (forEach items body) := by
  induction items with
  | nil => exact .pure _
  | cons item rest ih => exact (each item).bind fun _ => ih

theorem Keeps.orPanic {call : Exec ε σ α} (keeps : Keeps view call) : Keeps view (orPanic call) :=
  fun state value final run => keeps state value final (orPanic_eq_ok.mp run)

theorem Keeps.ite {condition : Prop} [Decidable condition] {first second : Exec ε σ α}
    (isThen : Keeps view first) (isElse : Keeps view second) :
    Keeps view (if condition then first else second) := by
  split
  · exact isThen
  · exact isElse

theorem Keeps.foldEach {δ : Type} {items : List β} {start : δ} {body : δ → β → Exec ε σ δ}
    (each : ∀ value item, Keeps view (body value item)) : Keeps view (foldEach items start body) := by
  induction items generalizing start with
  | nil => exact .pure _
  | cons item rest ih => exact (each start item).bind fun _ => ih

theorem Keeps.mapEach {items : List β} {body : β → Exec ε σ α}
    (each : ∀ item, Keeps view (body item)) : Keeps view (mapEach items body) := by
  induction items with
  | nil => exact .pure _
  | cons item rest ih => exact (each item).bind fun _ => ih.bind fun _ => .pure _

end Keeps

/-! ## What a call returns -/

section Yields
variable {property : α → Prop}

/-- The call returns nothing but values with the property. -/
def Yields (property : α → Prop) (call : Exec ε σ α) : Prop :=
  ∀ state value final, call state = .ok value final → property value

theorem Yields.pure {value : α} (holds : property value) :
    Yields property (pure value : Exec ε σ α) := by
  intro state result final run
  rwa [← (pure_eq_ok.mp run).1]

theorem Yields.fail (error : ε) : Yields property (fail error : Exec ε σ α) :=
  fun _ _ _ run => (fail_ne_ok.mp run).elim

theorem Yields.bind {call : Exec ε σ β} {next : β → Exec ε σ α}
    (rest : ∀ value, Yields property (next value)) : Yields property (call >>= next) := by
  intro state result final run
  obtain ⟨value, middle, _, restRun⟩ := bind_eq_ok.mp run
  exact rest value middle result final restRun

theorem Yields.mapEach {items : List β} {body : β → Exec ε σ α}
    (each : ∀ item, Yields property (body item)) :
    Yields (fun values => ∀ value ∈ values, property value) (Exec.mapEach items body) := by
  induction items with
  | nil => exact .pure (by simp)
  | cons item rest ih =>
      intro state results final run
      simp only [mapEach_cons, bind_eq_ok, pure_eq_ok] at run
      obtain ⟨value, middle, first, values, last, others, rfl, rfl⟩ := run
      exact List.forall_mem_cons.mpr ⟨each item _ _ _ first, ih _ _ _ others⟩

theorem Yields.ite {condition : Prop} [Decidable condition] {first second : Exec ε σ α}
    (isFirst : Yields property first) (isSecond : Yields property second) :
    Yields property (if condition then first else second) := by
  split
  · exact isFirst
  · exact isSecond

end Yields

/-! ## Calls that return in fewer cases -/

section Within

/-- Whenever the first call returns, the second does the same. -/
def Within (call other : Exec ε σ α) : Prop :=
  ∀ state value final, call state = .ok value final → other state = .ok value final

theorem Within.refl (call : Exec ε σ α) : Within call call := fun _ _ _ run => run

theorem Within.bind {call other : Exec ε σ α} {next otherNext : α → Exec ε σ β}
    (first : Within call other) (rest : ∀ value, Within (next value) (otherNext value)) :
    Within (call >>= next) (other >>= otherNext) := by
  intro state result final run
  obtain ⟨value, middle, firstRun, restRun⟩ := bind_eq_ok.mp run
  exact bind_eq_ok.mpr ⟨value, middle, first _ _ _ firstRun, rest value _ _ _ restRun⟩

theorem Within.focus {part : σ → τ} {put : τ → σ → σ} {call other : Exec ε τ α}
    (inner : Within call other) : Within (focus part put call) (focus part put other) := by
  intro state result final run
  obtain ⟨last, innerRun, rfl⟩ := focus_eq_ok.mp run
  exact focus_eq_ok.mpr ⟨last, inner _ _ _ innerRun, rfl⟩

theorem Within.ite {condition : Prop} [Decidable condition] {first second otherFirst otherSecond :
    Exec ε σ α} (isThen : Within first otherFirst) (isElse : Within second otherSecond) :
    Within (if condition then first else second)
      (if condition then otherFirst else otherSecond) := by
  split
  · exact isThen
  · exact isElse

end Within

/-! ## Errors -/

section Err
variable {state final : σ} {error : ε}

@[simp]
theorem pure_ne_err {value : α} : (pure value : Exec ε σ α) state = .err error final ↔ False := by
  change Outcome.ok value state = .err error final ↔ False
  simp

@[simp]
theorem bind_eq_err {call : Exec ε σ α} {next : α → Exec ε σ β} :
    (call >>= next) state = .err error final ↔
      call state = .err error final ∨ ∃ value middle, call state = .ok value middle ∧
        next value middle = .err error final := by
  rw [bind_apply]
  cases call state <;> simp [and_assoc]

@[simp]
theorem get_ne_err : (get : Exec ε σ σ) state = .err error final ↔ False := by
  simp [get]

@[simp]
theorem modify_ne_err {update : σ → σ} :
    (modify update : Exec ε σ Unit) state = .err error final ↔ False := by
  simp [modify]

@[simp]
theorem fail_eq_err {failure : ε} :
    (fail failure : Exec ε σ α) state = .err error final ↔ failure = error ∧ state = final := by
  simp [fail]

@[simp]
theorem panic_ne_err : (panic : Exec ε σ α) state = .err error final ↔ False := by
  simp [panic]

@[simp]
theorem assert_ne_err {condition : Prop} [Decidable condition] :
    (assert condition : Exec ε σ Unit) state = .err error final ↔ False := by
  by_cases holds : condition <;> simp [assert, holds]

@[simp]
theorem unwrap_ne_err {value : Option α} :
    (unwrap value : Exec ε σ α) state = .err error final ↔ False := by
  cases value <;> simp [unwrap]

@[simp]
theorem reads_ne_err {method : σ → Option α} :
    (reads method : Exec ε σ α) state = .err error final ↔ False := by
  cases found : method state <;> simp [reads, found]

@[simp]
theorem runs_ne_err {method : σ → Option (α × σ)} :
    (runs method : Exec ε σ α) state = .err error final ↔ False := by
  cases found : method state <;> simp [runs, found]

@[simp]
theorem focus_eq_err {part : σ → τ} {put : τ → σ → σ} {call : Exec ε τ α} :
    focus part put call state = .err error final ↔
      ∃ inner, call (part state) = .err error inner ∧ put inner state = final := by
  cases found : call (part state) <;> simp [focus, found, and_assoc]

/-- A call with no error path. -/
def Infallible (call : Exec ε σ α) : Prop := ∀ state error final, call state ≠ .err error final

theorem mapErr_eq_err {ε' : Type} {convert : ε → ε'} {call : Exec ε σ α} {failure : ε'} :
    mapErr convert call state = .err failure final ↔
      ∃ error, call state = .err error final ∧ convert error = failure := by
  unfold mapErr
  cases call state with
  | ok value next => simp
  | err error next =>
      simp only [Outcome.err.injEq]
      constructor
      · rintro ⟨rfl, rfl⟩
        exact ⟨error, ⟨rfl, rfl⟩, rfl⟩
      · rintro ⟨_, ⟨rfl, rfl⟩, rfl⟩
        exact ⟨rfl, rfl⟩
  | panic => simp

theorem Infallible.bind {call : Exec ε σ α} {next : α → Exec ε σ β} (first : Infallible call)
    (rest : ∀ value, Infallible (next value)) : Infallible (call >>= next) := by
  intro state error final run
  rcases bind_eq_err.mp run with failed | ⟨value, middle, _, failed⟩
  · exact first state error final failed
  · exact rest value middle error final failed

theorem Infallible.pure (value : α) : Infallible (pure value : Exec ε σ α) :=
  fun _ _ _ failed => pure_ne_err.mp failed

theorem Infallible.unwrap (value : Option α) : Infallible (unwrap value : Exec ε σ α) :=
  fun _ _ _ failed => unwrap_ne_err.mp failed

theorem Infallible.reads (method : σ → Option α) : Infallible (reads method : Exec ε σ α) :=
  fun _ _ _ failed => reads_ne_err.mp failed

theorem Infallible.orPanic (call : Exec ε σ α) : Infallible (orPanic call) := by
  intro state error final run
  unfold Exec.orPanic at run
  cases ends : call state <;> simp [ends] at run

theorem Infallible.runs (method : σ → Option (α × σ)) : Infallible (runs method : Exec ε σ α) :=
  fun _ _ _ failed => runs_ne_err.mp failed

theorem Infallible.modify (update : σ → σ) : Infallible (modify update : Exec ε σ Unit) :=
  fun _ _ _ failed => modify_ne_err.mp failed

theorem Infallible.ite {condition : Prop} [Decidable condition] {first second : Exec ε σ α}
    (isThen : Infallible first) (isElse : Infallible second) :
    Infallible (if condition then first else second) := by
  split
  · exact isThen
  · exact isElse

theorem Infallible.panic : Infallible (panic : Exec ε σ α) :=
  fun _ _ _ failed => panic_ne_err.mp failed

theorem Infallible.foldEach {γ : Type} {items : List β} {start : γ} {body : γ → β → Exec ε σ γ}
    (each : ∀ value item, Infallible (body value item)) : Infallible (foldEach items start body) := by
  induction items generalizing start with
  | nil => exact .pure _
  | cons item rest ih => exact (each start item).bind fun _ => ih

theorem Infallible.forEach {items : List β} {body : β → Exec ε σ Unit}
    (each : ∀ item, Infallible (body item)) : Infallible (forEach items body) := by
  induction items with
  | nil => exact .pure _
  | cons item rest ih => exact (each item).bind fun _ => ih

theorem Infallible.mapEach {items : List β} {body : β → Exec ε σ α}
    (each : ∀ item, Infallible (body item)) : Infallible (mapEach items body) := by
  induction items with
  | nil => exact .pure _
  | cons item rest ih =>
      exact (each item).bind fun value => ih.bind fun values => .pure _

/-- A call whose errors leave the state as it was. -/
def FailsClean (call : Exec ε σ α) : Prop :=
  ∀ state error final, call state = .err error final → final = state

theorem FailsClean.fail (error : ε) : FailsClean (fail error : Exec ε σ α) :=
  fun _ _ _ failed => (fail_eq_err.mp failed).2.symm

theorem Infallible.failsClean {call : Exec ε σ α} (infallible : Infallible call) : FailsClean call :=
  fun state error final failed => absurd failed (infallible state error final)

theorem FailsClean.ite {condition : Prop} [Decidable condition] {first second : Exec ε σ α}
    (isThen : FailsClean first) (isElse : FailsClean second) :
    FailsClean (if condition then first else second) := by
  split
  · exact isThen
  · exact isElse

/-- The state a call ends in, whether it returns a value or an error. -/
def Ends (call : Exec ε σ α) (state final : σ) : Prop :=
  (∃ value, call state = .ok value final) ∨ ∃ error, call state = .err error final

theorem ends_bind {call : Exec ε σ α} {next : α → Exec ε σ β} :
    Ends (call >>= next) state final ↔
      (∃ error, call state = .err error final) ∨
        ∃ value middle, call state = .ok value middle ∧ Ends (next value) middle final := by
  constructor
  · rintro (⟨value, run⟩ | ⟨error, run⟩)
    · obtain ⟨first, middle, firstRun, rest⟩ := bind_eq_ok.mp run
      exact .inr ⟨first, middle, firstRun, .inl ⟨value, rest⟩⟩
    · rcases bind_eq_err.mp run with failed | ⟨first, middle, firstRun, rest⟩
      · exact .inl ⟨error, failed⟩
      · exact .inr ⟨first, middle, firstRun, .inr ⟨error, rest⟩⟩
  · rintro (⟨error, failed⟩ | ⟨first, middle, firstRun, ⟨value, rest⟩ | ⟨error, rest⟩⟩)
    · exact .inr ⟨error, bind_eq_err.mpr (.inl failed)⟩
    · exact .inl ⟨value, bind_eq_ok.mpr ⟨first, middle, firstRun, rest⟩⟩
    · exact .inr ⟨error, bind_eq_err.mpr (.inr ⟨first, middle, firstRun, rest⟩)⟩

theorem ends_focus {part : σ → τ} {put : τ → σ → σ} {call : Exec ε τ α} :
    Ends (focus part put call) state final ↔
      ∃ inner, Ends call (part state) inner ∧ put inner state = final := by
  constructor
  · rintro (⟨value, run⟩ | ⟨error, run⟩)
    · obtain ⟨inner, run, isFinal⟩ := focus_eq_ok.mp run
      exact ⟨inner, .inl ⟨value, run⟩, isFinal⟩
    · obtain ⟨inner, run, isFinal⟩ := focus_eq_err.mp run
      exact ⟨inner, .inr ⟨error, run⟩, isFinal⟩
  · rintro ⟨inner, ⟨value, run⟩ | ⟨error, run⟩, isFinal⟩
    · exact .inl ⟨value, focus_eq_ok.mpr ⟨inner, run, isFinal⟩⟩
    · exact .inr ⟨error, focus_eq_err.mpr ⟨inner, run, isFinal⟩⟩

theorem ends_mapErr {ε' : Type} {convert : ε → ε'} {call : Exec ε σ α} :
    Ends (mapErr convert call) state final ↔ Ends call state final := by
  constructor
  · rintro (⟨value, run⟩ | ⟨failure, run⟩)
    · exact .inl ⟨value, mapErr_eq_ok.mp run⟩
    · obtain ⟨error, run, _⟩ := mapErr_eq_err.mp run
      exact .inr ⟨error, run⟩
  · rintro (⟨value, run⟩ | ⟨error, run⟩)
    · exact .inl ⟨value, mapErr_eq_ok.mpr run⟩
    · exact .inr ⟨convert error, mapErr_eq_err.mpr ⟨error, run, rfl⟩⟩

theorem ends_pure {value : α} : Ends (pure value : Exec ε σ α) state final ↔ state = final := by
  simp [Ends]

theorem ends_congr {call other : Exec ε σ α} {otherState : σ}
    (same : call state = other otherState) :
    Ends call state final ↔ Ends other otherState final := by
  rw [Ends, Ends, same]

theorem Ends.of_ok {call : Exec ε σ α} {value : α} {last : σ} (run : Ends call state final)
    (returns : call state = .ok value last) : final = last := by
  rcases run with ⟨other, returned⟩ | ⟨error, failed⟩
  · exact (Outcome.ok.inj (returned.symm.trans returns)).2
  · simp [returns] at failed

theorem Ends.ne_panic {call : Exec ε σ α} (run : Ends call state final) : call state ≠ .panic := by
  intro panics
  rcases run with ⟨other, returned⟩ | ⟨error, failed⟩
  · simp [panics] at returned
  · simp [panics] at failed

/-- A call that ends has found what it unwraps. -/
theorem Ends.of_unwrap {value : Option α} {next : α → Exec ε σ β}
    (ends : Ends (unwrap value >>= next) state final) :
    ∃ found, value = some found ∧ (unwrap value >>= next) state = next found state := by
  cases value with
  | none => exact absurd rfl ends.ne_panic
  | some found => exact ⟨found, rfl, rfl⟩

/-- What a loop body preserves, also when it ends with an error, the loop preserves. -/
theorem ends_forEach {items : List β} {body : β → Exec ε σ Unit} (invariant : σ → Prop)
    (step : ∀ item ∈ items, ∀ before after, invariant before → Ends (body item) before after →
      invariant after)
    (holds : invariant state) (run : Ends (forEach items body) state final) : invariant final := by
  induction items generalizing state with
  | nil =>
      rw [forEach_nil, ends_pure] at run
      exact run ▸ holds
  | cons item rest ih =>
      rw [forEach_cons, ends_bind] at run
      rcases run with ⟨error, failed⟩ | ⟨_, middle, first, run⟩
      · exact step item List.mem_cons_self state final holds (.inr ⟨error, failed⟩)
      · have kept := step item List.mem_cons_self state middle holds (.inl ⟨_, first⟩)
        exact ih (fun other member => step other (List.mem_cons_of_mem _ member)) kept run

theorem Infallible.get : Infallible (get : Exec ε σ σ) :=
  fun _ _ _ failed => get_ne_err.mp failed

theorem Infallible.assert (condition : Prop) [Decidable condition] :
    Infallible (assert condition : Exec ε σ Unit) :=
  fun _ _ _ failed => assert_ne_err.mp failed

theorem Infallible.focus {part : σ → τ} {put : τ → σ → σ} {call : Exec ε τ α}
    (infallible : Infallible call) : Infallible (focus part put call) := by
  intro state error final failed
  obtain ⟨inner, failed, _⟩ := focus_eq_err.mp failed
  exact infallible _ _ _ failed

theorem Infallible.ends {call : Exec ε σ α} (infallible : Infallible call)
    (run : Ends call state final) : ∃ value, call state = .ok value final := by
  rcases run with returned | ⟨error, failed⟩
  · exact returned
  · exact absurd failed (infallible state error final)

/-- After an infallible first part it is the rest that fails. -/
theorem Infallible.fails_later {call : Exec ε σ α} {next : α → Exec ε σ β}
    (infallible : Infallible call) (failed : (call >>= next) state = .err error final) :
    ∃ value middle, call state = .ok value middle ∧ next value middle = .err error final := by
  rcases bind_eq_err.mp failed with first | rest
  · exact absurd first (infallible state error final)
  · exact rest

/-- An infallible first part of a call returns. -/
theorem Infallible.ends_bind {call : Exec ε σ α} {next : α → Exec ε σ β}
    (infallible : Infallible call) (run : Ends (call >>= next) state final) :
    ∃ value middle, call state = .ok value middle ∧ Ends (next value) middle final := by
  rcases Exec.ends_bind.mp run with ⟨error, failed⟩ | rest
  · exact absurd failed (infallible state error final)
  · exact rest

end Err

/-! ## Calls that return -/

section Returns
variable {state : σ} {γ : Type}

theorem bind_of_ok {call : Exec ε σ α} {next : α → Exec ε σ β} {value : α} {middle : σ}
    (run : call state = .ok value middle) : (call >>= next) state = next value middle := by
  rw [bind_apply, run]

/-- Calls that end the same way are followed by the same rest. -/
theorem bind_congr_apply {call other : Exec ε σ α} {next : α → Exec ε σ β} {state otherState : σ}
    (same : call state = other otherState) :
    (call >>= next) state = (other >>= next) otherState := by
  rw [bind_apply, bind_apply, same]

theorem unwrap_bind {value : Option α} {next : α → Exec ε σ β} {found : α}
    (isSome : value = some found) : (unwrap value >>= next) state = next found state :=
  bind_of_ok (unwrap_eq_ok.mpr ⟨isSome, rfl⟩)

theorem assert_bind {condition : Prop} [Decidable condition] {next : Unit → Exec ε σ α}
    (holds : condition) : (assert condition >>= next) state = next () state :=
  bind_of_ok (assert_eq_ok.mpr ⟨holds, rfl⟩)

/-- A loop returns when every round of it does, from what the rounds before it leave. -/
theorem foldEach_returns {items : List β} {start : γ} {body : γ → β → Exec ε σ γ}
    (invariant : List β → γ → σ → Prop)
    (step : ∀ item rest value before, invariant (item :: rest) value before →
      ∃ next after, body value item before = .ok next after ∧ invariant rest next after)
    (holds : invariant items start state) :
    ∃ value final, foldEach items start body state = .ok value final ∧
      invariant [] value final := by
  induction items generalizing start state with
  | nil => exact ⟨start, state, rfl, holds⟩
  | cons item rest ih =>
      obtain ⟨next, after, run, holds⟩ := step item rest start state holds
      rw [foldEach_cons, bind_of_ok run]
      exact ih holds

theorem mapEach_returns {items : List β} {body : β → Exec ε σ α}
    (invariant : List β → σ → Prop)
    (step : ∀ item rest before, invariant (item :: rest) before →
      ∃ value after, body item before = .ok value after ∧ invariant rest after)
    (holds : invariant items state) :
    ∃ values final, mapEach items body state = .ok values final ∧ invariant [] final := by
  induction items generalizing state with
  | nil => exact ⟨[], state, rfl, holds⟩
  | cons item rest ih =>
      obtain ⟨value, after, run, holds⟩ := step item rest state holds
      obtain ⟨values, final, restRun, holds⟩ := ih holds
      rw [mapEach_cons, bind_of_ok run, bind_of_ok restRun]
      exact ⟨value :: values, final, rfl, holds⟩

end Returns

/-! ## What a call leaves alone even when it fails -/

section Spares
variable {γ : Type} {view : σ → γ}

/-- A call that, whether it returns a value or an error, has not changed what `view` shows. -/
def Spares (view : σ → γ) (call : Exec ε σ α) : Prop :=
  ∀ state final, Ends call state final → view final = view state

theorem Keeps.spares {call : Exec ε σ α} (keeps : Keeps view call) (infallible : Infallible call) :
    Spares view call := by
  intro state final run
  obtain ⟨value, returned⟩ := infallible.ends run
  exact keeps state value final returned

theorem Spares.keeps {call : Exec ε σ α} (spares : Spares view call) : Keeps view call :=
  fun state value final run => spares state final (.inl ⟨value, run⟩)

theorem Spares.pure (value : α) : Spares view (pure value : Exec ε σ α) :=
  (Keeps.pure value).spares (.pure value)

theorem Spares.panic : Spares view (panic : Exec ε σ α) := Keeps.panic.spares .panic

theorem Spares.get : Spares view (get : Exec ε σ σ) := Keeps.get.spares .get

theorem Spares.unwrap (value : Option α) : Spares view (unwrap value : Exec ε σ α) :=
  (Keeps.unwrap value).spares (.unwrap value)

theorem Spares.assert (condition : Prop) [Decidable condition] :
    Spares view (assert condition : Exec ε σ Unit) :=
  (Keeps.assert condition).spares (.assert condition)

theorem Spares.reads (method : σ → Option α) : Spares view (reads method : Exec ε σ α) :=
  (Keeps.reads method).spares (.reads method)

theorem Spares.modify {update : σ → σ} (same : ∀ state, view (update state) = view state) :
    Spares view (modify update : Exec ε σ Unit) :=
  (Keeps.modify same).spares (.modify update)

theorem Spares.runs {method : σ → Option (α × σ)}
    (same : ∀ state value next, method state = some (value, next) → view next = view state) :
    Spares view (runs method : Exec ε σ α) :=
  (Keeps.runs same).spares (.runs method)

theorem Spares.ensure (condition : Prop) [Decidable condition] (error : ε) :
    Spares view (ensure condition error : Exec ε σ Unit) := by
  intro state final run
  by_cases holds : condition <;> simp [Ends, Exec.ensure, holds] at run <;> rw [run]

theorem Spares.bind {call : Exec ε σ α} {next : α → Exec ε σ β} (first : Spares view call)
    (rest : ∀ value, Spares view (next value)) : Spares view (call >>= next) := by
  intro state final run
  rcases ends_bind.mp run with ⟨error, failed⟩ | ⟨value, middle, firstRun, restRun⟩
  · exact first state final (.inr ⟨error, failed⟩)
  · exact (rest value middle final restRun).trans (first.keeps state value middle firstRun)

theorem Spares.focus {part : σ → τ} {put : τ → σ → σ} {call : Exec ε τ α}
    (same : ∀ inner state, view (put inner state) = view state) :
    Spares view (focus part put call) := by
  intro state final run
  obtain ⟨inner, _, rfl⟩ := ends_focus.mp run
  exact same inner state

theorem Spares.comp {δ : Type} {call : Exec ε σ α} (less : γ → δ) (spares : Spares view call) :
    Spares (fun state => less (view state)) call :=
  fun state final run => congrArg less (spares state final run)

/-- What a call leaves alone of its own part of the state. -/
theorem Spares.inside {part : σ → τ} {put : τ → σ → σ} {inner : τ → γ} {call : Exec ε τ α}
    (spares : Spares inner call) (same : ∀ value state, part (put value state) = value) :
    Spares (fun state => inner (part state)) (Exec.focus part put call) := by
  intro state final run
  obtain ⟨last, innerRun, rfl⟩ := ends_focus.mp run
  simp only [same]
  exact spares _ _ innerRun

theorem Spares.ite {condition : Prop} [Decidable condition] {first second : Exec ε σ α}
    (isThen : Spares view first) (isElse : Spares view second) :
    Spares view (if condition then first else second) := by
  split
  · exact isThen
  · exact isElse

theorem Spares.forEach {items : List β} {body : β → Exec ε σ Unit}
    (each : ∀ item, Spares view (body item)) : Spares view (forEach items body) := by
  induction items with
  | nil => exact .pure _
  | cons item rest ih => exact (each item).bind fun _ => ih

theorem Spares.mapEach {items : List β} {body : β → Exec ε σ α}
    (each : ∀ item, Spares view (body item)) : Spares view (mapEach items body) := by
  induction items with
  | nil => exact .pure _
  | cons item rest ih => exact (each item).bind fun _ => ih.bind fun _ => .pure _

theorem Spares.foldEach {δ : Type} {items : List β} {start : δ} {body : δ → β → Exec ε σ δ}
    (each : ∀ value item, Spares view (body value item)) :
    Spares view (foldEach items start body) := by
  induction items generalizing start with
  | nil => exact .pure _
  | cons item rest ih => exact (each start item).bind fun _ => ih

end Spares

/-! ## Invariants that outlast an error -/

section Maintains
variable {invariant : σ → Prop}

/-- A call that, whether it returns a value or an error, keeps the invariant. -/
def Maintains (invariant : σ → Prop) (call : Exec ε σ α) : Prop :=
  ∀ state final, Ends call state final → invariant state → invariant final

theorem Spares.maintains {γ : Type} {view : σ → γ} {property : γ → Prop} {call : Exec ε σ α}
    (spares : Spares view call) : Maintains (fun state => property (view state)) call := by
  intro state final run holds
  rw [spares state final run]
  exact holds

theorem spares_iff_maintains {γ : Type} {view : σ → γ} {call : Exec ε σ α} :
    Spares view call ↔ ∀ shown, Maintains (fun state => view state = shown) call := by
  constructor
  · intro spares shown state final run isShown
    exact (spares state final run).trans isShown
  · intro maintains state final run
    exact maintains (view state) state final run rfl

/-- A call that does not change the state. -/
theorem Maintains.of_spares {call : Exec ε σ α} (spares : Spares id call) :
    Maintains invariant call := spares.maintains

theorem Maintains.modify {update : σ → σ}
    (keeps : ∀ state, invariant state → invariant (update state)) :
    Maintains invariant (modify update : Exec ε σ Unit) := by
  intro state final run holds
  rw [run.of_ok rfl]
  exact keeps state holds

theorem Maintains.bind {call : Exec ε σ α} {next : α → Exec ε σ β}
    (first : Maintains invariant call) (rest : ∀ value, Maintains invariant (next value)) :
    Maintains invariant (call >>= next) := by
  intro state final run holds
  rcases ends_bind.mp run with ⟨error, failed⟩ | ⟨value, middle, firstRun, restRun⟩
  · exact first state final (.inr ⟨error, failed⟩) holds
  · exact rest value middle final restRun (first state middle (.inl ⟨value, firstRun⟩) holds)

theorem Maintains.runs {method : σ → Option (α × σ)}
    (keeps : ∀ state value next, invariant state → method state = some (value, next) →
      invariant next) : Maintains invariant (runs method : Exec ε σ α) := by
  rintro state final (⟨value, run⟩ | ⟨error, run⟩) holds
  · exact keeps state value final holds (runs_eq_ok.mp run)
  · exact absurd run (by simp)

/-- Under the invariant the first part returns nothing but values with the property. -/
theorem Maintains.bindWhere {property : α → Prop} {call : Exec ε σ α} {next : α → Exec ε σ β}
    (first : Maintains invariant call)
    (result : ∀ state value middle, invariant state → call state = .ok value middle →
      property value)
    (rest : ∀ value, property value → Maintains invariant (next value)) :
    Maintains invariant (call >>= next) := by
  intro state final run holds
  rcases ends_bind.mp run with ⟨error, failed⟩ | ⟨value, middle, firstRun, restRun⟩
  · exact first state final (.inr ⟨error, failed⟩) holds
  · exact rest value (result state value middle holds firstRun) middle final restRun
      (first state middle (.inl ⟨value, firstRun⟩) holds)

theorem Maintains.and {other : σ → Prop} {call : Exec ε σ α} (first : Maintains invariant call)
    (second : Maintains other call) :
    Maintains (fun state => invariant state ∧ other state) call :=
  fun state final run holds => ⟨first state final run holds.1, second state final run holds.2⟩

/-- An invariant of the part that is called. -/
theorem Maintains.inside {part : σ → τ} {put : τ → σ → σ} {inner : τ → Prop} {call : Exec ε τ α}
    (maintains : Maintains inner call) (same : ∀ value state, part (put value state) = value) :
    Maintains (fun state => inner (part state)) (Exec.focus part put call) := by
  intro state final run holds
  obtain ⟨last, innerRun, rfl⟩ := ends_focus.mp run
  rw [same]
  exact maintains _ _ innerRun holds

theorem Maintains.forEach {items : List β} {body : β → Exec ε σ Unit}
    (each : ∀ item ∈ items, Maintains invariant (body item)) :
    Maintains invariant (forEach items body) := by
  induction items with
  | nil => exact .of_spares (.pure _)
  | cons item rest ih =>
      refine (each item List.mem_cons_self).bind fun _ => ih fun other member => ?_
      exact each other (List.mem_cons_of_mem _ member)

theorem Maintains.ite {condition : Prop} [Decidable condition] {first second : Exec ε σ α}
    (isThen : Maintains invariant first) (isElse : Maintains invariant second) :
    Maintains invariant (if condition then first else second) := by
  split
  · exact isThen
  · exact isElse

end Maintains

/-! ## Panics -/

section Panic
variable {state : σ}

@[simp]
theorem pure_ne_panic {value : α} : (pure value : Exec ε σ α) state = .panic ↔ False := by
  change Outcome.ok value state = .panic ↔ False
  simp

@[simp]
theorem bind_eq_panic {call : Exec ε σ α} {next : α → Exec ε σ β} :
    (call >>= next) state = .panic ↔
      call state = .panic ∨ ∃ value middle, call state = .ok value middle ∧
        next value middle = .panic := by
  rw [bind_apply]
  cases call state <;> simp [and_assoc]

@[simp]
theorem get_ne_panic : (get : Exec ε σ σ) state = .panic ↔ False := by
  simp [get]

@[simp]
theorem modify_ne_panic {update : σ → σ} :
    (modify update : Exec ε σ Unit) state = .panic ↔ False := by
  simp [modify]

@[simp]
theorem fail_ne_panic {error : ε} : (fail error : Exec ε σ α) state = .panic ↔ False := by
  simp [fail]

@[simp]
theorem panic_eq_panic : (panic : Exec ε σ α) state = .panic ↔ True := by
  simp [panic]

@[simp]
theorem assert_eq_panic {condition : Prop} [Decidable condition] :
    (assert condition : Exec ε σ Unit) state = .panic ↔ ¬ condition := by
  by_cases holds : condition <;> simp [assert, holds]

@[simp]
theorem ensure_ne_panic {condition : Prop} [Decidable condition] {error : ε} :
    (ensure condition error : Exec ε σ Unit) state = .panic ↔ False := by
  by_cases holds : condition <;> simp [ensure, holds]

@[simp]
theorem unwrap_eq_panic {value : Option α} :
    (unwrap value : Exec ε σ α) state = .panic ↔ value = none := by
  cases value <;> simp [unwrap]

@[simp]
theorem orPanic_eq_panic {call : Exec ε σ α} :
    orPanic call state = .panic ↔ ∀ result final, call state ≠ .ok result final := by
  unfold orPanic
  cases call state <;> simp

@[simp]
theorem reads_eq_panic {method : σ → Option α} :
    (reads method : Exec ε σ α) state = .panic ↔ method state = none := by
  cases found : method state <;> simp [reads, found]

@[simp]
theorem runs_eq_panic {method : σ → Option (α × σ)} :
    (runs method : Exec ε σ α) state = .panic ↔ method state = none := by
  cases found : method state <;> simp [runs, found]

theorem foldEach_ne_panic {γ : Type} {items : List β} {body : γ → β → Exec ε σ γ}
    (returns : ∀ item ∈ items, ∀ value state, body value item state ≠ .panic) (start : γ)
    (state : σ) : foldEach items start body state ≠ .panic := by
  induction items generalizing start state with
  | nil => simp
  | cons item rest ih =>
      rw [foldEach_cons, ne_eq, bind_eq_panic]
      rintro (here | ⟨next, middle, _, later⟩)
      · exact returns item (by simp) start state here
      · exact ih (fun other member => returns other (by simp [member])) next middle later

/-- A loop whose body panics for some items, and otherwise returns. -/
theorem foldEach_eq_panic {γ : Type} {body : γ → β → Exec ε σ γ} (bad : β → Prop)
    (infallible : ∀ value item, Infallible (body value item))
    (panics : ∀ value item state, body value item state = .panic ↔ bad item) (items : List β)
    (start : γ) (state : σ) :
    foldEach items start body state = .panic ↔ ∃ item ∈ items, bad item := by
  induction items generalizing start state with
  | nil => simp
  | cons item rest ih =>
      rw [foldEach_cons, bind_eq_panic, panics]
      simp only [List.mem_cons, exists_eq_or_imp]
      by_cases isBad : bad item
      · simp [isBad]
      · have returns : ∃ next middle, body start item state = .ok next middle := by
          cases ends : body start item state with
          | ok next middle => exact ⟨next, middle, rfl⟩
          | err error middle => exact absurd ends (infallible start item state error middle)
          | panic => exact absurd ((panics start item state).mp ends) isBad
        obtain ⟨next, middle, run⟩ := returns
        simp [isBad, run, ih]

end Panic

end Exec

end IceCap.Library
