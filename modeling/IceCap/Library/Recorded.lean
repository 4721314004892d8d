import Mathlib.Data.List.Infix

/-!
# Recorded runs

A run together with the list of its steps: what each step was and the state it
was taken in.  `Recorded.holds_iff` is the rule for a property that a step keeps
exactly when the step meets a condition: the property holds in every state of a
run exactly when all steps of the run meet the condition.  Where a step can be
computed, `record` computes a run.
-/

set_option autoImplicit false

namespace IceCap.Library

variable {State Event : Type} {step : Event → State → State → Prop} {first final : State}
  {taken : List (State × Event)}

inductive Recorded (step : Event → State → State → Prop) (first : State) :
    List (State × Event) → State → Prop where
  | start : Recorded step first [] first
  | step {taken : List (State × Event)} {event : Event} {before after : State}
      (run : Recorded step first taken before) (moved : step event before after) :
      Recorded step first (taken ++ [(before, event)]) after

namespace Recorded

/-- The property holds in every state along the run. -/
def Throughout (step : Event → State → State → Prop) (first : State)
    (taken : List (State × Event)) (property : State → Prop) : Prop :=
  ∀ earlier middle, earlier <+: taken → Recorded step first earlier middle → property middle

variable {property : State → Prop} {meets : State → Event → Prop}

theorem invariant (starts : property first)
    (keeps : ∀ event before after, property before → step event before after →
      meets before event → property after)
    (run : Recorded step first taken final) (met : ∀ entry ∈ taken, meets entry.1 entry.2) :
    property final := by
  induction run with
  | start => exact starts
  | @step taken event before after run moved ih =>
      have holds := ih fun entry member => met entry (by simp [member])
      exact keeps _ _ _ holds moved (met (before, event) (by simp))

/-- A property that every step keeps. -/
theorem always (starts : property first)
    (keeps : ∀ event before after, property before → step event before after → property after)
    (run : Recorded step first taken final) : property final := by
  induction run with
  | start => exact starts
  | step _ moved ih => exact keeps _ _ _ ih moved

theorem holds_iff (starts : property first)
    (exact : ∀ event before after, property before → step event before after →
      (property after ↔ meets before event))
    (run : Recorded step first taken final) :
    Throughout step first taken property ↔ ∀ entry ∈ taken, meets entry.1 entry.2 := by
  constructor
  · intro throughout
    induction run with
    | start => simp
    | @step taken event before after run moved ih =>
        have earlier := ih fun shorter middle isEarlier =>
          throughout shorter middle (isEarlier.trans (List.prefix_append _ _))
        have holdsBefore := throughout taken before (List.prefix_append _ _) run
        have holdsAfter := throughout _ after (List.prefix_refl _) (run.step moved)
        have metLast := (exact event before after holdsBefore moved).mp holdsAfter
        intro entry member
        rcases List.mem_append.mp member with isEarlier | isLast
        · exact earlier entry isEarlier
        · obtain rfl := List.mem_singleton.mp isLast
          exact metLast
  · intro met earlier middle isEarlier earlierRun
    refine invariant starts (fun event before after holds moved isMet => ?_) earlierRun
      fun entry member => met entry (isEarlier.subset member)
    exact (exact event before after holds moved).mpr isMet

/-- The same where the steps keep something else as well. -/
theorem holds_iff_under {kept : State → Prop} (keptFirst : kept first)
    (keptNext : ∀ event before after, kept before → step event before after → kept after)
    (starts : property first)
    (exact : ∀ event before after, kept before → property before → step event before after →
      (property after ↔ meets before event))
    (run : Recorded step first taken final) :
    Throughout step first taken property ↔ ∀ entry ∈ taken, meets entry.1 entry.2 := by
  have strengthen : ∀ {taken : List (State × Event)} {final : State},
      Recorded step first taken final →
      Recorded (fun event before after => kept before ∧ step event before after) first taken
        final := by
    intro taken final run
    induction run with
    | start => exact .start
    | step run moved ih => exact ih.step ⟨run.always keptFirst keptNext, moved⟩
  have weaken : ∀ {taken : List (State × Event)} {final : State},
      Recorded (fun event before after => kept before ∧ step event before after) first taken
        final → Recorded step first taken final := by
    intro taken final run
    induction run with
    | start => exact .start
    | step _ moved ih => exact ih.step moved.2
  rw [← holds_iff starts (fun event before after holds moved =>
    exact event before after moved.1 holds moved.2) (strengthen run)]
  constructor
  · exact fun throughout earlier middle isEarlier run =>
      throughout earlier middle isEarlier (weaken run)
  · exact fun throughout earlier middle isEarlier run =>
      throughout earlier middle isEarlier (strengthen run)

/-- A step of one kind was taken, and since then none of the other kind. -/
def Since (begins ends : Event → Prop) (taken : List (State × Event)) : Prop :=
  ∃ earlier entry later, taken = earlier ++ entry :: later ∧ begins entry.2 ∧
    ∀ other ∈ later, ¬ ends other.2

variable {begins ends : Event → Prop}

theorem not_since_nil : ¬ Since begins ends ([] : List (State × Event)) :=
  fun ⟨_, _, _, isTaken, _⟩ => absurd isTaken.symm (by simp)

theorem since_concat {entry : State × Event} :
    Since begins ends (taken ++ [entry]) ↔
      begins entry.2 ∨ Since begins ends taken ∧ ¬ ends entry.2 := by
  constructor
  · intro ⟨earlier, found, later, isTaken, isBegin, noEnd⟩
    rcases List.eq_nil_or_concat later with rfl | ⟨sooner, last, rfl⟩
    · obtain ⟨_, isLast⟩ := List.append_inj' isTaken rfl
      obtain rfl := List.singleton_inj.mp isLast
      exact .inl isBegin
    · rw [List.concat_eq_append, ← List.cons_append, ← List.append_assoc] at isTaken
      rw [List.concat_eq_append] at noEnd
      obtain ⟨isSooner, isLast⟩ := List.append_inj' isTaken rfl
      obtain rfl := List.singleton_inj.mp isLast
      exact .inr ⟨⟨earlier, found, sooner, isSooner, isBegin, fun other member =>
        noEnd other (List.mem_append_left _ member)⟩, noEnd entry (by simp)⟩
  · intro holds
    cases holds with
    | inl isBegin => exact ⟨taken, entry, [], rfl, isBegin, by simp⟩
    | inr holds =>
        obtain ⟨⟨earlier, found, later, isTaken, isBegin, noEnd⟩, notEnd⟩ := holds
        refine ⟨earlier, found, later ++ [entry], by simp [isTaken], isBegin, ?_⟩
        intro other member
        cases List.mem_append.mp member with
        | inl isEarlier => exact noEnd other isEarlier
        | inr isLast => rwa [List.mem_singleton.mp isLast]

/-- A flag that one kind of step raises and another one lowers. -/
theorem flag_iff_since {flag : State → Prop} (starts : ¬ flag first)
    (raises : ∀ event before after, step event before after → begins event → flag after)
    (lowers : ∀ event before after, step event before after → ¬ begins event → ends event →
      ¬ flag after)
    (keeps : ∀ event before after, step event before after → ¬ begins event → ¬ ends event →
      (flag after ↔ flag before))
    (run : Recorded step first taken final) : flag final ↔ Since begins ends taken := by
  induction run with
  | start => exact ⟨fun holds => absurd holds starts, fun since => absurd since not_since_nil⟩
  | @step taken event before after run moved ih =>
      rw [since_concat]
      by_cases isBegin : begins event
      · exact ⟨fun _ => .inl isBegin, fun _ => raises _ _ _ moved isBegin⟩
      · by_cases isEnd : ends event
        · have lowered := lowers _ _ _ moved isBegin isEnd
          simp [lowered, isBegin, isEnd]
        · rw [keeps _ _ _ moved isBegin isEnd, ih]
          simp [isBegin, isEnd]

theorem mono {other : Event → State → State → Prop}
    (weaker : ∀ event before after, step event before after → other event before after)
    (run : Recorded step first taken final) : Recorded other first taken final := by
  induction run with
  | start => exact .start
  | step _ moved ih => exact ih.step (weaker _ _ _ moved)

/-- The same run with what is known of its events. -/
theorem restrict {holds : Event → Prop} (run : Recorded step first taken final)
    (known : ∀ event ∈ taken.map Prod.snd, holds event) :
    Recorded (fun event before after => step event before after ∧ holds event) first taken final := by
  induction run with
  | start => exact .start
  | step _ moved ih =>
      simp only [List.map_append, List.mem_append] at known
      exact (ih fun event member => known event (.inl member)).step ⟨moved, known _ (.inr (by simp))⟩

/-- One run after another. -/
theorem append {middle : State} {rest : List (State × Event)}
    (earlier : Recorded step first taken middle) (later : Recorded step middle rest final) :
    Recorded step first (taken ++ rest) final := by
  induction later with
  | start => rwa [List.append_nil]
  | step _ moved ih =>
      rw [← List.append_assoc]
      exact ih.step moved

theorem last {before : State} {event : Event}
    (run : Recorded step first (taken ++ [(before, event)]) final) :
    Recorded step first taken before ∧ step event before final := by
  generalize isTaken : taken ++ [(before, event)] = whole at run
  cases run with
  | start => simp at isTaken
  | step run moved =>
      obtain ⟨rfl, isLast⟩ := List.append_inj' isTaken rfl
      obtain ⟨rfl, rfl⟩ := Prod.mk.inj (List.singleton_inj.mp isLast)
      exact ⟨run, moved⟩

/-- A step of a run, and the run up to it. -/
theorem entry {earlier : List (State × Event)} {before : State} {event : Event}
    (run : Recorded step first taken final) (isEarlier : earlier ++ [(before, event)] <+: taken) :
    Recorded step first earlier before ∧ ∃ after, step event before after := by
  induction run with
  | start => simp at isEarlier
  | @step taken _ _ after run moved ih =>
      rcases List.prefix_concat_iff.mp isEarlier with isWhole | isEarlier
      · have whole := run.step moved
        rw [← isWhole] at whole
        exact ⟨whole.last.1, after, whole.last.2⟩
      · exact ih isEarlier

/-- A property that the steps from some step on keep, whatever was before. -/
theorem persists (property : State → Prop) (meets : State → Event → Prop)
    {earlier between : List (State × Event)} {entry : State × Event}
    (keeps : ∀ event before after, property before → step event before after →
      meets before event → property after)
    (run : Recorded step first taken final) (isRun : taken = earlier ++ entry :: between)
    (holds : property entry.1) (met : ∀ other ∈ entry :: between, meets other.1 other.2) :
    property final := by
  induction run generalizing between with
  | start => simp at isRun
  | @step taken event before after run moved ih =>
      rcases List.eq_nil_or_concat between with rfl | ⟨sooner, last, rfl⟩
      · obtain ⟨_, isLast⟩ := List.append_inj' isRun rfl
        obtain rfl := List.singleton_inj.mp isLast
        exact keeps _ _ _ holds moved (met _ List.mem_cons_self)
      · rw [List.concat_eq_append, ← List.cons_append] at isRun met
        rw [← List.append_assoc] at isRun
        obtain ⟨isSooner, isLast⟩ := List.append_inj' isRun rfl
        obtain rfl := List.singleton_inj.mp isLast
        have holdsBefore := ih isSooner fun other member =>
          met other (List.mem_append_left _ member)
        exact keeps _ _ _ holdsBefore moved (met (before, event) (by simp))

/-- A run of a machine whose steps are steps of another one, under what they are for it. -/
theorem simulated {Shown Sign : Type} {signs : Sign → Shown → Shown → Prop}
    {sign : State × Event → Sign} {shows : State → Shown → Prop} {shown : Shown}
    (each : ∀ event before after shown, shows before shown → step event before after →
      ∃ next, signs (sign (before, event)) shown next ∧ shows after next)
    (starts : shows first shown) (run : Recorded step first taken final) :
    ∃ trace last, Recorded signs shown trace last ∧ trace.map Prod.snd = taken.map sign ∧
      shows final last := by
  induction run with
  | start => exact ⟨[], shown, .start, rfl, starts⟩
  | @step taken event before after run moved ih =>
      obtain ⟨trace, last, isRun, isTrace, showsBefore⟩ := ih
      obtain ⟨next, isStep, showsAfter⟩ := each event before after last showsBefore moved
      refine ⟨trace ++ [(last, sign (before, event))], next, isRun.step isStep, ?_, showsAfter⟩
      rw [List.map_append, List.map_append, isTrace]
      rfl

/-! ## Computed runs -/

variable {run : Event → State → Option State}

/-- Take the steps for the events one after another, and stop where one is impossible. -/
def record (run : Event → State → Option State) :
    List Event → State → Option (List (State × Event) × State)
  | [], state => some ([], state)
  | event :: events, state =>
      (run event state).bind fun next => (record run events next).map fun rest =>
        ((state, event) :: rest.1, rest.2)

theorem record_events {events : List Event} {rest : List (State × Event)}
    (evaluates : record run events first = some (rest, final)) : rest.map Prod.snd = events := by
  induction events generalizing first rest with
  | nil =>
      obtain ⟨rfl, rfl⟩ := Prod.mk.inj (Option.some.inj evaluates)
      rfl
  | cons event events ih =>
      obtain ⟨next, moved, evaluates⟩ := Option.bind_eq_some_iff.mp evaluates
      obtain ⟨⟨later, last⟩, continues, isRest⟩ := Option.map_eq_some_iff.mp evaluates
      obtain ⟨rfl, rfl⟩ := Prod.mk.inj isRest
      rw [List.map_cons, ih continues]

theorem ofRecord (agrees : ∀ event before after, run event before = some after →
      step event before after) {events : List Event} {middle : State}
    {rest : List (State × Event)} (earlier : Recorded step first taken middle)
    (evaluates : record run events middle = some (rest, final)) :
    Recorded step first (taken ++ rest) final := by
  induction events generalizing taken middle rest with
  | nil =>
      obtain ⟨rfl, rfl⟩ := Prod.mk.inj (Option.some.inj evaluates)
      rwa [List.append_nil]
  | cons event events ih =>
      obtain ⟨next, moved, evaluates⟩ := Option.bind_eq_some_iff.mp evaluates
      obtain ⟨⟨later, last⟩, continues, isRest⟩ := Option.map_eq_some_iff.mp evaluates
      obtain ⟨rfl, rfl⟩ := Prod.mk.inj isRest
      have extended := ih (earlier.step (agrees _ _ _ moved)) continues
      rwa [List.append_assoc] at extended

end Recorded

end IceCap.Library
