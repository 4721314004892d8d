import IceCap.Events.Bitfield

/-!
# Delivery of events

Signallers and the receiver of one in-space.  A signaller is between its
`fetch_or` and its signal for a while; the receiver has the groups of its badge
still to swap and the bits of the last swap still to call back.

The invariant follows a set bit from the signaller that found it clear, through
the notification, to the receiver.  A fair trace takes the bit along that way.
-/

set_option autoImplicit false

namespace IceCap.Events.Delivery

open IceCap.Library IceCap.Sel4

/-- The capabilities of an in-space to the notification of its client, one for each group, and
each with the badge of its group. -/
structure NfnCaps where
  badges : List Badge
  fits : badges.length ≤ 64
  badged : ∀ group (isGroup : group < badges.length), badges[group] = 1#64 <<< group

inductive Pc where
  | idle
  | signalling (group : Nat)
  deriving DecidableEq, Repr

/-- What the receiver still has to do for the badge it has waited for. -/
structure Receiver where
  groups : List Nat
  bits : List Nat
  deriving DecidableEq, Repr

structure System (Signaller : Type) where
  bitfield : Bitfield
  nfn : Notification
  signallers : Signaller → Pc
  receiver : Receiver

inductive Action (Signaller : Type) where
  | set (signaller : Signaller) (index : Nat)
  | signal (signaller : Signaller)
  | wait
  | swap (group : Nat)
  | call (bit : Nat)

variable {Signaller : Type}

def start : System Signaller := ⟨.clear, .empty, fun _ => .idle, ⟨[], []⟩⟩

namespace System

section Accesses

variable [DecidableEq Signaller]

/-- `fetch_or` of `Bitfield::set`, and the test of the old word. -/
def fetchOr (system : System Signaller) (signaller : Signaller) (index : Nat) : System Signaller :=
  let result := system.bitfield.set index
  { system with
    bitfield := result.2
    signallers := Function.update system.signallers signaller
      (if result.1 then .signalling (index / 64) else .idle) }

def signal (system : System Signaller) (signaller : Signaller) (badge : Badge) :
    System Signaller :=
  { system with
    nfn := system.nfn.signal badge
    signallers := Function.update system.signallers signaller .idle }

end Accesses

/-- The wait returns, and `biterate` has the groups of the badge. -/
def received (system : System Signaller) (badge : Badge) (nfn : Notification) :
    System Signaller :=
  { system with nfn, receiver := ⟨biterate badge, []⟩ }

/-- `swap` on the next group, and `biterate` has the members. -/
def swap (system : System Signaller) (group : Nat) (groups : List Nat) : System Signaller :=
  let result := system.bitfield.swap group
  { system with
    bitfield := result.2
    receiver := ⟨groups, (biterate result.1).map (group * Bitfield.groupBits + ·)⟩ }

def called (system : System Signaller) (groups bits : List Nat) : System Signaller :=
  { system with receiver := ⟨groups, bits⟩ }

end System

/-- The accesses.  A signaller signals an index of the in-space, whose bit is in one of the groups
that have a capability. -/
inductive Step [DecidableEq Signaller] (caps : NfnCaps) :
    Action Signaller → System Signaller → System Signaller → Prop where
  | set {system : System Signaller} {signaller : Signaller} {index : Nat}
      (isIdle : system.signallers signaller = .idle)
      (isIndex : index < caps.badges.length * Bitfield.groupBits) :
      Step caps (.set signaller index) system (system.fetchOr signaller index)
  | signal {system : System Signaller} {signaller : Signaller} {group : Nat}
      (isSignalling : system.signallers signaller = .signalling group)
      {badge : Badge} (isCap : caps.badges[group]? = some badge) :
      Step caps (.signal signaller) system (system.signal signaller badge)
  | wait {system : System Signaller} (isDone : system.receiver = ⟨[], []⟩)
      {badge : Badge} {nfn : Notification} (run : system.nfn.wait = some (badge, nfn)) :
      Step caps .wait system (system.received badge nfn)
  | swap {system : System Signaller} {group : Nat} {groups : List Nat}
      (isNext : system.receiver = ⟨group :: groups, []⟩) :
      Step caps (.swap group) system (system.swap group groups)
  | call {system : System Signaller} {bit : Nat} {groups bits : List Nat}
      (isNext : system.receiver = ⟨groups, bit :: bits⟩) :
      Step caps (.call bit) system (system.called groups bits)

/-! ## No set bit is stranded -/

namespace System

variable (system : System Signaller) (group : Nat)

/-- The badge of the group is in the notification. -/
def Pending : Prop := ∃ badge, system.nfn.pending = some badge ∧ badge.getLsbD group = true

/-- The group of a set bit is on its way. -/
def Announced : Prop :=
  system.Pending group ∨ (∃ signaller, system.signallers signaller = .signalling group) ∨
    group ∈ system.receiver.groups

end System

structure Invariant (caps : NfnCaps) (system : System Signaller) : Prop where
  announced : ∀ bit, system.bitfield.isSet bit = true → system.Announced (bit / Bitfield.groupBits)
  inCaps : ∀ signaller group, system.signallers signaller = .signalling group →
    group < caps.badges.length

variable {caps : NfnCaps} {system before after : System Signaller} {action : Action Signaller}
  {signaller : Signaller} {group bit : Nat}

theorem NfnCaps.getLsbD_badge {badge : Badge} (isCap : caps.badges[group]? = some badge)
    {other : Nat} (isGroup : other < 64) : badge.getLsbD other = decide (other = group) := by
  obtain ⟨inRange, rfl⟩ := List.getElem?_eq_some_iff.mp isCap
  rw [caps.badged group inRange]
  exact Bitfield.getLsbD_member isGroup

theorem start_invariant : Invariant caps (start : System Signaller) := by
  constructor
  · intro bit isSet
    simp [start] at isSet
  · intro signaller group isSignalling
    simp [start] at isSignalling

theorem wait_invariant {badge : Badge} {nfn : Notification} (holds : Invariant caps system)
    (isDone : system.receiver = ⟨[], []⟩) (run : system.nfn.wait = some (badge, nfn)) :
    Invariant caps (system.received badge nfn) := by
  obtain ⟨isPending, rfl⟩ := Notification.wait_eq_some.mp run
  refine ⟨fun bit isSet => ?_, holds.inCaps⟩
  rcases holds.announced bit isSet with ⟨old, isOld, isMember⟩ | isSignalling | isHeld
  · rw [isPending] at isOld
    cases isOld
    exact .inr (.inr (mem_biterate.mpr isMember))
  · exact .inr (.inl isSignalling)
  · rw [isDone] at isHeld
    simp at isHeld

theorem swap_invariant {groups : List Nat} (holds : Invariant caps system)
    (isNext : system.receiver = ⟨group :: groups, []⟩) :
    Invariant caps (system.swap group groups) := by
  refine ⟨fun bit isSet => ?_, holds.inCaps⟩
  simp only [System.swap, Bitfield.isSet_swap, Bool.and_eq_true, decide_eq_true_iff] at isSet
  rcases holds.announced bit isSet.1 with isPending | isSignalling | isHeld
  · exact .inl isPending
  · exact .inr (.inl isSignalling)
  · rw [isNext, List.mem_cons] at isHeld
    exact .inr (.inr (isHeld.resolve_left isSet.2))

theorem call_invariant {groups bits : List Nat} (holds : Invariant caps system)
    (isNext : system.receiver = ⟨groups, bit :: bits⟩) :
    Invariant caps (system.called groups bits) := by
  refine ⟨fun bit isSet => ?_, holds.inCaps⟩
  rcases holds.announced bit isSet with isPending | isSignalling | isHeld
  · exact .inl isPending
  · exact .inr (.inl isSignalling)
  · rw [isNext] at isHeld
    exact .inr (.inr isHeld)

section Steps

variable [DecidableEq Signaller]

theorem isSet_fetchOr {index : Nat} : (system.fetchOr signaller index).bitfield.isSet bit =
    (system.bitfield.isSet bit || bit == index) := Bitfield.isSet_set

/-- A signal keeps what is pending, and adds its own group. -/
theorem pending_signal {badge : Badge} (isCap : caps.badges[group]? = some badge) {other : Nat}
    (isPending : system.Pending other ∨ other = group) :
    (system.signal signaller badge).Pending other := by
  refine ⟨_, rfl, ?_⟩
  rw [BitVec.getLsbD_or, Bool.or_eq_true]
  rcases isPending with ⟨old, isOld, isSet⟩ | rfl
  · left
    rw [isOld, Option.getD_some, isSet]
  · right
    have fits := caps.fits
    obtain ⟨inRange, -⟩ := List.getElem?_eq_some_iff.mp isCap
    rw [NfnCaps.getLsbD_badge isCap (by omega), decide_eq_true rfl]

/-- An announcement stands while an idle signaller sets a bit. -/
theorem announced_fetchOr {index : Nat} (isIdle : system.signallers signaller = .idle)
    (isAnnounced : system.Announced group) :
    (system.fetchOr signaller index).Announced group := by
  rcases isAnnounced with isPending | ⟨other, isSignalling⟩ | isHeld
  · exact .inl isPending
  · have differs : other ≠ signaller := by
      intro same
      rw [same, isIdle] at isSignalling
      exact Pc.noConfusion isSignalling
    refine .inr (.inl ⟨other, ?_⟩)
    simp only [System.fetchOr, Function.update_of_ne differs]
    exact isSignalling
  · exact .inr (.inr isHeld)

theorem fetchOr_invariant {index : Nat} (holds : Invariant caps system)
    (isIdle : system.signallers signaller = .idle)
    (isIndex : index < caps.badges.length * Bitfield.groupBits) :
    Invariant caps (system.fetchOr signaller index) := by
  constructor
  · intro bit isSet
    rw [isSet_fetchOr, Bool.or_eq_true, beq_iff_eq] at isSet
    cases wasSet : system.bitfield.isSet bit with
    | true => exact announced_fetchOr isIdle (holds.announced bit wasSet)
    | false =>
        rw [wasSet] at isSet
        obtain rfl := isSet.resolve_left Bool.false_ne_true
        refine .inr (.inl ⟨signaller, ?_⟩)
        simp only [System.fetchOr, Function.update_self, Bitfield.set_fst, wasSet]
        rfl
  · intro other group isSignalling
    by_cases same : other = signaller
    · subst same
      simp only [System.fetchOr, Function.update_self] at isSignalling
      split at isSignalling
      · cases isSignalling
        simp only [Bitfield.groupBits] at isIndex
        omega
      · exact Pc.noConfusion isSignalling
    · simp only [System.fetchOr, Function.update_of_ne same] at isSignalling
      exact holds.inCaps other group isSignalling

theorem signal_invariant {badge : Badge} (holds : Invariant caps system)
    (isSignalling : system.signallers signaller = .signalling group)
    (isCap : caps.badges[group]? = some badge) :
    Invariant caps (system.signal signaller badge) := by
  constructor
  · intro bit isSet
    rcases holds.announced bit isSet with isPending | ⟨other, isOther⟩ | isHeld
    · exact .inl (pending_signal isCap (.inl isPending))
    · by_cases same : other = signaller
      · subst same
        rw [isSignalling] at isOther
        cases isOther
        exact .inl (pending_signal isCap (.inr rfl))
      · refine .inr (.inl ⟨other, ?_⟩)
        simp only [System.signal, Function.update_of_ne same]
        exact isOther
    · exact .inr (.inr isHeld)
  · intro other group isOther
    by_cases same : other = signaller
    · subst same
      simp [System.signal] at isOther
    · simp only [System.signal, Function.update_of_ne same] at isOther
      exact holds.inCaps other group isOther

theorem Step.invariant (holds : Invariant caps before) (step : Step caps action before after) :
    Invariant caps after := by
  cases step with
  | set isIdle isIndex => exact fetchOr_invariant holds isIdle isIndex
  | signal isSignalling isCap => exact signal_invariant holds isSignalling isCap
  | wait isDone run => exact wait_invariant holds isDone run
  | swap isNext => exact swap_invariant holds isNext
  | call isNext => exact call_invariant holds isNext

/-- One access of any party. -/
def Moves (caps : NfnCaps) (before after : System Signaller) : Prop :=
  ∃ action, Step caps action before after

theorem run_invariant (run : Relation.ReflTransGen (Moves caps) start system) :
    Invariant caps system := by
  induction run with
  | refl => exact start_invariant
  | tail _ step ih =>
      obtain ⟨action, step⟩ := step
      exact step.invariant ih

end Steps

/-! ## Every set bit is called back -/

/-- The accesses of the receiver, -/
def receives : Action Signaller → Prop
  | .wait | .swap _ | .call _ => True
  | _ => False

/-- and the one a signaller owes after its `fetch_or`. -/
def signals (signaller : Signaller) : Action Signaller → Prop
  | .signal other => other = signaller
  | _ => False

/-- How far the receiver is from the swap of a group that is pending or among its groups. -/
def distance (group : Nat) (system : System Signaller) : ℕ ×ₗ ℕ ×ₗ ℕ :=
  toLex (if group ∈ system.receiver.groups then 0 else 1,
    toLex (system.receiver.groups.length, system.receiver.bits.length))

/-- A set bit of the group, which a signaller is about to announce. -/
def Owed (signaller : Signaller) (bit : Nat) (system : System Signaller) : Prop :=
  system.bitfield.isSet bit = true ∧
    system.signallers signaller = .signalling (bit / Bitfield.groupBits)

/-- A set bit that the receiver will hear of. -/
def Coming (bit : Nat) (system : System Signaller) : Prop :=
  system.bitfield.isSet bit = true ∧ (system.Pending (bit / Bitfield.groupBits) ∨
    bit / Bitfield.groupBits ∈ system.receiver.groups)

/-- The swap that takes the bit. -/
def Taken (bit : Nat) (action : Action Signaller) (system : System Signaller) : Prop :=
  system.bitfield.isSet bit = true ∧ action = .swap (bit / Bitfield.groupBits)

theorem wait_coming {badge : Badge} {nfn : Notification} (isComing : Coming bit system)
    (isDone : system.receiver = ⟨[], []⟩) (run : system.nfn.wait = some (badge, nfn)) :
    Coming bit (system.received badge nfn) ∧
      distance (bit / Bitfield.groupBits) (system.received badge nfn) <
        distance (bit / Bitfield.groupBits) system := by
  obtain ⟨isPending, rfl⟩ := Notification.wait_eq_some.mp run
  have isHeld : bit / Bitfield.groupBits ∈ biterate badge := by
    rcases isComing.2 with ⟨old, isOld, isMember⟩ | isHeld
    · rw [isPending] at isOld
      cases isOld
      exact mem_biterate.mpr isMember
    · rw [isDone] at isHeld
      simp at isHeld
  refine ⟨⟨isComing.1, .inr isHeld⟩, ?_⟩
  simp [distance, System.received, isDone, isHeld, Prod.Lex.toLex_lt_toLex]

theorem swap_coming {groups : List Nat} (isComing : Coming bit system)
    (isNext : system.receiver = ⟨group :: groups, []⟩)
    (others : bit / Bitfield.groupBits ≠ group) :
    Coming bit (system.swap group groups) ∧
      distance (bit / Bitfield.groupBits) (system.swap group groups) <
        distance (bit / Bitfield.groupBits) system := by
  constructor
  · refine ⟨?_, ?_⟩
    · simp only [System.swap, Bitfield.isSet_swap, isComing.1, Bool.true_and, decide_eq_true_iff]
      exact others
    · rcases isComing.2 with isPending | isHeld
      · exact .inl isPending
      · rw [isNext, List.mem_cons] at isHeld
        exact .inr (isHeld.resolve_left others)
  · simp [distance, System.swap, isNext, others, Prod.Lex.toLex_lt_toLex]
    exact .inr rfl

theorem call_coming {next : Nat} {groups bits : List Nat} (isComing : Coming bit system)
    (isNext : system.receiver = ⟨groups, next :: bits⟩) :
    Coming bit (system.called groups bits) ∧
      distance (bit / Bitfield.groupBits) (system.called groups bits) <
        distance (bit / Bitfield.groupBits) system := by
  constructor
  · refine ⟨isComing.1, ?_⟩
    rcases isComing.2 with isPending | isHeld
    · exact .inl isPending
    · rw [isNext] at isHeld
      exact .inr isHeld
  · simp [distance, System.called, isNext, Prod.Lex.toLex_lt_toLex]
    exact .inr rfl

variable [DecidableEq Signaller]

/-- Only a swap of its group clears a bit. -/
theorem Step.isSet (step : Step caps action before after)
    (isSet : before.bitfield.isSet bit = true) :
    action = .swap (bit / Bitfield.groupBits) ∨ after.bitfield.isSet bit = true := by
  cases step with
  | set => exact .inr (by rw [isSet_fetchOr, isSet, Bool.true_or])
  | signal => exact .inr isSet
  | wait => exact .inr isSet
  | @swap _ group =>
      by_cases same : bit / Bitfield.groupBits = group
      · exact .inl (by rw [same])
      · right
        simp only [System.swap, Bitfield.isSet_swap, isSet, Bool.true_and, decide_eq_true_iff]
        exact same
  | call => exact .inr isSet

theorem owed_progress :
    Progress (Step caps) (signals signaller)
      (fun system : System Signaller => Invariant caps system ∧ Owed signaller bit system)
      (fun action system => Taken bit action system ∨
        action = .signal signaller ∧ Owed signaller bit system)
      (fun _ => (0 : ℕ)) where
  able := by
    intro system ⟨holds, _, isSignalling⟩
    have inCaps := holds.inCaps _ _ isSignalling
    exact ⟨.signal signaller, _, rfl, .signal isSignalling (List.getElem?_eq_getElem inCaps)⟩
  acting := by
    intro action before after step ⟨_, isOwed⟩ isMine
    cases step with
    | signal isSignalling isCap =>
        obtain rfl : _ = signaller := isMine
        exact .inl (.inr ⟨rfl, isOwed⟩)
    | _ => exact isMine.elim
  others := by
    intro action before after step ⟨holds, isOwed⟩ notMine
    rcases step.isSet isOwed.1 with isTaken | isSet
    · exact .inl (.inl ⟨isOwed.1, isTaken⟩)
    · refine .inr ⟨⟨step.invariant holds, isSet, ?_⟩, rfl⟩
      have isSignalling := isOwed.2
      cases step with
      | @set _ other _ isIdle =>
          have differs : signaller ≠ other := by
            intro same
            rw [← same, isSignalling] at isIdle
            exact Pc.noConfusion isIdle
          simp only [System.fetchOr, Function.update_of_ne differs]
          exact isSignalling
      | @signal _ other =>
          have differs : signaller ≠ other := fun same => notMine same.symm
          simp only [System.signal, Function.update_of_ne differs]
          exact isSignalling
      | _ => exact isSignalling

/-- Wherever the receiver is, a coming bit gives it something to do. -/
theorem coming_able (isComing : Coming bit system) :
    CanAct (Step caps) receives system := by
  cases receiver : system.receiver with
  | mk groups bits =>
      cases bits with
      | cons next bits => exact ⟨.call next, _, trivial, .call receiver⟩
      | nil =>
          cases groups with
          | cons group groups => exact ⟨.swap group, _, trivial, .swap receiver⟩
          | nil =>
              rcases isComing.2 with ⟨badge, isPending, _⟩ | isHeld
              · exact ⟨.wait, _, trivial, .wait receiver
                  (Notification.wait_eq_some.mpr ⟨isPending, rfl⟩)⟩
              · rw [receiver] at isHeld
                simp at isHeld

theorem coming_progress :
    Progress (Step caps) receives (Coming bit : System Signaller → Prop) (Taken bit)
      (distance (bit / Bitfield.groupBits)) where
  able := fun _ isComing => coming_able isComing
  acting := by
    intro action before after step isComing isMine
    cases step with
    | wait isDone run => exact .inr (wait_coming isComing isDone run)
    | @swap _ group _ isNext =>
        by_cases same : bit / Bitfield.groupBits = group
        · exact .inl ⟨isComing.1, by rw [same]⟩
        · exact .inr (swap_coming isComing isNext same)
    | call isNext => exact .inr (call_coming isComing isNext)
    | _ => exact isMine.elim
  others := by
    intro action before after step isComing notMine
    cases step with
    | set isIdle =>
        have isSet : _ = true := isComing.1
        exact .inr ⟨⟨by rw [isSet_fetchOr, isSet, Bool.true_or], isComing.2⟩, rfl⟩
    | signal isSignalling isCap =>
        refine .inr ⟨⟨isComing.1, ?_⟩, rfl⟩
        rcases isComing.2 with isPending | isHeld
        · exact .inl (pending_signal isCap (.inl isPending))
        · exact .inr isHeld
    | _ => exact absurd trivial notMine

theorem call_progress :
    Progress (Step caps) receives
      (fun system : System Signaller => bit ∈ system.receiver.bits)
      (fun action _ => action = .call bit)
      (fun system => system.receiver.bits.length) where
  able := by
    intro system isHeld
    cases receiver : system.receiver with
    | mk groups bits =>
        cases bits with
        | nil =>
            rw [receiver] at isHeld
            simp at isHeld
        | cons next bits => exact ⟨.call next, _, trivial, .call receiver⟩
  acting := by
    intro action before after step isHeld isMine
    cases step with
    | wait isDone =>
        rw [isDone] at isHeld
        simp at isHeld
    | swap isNext =>
        rw [isNext] at isHeld
        simp at isHeld
    | @call _ next groups bits isNext =>
        rw [isNext, List.mem_cons] at isHeld
        rcases isHeld with same | isLater
        · exact .inl (by rw [same])
        · exact .inr ⟨isLater, by simp [System.called, isNext]⟩
    | _ => exact isMine.elim
  others := by
    intro action before after step isHeld notMine
    cases step with
    | set => exact .inr ⟨isHeld, rfl⟩
    | signal => exact .inr ⟨isHeld, rfl⟩
    | _ => exact absurd trivial notMine

section Traces

variable {trace : Trace (Step caps) (start : System Signaller)} {time : Nat}

/-- The receiver and the signallers go on as long as they can. -/
structure FairTrace (trace : Trace (Step caps) (start : System Signaller)) : Prop where
  receiver : trace.Fair receives
  signallers : ∀ signaller, trace.Fair (signals signaller)

theorem coming_leadsTo (fair : FairTrace trace) (isComing : Coming bit (trace.state time)) :
    ∃ later ≥ time, trace.action later = some (.swap (bit / Bitfield.groupBits)) ∧
      (trace.state later).bitfield.isSet bit = true := by
  obtain ⟨later, isLater, action, acted, isSet, rfl⟩ :=
    coming_progress.leadsTo fair.receiver isComing
  exact ⟨later, isLater, acted, isSet⟩

theorem owed_leadsTo (fair : FairTrace trace) (isOwed : Owed signaller bit (trace.state time)) :
    ∃ later ≥ time, trace.action later = some (.swap (bit / Bitfield.groupBits)) ∧
      (trace.state later).bitfield.isSet bit = true := by
  have holds := run_invariant (trace.reachable time)
  obtain ⟨later, isLater, action, acted, done⟩ :=
    owed_progress.leadsTo (fair.signallers signaller) ⟨holds, isOwed⟩
  rcases done with ⟨isSet, rfl⟩ | ⟨rfl, isSet, isSignalling⟩
  · exact ⟨later, isLater, acted, isSet⟩
  · have isComing : Coming bit (trace.state (later + 1)) := by
      have step := Trace.step_of_action acted
      generalize trace.state (later + 1) = after at step
      cases step with
      | signal isSignalling' isCap =>
          rw [isSignalling] at isSignalling'
          cases isSignalling'
          exact ⟨isSet, .inl (pending_signal isCap (.inr rfl))⟩
    obtain ⟨swapped, isAfter, done⟩ := coming_leadsTo fair isComing
    exact ⟨swapped, by omega, done⟩

theorem swap_leadsTo (fair : FairTrace trace)
    (acted : trace.action time = some (.swap (bit / Bitfield.groupBits)))
    (isSet : (trace.state time).bitfield.isSet bit = true) :
    ∃ later > time, trace.action later = some (.call bit) := by
  have isHeld : bit ∈ (trace.state (time + 1)).receiver.bits := by
    have step := Trace.step_of_action acted
    generalize trace.state (time + 1) = after at step
    cases step with
    | swap => exact (Bitfield.mem_bits rfl).mpr isSet
  obtain ⟨later, isLater, action, acted, rfl⟩ := call_progress.leadsTo fair.receiver isHeld
  exact ⟨later, by omega, acted⟩

/-- A set bit is swapped out and then called back. -/
theorem isSet_leadsTo (fair : FairTrace trace)
    (isSet : (trace.state time).bitfield.isSet bit = true) :
    ∃ swapped ≥ time, trace.action swapped = some (.swap (bit / Bitfield.groupBits)) ∧
      (trace.state swapped).bitfield.isSet bit = true ∧
      ∃ called > swapped, trace.action called = some (.call bit) := by
  have swaps : ∃ swapped ≥ time,
      trace.action swapped = some (.swap (bit / Bitfield.groupBits)) ∧
        (trace.state swapped).bitfield.isSet bit = true := by
    have holds := run_invariant (trace.reachable time)
    rcases holds.announced bit isSet with isPending | ⟨signaller, isSignalling⟩ | isHeld
    · exact coming_leadsTo fair ⟨isSet, .inl isPending⟩
    · exact owed_leadsTo fair ⟨isSet, isSignalling⟩
    · exact coming_leadsTo fair ⟨isSet, .inr isHeld⟩
  obtain ⟨swapped, isAfter, acted, wasSet⟩ := swaps
  exact ⟨swapped, isAfter, acted, wasSet, swap_leadsTo fair acted wasSet⟩

theorem set_isSet (acted : trace.action time = some (.set signaller bit)) :
    (trace.state (time + 1)).bitfield.isSet bit = true := by
  have step := Trace.step_of_action acted
  generalize trace.state (time + 1) = after at step
  cases step with
  | set =>
      rw [isSet_fetchOr, beq_self_eq_true]
      exact Bool.or_true _

end Traces

/-- In every state of a run the group of every set bit is pending, or about to be signalled, or
about to be swapped; and in a fair trace every `set` is followed by a swap that takes the bit and
by the callback for it. -/
theorem run_delivers_bits :
    (∀ system : System Signaller, Relation.ReflTransGen (Moves caps) start system →
      ∀ bit, system.bitfield.isSet bit = true → system.Announced (bit / Bitfield.groupBits)) ∧
    ∀ trace : Trace (Step caps) (start : System Signaller), FairTrace trace →
      ∀ time signaller bit, trace.action time = some (.set signaller bit) →
        ∃ swapped > time, trace.action swapped = some (.swap (bit / Bitfield.groupBits)) ∧
          (trace.state swapped).bitfield.isSet bit = true ∧
          ∃ called > swapped, trace.action called = some (.call bit) := by
  constructor
  · intro system run bit isSet
    exact (run_invariant run).announced bit isSet
  · intro trace fair time signaller bit acted
    obtain ⟨swapped, isAfter, done⟩ := isSet_leadsTo fair (set_isSet acted)
    exact ⟨swapped, by omega, done⟩

/-! ## One event of the second group -/

def twoGroups : NfnCaps where
  badges := [1, 2]
  fits := by decide
  badged := by decide

def oneEventStep (system : System Unit) : Nat → System Unit
  | 0 => system.fetchOr () 70
  | 1 => system.signal () 2
  | 2 => system.received 2 .empty
  | 3 => system.swap 1 []
  | 4 => system.called [] []
  | _ => system

def oneEventState : Nat → System Unit
  | 0 => start
  | time + 1 => oneEventStep (oneEventState time) time

theorem oneEventState_done (time : Nat) : oneEventState (time + 5) = oneEventState 5 := by
  induction time with
  | zero => rfl
  | succ time ih => exact ih

def oneEventAction : Nat → Option (Action Unit)
  | 0 => some (.set () 70)
  | 1 => some (.signal ())
  | 2 => some .wait
  | 3 => some (.swap 1)
  | 4 => some (.call 70)
  | _ => none

def oneEvent : Trace (Step twoGroups) (start : System Unit) where
  state := oneEventState
  action := oneEventAction
  starts := rfl
  moves := by
    intro time
    match time with
    | 0 => exact @Step.set _ _ _ start () 70 rfl (by decide)
    | 1 => exact @Step.signal _ _ _ (oneEventState 1) () 1 rfl 2 rfl
    | 2 => exact @Step.wait _ _ _ (oneEventState 2) rfl 2 .empty rfl
    | 3 => exact @Step.swap _ _ _ (oneEventState 3) 1 [] (by decide +kernel)
    | 4 => exact @Step.call _ _ _ (oneEventState 4) 70 [] [] (by decide +kernel)
    | _ + 5 => rfl

theorem oneEvent_fair : FairTrace oneEvent := by
  constructor
  · intro time
    refine ⟨time + 5, by omega, .inr ?_⟩
    intro ⟨action, next, isMine, step⟩
    have isDone : (oneEvent.state (time + 5)).receiver = ⟨[], []⟩ := by
      rw [show oneEvent.state (time + 5) = oneEventState 5 from oneEventState_done time]
      rfl
    have notPending : (oneEvent.state (time + 5)).nfn.wait = none := by
      rw [show oneEvent.state (time + 5) = oneEventState 5 from oneEventState_done time]
      rfl
    generalize oneEvent.state (time + 5) = final at *
    cases step with
    | wait _ run =>
        rw [notPending] at run
        simp at run
    | swap isNext =>
        rw [isDone] at isNext
        simp at isNext
    | call isNext =>
        rw [isDone] at isNext
        simp at isNext
    | _ => exact isMine
  · intro signaller time
    refine ⟨time + 5, by omega, .inr ?_⟩
    intro ⟨action, next, isMine, step⟩
    have isIdle : (oneEvent.state (time + 5)).signallers = fun _ => .idle := by
      rw [show oneEvent.state (time + 5) = oneEventState 5 from oneEventState_done time]
      rfl
    generalize oneEvent.state (time + 5) = final at *
    cases step with
    | signal isSignalling =>
        rw [isIdle] at isSignalling
        exact Pc.noConfusion isSignalling
    | _ => exact isMine

theorem run_delivers_bits_oneEvent :
    (oneEventState 1).Announced 1 ∧ ∃ called, oneEvent.action called = some (.call 70) := by
  have run : Relation.ReflTransGen (Moves twoGroups) start (oneEventState 1) :=
    .single ⟨_, .set rfl (by decide)⟩
  refine ⟨run_delivers_bits.1 _ run 70 (by decide), ?_⟩
  obtain ⟨_, _, _, _, called, _, acted⟩ :=
    run_delivers_bits.2 oneEvent oneEvent_fair 0 () 70 rfl
  exact ⟨called, acted⟩

end IceCap.Events.Delivery
