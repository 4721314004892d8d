import IceCap.Ring.Fifo

/-!
# Whole calls

A call of a method together with all the accesses it makes, nobody stepping in
between.  `call_called` says what they do to the registers that the two parties share.
-/

set_option autoImplicit false

namespace IceCap.Ring

open IceCap.Library

/-- The status bit of the peer that a call tests and clears. -/
def Action.tests : Action → Option Status
  | notifyRead => some .notifyWrite
  | notifyWrite => some .notifyRead
  | _ => none

/-- The status bit that a call sets, and the value. -/
def Action.sets : Action → Option (Status × Bool)
  | setNotify field value => some (field, value)
  | _ => none

/-- How far a call goes on in the peer's buffer. -/
def Action.advances : Action → Option Nat
  | skip n | read n => some n
  | _ => none

/-- The accesses a call leaves: at most a load to test the bit, a load and a store to clear it. -/
def finish (who : Who) : Exec Empty Parties Unit := do
  perform who .proceed
  perform who .proceed
  perform who .proceed

/-- A call from its first access to its last.  The value is whether it has kicked the peer. -/
def call (who : Who) (action : Action) : Exec Empty Parties Bool := do
  let before ← Exec.get
  Exec.assert ((before who).pc = .idle)
  perform who action
  finish who
  let after ← Exec.get
  pure (decide ((before who).kicks.length < (after who).kicks.length))

/-! ## Status bits -/

theorem Status.read_modify (field other : Status) (value : Bool) (status : BitVec 64) :
    other.read (field.modify value status) =
      if other = field then value else other.read status := by
  cases field <;> cases other <;> cases value <;>
    simp [Status.read, Status.modify, Status.offset]

/-! ## The accesses left -/

section Finish
variable {parties : Parties} {who : Who}

theorem perform_proceed_idle (isPc : (parties who).pc = .idle) :
    perform who .proceed parties = .ok () parties := by
  simp [perform, proceed, isPc]

theorem finish_idle (isPc : (parties who).pc = .idle) : finish who parties = .ok () parties := by
  unfold finish
  simp only [Exec.bind_eq_ok]
  exact ⟨(), _, perform_proceed_idle isPc, (), _, perform_proceed_idle isPc,
    perform_proceed_idle isPc⟩

theorem finish_set {status : BitVec 64} (isPc : (parties who).pc = .set status) :
    finish who parties = .ok () (Function.update parties who { parties who with
      pc := .idle, ctrl := { (parties who).ctrl with status } }) := by
  unfold finish
  simp only [Exec.bind_eq_ok]
  refine ⟨(), _, ?_, (), _, perform_proceed_idle ?_, perform_proceed_idle ?_⟩
  · simp [perform, proceed, modifyParty, isPc]
  · rw [Function.update_self]
  · rw [Function.update_self]

theorem finish_unset {field : Status} (isPc : (parties who).pc = .test field)
    (unset : field.read (parties who.other).ctrl.status = false) :
    finish who parties = .ok () (Function.update parties who { parties who with pc := .idle }) := by
  unfold finish
  simp only [Exec.bind_eq_ok]
  refine ⟨(), _, perform_test isPc unset, (), _, perform_proceed_idle ?_, perform_proceed_idle ?_⟩
  · rw [Function.update_self]
  · rw [Function.update_self]

/-- The bit is found set: it is cleared, and the peer is kicked. -/
theorem finish_clear {field : Status} (isPc : (parties who).pc = .test field)
    (isSet : field.read (parties who.other).ctrl.status = true) :
    ∃ after, finish who parties = .ok () after ∧
      after who = { parties who with pc := .idle, kicks := field :: (parties who).kicks } ∧
      after who.other = { parties who.other with
        ctrl := { (parties who.other).ctrl with
          status := field.modify false (parties who.other).ctrl.status } } := by
  have apart := who.other_ne
  obtain ⟨tested, test, testedWho, testedOther⟩ : ∃ tested,
      perform who .proceed parties = .ok () tested ∧
      tested who = { parties who with pc := .clear field } ∧
      tested who.other = parties who.other :=
    ⟨_, by simp [perform, proceed, modifyParty, isPc, isSet]; rfl, by simp, by simp [apart]⟩
  obtain ⟨loaded, load, loadedWho, loadedOther⟩ : ∃ loaded,
      perform who .proceed tested = .ok () loaded ∧
      loaded who = { parties who with
        pc := .cleared field (field.modify false (parties who.other).ctrl.status) } ∧
      loaded who.other = parties who.other :=
    ⟨_, by simp [perform, proceed, modifyParty, testedWho, testedOther]; rfl, by simp,
      by simp [apart, testedOther]⟩
  obtain ⟨stored, store, storedWho, storedOther⟩ : ∃ stored,
      perform who .proceed loaded = .ok () stored ∧
      stored who = { parties who with pc := .idle, kicks := field :: (parties who).kicks } ∧
      stored who.other = { parties who.other with
        ctrl := { (parties who.other).ctrl with
          status := field.modify false (parties who.other).ctrl.status } } :=
    ⟨_, by simp [perform, proceed, modifyParty, loadedWho, loadedOther, apart.symm]; rfl, by simp,
      by simp [apart]⟩
  refine ⟨stored, ?_, storedWho, storedOther⟩
  unfold finish
  simp only [Exec.bind_eq_ok]
  exact ⟨(), tested, test, (), loaded, load, store⟩

end Finish

/-! ## What a call does -/

/-- The effect of a call on the registers, and on the offsets of the two parties. -/
structure Called (who : Who) (action : Action) (before after : Parties) (kicked : Bool) : Prop where
  idle : (after who).pc = .idle
  peerPc : (after who.other).pc = (before who.other).pc
  peerRb : (after who.other).rb = (before who.other).rb
  peerOffsetR : (after who.other).ctrl.offsetR = (before who.other).ctrl.offsetR
  peerOffsetW : (after who.other).ctrl.offsetW = (before who.other).ctrl.offsetW
  peerStatus : ∀ field, field.read (after who.other).ctrl.status =
    if action.tests = some field then false else field.read (before who.other).ctrl.status
  offsetW : (after who).ctrl.offsetW =
    if action = .notifyWrite then (before who).rb.privateOffsetW else (before who).ctrl.offsetW
  status : ∀ field, field.read (after who).ctrl.status =
    if action.sets = some (field, true) then true
    else if action.sets = some (field, false) then false
    else field.read (before who).ctrl.status
  offsetR : (after who).rb.privateOffsetR = action.advances.elim
    (before who).rb.privateOffsetR (wrappingAdd (before who).rb.privateOffsetR)
  word : (before who).rb.privateOffsetW < usizeModulus →
    (after who).rb.privateOffsetW < usizeModulus
  kicks : kicked = (action.tests.any fun field => field.read (before who.other).ctrl.status)

section Effects
variable {before after : Parties} {who : Who} {action : Action} {kicked : Bool}

theorem call_eq_ok : call who action before = .ok kicked after ↔
    (before who).pc = .idle ∧ ∃ middle, perform who action before = .ok () middle ∧
      finish who middle = .ok () after ∧
      decide ((before who).kicks.length < (after who).kicks.length) = kicked := by
  simp only [call, Exec.bind_eq_ok, Exec.get_eq_ok, Exec.assert_eq_ok, Exec.pure_eq_ok]
  constructor
  · rintro ⟨_, _, ⟨rfl, rfl⟩, _, _, ⟨idle, rfl⟩, _, middle, performed, _, _, finished, _, _,
      ⟨rfl, rfl⟩, rfl, rfl⟩
    exact ⟨idle, middle, performed, finished, rfl⟩
  · rintro ⟨idle, middle, performed, finished, rfl⟩
    exact ⟨_, _, ⟨rfl, rfl⟩, (), before, ⟨idle, rfl⟩, (), middle, performed, (), after, finished,
      _, _, ⟨rfl, rfl⟩, rfl, rfl⟩

/-- A call that leaves the peer's part alone. -/
theorem Called.own {party : Party} (isPc : party.pc = .idle) (offsetW : party.ctrl.offsetW = (before who).ctrl.offsetW)
    (status : ∀ field, field.read party.ctrl.status =
      if action.sets = some (field, true) then true
      else if action.sets = some (field, false) then false
      else field.read (before who).ctrl.status)
    (offsetR : party.rb.privateOffsetR = action.advances.elim
      (before who).rb.privateOffsetR (wrappingAdd (before who).rb.privateOffsetR))
    (word : (before who).rb.privateOffsetW < usizeModulus → party.rb.privateOffsetW < usizeModulus)
    (silent : action.tests = none) :
    Called who action before (Function.update before who party) false where
  idle := by rw [Function.update_self, isPc]
  peerPc := by rw [Function.update_of_ne who.other_ne]
  peerRb := by rw [Function.update_of_ne who.other_ne]
  peerOffsetR := by rw [Function.update_of_ne who.other_ne]
  peerOffsetW := by rw [Function.update_of_ne who.other_ne]
  peerStatus := by simp [silent, Function.update_of_ne who.other_ne]
  offsetW := by
    have noWrite : action ≠ .notifyWrite := by
      rintro rfl
      simp [Action.tests] at silent
    rw [if_neg noWrite, Function.update_self, offsetW]
  status := by simpa using status
  offsetR := by simpa using offsetR
  word := by simpa using word
  kicks := by simp [silent]

/-- `notify_read` and `notify_write`: an offset is stored, and then the peer's bit is tested. -/
theorem Called.notified {party : Party} {field : Status} {stored : Parties}
    (tests : action.tests = some field)
    (silent : action.sets = none) (still : action.advances = none) (isStored : stored = Function.update before who party)
    (isPc : party.pc = .test field) (rb : party.rb = (before who).rb)
    (status : party.ctrl.status = (before who).ctrl.status)
    (kicks : party.kicks = (before who).kicks)
    (offsetW : party.ctrl.offsetW = if action = .notifyWrite then (before who).rb.privateOffsetW
      else (before who).ctrl.offsetW)
    (finished : finish who stored = .ok () after) :
    Called who action before after
      (decide ((before who).kicks.length < (after who).kicks.length)) := by
  have apart := who.other_ne
  subst isStored
  have isTest : (Function.update before who party who).pc = .test field := by simp [isPc]
  have samePeer : (Function.update before who party who.other).ctrl.status =
      (before who.other).ctrl.status := by simp [apart]
  cases isTested : field.read (before who.other).ctrl.status with
  | false =>
      rw [finish_unset isTest (by rw [samePeer, isTested])] at finished
      obtain ⟨_, rfl⟩ := Outcome.ok.inj finished
      refine ⟨?_, ?_, ?_, ?_, ?_, ?_, ?_, ?_, ?_, ?_, ?_⟩
      · simp
      · simp [apart]
      · simp [apart]
      · simp [apart]
      · simp [apart]
      · intro other
        simp only [tests, Function.update_of_ne apart, Option.some.injEq]
        split
        · next same => rw [← same, isTested]
        · rfl
      · simpa using offsetW
      · simp [silent, status]
      · simp [rb, still]
      · simp [rb]
      · simp [tests, kicks, isTested]
  | true =>
      obtain ⟨cleared, isCleared, ofWho, ofOther⟩ :=
        finish_clear isTest (by rw [samePeer, isTested])
      obtain ⟨_, rfl⟩ := Outcome.ok.inj (isCleared.symm.trans finished)
      refine ⟨?_, ?_, ?_, ?_, ?_, ?_, ?_, ?_, ?_, ?_, ?_⟩
      · rw [ofWho]
      · simp [ofOther, apart]
      · simp [ofOther, apart]
      · simp [ofOther, apart]
      · simp [ofOther, apart]
      · intro other
        simp [ofOther, apart, tests, Status.read_modify, eq_comm]
      · simpa [ofWho] using offsetW
      · simp [ofWho, silent, status]
      · simp [ofWho, rb, still]
      · simp [ofWho, rb]
      · simp [ofWho, tests, kicks, isTested]

theorem Called.finished {party : Party}
    (finished : finish who (Function.update before who party) = .ok () after)
    (isPc : party.pc = .idle) (kicks : party.kicks = (before who).kicks)
    (ctrl : party.ctrl = (before who).ctrl) (offsetR : party.rb.privateOffsetR =
      action.advances.elim (before who).rb.privateOffsetR
        (wrappingAdd (before who).rb.privateOffsetR))
    (word : (before who).rb.privateOffsetW < usizeModulus → party.rb.privateOffsetW < usizeModulus)
    (silent : action.tests = none) (unset : action.sets = none) :
    Called who action before after
      (decide ((before who).kicks.length < (after who).kicks.length)) := by
  rw [finish_idle (by rw [Function.update_self, isPc])] at finished
  obtain ⟨_, rfl⟩ := Outcome.ok.inj finished
  have called : Called who action before (Function.update before who party) false :=
    .own isPc (by rw [ctrl]) (by simp [unset, ctrl]) offsetR word silent
  simpa [kicks] using called

theorem call_called (run : call who action before = .ok kicked after) :
    Called who action before after kicked := by
  obtain ⟨isIdle, middle, performed, finished, rfl⟩ := call_eq_ok.mp run
  cases action with
  | pollRead | pollWrite | peek n =>
      simp only [perform, modifyParty, Exec.bind_eq_ok, Exec.get_eq_ok, Exec.unwrap_eq_ok,
        Exec.modify_eq_ok] at performed
      obtain ⟨_, _, ⟨rfl, rfl⟩, result, _, ⟨found, rfl⟩, rfl⟩ := performed
      exact .finished finished isIdle rfl rfl rfl id rfl rfl
  | skip n =>
      obtain ⟨_, rfl⟩ := Outcome.ok.inj performed
      exact .finished finished isIdle rfl rfl rfl id rfl rfl
  | read n =>
      simp only [perform, modifyParty, Exec.bind_eq_ok, Exec.get_eq_ok, Exec.unwrap_eq_ok,
        Exec.modify_eq_ok] at performed
      obtain ⟨_, _, ⟨rfl, rfl⟩, result, _, ⟨found, rfl⟩, rfl⟩ := performed
      have next := RingBuffer.read_offsets found
      exact .finished finished isIdle rfl rfl (by rw [next]; rfl) (by rw [next]; exact id) rfl rfl
  | write bytes =>
      simp only [perform, modifyParty, Exec.bind_eq_ok, Exec.get_eq_ok, Exec.unwrap_eq_ok,
        Exec.modify_eq_ok] at performed
      obtain ⟨_, _, ⟨rfl, rfl⟩, result, _, ⟨found, rfl⟩, rfl⟩ := performed
      have next := RingBuffer.write_offsets found
      exact .finished finished isIdle rfl rfl (by rw [next]; rfl)
        (fun _ => by rw [next]; exact Nat.mod_lt _ (by decide)) rfl rfl
  | notifyRead | notifyWrite =>
      obtain ⟨_, isStored⟩ := Outcome.ok.inj performed
      exact .notified rfl rfl rfl isStored.symm rfl rfl rfl rfl (by simp) finished
  | setNotify field value =>
      obtain ⟨_, isMiddle⟩ := Outcome.ok.inj performed
      subst isMiddle
      have isPc : (Function.update before who { before who with
          pc := .set (field.modify value (before who).ctrl.status) } who).pc =
            .set (field.modify value (before who).ctrl.status) := by
        rw [Function.update_self]
      rw [finish_set isPc] at finished
      obtain ⟨_, rfl⟩ := Outcome.ok.inj finished
      have called : Called who (.setNotify field value) before (Function.update before who
          { before who with
            pc := .idle
            ctrl := { (before who).ctrl with
              status := field.modify value (before who).ctrl.status } }) false := by
        refine Called.own rfl rfl ?_ rfl id rfl
        intro other
        cases value <;> simp [Action.sets, Status.read_modify, eq_comm]
      simpa using called
  | proceed =>
      rw [perform_proceed_idle isIdle] at performed
      obtain ⟨_, rfl⟩ := Outcome.ok.inj performed
      rw [finish_idle isIdle] at finished
      obtain ⟨_, rfl⟩ := Outcome.ok.inj finished
      have called : Called who .proceed before (Function.update before who (before who)) false :=
        .own isIdle rfl (by simp [Action.sets]) rfl id rfl
      simpa using called

/-- What the calls of a party leave alone that do not set its own bits. -/
def peerSide (who : Who) (parties : Parties) : Pc × RingBuffer × Nat × Nat × (Status → Bool) :=
  ((parties who.other).pc, (parties who.other).rb, (parties who.other).ctrl.offsetR,
    (parties who.other).ctrl.offsetW, fun field => field.read (parties who).ctrl.status)

/-- And what those leave alone that do not go on in the peer's buffer either. -/
def aside (who : Who) (parties : Parties) :=
  (peerSide who parties, (parties who).rb.privateOffsetR)

theorem Called.peerSide (called : Called who action before after kicked)
    (unset : action.sets = none) : peerSide who after = peerSide who before := by
  have status : (fun field => Status.read field (after who).ctrl.status) =
      fun field => Status.read field (before who).ctrl.status := by
    funext field
    rw [called.status, unset]
    simp
  unfold Ring.peerSide
  rw [called.peerPc, called.peerRb, called.peerOffsetR, called.peerOffsetW, status]

theorem call_keeps_peerSide (unset : action.sets = none) :
    Exec.Keeps (peerSide who) (call who action) :=
  fun _ _ _ run => (call_called run).peerSide unset

theorem call_keeps (unset : action.sets = none) (still : action.advances = none) :
    Exec.Keeps (aside who) (call who action) := by
  intro before kicked after run
  have called := call_called run
  have offsetR := called.offsetR
  rw [still] at offsetR
  exact Prod.ext (called.peerSide unset) offsetR

/-! ## Calls are runs -/

end Effects

end IceCap.Ring
