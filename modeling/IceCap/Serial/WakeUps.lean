import IceCap.Serial.System

/-!
# Wake-ups of the serial server

The server asks for a kick with `NOTIFY_READ`, which the kick clears again.  It
asks anew at the end of `handle_rx`, after its last `poll`: what a client
publishes in between is neither polled nor announced.  As long as no client
does that, the server never waits while there is something to read.
-/

set_option autoImplicit false

namespace IceCap.Serial

open IceCap.Library
open IceCap.Ring (Link Parties Who Action Status call usizeModulus wrappingAdd)

variable {n : Nat}

/-- What the wake-ups of a client depend on: how far it has written and told the server so, how far
the server has read, and whether the server has asked for a kick. -/
structure View where
  written : Nat
  published : Nat
  taken : Nat
  armed : Bool

def view (link : Link) : View where
  written := (link.parties .b).rb.privateOffsetW
  published := (link.parties .b).ctrl.offsetW
  taken := (link.parties .a).rb.privateOffsetR
  armed := Status.notifyRead.read (link.parties .a).ctrl.status

namespace System

/-- The client has written more than it has published. -/
def NotifyDue (system : System n) (client : Fin n) : Prop :=
  (view (system.links client)).written ≠ (view (system.links client)).published

/-- What has been published and not been read will be read. -/
def Woken (system : System n) : Prop :=
  system.agenda = [] → ∀ client,
    (view (system.links client)).published ≠ (view (system.links client)).taken →
      .con client ∈ system.events ∨ system.NotifyDue client

/-- A client publishes when the server has already polled and not yet asked for a kick. -/
def Late (system : System n) (event : Move n) : Prop :=
  ∃ client, event = .client client .notifyWrite ∧ system.NotifyDue client ∧
    (view (system.links client)).armed = false ∧ .con client ∉ system.events ∧
    .poll client ∉ system.agenda

instance (system : System n) (client : Fin n) : Decidable (system.NotifyDue client) :=
  inferInstanceAs (Decidable (_ ≠ _))

instance (system : System n) (event : Move n) : Decidable (system.Late event) :=
  inferInstanceAs (Decidable (∃ client, event = .client client .notifyWrite ∧
    system.NotifyDue client ∧ (view (system.links client)).armed = false ∧
    .con client ∉ system.events ∧ .poll client ∉ system.agenda))

/-! ## The calls -/

section Views
variable {link after : Link}

theorem view_aside {α : Type} {method : Exec Empty Link α} {value : α}
    (keeps : Exec.Keeps (Ring.BufferedRingBuffer.aside .a) method)
    (run : method link = .ok value after) : view after = view link := by
  have same := keeps _ _ _ run
  simp only [Ring.BufferedRingBuffer.aside, Ring.aside, Ring.peerSide, Prod.mk.injEq, Who.other]
    at same
  obtain ⟨⟨_, rb, _, offsetW, status⟩, offsetR⟩ := same
  unfold view
  rw [rb, offsetW, offsetR, congrFun status .notifyRead]

theorem view_setNotify {field : Status} {value kicked : Bool}
    (run : Ring.BufferedRingBuffer.ringBuffer (call .a (.setNotify field value)) link =
      .ok kicked after) :
    view after = if field = .notifyRead then { view link with armed := value } else view link := by
  obtain ⟨parties, called, rfl⟩ := Ring.BufferedRingBuffer.ringBuffer_eq_ok.mp run
  have ⟨_, _, rb, _, offsetW, _, _, status, offsetR, _, _⟩ := Ring.call_called called
  simp only [Who.other] at rb offsetW
  have isArmed := status .notifyRead
  have isTaken : (parties .a).rb.privateOffsetR = (link.parties .a).rb.privateOffsetR := offsetR
  unfold view
  rw [rb, offsetW, isTaken, isArmed]
  cases field <;> cases value <;> simp [Action.sets]

/-- What a client's call shows the server. -/
theorem view_client {action : Action} {kicked : Bool}
    (run : Ring.BufferedRingBuffer.ringBuffer (call .b action) link = .ok kicked after) :
    (view after).taken = (view link).taken ∧
      ((view link).written < usizeModulus → (view after).written < usizeModulus) ∧
      if action = .notifyWrite then kicked = (view link).armed ∧ (view after).armed = false ∧
        (view after).published = (view link).written
      else (view after).armed = (view link).armed ∧
        (view after).published = (view link).published := by
  obtain ⟨parties, called, rfl⟩ := Ring.BufferedRingBuffer.ringBuffer_eq_ok.mp run
  have ⟨_, _, rb, _, _, peerStatus, offsetW, _, _, word, kicks⟩ := Ring.call_called called
  simp only [Who.other] at rb peerStatus kicks
  refine ⟨by simp only [view, rb], word, ?_⟩
  split
  · next isNotify =>
      subst isNotify
      refine ⟨by simpa [view, Action.tests] using kicks, ?_, by simpa [view] using offsetW⟩
      simpa [view, Action.tests] using peerStatus .notifyRead
  · next other =>
      have untested : action.tests ≠ some .notifyRead := by
        cases action <;> simp_all [Action.tests]
      refine ⟨?_, by simpa [view, other] using offsetW⟩
      simpa [view, untested] using peerStatus .notifyRead

theorem view_rxInto {bytes : List UInt8}
    (run : Ring.BufferedRingBuffer.rxInto .a 1 link = .ok bytes after) :
    (view link).taken ≤ (view link).published ∧
      view after = { view link with taken := if (view link).taken = (view link).published
        then (view link).taken else wrappingAdd (view link).taken 1 } := by
  have kept := Ring.BufferedRingBuffer.rxInto_keeps 1 _ _ _ run
  simp only [Ring.peerSide, Prod.mk.injEq, Who.other] at kept
  obtain ⟨_, rb, _, offsetW, status⟩ := kept
  obtain ⟨available, polled, isTaken⟩ := Ring.BufferedRingBuffer.rxInto_offsetR run
  simp only [Ring.RingBuffer.pollRead] at polled
  split at polled
  · next asserted =>
      have reached : (view link).taken ≤ (view link).published := asserted.1
      have isAvailable : available = (view link).published - (view link).taken :=
        (Option.some.inj polled).symm
      refine ⟨reached, ?_⟩
      have advanced : (view after).taken = if (view link).taken = (view link).published
          then (view link).taken else wrappingAdd (view link).taken 1 := by
        by_cases none : (view link).taken = (view link).published
        · rw [if_pos none]
          rwa [if_neg (by omega)] at isTaken
        · have one : min 1 available = 1 := by omega
          rw [if_neg none]
          rwa [one, if_pos Nat.one_pos] at isTaken
      rw [← advanced]
      unfold view
      rw [rb, offsetW, congrFun status .notifyRead]
  · simp at polled

end Views

/-! ## The invariant -/

/-- Without a kick on its way, the server will ask for one; and what it has not read is in the
rounds it has planned, or it will poll. -/
structure Awake (system : System n) (client : Fin n) : Prop where
  written : (view (system.links client)).written < usizeModulus
  published : (view (system.links client)).published < usizeModulus
  armed : (view (system.links client)).armed = true ∨ .con client ∈ system.events ∨
    .enableNotifyRead client ∈ system.agenda
  seen : (view (system.links client)).published = (view (system.links client)).taken ∨
    .con client ∈ system.events ∨ .poll client ∈ system.agenda ∨
    ((view (system.links client)).taken ≤ (view (system.links client)).published ∧
      (view (system.links client)).published - (view (system.links client)).taken ≤
        system.agenda.count (.rxInto client))

theorem woken_of_awake {system : System n} (awake : ∀ client, system.Awake client) :
    system.Woken := by
  intro idle client unread
  rcases (awake client).seen with read | con | polled | planned
  · exact absurd read unread
  · exact .inl con
  · rw [idle] at polled
    simp at polled
  · rw [idle, List.count_nil] at planned
    omega

theorem new_awake {bufs : Fin n → Who → List UInt8} {system : System n}
    (started : System.new bufs = some system) (client : Fin n) : system.Awake client := by
  obtain ⟨server, _, rfl⟩ := Option.map_eq_some_iff.mp started
  have planned : .enableNotifyRead client ∈ startUp n := by
    unfold startUp
    rw [List.mem_flatMap]
    exact ⟨client, List.mem_finRange client, by simp⟩
  have zero : 0 < usizeModulus := by decide
  exact ⟨zero, zero, .inr (.inr planned), .inl rfl⟩

section Steps
variable {before after : System n} {client : Fin n}

/-- The server goes on with something else. -/
theorem Awake.proceed {task : Task n} {rest : List (Task n)} (more : List (Task n))
    (awake : before.Awake client)
    (isAgenda : before.agenda = task :: rest) (isNext : after.agenda = more ++ rest)
    (sameView : view (after.links client) = view (before.links client))
    (sameEvents : after.events = before.events) (notEnable : task ≠ .enableNotifyRead client)
    (notPoll : task ≠ .poll client) (notRead : task ≠ .rxInto client) :
    after.Awake client := by
  have ⟨written, published, armed, seen⟩ := awake
  rw [isAgenda] at armed seen
  refine ⟨by rwa [sameView], by rwa [sameView], ?_, ?_⟩
  · rw [sameView, sameEvents, isNext, List.mem_append]
    rcases armed with armed | con | planned
    · exact .inl armed
    · exact .inr (.inl con)
    · exact .inr (.inr (.inr ((List.mem_cons.mp planned).resolve_left notEnable.symm)))
  · rw [sameView, sameEvents, isNext, List.mem_append, List.count_append]
    rw [List.count_cons_of_ne notRead] at seen
    rcases seen with read | con | polled | ⟨reached, planned⟩
    · exact .inl read
    · exact .inr (.inl con)
    · exact .inr (.inr (.inl (.inr ((List.mem_cons.mp polled).resolve_left notPoll.symm))))
    · exact .inr (.inr (.inr ⟨reached, by omega⟩))

/-- The server asks for a kick. -/
theorem Awake.enable {rest : List (Task n)} (awake : before.Awake client)
    (isAgenda : before.agenda = .enableNotifyRead client :: rest) (isNext : after.agenda = rest)
    (isView : view (after.links client) = { view (before.links client) with armed := true })
    (sameEvents : after.events = before.events) : after.Awake client := by
  have ⟨written, published, _, seen⟩ := awake
  rw [isAgenda] at seen
  refine ⟨by rwa [isView], by rwa [isView], .inl (by rw [isView]), ?_⟩
  rw [isView, sameEvents, isNext]
  simpa using seen

/-- The server polls, and plans a round for each byte there is. -/
theorem Awake.poll {rest : List (Task n)} {count : Nat} (awake : before.Awake client)
    (isAgenda : before.agenda = .poll client :: rest)
    (isNext : after.agenda = List.replicate count (.rxInto client) ++ rest)
    (sameView : view (after.links client) = view (before.links client))
    (sameEvents : after.events = before.events)
    (reached : (view (before.links client)).taken ≤ (view (before.links client)).published)
    (isCount : count =
      (view (before.links client)).published - (view (before.links client)).taken) :
    after.Awake client := by
  have ⟨written, published, armed, _⟩ := awake
  rw [isAgenda] at armed
  refine ⟨by rwa [sameView], by rwa [sameView], ?_, .inr (.inr (.inr ?_))⟩
  · rw [sameView, sameEvents, isNext]
    simp only [List.mem_append]
    rcases armed with armed | con | planned
    · exact .inl armed
    · exact .inr (.inl con)
    · exact .inr (.inr (.inr (by simpa using planned)))
  · rw [sameView, isNext, List.count_append, List.count_replicate_self]
    exact ⟨reached, by omega⟩

/-- The server reads a byte, if there is one. -/
theorem Awake.read {rest : List (Task n)} (awake : before.Awake client)
    (isAgenda : before.agenda = .rxInto client :: rest) (isNext : after.agenda = rest)
    (sameEvents : after.events = before.events)
    (reached : (view (before.links client)).taken ≤ (view (before.links client)).published)
    (isView : view (after.links client) = { view (before.links client) with
      taken := if (view (before.links client)).taken = (view (before.links client)).published
        then (view (before.links client)).taken
        else wrappingAdd (view (before.links client)).taken 1 }) :
    after.Awake client := by
  have ⟨written, published, armed, seen⟩ := awake
  rw [isAgenda] at armed seen
  refine ⟨by rwa [isView], by rwa [isView], ?_, ?_⟩
  · rw [isView, sameEvents, isNext]
    simpa using armed
  · rw [isView, sameEvents, isNext]
    simp only
    split
    · next none => exact .inl none.symm
    · next some =>
        rw [List.count_cons_self] at seen
        have less : (view (before.links client)).taken + 1 < usizeModulus := by omega
        rw [Ring.wrappingAdd_eq less]
        rcases seen with read | con | polled | ⟨_, planned⟩
        · exact absurd read.symm some
        · exact .inr (.inl con)
        · exact .inr (.inr (.inl (by simpa using polled)))
        · exact .inr (.inr (.inr ⟨by omega, by omega⟩))

/-- A call of the server on the ring buffer of one client leaves the others' alone. -/
theorem view_update {links : Fin n → Link} {link : Link} {other : Fin n}
    (same : client = other → view link = view (links other)) :
    view (Function.update links other link client) = view (links client) := by
  by_cases isOther : client = other
  · rw [isOther, Function.update_self, same isOther]
  · rw [Function.update_of_ne isOther]

theorem runTask_awake {char : Option UInt8} {task : Task n} {rest : List (Task n)}
    (awake : ∀ client, before.Awake client) (isAgenda : before.agenda = task :: rest)
    (run : runTask char task { before with agenda := rest } = .ok () after) :
    after.Awake client := by
  cases task with
  | enableNotifyRead other =>
      simp only [runTask, onLink, Exec.bind_eq_ok, Exec.focus_eq_ok, Exec.pure_eq_ok] at run
      obtain ⟨_, _, ⟨link, called, rfl⟩, _, rfl⟩ := run
      have isView := view_setNotify called
      rw [if_pos rfl] at isView
      by_cases same : client = other
      · subst same
        exact (awake client).enable isAgenda rfl (by simpa using isView) rfl
      · exact (awake client).proceed [] isAgenda rfl
          (view_update fun isOther => absurd isOther same) rfl (by simp [Ne.symm same]) (by simp)
          (by simp)
  | enableNotifyWrite other =>
      simp only [runTask, onLink, Exec.bind_eq_ok, Exec.focus_eq_ok, Exec.pure_eq_ok] at run
      obtain ⟨_, _, ⟨link, called, rfl⟩, _, rfl⟩ := run
      have sameView := view_setNotify called
      rw [if_neg (by decide)] at sameView
      exact (awake client).proceed [] isAgenda rfl (view_update fun _ => sameView) rfl
        (by simp) (by simp) (by simp)
  | rxCallback other =>
      simp only [runTask, onLink, Ring.BufferedRingBuffer.rxCallback, Exec.bind_eq_ok,
        Exec.focus_eq_ok, Exec.pure_eq_ok, Exec.modify_eq_ok] at run
      obtain ⟨_, _, ⟨link, ⟨_, rfl⟩, rfl⟩, rfl⟩ := run
      exact (awake client).proceed [] isAgenda rfl (view_update fun _ => rfl) rfl
        (by simp) (by simp) (by simp)
  | poll other =>
      simp only [runTask, onLink, schedule, Exec.bind_eq_ok, Exec.focus_eq_ok,
        Exec.modify_eq_ok] at run
      obtain ⟨count, _, ⟨link, polled, rfl⟩, rfl⟩ := run
      have sameView := view_aside Ring.BufferedRingBuffer.poll_keeps polled
      obtain ⟨parties, polledRing, rfl⟩ := Ring.BufferedRingBuffer.ringBuffer_eq_ok.mp polled
      obtain ⟨isCount, _, _⟩ := Ring.BufferedRingBuffer.pollRead_eq_ok polledRing
      by_cases same : client = other
      · subst same
        simp only [Ring.RingBuffer.pollRead] at isCount
        split at isCount
        · next reached =>
            exact (awake client).poll isAgenda rfl (view_update fun _ => sameView) rfl reached.1
              (Option.some.inj isCount).symm
        · simp at isCount
      · exact (awake client).proceed _ isAgenda rfl (view_update fun isOther => absurd isOther same)
          rfl (by simp) (by simp [Ne.symm same]) (by simp)
  | rxInto other =>
      simp only [runTask, onLink, Exec.bind_eq_ok, Exec.focus_eq_ok, Exec.modify_eq_ok] at run
      obtain ⟨bytes, _, ⟨link, isRead, rfl⟩, rfl⟩ := run
      by_cases same : client = other
      · subst same
        obtain ⟨reached, isView⟩ := view_rxInto isRead
        exact (awake client).read isAgenda rfl rfl reached (by simpa using isView)
      · exact (awake client).proceed [] isAgenda rfl
          (view_update fun isOther => absurd isOther same) rfl (by simp) (by simp)
          (by simp [Ne.symm same])
  | txCallback other =>
      simp only [runTask, onLink, Exec.bind_eq_ok, Exec.focus_eq_ok, Exec.pure_eq_ok] at run
      obtain ⟨_, _, ⟨link, called, rfl⟩, _, rfl⟩ := run
      have sameView := view_aside Ring.BufferedRingBuffer.txCallback_keeps called
      exact (awake client).proceed [] isAgenda rfl (view_update fun _ => sameView) rfl
        (by simp) (by simp) (by simp)
  | tx other buf =>
      simp only [runTask, onLink, Exec.bind_eq_ok, Exec.focus_eq_ok, Exec.pure_eq_ok] at run
      obtain ⟨_, _, ⟨link, called, rfl⟩, _, rfl⟩ := run
      have sameView := view_aside (Ring.BufferedRingBuffer.tx_keeps buf) called
      exact (awake client).proceed [] isAgenda rfl (view_update fun _ => sameView) rfl
        (by simp) (by simp) (by simp)
  | getChar =>
      cases char with
      | none =>
          obtain ⟨_, rfl⟩ := Exec.pure_eq_ok.mp run
          exact (awake client).proceed [] isAgenda rfl rfl rfl (by simp) (by simp) (by simp)
      | some c =>
          simp only [runTask, schedule, Exec.bind_eq_ok, Exec.get_eq_ok, Exec.modify_eq_ok] at run
          obtain ⟨_, _, ⟨rfl, rfl⟩, _, _, rfl, rfl⟩ := run
          exact (awake client).proceed _ isAgenda rfl rfl rfl (by simp) (by simp) (by simp)

theorem receive_awake {event : Event n} {rest : List (Event n)}
    (awake : before.Awake client) (isEvents : before.events = event :: rest)
    (idle : before.agenda = [])
    (run : receive event { before with events := rest } = .ok () after) : after.Awake client := by
  have ⟨written, published, armed, seen⟩ := awake
  rw [isEvents, idle] at armed seen
  cases event with
  | interrupt =>
      simp only [receive, schedule, Exec.modify_eq_ok] at run
      obtain rfl := run
      refine ⟨written, published, ?_, ?_⟩
      · simpa [idle] using armed
      · simpa [idle] using seen
  | timeout =>
      simp only [receive, Exec.modify_eq_ok] at run
      obtain rfl := run
      refine ⟨written, published, ?_, ?_⟩
      · simpa [idle] using armed
      · simpa [idle] using seen
  | con other =>
      simp only [receive, schedule, Exec.modify_eq_ok] at run
      obtain rfl := run
      by_cases same : client = other
      · subst same
        exact ⟨written, published, .inr (.inr (by simp [handleRx])),
          .inr (.inr (.inl (by simp [handleRx])))⟩
      · refine ⟨written, published, ?_, ?_⟩
        · simpa [idle, handleRx, handleTx, same] using armed
        · simpa [idle, handleRx, handleTx, same] using seen

theorem client_awake {other : Fin n} {action : Action} {kicked : Bool} {link : Link}
    (awake : before.Awake client)
    (called : Ring.BufferedRingBuffer.ringBuffer (call .b action) (before.links other) =
      .ok kicked link)
    (isLinks : after.links = Function.update before.links other link)
    (sameAgenda : after.agenda = before.agenda)
    (isEvents : after.events = before.events ++ if kicked then [.con other] else [])
    (punctual : ¬ before.Late (.client other action)) : after.Awake client := by
  have ⟨written, published, armed, seen⟩ := awake
  have keepsCon : .con client ∈ before.events → .con client ∈ after.events := fun con =>
    isEvents ▸ List.mem_append_left _ con
  by_cases same : client = other
  · subst same
    obtain ⟨sameTaken, word, effect⟩ := view_client called
    have isLink : after.links client = link := by rw [isLinks, Function.update_self]
    by_cases isNotify : action = .notifyWrite
    · subst isNotify
      rw [if_pos rfl] at effect
      obtain ⟨isKicked, notArmed, isPublished⟩ := effect
      rw [← isLink] at sameTaken word notArmed isPublished
      refine ⟨word written, by rwa [isPublished], ?_, ?_⟩
      · cases wasArmed : (view (before.links client)).armed with
        | true => exact .inr (.inl (by simp [isEvents, isKicked, wasArmed]))
        | false =>
            rw [sameAgenda]
            exact .inr ((armed.resolve_left (by simp [wasArmed])).imp_left keepsCon)
      · cases wasArmed : (view (before.links client)).armed with
        | true => exact .inr (.inl (by simp [isEvents, isKicked, wasArmed]))
        | false =>
            by_cases due : before.NotifyDue client
            · -- Not late: the server has still to poll, or it has a kick to come.
              by_cases con : .con client ∈ before.events
              · exact .inr (.inl (keepsCon con))
              · have polls : .poll client ∈ before.agenda := by
                  by_contra polled
                  exact punctual ⟨client, rfl, due, wasArmed, con, polled⟩
                exact .inr (.inr (.inl (sameAgenda ▸ polls)))
            · have nothingNew := not_not.mp due
              rw [isPublished, sameTaken, sameAgenda, nothingNew]
              exact seen.imp_right (.imp_left keepsCon)
    · rw [if_neg isNotify] at effect
      obtain ⟨sameArmed, samePublished⟩ := effect
      rw [← isLink] at sameTaken word sameArmed samePublished
      refine ⟨word written, by rwa [samePublished], ?_, ?_⟩
      · rw [sameArmed, sameAgenda]
        exact armed.imp_right (.imp_left keepsCon)
      · rw [samePublished, sameTaken, sameAgenda]
        exact seen.imp_right (.imp_left keepsCon)
  · have isLink : after.links client = before.links client := by
      rw [isLinks, Function.update_of_ne same]
    refine ⟨by rwa [isLink], by rwa [isLink], ?_, ?_⟩
    · rw [isLink, sameAgenda]
      exact armed.imp_right (.imp_left keepsCon)
    · rw [isLink, sameAgenda]
      exact seen.imp_right (.imp_left keepsCon)

theorem move_awake {event : Move n} (awake : ∀ client, before.Awake client)
    (moved : Step event before after) (punctual : ¬ before.Late event) : after.Awake client := by
  have ⟨written, published, armed, seen⟩ := awake client
  cases event with
  | client other action =>
      simp only [Step, move, onLink, Exec.bind_eq_ok, Exec.focus_eq_ok] at moved
      obtain ⟨kicked, _, ⟨link, called, rfl⟩, kick⟩ := moved
      cases kicked with
      | true =>
          rw [if_pos rfl] at kick
          obtain rfl := Exec.modify_eq_ok.mp kick
          exact client_awake (awake client) called rfl rfl rfl punctual
      | false =>
          obtain ⟨_, rfl⟩ := Exec.pure_eq_ok.mp kick
          exact client_awake (awake client) called rfl rfl (List.append_nil _).symm punctual
  | send event =>
      simp only [Step, move, Exec.bind_eq_ok, Exec.assert_eq_ok, Exec.modify_eq_ok] at moved
      obtain ⟨_, _, ⟨_, rfl⟩, rfl⟩ := moved
      refine ⟨written, published, ?_, ?_⟩
      · exact armed.imp_right (.imp_left (List.mem_append_left _))
      · exact seen.imp_right (.imp_left (List.mem_append_left _))
  | work char =>
      simp only [Step, move, Exec.bind_eq_ok, Exec.get_eq_ok, Exec.unwrap_eq_ok,
        Exec.modify_eq_ok] at moved
      obtain ⟨_, _, ⟨rfl, rfl⟩, task, _, ⟨isHead, rfl⟩, _, _, rfl, run⟩ := moved
      exact runTask_awake awake (List.eq_cons_of_mem_head? isHead) run
  | recv =>
      simp only [Step, move, Exec.bind_eq_ok, Exec.get_eq_ok, Exec.assert_eq_ok,
        Exec.unwrap_eq_ok, Exec.modify_eq_ok] at moved
      obtain ⟨_, _, ⟨rfl, rfl⟩, _, _, ⟨idle, rfl⟩, event, _, ⟨isHead, rfl⟩, _, _, rfl, run⟩ := moved
      exact receive_awake (awake client) (List.eq_cons_of_mem_head? isHead) idle run

end Steps

/-! ## Whole runs -/

section Runs
variable {bufs : Fin n → Who → List UInt8} {first final : System n}
  {taken : List (System n × Move n)}

theorem run_awake (started : System.new bufs = some first)
    (run : Recorded Step first taken final)
    (punctual : ∀ entry ∈ taken, ¬ entry.1.Late entry.2) (client : Fin n) : final.Awake client := by
  have awake : ∀ client, final.Awake client := by
    induction run with
    | start => exact new_awake started
    | step run moved ih =>
        have earlier := ih fun entry member => punctual entry (List.mem_append_left _ member)
        have punctualLast := punctual _ (List.mem_append_right _ List.mem_cons_self)
        exact fun client => move_awake earlier moved punctualLast
  exact awake client

/-- As long as no client publishes between the last poll and the request for a kick, the server
never waits while there is something to read. -/
theorem run_woken (started : System.new bufs = some first)
    (run : Recorded Step first taken final)
    (punctual : ∀ entry ∈ taken, ¬ entry.1.Late entry.2) : final.Woken :=
  woken_of_awake (run_awake started run punctual)

end Runs

def evaluate (event : Move n) (system : System n) : Option (System n) :=
  (move event system).returned

theorem evaluate_step (event : Move n) (before after : System n)
    (evaluates : evaluate event before = some after) : Step event before after := by
  obtain ⟨⟨⟩, run⟩ := Outcome.returned_eq_some.mp evaluates
  exact run

theorem evaluated_run (bufs : Fin n → Who → List UInt8) (moves : List (Move n))
    (check : List (System n × Move n) × System n → Bool)
    (evaluates : ((System.new bufs).bind (Recorded.record evaluate moves)).any check = true) :
    ∃ first taken final, System.new bufs = some first ∧ Recorded Step first taken final ∧
      taken.map Prod.snd = moves ∧ check (taken, final) = true := by
  obtain ⟨⟨taken, final⟩, isRun, checked⟩ := (Option.any_eq_true _ _).mp evaluates
  obtain ⟨first, started, records⟩ := Option.bind_eq_some_iff.mp isRun
  exact ⟨first, taken, final, started, Recorded.ofRecord evaluate_step .start records,
    Recorded.record_events records, checked⟩

/-- One client, with rings of four bytes. -/
def smallBufs : Fin 1 → Who → List UInt8 := fun _ _ => [0, 0, 0, 0]

/-- The server starts, is kicked, and polls; then the client writes another byte. -/
def secondByte : List (Move 1) :=
  List.replicate 7 (.work none) ++
    [.client 0 .pollWrite, .client 0 (.write [1]), .client 0 .notifyWrite, .recv] ++
    List.replicate 2 (.work none) ++ [.client 0 .pollWrite, .client 0 (.write [2])]

/-- The second byte is published after the request for a kick. -/
theorem run_woken_secondByte : ∃ first taken final, System.new smallBufs = some first ∧
    Recorded Step first taken final ∧ taken.map Prod.snd = secondByte ++
      List.replicate 4 (.work none) ++ [.client 0 .notifyWrite] ∧ final.Woken := by
  obtain ⟨first, taken, final, started, run, isMoves, checked⟩ := evaluated_run
    smallBufs (secondByte ++ List.replicate 4 (.work none) ++ [.client 0 .notifyWrite])
    (fun run => run.1.all fun entry => decide (¬ entry.1.Late entry.2)) (by decide +kernel)
  have woken := run_woken started run fun entry member =>
    of_decide_eq_true (List.all_eq_true.mp checked entry member)
  exact ⟨first, taken, final, started, run, isMoves, woken⟩

/-- The second byte is published before it, and the server waits with the byte unread. -/
theorem published_after_poll : ∃ first taken final, System.new smallBufs = some first ∧
    Recorded Step first taken final ∧ taken.map Prod.snd = secondByte ++
      [.client 0 .notifyWrite] ++ List.replicate 4 (.work none) ∧ ¬ final.Woken := by
  obtain ⟨first, taken, final, started, run, isMoves, checked⟩ := evaluated_run
    smallBufs (secondByte ++ [.client 0 .notifyWrite] ++ List.replicate 4 (.work none))
    (fun run => decide (run.2.agenda = [] ∧ run.2.events = [] ∧
      (view (run.2.links 0)).published ≠ (view (run.2.links 0)).taken ∧
      ¬ run.2.NotifyDue 0)) (by decide +kernel)
  obtain ⟨idle, noEvents, unread, notDue⟩ := of_decide_eq_true checked
  refine ⟨first, taken, final, started, run, isMoves, fun woken => ?_⟩
  rcases woken idle 0 unread with con | due
  · rw [noEvents] at con
    simp at con
  · exact notDue due

end System

end IceCap.Serial
