import IceCap.TimerServer.Requests

/-!
# One client of the timer server

What a call does to the timers of a client and to the signals it is sent, for
a client that asks for one-shot timers under one id only: it is signalled when
the counter has reached the deadline of its timer, and not before.  The
notification is told apart by `mine`; no other client may hold a capability to
it.
-/

set_option autoImplicit false

namespace IceCap.TimerServer

open IceCap.Library IceCap.Sel4

variable {δ : Type} {platform : Platform δ} {client : ClientId} {tid : TimerId}
  {mine : CPtr → Bool} {before middle after server final : Server δ} {count : Tick} {fuel : Nat}
  {device later : δ}

/-- The client's timers are one-shot and have one id. -/
def OneShot (client : ClientId) (tid : TimerId) (outstanding : Timers) : Prop :=
  ∀ timer ∈ outstanding, timer.client = client → timer.timer = tid ∧ timer.period = none

/-- The client has no timers. -/
def Unarmed (client : ClientId) (outstanding : Timers) : Prop :=
  ∀ timer ∈ outstanding, timer.client ≠ client

/-- Only the client has a capability to the notification. -/
def Owned (client : ClientId) (mine : CPtr → Bool) (clients : List CPtr) : Prop :=
  ∀ other cap, clients[other]? = some cap → mine cap = true → other = client

def Server.signals (mine : CPtr → Bool) (server : Server δ) : Nat := server.signalled.countP mine

/-- What a call does that sets none of the client's timers: where it signals the client, the counter
has reached a deadline of the client's, and the timer is gone. -/
structure Progress (platform : Platform δ) (client : ClientId) (mine : CPtr → Bool)
    (before after : Server δ) : Prop where
  clients : after.clients = before.clients
  evolves : platform.device.Evolves before.device after.device
  appended : before.signalled <+: after.signalled
  fewer : ∀ timer ∈ after.outstanding, timer.client = client → timer ∈ before.outstanding
  signals : after.signals mine = before.signals mine ∨
    (before.signals mine < after.signals mine ∧
      (∃ timer ∈ before.outstanding, timer.client = client ∧
        platform.device.Reaches timer.compare before.device after.device) ∧
      Unarmed client after.outstanding)

namespace Progress

/-- A call that signals nobody and adds no timer of the client. -/
theorem of_quiet (clients : after.clients = before.clients)
    (evolves : platform.device.Evolves before.device after.device)
    (signalled : after.signalled = before.signalled)
    (fewer : ∀ timer ∈ after.outstanding, timer.client = client → timer ∈ before.outstanding) :
    Progress platform client mine before after where
  clients := clients
  evolves := evolves
  appended := by rw [signalled]
  fewer := fewer
  signals := .inl (by rw [Server.signals, Server.signals, signalled])

theorem unarmed (progress : Progress platform client mine before after)
    (unarmed : Unarmed client before.outstanding) : Unarmed client after.outstanding :=
  fun timer member isClient => unarmed timer (progress.fewer timer member isClient) isClient

theorem oneShot (progress : Progress platform client mine before after)
    (oneShot : OneShot client tid before.outstanding) : OneShot client tid after.outstanding :=
  fun timer member isClient => oneShot timer (progress.fewer timer member isClient) isClient

theorem trans (first : Progress platform client mine before middle)
    (second : Progress platform client mine middle after) :
    Progress platform client mine before after where
  clients := second.clients.trans first.clients
  evolves := first.evolves.trans second.evolves
  appended := first.appended.trans second.appended
  fewer timer member isClient :=
    first.fewer timer (second.fewer timer member isClient) isClient
  signals := by
    rcases second.signals with same | ⟨more, ⟨timer, member, isClient, reaches⟩, gone⟩
    · rw [same]
      rcases first.signals with same | ⟨more, ⟨timer, member, isClient, reaches⟩, gone⟩
      · exact .inl same
      · exact .inr ⟨more, ⟨timer, member, isClient, reaches.later second.evolves⟩,
          second.unarmed gone⟩
    · rcases first.signals with same | ⟨_, _, noTimer⟩
      · exact .inr ⟨same ▸ more, ⟨timer, first.fewer timer member isClient, isClient,
          reaches.earlier first.evolves⟩, gone⟩
      · exact absurd isClient (noTimer timer member)

end Progress

/-- What a round of `update_timers` does to the client, from the state of the device in which the
count is read. -/
theorem Drained.progress (owned : Owned client mine before.clients)
    (queue : Queue before.outstanding) (oneShot : OneShot client tid before.outstanding)
    (isCount : (platform.device.getCount device).1.toInt64 = count)
    (evolves : platform.device.Evolves device later) (drained : Drained count before after) :
    Progress platform client mine { before with device } { after with device := later } := by
  obtain ⟨sent, isSent, sentPerm⟩ := drained.signalled
  -- a one-shot timer that is left has not expired
  have left : ∀ last ∈ after.outstanding, last.client = client →
      last ∈ before.outstanding ∧ last.times count = 0 := by
    intro last member isClient
    obtain ⟨timer, member, isLast⟩ := List.mem_filterMap.mp (drained.outstanding.subset member)
    have isClient := (Server.after_same isLast).1.symm.trans isClient
    obtain ⟨isZero, rfl⟩ := Timer.after_of_oneShot (oneShot timer member isClient).2 isLast
    exact ⟨member, isZero⟩
  have sameClients : after.clients = before.clients := by rw [drained.others]
  refine ⟨sameClients, evolves, isSent ▸ List.prefix_append _ _, ?_, ?_⟩
  · intro last member isClient
    exact (left last member isClient).1
  · have total : after.signals mine = before.signals mine + sent.countP mine := by
      rw [Server.signals, Server.signals, isSent, List.countP_append]
    by_cases none : sent.countP mine = 0
    · exact .inl (total.trans (congrArg (before.signals mine + ·) none))
    · obtain ⟨cap, member, isMine⟩ := List.countP_pos_iff.mp (Nat.pos_of_ne_zero none)
      have fired := sentPerm.subset (List.mem_map_of_mem member)
      obtain ⟨timer, member, signalled⟩ := List.mem_flatMap.mp fired
      obtain ⟨positive, isCap⟩ := List.mem_replicate.mp signalled
      have isClient := owned timer.client cap isCap.symm isMine
      have due := (drained.elapsed timer member).pos_iff.mp (Nat.pos_of_ne_zero positive)
      have fewer : before.signals mine < after.signals mine := by omega
      refine .inr ⟨fewer, ⟨timer, member, isClient, ?_⟩, ?_⟩
      · exact ⟨device, .refl, evolves, isCount ▸ due⟩
      · -- the client has one timer only, the one that has expired
        intro last isLeft lastClient
        obtain ⟨lastMember, isZero⟩ := left last isLeft lastClient
        have sameTid := (oneShot last lastMember lastClient).1.trans
          (oneShot timer member isClient).1.symm
        have same := List.inj_on_of_nodup_map queue.distinct lastMember member
          (Prod.ext (lastClient.trans isClient.symm) sameTid)
        rw [same] at isZero
        exact positive isZero

namespace Server

/-- From the state of the device in which the count is read. -/
theorem update_progress (owned : Owned client mine server.clients)
    (queue : Queue server.outstanding) (oneShot : OneShot client tid server.outstanding)
    (isCount : (platform.device.getCount device).1.toInt64 = count)
    (evolves : platform.device.Evolves device server.device)
    (run : update platform fuel count server = .ok () final) :
    Progress platform client mine { server with device } final := by
  induction fuel generalizing server count device with
  | zero => simp [update] at run
  | succ fuel ih =>
      obtain ⟨middle, drainRun, ends⟩ := update_cases run
      have drained := (updateTimers_drained queue.ordered drainRun).1
      have sameDevice : middle.device = server.device := by rw [drained.others]
      have progress : ∀ later, platform.device.Evolves server.device later →
          Progress platform client mine { server with device } { middle with device := later } :=
        fun later changes => drained.progress owned queue oneShot isCount (evolves.trans changes)
      rcases ends with ⟨_, rfl⟩ | ⟨timer, rest, accepted, answer, _, asked, ends⟩
      · exact progress _ (sameDevice ▸ .single (.setEnable false))
      · have isAsked : platform.device.Evolves server.device answer := by
          have changes : platform.device.Changes middle.device
              (platform.device.setCompare timer.compare.toUInt64 middle.device).2 :=
            .setCompare timer.compare.toUInt64
          rw [asked, sameDevice] at changes
          exact .single changes
        rcases ends with ⟨_, rfl⟩ | ⟨_, again⟩
        · exact progress _ (isAsked.tail (.setEnable true))
        · have first := progress answer isAsked
          have drainedQueue := updateTimers_queue queue drainRun
          have drainedOneShot : OneShot client tid middle.outstanding := first.oneShot oneShot
          have sameClients : middle.clients = server.clients := first.clients
          apply first.trans
          refine @ih { middle with device := (platform.device.getCount answer).2 } _ answer ?_
            drainedQueue drainedOneShot rfl (.single .getCount) again
          rwa [sameClients]

/-- A call in the name of another client, or the interrupt. -/
theorem call_progress {call : Call} (owned : Owned client mine server.clients)
    (queue : Queue server.outstanding) (oneShot : OneShot client tid server.outstanding)
    (isOther : call.client ≠ some client)
    (run : Server.call platform fuel call server = .ok () final) :
    Progress platform client mine server final := by
  rcases call_cases run with ⟨other, otherTid, stopRun⟩ |
    ⟨device, counted, middle, evolves, rfl, start, run⟩
  · obtain ⟨completed, rfl⟩ := removeTimer_spec stopRun
    exact .of_quiet rfl .refl rfl fun timer member _ => (not_isFor member).1
  · -- what is in the queue when the count has been read and a timer been set
    have begun : Queue middle.outstanding ∧
        middle.device = (platform.device.getCount device).2 ∧
        Progress platform client mine server { middle with device } := by
      rcases start with ⟨_, rfl⟩ | ⟨timer, isCaller, setRun⟩
      · exact ⟨queue, rfl, .of_quiet rfl evolves rfl fun timer member _ => member⟩
      · refine ⟨setTimer_queue (by exact queue) setRun, ?_⟩
        obtain ⟨outstanding, completed, rfl, _, perm⟩ := setTimer_spec (by exact queue) setRun
        refine ⟨rfl, Progress.of_quiet rfl evolves rfl ?_⟩
        intro other member isClient
        cases List.mem_cons.mp (perm.subset member) with
        | inl isTimer =>
            rw [isCaller, ← isTimer, isClient] at isOther
            exact absurd rfl isOther
        | inr kept => exact (not_isFor kept).1
    obtain ⟨middleQueue, isCounted, progress⟩ := begun
    apply progress.trans
    refine update_progress (progress.clients.symm ▸ owned) middleQueue (progress.oneShot oneShot) rfl
      ?_ run
    rw [isCounted]
    exact .single .getCount

/-- When the one-shot timer expires that the client sets now. -/
def deadline (platform : Platform δ) (ns : Nanosecond) (server : Server δ) : Tick :=
  (platform.device.getCount server.device).1.toInt64 + server.nsToTick ns

theorem deadline_toInt {ns : Nat} (small : ns < 2 ^ 63)
    (less : (platform.device.getCount server.device).1.toNat +
      ns * server.freq.toNat / 1000000000 < 2 ^ 63) :
    (server.deadline platform (Int64.ofNat ns)).toInt =
      (((platform.device.getCount server.device).1.toNat +
        ns * server.freq.toNat / 1000000000 : Nat) : Int) := by
  have isNs : (UInt64.ofNat ns).toNat = ns := Nat.mod_eq_of_lt (lt_trans small (by decide))
  have exact := @deadline_exact δ server (platform.device.getCount server.device).1.toNat
    (platform.device.getCount server.device).1.toInt64 (UInt64.ofNat ns) (toInt_toInt64 (by omega))
  rw [isNs] at exact
  exact exact small less

/-- The client sets its timer. -/
theorem oneshotRelative_client {ns : Nanosecond} (owned : Owned client mine server.clients)
    (queue : Queue server.outstanding) (oneShot : OneShot client tid server.outstanding)
    (run : Server.call platform fuel (.oneshotRelative client tid ns) server = .ok () final) :
    final.clients = server.clients ∧ server.signalled <+: final.signalled ∧
      OneShot client tid final.outstanding ∧
      platform.device.Evolves server.device final.device ∧
      (∀ timer ∈ final.outstanding, timer.client = client →
        timer.compare = server.deadline platform ns) ∧
      (final.signals mine = server.signals mine ∨
        server.signals mine < final.signals mine ∧ Unarmed client final.outstanding ∧
          platform.device.Reaches (server.deadline platform ns) server.device final.device) := by
  obtain ⟨_, now, middle, rfl, setRun, rfl, run⟩ := guarded_cases run
  have middleQueue := setTimer_queue (by exact queue) setRun
  obtain ⟨outstanding, completed, rfl, _, perm⟩ := setTimer_spec (by exact queue) setRun
  -- the client has no timer but the new one
  have isNew : ∀ timer ∈ outstanding, timer.client = client →
      timer = ⟨client, tid, server.deadline platform ns, none⟩ := by
    intro other member isClient
    cases List.mem_cons.mp (perm.subset member) with
    | inl isTimer => exact isTimer
    | inr kept =>
        obtain ⟨member, isLeft⟩ := not_isFor kept
        exact absurd ⟨isClient, (oneShot other member isClient).1⟩ isLeft
  have middleOneShot : OneShot client tid outstanding := by
    intro other member isClient
    rw [isNew other member isClient]
    exact ⟨rfl, rfl⟩
  have progress := update_progress (by exact owned) middleQueue middleOneShot rfl
    (.single .getCount) run
  refine ⟨progress.clients, progress.appended, progress.oneShot middleOneShot, progress.evolves, ?_,
    ?_⟩
  · intro timer member isClient
    rw [isNew timer (progress.fewer timer member isClient) isClient]
  · rcases progress.signals with same | ⟨more, ⟨timer, member, isClient, reaches⟩, gone⟩
    · exact .inl same
    · rw [isNew timer member isClient] at reaches
      exact .inr ⟨more, gone, reaches⟩

/-- The client stops its timer. -/
theorem stop_client (oneShot : OneShot client tid server.outstanding)
    (run : Server.call platform fuel (.stop client tid) server = .ok () final) :
    final.clients = server.clients ∧ final.signalled = server.signalled ∧
      Unarmed client final.outstanding := by
  obtain ⟨completed, rfl⟩ := removeTimer_spec (stop_cases run)
  refine ⟨rfl, rfl, ?_⟩
  intro timer member isClient
  obtain ⟨member, isLeft⟩ := not_isFor member
  exact isLeft ⟨isClient, (oneShot timer member isClient).1⟩

end Server

end IceCap.TimerServer
