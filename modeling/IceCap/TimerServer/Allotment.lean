import Mathlib.Data.List.Perm.Subperm
import IceCap.TimerServer.Requests

/-!
# The allotment of a client

The ids that a client holds are those of its timers and those that have
completed.  Only a request that sets a timer adds to them, and it adds its own
id whenever the server lets it through.  `guard_tid` lets through one id too
many, and every negative one.
-/

set_option autoImplicit false

namespace IceCap.TimerServer

open IceCap.Library IceCap.Sel4

/-! ## The ids that a client holds -/

section Holds
variable {δ : Type}

def Server.Holds (server : Server δ) (cid : ClientId) (tid : TimerId) : Prop :=
  (∃ timer ∈ server.outstanding, timer.client = cid ∧ timer.timer = tid) ∨
    ∃ done, server.completed cid = some done ∧ tid ∈ done

/-- What no step changes. -/
structure Kept (timersPerClient : TimerId) (server : Server δ) : Prop where
  queue : Queue server.outstanding
  known : ∀ cid < server.clients.length, (server.completed cid).isSome = true
  allotment : server.timersPerClient = timersPerClient

/-- No client has completed more, and every client is still known. -/
structure Shrunk (before after : ClientId → Option (Finset TimerId)) : Prop where
  fewer : ∀ cid done, after cid = some done → ∃ earlier, before cid = some earlier ∧ done ⊆ earlier
  known : ∀ cid, (before cid).isSome = true → (after cid).isSome = true

variable {first second third : ClientId → Option (Finset TimerId)}

theorem Shrunk.refl : Shrunk first first :=
  ⟨fun _ done isDone => ⟨done, isDone, subset_rfl⟩, fun _ isKnown => isKnown⟩

theorem Shrunk.trans (earlier : Shrunk first second) (later : Shrunk second third) :
    Shrunk first third where
  fewer cid done isDone := by
    obtain ⟨between, isBetween, fewer⟩ := later.fewer cid done isDone
    obtain ⟨most, isMost, more⟩ := earlier.fewer cid between isBetween
    exact ⟨most, isMost, fewer.trans more⟩
  known cid isKnown := later.known cid (earlier.known cid isKnown)

theorem Shrunk.update {cid : ClientId} {done left : Finset TimerId} (isDone : first cid = some done)
    (fewer : left ⊆ done) : Shrunk first (Function.update first cid (some left)) where
  fewer other found isFound := by
    by_cases same : other = cid
    · subst same
      rw [Function.update_self] at isFound
      exact ⟨done, isDone, Option.some.inj isFound ▸ fewer⟩
    · rw [Function.update_of_ne same] at isFound
      exact ⟨found, isFound, subset_rfl⟩
  known other isKnown := by
    by_cases same : other = cid
    · subst same
      rw [Function.update_self]
      rfl
    · rwa [Function.update_of_ne same]

end Holds

namespace Server

variable {δ : Type} {platform : Platform δ} {server final before after : Server δ}
  {timersPerClient : TimerId} {cid : ClientId} {tid : TimerId} {count : Tick} {fuel : Nat}

theorem updateCompleted_shrunk {change : Finset TimerId → Finset TimerId}
    (fewer : ∀ done, change done ⊆ done)
    (run : updateCompleted cid change server = .ok () final) :
    Shrunk server.completed final.completed := by
  simp only [updateCompleted, Exec.bind_eq_ok, Exec.reads_eq_ok, Exec.modify_eq_ok] at run
  obtain ⟨done, _, ⟨isDone, rfl⟩, rfl⟩ := run
  exact .update isDone (fewer done)

theorem removeTimer_shrunk (run : removeTimer cid tid server = .ok () final) :
    Shrunk server.completed final.completed := by
  simp only [removeTimer, Exec.bind_eq_ok, Exec.get_eq_ok, Exec.modify_eq_ok] at run
  obtain ⟨_, _, ⟨rfl, rfl⟩, _, _, rfl, run⟩ := run
  refine Exec.ends_forEach (fun later => Shrunk server.completed later.completed) ?_ .refl
    (.inl ⟨_, run⟩)
  intro _ _ before after earlier ends
  obtain ⟨_, changed⟩ := updateCompleted_infallible.ends ends
  exact earlier.trans (updateCompleted_shrunk (fun done => Finset.erase_subset _ done) changed)

theorem takeCompleted_spec {mask : BitVec 64} (run : takeCompleted cid server = .ok mask final) :
    ∃ done, server.completed cid = some done ∧
      mask = (done.sort (· ≤ ·)).foldl markCompleted 0 ∧
      final = { server with completed := Function.update server.completed cid (some ∅) } := by
  simp only [takeCompleted, Exec.bind_eq_ok, Exec.reads_eq_ok, Exec.modify_eq_ok,
    Exec.pure_eq_ok] at run
  obtain ⟨done, _, ⟨isDone, rfl⟩, _, _, rfl, isMask, isFinal⟩ := run
  exact ⟨done, isDone, isMask.symm, isFinal.symm⟩

/-- A step that leaves fewer timers and fewer ids that have completed. -/
theorem Holds.of_shrunk (fewer : ∀ timer ∈ after.outstanding, timer ∈ before.outstanding)
    (shrunk : Shrunk before.completed after.completed) (holds : after.Holds cid tid) :
    before.Holds cid tid := by
  rcases holds with ⟨timer, member, isTimer⟩ | ⟨done, isDone, member⟩
  · exact .inl ⟨timer, fewer timer member, isTimer⟩
  · obtain ⟨earlier, isEarlier, subset⟩ := shrunk.fewer cid done isDone
    exact .inr ⟨earlier, isEarlier, subset member⟩

theorem kept_of_shrunk (kept : Kept timersPerClient before) (queue : Queue after.outstanding)
    (clients : after.clients = before.clients)
    (allotment : after.timersPerClient = before.timersPerClient)
    (shrunk : Shrunk before.completed after.completed) : Kept timersPerClient after where
  queue := queue
  known cid isClient := shrunk.known cid (kept.known cid (clients ▸ isClient))
  allotment := allotment.trans kept.allotment

/-- A timer that expires stays among the ids of its client. -/
theorem drained_holds (kept : Kept timersPerClient before) (drained : Drained count before after) :
    after.Holds cid tid ↔ before.Holds cid tid := by
  constructor
  · intro holds
    rcases holds with ⟨last, member, isClient, isTid⟩ | ⟨done, isDone, member⟩
    · obtain ⟨timer, member, isLast⟩ := List.mem_filterMap.mp (drained.outstanding.subset member)
      obtain ⟨sameClient, sameTid⟩ := after_same isLast
      exact .inl ⟨timer, member, sameClient ▸ isClient, sameTid ▸ isTid⟩
    · rw [drained.completed, Option.map_eq_some_iff] at isDone
      obtain ⟨earlier, isEarlier, rfl⟩ := isDone
      cases Finset.mem_union.mp member with
      | inl inEarlier => exact .inr ⟨earlier, isEarlier, inEarlier⟩
      | inr isDue =>
          obtain ⟨timer, member, ⟨isClient, _⟩, isTid⟩ := mem_dueOf.mp isDue
          exact .inl ⟨timer, member, isClient, isTid⟩
  · intro holds
    rcases holds with ⟨timer, member, isClient, isTid⟩ | ⟨done, isDone, member⟩
    · by_cases due : timer.compare ≤ count
      · -- its client was signalled, so there is a set that the id was added to
        have positive := (drained.elapsed timer member).pos_iff.mpr due
        obtain ⟨sent, _, signals⟩ := drained.signalled
        have isSent : before.clients[timer.client]? ∈ sent.map some := by
          apply signals.symm.subset
          apply List.mem_flatMap.mpr
          exact ⟨timer, member, List.mem_replicate.mpr ⟨positive.ne', rfl⟩⟩
        obtain ⟨nfn, _, isNfn⟩ := List.mem_map.mp isSent
        have isKnown := kept.known timer.client (List.getElem?_eq_some_iff.mp isNfn.symm).1
        obtain ⟨done, isDone⟩ := Option.isSome_iff_exists.mp isKnown
        refine .inr ⟨done ∪ dueOf count cid before.outstanding, ?_, ?_⟩
        · rw [drained.completed, ← isClient, isDone]
          rfl
        · apply Finset.mem_union_right
          exact mem_dueOf.mpr ⟨timer, member, ⟨isClient, due⟩, isTid⟩
      · exact .inl ⟨timer, drained.untouched timer member (not_le.mp due), isClient, isTid⟩
    · refine .inr ⟨done ∪ dueOf count cid before.outstanding, ?_, Finset.mem_union_left _ member⟩
      rw [drained.completed, isDone]
      rfl

theorem drained_kept (kept : Kept timersPerClient before) (queue : Queue after.outstanding)
    (drained : Drained count before after) : Kept timersPerClient after where
  queue := queue
  known cid isClient := by
    rw [drained.others] at isClient
    rw [drained.completed, Option.isSome_map]
    exact kept.known cid isClient
  allotment := by
    rw [drained.others]
    exact kept.allotment

theorem update_kept (kept : Kept timersPerClient server)
    (run : update platform fuel count server = .ok () final) :
    Kept timersPerClient final ∧
      ∀ cid tid, final.Holds cid tid ↔ server.Holds cid tid := by
  refine @update_keeps δ platform server final count fuel (fun later => Kept timersPerClient later ∧
    ∀ cid tid, later.Holds cid tid ↔ server.Holds cid tid) ?_ ?_ ?_ run
  · intro later device holds
    exact ⟨⟨holds.1.queue, holds.1.known, holds.1.allotment⟩, holds.2⟩
  · intro count fuel before after holds run
    have drained := (updateTimers_drained holds.1.queue.ordered run).1
    refine ⟨drained_kept holds.1 (updateTimers_queue holds.1.queue run) drained, ?_⟩
    intro cid tid
    exact (drained_holds holds.1 drained).trans (holds.2 cid tid)
  · exact ⟨kept, fun _ _ => .rfl⟩

theorem removeTimer_kept (kept : Kept timersPerClient server)
    (run : removeTimer cid tid server = .ok () final) :
    Kept timersPerClient final ∧
      ∀ other held, final.Holds other held → server.Holds other held := by
  have shrunk := removeTimer_shrunk run
  obtain ⟨completed, rfl⟩ := removeTimer_spec run
  refine ⟨kept_of_shrunk kept kept.queue.filter rfl rfl shrunk, fun other held => ?_⟩
  exact Holds.of_shrunk (fun timer member => (not_isFor member).1) shrunk

theorem setTimer_kept {timer : Timer} (kept : Kept timersPerClient server)
    (run : setTimer platform timer server = .ok () final) :
    Kept timersPerClient final ∧ final.Holds timer.client timer.timer ∧
      ∀ other held, final.Holds other held →
        server.Holds other held ∨ other = timer.client ∧ held = timer.timer := by
  have queue := setTimer_queue kept.queue run
  simp only [setTimer, Exec.bind_eq_ok] at run
  obtain ⟨_, middle, removeRun, insertRun⟩ := run
  obtain ⟨removed, fewer⟩ := removeTimer_kept kept removeRun
  obtain ⟨outstanding, perm, _, rfl⟩ := insert_spec removed.queue.ordered insertRun
  refine ⟨⟨queue, removed.known, removed.allotment⟩, ?_, ?_⟩
  · exact .inl ⟨timer, perm.symm.subset List.mem_cons_self, rfl, rfl⟩
  · intro other held holds
    rcases holds with ⟨last, member, isClient, isTid⟩ | isDone
    · cases List.mem_cons.mp (perm.subset member) with
      | inl isTimer => exact .inr ⟨isTimer ▸ isClient.symm, isTimer ▸ isTid.symm⟩
      | inr inMiddle => exact .inl (fewer other held (.inl ⟨last, inMiddle, isClient, isTid⟩))
    · exact .inl (fewer other held (.inr isDone))

/-! ## The mask -/

theorem getLsbD_foldl_markCompleted (tids : List TimerId) (mask : BitVec 64) (i : Nat) :
    (tids.foldl markCompleted mask).getLsbD i = true ↔
      mask.getLsbD i = true ∨ ∃ tid ∈ tids, tid.toUInt64.toNat % 64 = i := by
  induction tids generalizing mask with
  | nil => simp
  | cons tid tids ih =>
      have marked : (markCompleted mask tid).getLsbD i = true ↔
          mask.getLsbD i = true ∨ tid.toUInt64.toNat % 64 = i := by
        have less := Nat.mod_lt tid.toUInt64.toNat (show 64 > 0 by decide)
        simp only [markCompleted, BitVec.getLsbD_or, BitVec.getLsbD_shiftLeft, Bool.or_eq_true,
          Bool.and_eq_true, decide_eq_true_eq, Bool.not_eq_true', decide_eq_false_iff_not,
          BitVec.getLsbD_one]
        apply or_congr_right
        omega
      rw [List.foldl_cons, ih, marked, or_assoc]
      simp

/-- Of ids that a word has bits for, the mask has exactly these bits. -/
theorem takeCompleted_exact {done : Finset TimerId} (isDone : server.completed cid = some done)
    (shifts : ∀ tid ∈ done, 0 ≤ tid.toInt ∧ tid.toInt < 64) :
    ∃ mask after, takeCompleted cid server = .ok mask after ∧
      ∀ i, mask.getLsbD i = true ↔ ∃ tid ∈ done, tid.toInt = i := by
  refine ⟨(done.sort (· ≤ ·)).foldl markCompleted 0,
    { server with completed := Function.update server.completed cid (some ∅) }, ?_, fun i => ?_⟩
  · have isRead : (Exec.reads fun server : Server δ => server.completed cid) server =
        (.ok done server : Outcome Unit _ _) := Exec.reads_eq_ok.mpr ⟨isDone, rfl⟩
    rw [takeCompleted, Exec.bind_of_ok isRead]
    rfl
  · have zero : (0 : BitVec 64).getLsbD i = false := by simp
    rw [getLsbD_foldl_markCompleted, zero]
    simp only [Bool.false_eq_true, false_or, Finset.mem_sort]
    apply exists_congr
    intro tid
    apply and_congr_right
    intro member
    obtain ⟨notNegative, less⟩ := shifts tid member
    have same := toNat_toUInt64 notNegative
    omega

end Server

/-! ## Runs -/

/-- What a client has is within its allotment, and so is the mask that it is told. -/
structure Allotted {δ : Type} (server : Server δ) : Prop where
  outstanding : ∀ timer ∈ server.outstanding,
    0 ≤ timer.timer ∧ timer.timer < server.timersPerClient
  completed : ∀ cid done, server.completed cid = some done → ∀ tid ∈ done,
    0 ≤ tid ∧ tid < server.timersPerClient
  fewer : ∀ cid, ((server.outstanding.countP fun timer => timer.client = cid : Nat) : Int) ≤
    server.timersPerClient.toInt
  mask : ∀ cid done, server.completed cid = some done →
    (∀ tid ∈ done, 0 ≤ tid.toInt ∧ tid.toInt < 64) ∧
    ∃ mask after, Server.takeCompleted cid server = .ok mask after ∧
      ∀ i, mask.getLsbD i = true ↔ ∃ tid ∈ done, tid.toInt = i

/-- A request that sets a timer sets it under an id of the allotment, or is refused. -/
def Action.Within (timersPerClient : TimerId) : Action → Prop
  | .request _ asked => ∀ tid, asked.sets = some tid →
      timersPerClient < tid ∨ 0 ≤ tid ∧ tid < timersPerClient
  | _ => True

section Runs
variable {δ : Type} {platform : Platform δ} {server before after : Server δ}
  {timersPerClient : TimerId}

/-- The timers of a client have different ids. -/
theorem countP_client_le (notNegative : 0 ≤ timersPerClient) (queue : Queue server.outstanding)
    (within : ∀ timer ∈ server.outstanding, 0 ≤ timer.timer ∧ timer.timer < timersPerClient)
    (cid : ClientId) :
    ((server.outstanding.countP fun timer => timer.client = cid : Nat) : Int) ≤
      timersPerClient.toInt := by
  let mine := server.outstanding.filter fun timer => timer.client = cid
  have zero : (0 : TimerId).toInt = 0 := rfl
  have bounds : ∀ timer ∈ mine, 0 ≤ timer.timer.toInt ∧ timer.timer.toInt < timersPerClient.toInt := by
    intro timer member
    obtain ⟨notNegative, less⟩ := within timer (List.mem_filter.mp member).1
    exact ⟨zero ▸ Int64.le_iff_toInt_le.mp notNegative, Int64.lt_iff_toInt_lt.mp less⟩
  have distinct : (mine.map fun timer => (timer.client, timer.timer)).Nodup :=
    queue.distinct.sublist (List.filter_sublist.map _)
  have differ : (mine.map fun timer => timer.timer.toInt.toNat).Nodup := by
    refine List.Nodup.map_on ?_ (List.Nodup.of_map _ distinct)
    intro timer member other isOther same
    have isClient := of_decide_eq_true (List.mem_filter.mp member).2
    have otherClient := of_decide_eq_true (List.mem_filter.mp isOther).2
    have sameTid : timer.timer = other.timer := by
      apply Int64.toInt_inj.mp
      have low := (bounds timer member).1
      have otherLow := (bounds other isOther).1
      omega
    exact List.inj_on_of_nodup_map distinct member isOther
      (Prod.ext (isClient.trans otherClient.symm) sameTid)
  have subset : (mine.map fun timer => timer.timer.toInt.toNat) ⊆
      List.range timersPerClient.toInt.toNat := by
    intro id isId
    obtain ⟨timer, member, rfl⟩ := List.mem_map.mp isId
    have bound := bounds timer member
    exact List.mem_range.mpr (by omega)
  have length := (differ.subperm subset).length_le
  rw [List.length_map, List.length_range, ← List.countP_eq_length_filter] at length
  have positive := zero ▸ Int64.le_iff_toInt_le.mp notNegative
  omega

theorem allotted_iff (kept : Kept timersPerClient server) (few : timersPerClient ≤ 64)
    (notNegative : 0 ≤ timersPerClient) :
    Allotted server ↔ ∀ cid tid, server.Holds cid tid → 0 ≤ tid ∧ tid < timersPerClient := by
  have isAllotment := kept.allotment
  constructor
  · intro allotted cid tid holds
    rw [← isAllotment]
    rcases holds with ⟨timer, member, _, rfl⟩ | ⟨done, isDone, member⟩
    · exact allotted.outstanding timer member
    · exact allotted.completed cid done isDone tid member
  · intro within
    have outstanding : ∀ timer ∈ server.outstanding,
        0 ≤ timer.timer ∧ timer.timer < timersPerClient := by
      intro timer member
      exact within timer.client timer.timer (.inl ⟨timer, member, rfl, rfl⟩)
    have completed : ∀ cid done, server.completed cid = some done → ∀ tid ∈ done,
        0 ≤ tid ∧ tid < timersPerClient := by
      intro cid done isDone tid member
      exact within cid tid (.inr ⟨done, isDone, member⟩)
    have shifts : ∀ cid done, server.completed cid = some done → ∀ tid ∈ done,
        0 ≤ tid.toInt ∧ tid.toInt < 64 := by
      intro cid done isDone tid member
      obtain ⟨low, high⟩ := completed cid done isDone tid member
      exact ⟨Int64.le_iff_toInt_le.mp low, Int64.lt_iff_toInt_lt.mp (lt_of_lt_of_le high few)⟩
    refine ⟨?_, ?_, ?_, ?_⟩
    · rwa [isAllotment]
    · rwa [isAllotment]
    · intro cid
      rw [isAllotment]
      exact countP_client_le notNegative kept.queue outstanding cid
    · intro cid done isDone
      exact ⟨shifts cid done isDone,
        Server.takeCompleted_exact isDone (shifts cid done isDone)⟩

theorem handled_kept {cid : ClientId} {request : Request} (kept : Kept timersPerClient before)
    (handled : Server.Handled platform cid request before after) :
    Kept timersPerClient after ∧
      (∀ tid, request.sets = some tid → tid ≤ timersPerClient → after.Holds cid tid) ∧
      ∀ other tid, after.Holds other tid → before.Holds other tid ∨
        other = cid ∧ request.sets = some tid ∧ tid ≤ timersPerClient := by
  have isAllotment := kept.allotment
  cases handled with
  | @refused _ tid _ isTid tooHigh =>
      refine ⟨kept, fun other isSet allowed => ?_, fun other held holds => .inl holds⟩
      have isGuarded := Server.guarded_of_sets isSet
      obtain rfl := Option.some.inj (isTid.symm.trans isGuarded)
      exact absurd allowed (not_le.mpr (isAllotment ▸ tooHigh))
  | @set _ tid timer _ middle _ fuel isSet allowed isTimer setRun run =>
      obtain ⟨isClient, isTid⟩ := Server.timer_same isSet isTimer
      have counted : Kept timersPerClient (before.counted platform) :=
        ⟨kept.queue, kept.known, kept.allotment⟩
      obtain ⟨keptMiddle, holdsSet, fewer⟩ := Server.setTimer_kept counted setRun
      obtain ⟨keptAfter, same⟩ := Server.update_kept keptMiddle run
      rw [isClient, isTid] at holdsSet fewer
      refine ⟨keptAfter, ?_, ?_⟩
      · intro held isHeld _
        obtain rfl := Option.some.inj (isSet.symm.trans isHeld)
        exact (same _ _).mpr holdsSet
      · intro other held holds
        refine (fewer other held ((same other held).mp holds)).imp_right fun isOther => ?_
        exact ⟨isOther.1, isOther.2 ▸ isSet, isOther.2 ▸ isAllotment ▸ allowed⟩
  | stopped run =>
      obtain ⟨keptAfter, fewer⟩ := Server.removeTimer_kept kept run
      refine ⟨keptAfter, ?_, ?_⟩
      · intro other isSet
        cases isSet
      · intro other held holds
        exact .inl (fewer other held holds)
  | timed =>
      refine ⟨⟨kept.queue, kept.known, kept.allotment⟩, ?_, ?_⟩
      · intro other isSet
        cases isSet
      · intro other held holds
        exact .inl holds

theorem act_kept {action : Action} (kept : Kept timersPerClient before)
    (acted : Act platform action before after) :
    Kept timersPerClient after ∧
      (∀ cid request tid, action = .request cid request → request.sets = some tid →
        tid ≤ timersPerClient → after.Holds cid tid) ∧
      ∀ cid tid, after.Holds cid tid → before.Holds cid tid ∨
        ∃ request, action = .request cid request ∧ request.sets = some tid ∧
          tid ≤ timersPerClient := by
  cases action with
  | request cid request =>
      obtain ⟨fuel, ends⟩ := acted
      obtain ⟨keptAfter, holdsSet, fewer⟩ := handled_kept kept (Server.handle_ends ends)
      refine ⟨keptAfter, ?_, ?_⟩
      · intro other asked tid same
        obtain ⟨rfl, rfl⟩ := Action.request.inj same
        exact holdsSet tid
      · intro other tid holds
        refine (fewer other tid holds).imp_right fun isOther => ?_
        exact ⟨request, isOther.1 ▸ rfl, isOther.2⟩
  | completed cid =>
      obtain ⟨mask, run⟩ := acted
      obtain ⟨done, isDone, _, rfl⟩ := Server.takeCompleted_spec run
      have shrunk := Shrunk.update isDone (Finset.empty_subset done)
      refine ⟨Server.kept_of_shrunk kept kept.queue rfl rfl shrunk, ?_, fun other tid holds => ?_⟩
      · intro _ _ _ isRequest
        cases isRequest
      · exact .inl (holds.of_shrunk (by exact fun _ member => member) (by exact shrunk))
  | interrupt =>
      obtain ⟨fuel, run⟩ := acted
      simp only [Server.handleInterrupt, Server.clearInterrupt, Exec.bind_eq_ok, Exec.modify_eq_ok,
        Server.nowTick_eq_ok] at run
      obtain ⟨_, _, rfl, now, _, ⟨rfl, rfl⟩, run⟩ := run
      obtain ⟨keptAfter, same⟩ :=
        Server.update_kept (by exact ⟨kept.queue, kept.known, kept.allotment⟩) run
      refine ⟨keptAfter, ?_, fun other tid holds => .inl ((same other tid).mp holds)⟩
      intro _ _ _ isRequest
      cases isRequest
  | elapse =>
      obtain ⟨device, _, rfl⟩ := acted
      refine ⟨⟨kept.queue, kept.known, kept.allotment⟩, ?_, fun other tid holds => .inl holds⟩
      intro _ _ _ isRequest
      cases isRequest

theorem new_kept {clients : List CPtr} {device : δ}
    (isNew : Server.new platform clients timersPerClient device = some server) :
    Kept timersPerClient server ∧ timersPerClient ≤ 64 ∧
      ∀ cid tid, ¬ server.Holds cid tid := by
  unfold Server.new at isNew
  split at isNew
  · next few =>
      cases isNew
      refine ⟨⟨⟨List.Pairwise.nil, List.nodup_nil⟩, fun cid isClient => ?_, rfl⟩, few.2, ?_⟩
      · exact congrArg Option.isSome (if_pos isClient)
      · intro cid tid holds
        rcases holds with ⟨_, member, _⟩ | ⟨done, isDone, member⟩
        · cases member
        · change (if cid < clients.length then some ∅ else none) = some done at isDone
          split at isDone
          · cases isDone
            exact absurd member (Finset.notMem_empty tid)
          · cases isDone
  · cases isNew

/-- In a run the allotments are kept if and only if no request is let through with another id. -/
theorem run_allotted_iff {clients : List CPtr} {device : δ} {first final : Server δ}
    {taken : List (Server δ × Action)} (notNegative : 0 ≤ timersPerClient)
    (isNew : Server.new platform clients timersPerClient device = some first)
    (run : Recorded (Act platform) first taken final) :
    Recorded.Throughout (Act platform) first taken Allotted ↔
      ∀ entry ∈ taken, entry.2.Within timersPerClient := by
  obtain ⟨kept, few, nothing⟩ := new_kept isNew
  refine @Recorded.holds_iff_under _ _ (Act platform) _ _ _ Allotted
    (fun _ action => action.Within timersPerClient) (Kept timersPerClient) kept ?_ ?_ ?_ run
  · intro action before after kept acted
    exact (act_kept kept acted).1
  · exact (allotted_iff kept few notNegative).mpr fun cid tid holds => absurd holds (nothing cid tid)
  · intro action before after kept allotted acted
    obtain ⟨keptAfter, holdsSet, fewer⟩ := act_kept kept acted
    rw [allotted_iff kept few notNegative] at allotted
    rw [allotted_iff keptAfter few notNegative]
    constructor
    · intro within
      cases action with
      | request cid request =>
          intro tid isSet
          by_cases allowed : tid ≤ timersPerClient
          · exact .inr (within cid tid (holdsSet cid request tid rfl isSet allowed))
          · exact .inl (not_le.mp allowed)
      | _ => exact trivial
    · intro isWithin cid tid holds
      rcases fewer cid tid holds with earlier | ⟨request, rfl, isSet, allowed⟩
      · exact allotted cid tid earlier
      · exact (isWithin tid isSet).resolve_left (not_lt.mpr allowed)

end Runs

/-- The client asks for a time-out of ten ticks. -/
theorem run_allotted_iff_freshServer :
    (∃ final, Recorded (Act counterPlatform) freshServer
      [(freshServer, .request 0 (.oneshotRelative 0 10))] final ∧
        final.outstanding = [⟨0, 0, 15, none⟩]) ∧
    Recorded.Throughout (Act counterPlatform) freshServer
      [(freshServer, .request 0 (.oneshotRelative 0 10))] Allotted := by
  have isNew : Server.new counterPlatform [7] 1 5 = some freshServer := rfl
  have asked : Act counterPlatform (.request 0 (.oneshotRelative 0 10)) freshServer
      { freshServer with outstanding := [⟨0, 0, 15, none⟩] } := ⟨3, .inl ⟨.done, rfl⟩⟩
  have run := Recorded.start.step asked
  refine ⟨⟨_, run, rfl⟩, (run_allotted_iff (by decide) isNew run).mpr ?_⟩
  intro entry member
  obtain rfl := List.mem_singleton.mp member
  intro tid isSet
  obtain rfl := Option.some.inj isSet
  exact .inr (by decide)

/-- A client with an allotment of one timer has three. -/
theorem allotment_exceeded :
    Server.new counterPlatform [7] 1 5 = some freshServer ∧
      ∃ taken final, Recorded (Act counterPlatform) freshServer taken final ∧
        (final.outstanding.countP fun timer => timer.client = 0) = 3 ∧ ¬ Allotted final := by
  have first : Act counterPlatform (.request 0 (.oneshotRelative 0 10)) freshServer
      { freshServer with outstanding := [⟨0, 0, 15, none⟩] } := ⟨3, .inl ⟨.done, rfl⟩⟩
  have second : Act counterPlatform (.request 0 (.oneshotRelative 1 10))
      { freshServer with outstanding := [⟨0, 0, 15, none⟩] }
      { freshServer with outstanding := [⟨0, 1, 15, none⟩, ⟨0, 0, 15, none⟩] } :=
    ⟨3, .inl ⟨.done, rfl⟩⟩
  have third : Act counterPlatform (.request 0 (.oneshotRelative (-1) 10))
      { freshServer with outstanding := [⟨0, 1, 15, none⟩, ⟨0, 0, 15, none⟩] }
      { freshServer with outstanding := [⟨0, -1, 15, none⟩, ⟨0, 1, 15, none⟩, ⟨0, 0, 15, none⟩] } :=
    ⟨3, .inl ⟨.done, rfl⟩⟩
  refine ⟨rfl, _, _, ((Recorded.start.step first).step second).step third, rfl, ?_⟩
  intro allotted
  have fewer := allotted.fewer 0
  exact absurd fewer (by decide)

end IceCap.TimerServer
