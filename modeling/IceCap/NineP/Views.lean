import IceCap.NineP.Session

/-!
# What a client knows

From its requests and the replies alone a client can tell which of its fids the
server knows, where below the root they lead and which of them have been opened.
-/

set_option autoImplicit false

namespace IceCap.NineP

open IceCap.Library

variable {F H : Type} {root : Path} {host : Host F H}

/-- The size of messages, and the place below the root of every fid, with whether it has been
opened. -/
structure View where
  msize : UInt32
  fids : UInt32 → Option (Path × Bool)

def View.set (view : View) (fid : UInt32) (entry : Option (Path × Bool)) : View :=
  { view with fids := Function.update view.fids fid entry }

/-- What a client takes from a reply to its request. -/
def View.after (view : View) : Tmessage → Rmessage → View
  | .version _, .version reply => ⟨reply.msize, fun _ => none⟩
  | .attach request, .attach _ => view.set request.fid (some ([], false))
  | .walk request, .walk reply =>
      if reply.wqids.length = request.wnames.length then
        view.set request.newfid
          ((view.fids request.fid).map fun entry => (request.wnames.foldl follow entry.1, false))
      else view
  | .clunk request, .clunk => view.set request.fid none
  -- the fid is gone also if the file could not be removed
  | .remove request, _ => view.set request.fid none
  | .lopen request, .lopen _ =>
      view.set request.fid ((view.fids request.fid).map fun entry => (entry.1, true))
  | .lcreate request, .lcreate _ =>
      view.set request.fid
        ((view.fids request.fid).map fun entry => (follow entry.1 request.name, true))
  | .rename request, .rename =>
      view.set request.fid ((view.fids request.fid).bind fun entry =>
        (view.fids request.dfid).map fun dir => (follow dir.1 request.name, entry.2))
  | _, _ => view

def View.new : View := ⟨maxMessageSize, fun _ => none⟩

def View.afterAll (view : View) (exchanged : List (Tframe × Rframe)) : View :=
  exchanged.foldl (fun view exchange => view.after exchange.1.msg exchange.2.msg) view

/-- What the server has, as a client would see it. -/
def Server.view (server : Server H) : View :=
  ⟨server.msize, fun fid =>
    (server.fids fid).map fun entry => (entry.path.drop server.root.length, entry.file.isSome)⟩

section View
variable {before after : Server H} {msg : Tmessage} {result : Except Error Rmessage}

theorem view_update {server : Server H} {fid : UInt32} {entry : Option (Fid H)} :
    ({ server with fids := Function.update server.fids fid entry } : Server H).view =
      server.view.set fid
        (entry.map fun entry => (entry.path.drop server.root.length, entry.file.isSome)) := by
  refine congrArg (View.mk server.msize) (funext fun other => ?_)
  by_cases same : other = fid
  · subst same
    simp
  · simp [same, Server.view]

theorem view_insert {server : Server H} {fid : UInt32} {entry : Fid H} :
    (server.insert fid entry).view =
      server.view.set fid (some (entry.path.drop server.root.length, entry.file.isSome)) :=
  view_update

theorem view_erase {server : Server H} {fid : UInt32} :
    (server.erase fid).view = server.view.set fid none := view_update

theorem view_fids {server : Server H} {fid : UInt32} {entry : Fid H}
    (isFid : server.fids fid = some entry) :
    server.view.fids fid = some (entry.path.drop server.root.length, entry.file.isSome) :=
  congrArg (Option.map _) isFid

theorem View.set_same {view : View} {fid : UInt32} {entry : Option (Path × Bool)}
    (same : view.fids fid = entry) : view.set fid entry = view := by
  rw [View.set, ← same, Function.update_eq_self]

/-- A client sees nothing of the metadata and of the entries that are in memory. -/
theorem view_insert_same {server : Server H} {fid : UInt32} {entry other : Fid H}
    (isFid : server.fids fid = some entry) (samePath : other.path = entry.path)
    (sameFile : other.file = entry.file) : (server.insert fid other).view = server.view := by
  rw [view_insert, samePath, sameFile]
  exact View.set_same (view_fids isFid)

theorem Leads.drop {path final : Path} {names : List String} (leads : Leads root path names final)
    (inside : Inside root path) :
    final.drop root.length = names.foldl follow (path.drop root.length) := by
  obtain ⟨below, rfl, _⟩ := inside
  rw [leads _ rfl, List.drop_left, List.drop_left]

theorem View.after_lerror {view : View} {ecode : UInt32} (refusable : Refusable msg) :
    view.after msg (.lerror ⟨ecode⟩) = view := by
  cases msg with
  | remove fields => exact refusable.elim
  | _ => rfl

theorem Effect.view (effect : Effect before msg result after) (sane : before.Sane root) :
    after.view = before.view.after msg (answer result) := by
  have inside : ∀ {fid : UInt32} {entry : Fid H}, before.fids fid = some entry →
      Inside before.root entry.path := fun isFid => sane.isRoot ▸ sane.paths _ _ isFid
  cases effect with
  | plain isPlain => cases isPlain <;> rfl
  | version enough isText => rfl
  | attach isFree =>
      rw [view_insert]
      simp [answer, View.after]
  | walk isFid full leads =>
      rw [view_insert, leads.drop (inside isFid)]
      simp [answer, View.after, full, view_fids isFid]
  | walkPart part => simp [answer, View.after, Nat.ne_of_lt part]
  | read fits => rfl
  | clunk isFid => exact view_erase
  | remove isFid => exact view_erase
  | lopen isFid =>
      rw [view_insert]
      simp [answer, View.after, view_fids isFid]
  | lcreate isFid leads =>
      rw [view_insert, leads.drop (inside isFid)]
      simp [answer, View.after, view_fids isFid]
  | rename isFid isDir leads =>
      rw [view_insert, leads.drop (inside isDir)]
      simp [answer, View.after, view_fids isFid, view_fids isDir]
  | getAttr isFid => exact view_insert_same isFid rfl rfl
  | readdir isFid isStart numbered listed =>
      exact view_insert_same isFid rfl rfl
  | readdirMore isFid isLater isRead listed => rfl
  | readdirFails isFid isStart numbered =>
      exact view_insert_same isFid rfl rfl
  | removeFails => exact view_erase
  | fails refusable => exact (View.after_lerror refusable).symm

end View

/-! ## Runs -/

section Runs
variable {connection final : Connection F H} {exchanged : List (Tframe × Rframe)}

theorem Served.view (served : Served host connection exchanged final)
    (sound : Sound root [] connection.system) :
    final.system.server.view = connection.system.server.view.afterAll exchanged ∧
      Sound root [] final.system := by
  induction served with
  | done => exact ⟨rfl, sound⟩
  | @next connection final request rest msg system exchanged read answered later ih =>
      obtain ⟨reply, next, result, isRun, kept, effect, isReply⟩ :=
        @respond_effect F H root host connection.system sound request.msg
      obtain ⟨rfl, rfl⟩ := Outcome.ok.inj (answered.symm.trans isRun)
      obtain ⟨isView, isSound⟩ := ih kept
      refine ⟨?_, isSound⟩
      rw [isView, View.afterAll, View.afterAll, List.foldl_cons, effect.view sound.sane, isReply]

theorem Served.sendable (served : Served host connection exchanged final)
    (sound : Sound root [] connection.system) :
    ∀ earlier request reply later, exchanged = earlier ++ (request, reply) :: later →
      reply.tag = request.tag ∧ Sendable
        (connection.system.server.view.afterAll (earlier ++ [(request, reply)])).msize reply.msg := by
  induction served with
  | done => exact fun _ _ _ _ same => absurd same.symm (by simp)
  | @next connection final request rest msg system exchanged read answered later ih =>
      obtain ⟨reply, next, result, isRun, kept, effect, isReply⟩ :=
        @respond_effect F H root host connection.system sound request.msg
      obtain ⟨rfl, rfl⟩ := Outcome.ok.inj (answered.symm.trans isRun)
      obtain ⟨left, decoded, _⟩ := Codec.limited_eq_ok.mp read
      have sendable := sendable_answer effect sound.sane kept.sane (Tframe.decode_uses decoded).1
      have isView := effect.view sound.sane
      rw [← isReply] at sendable isView
      intro earlier other answer rest isSplit
      cases earlier with
      | nil =>
          obtain ⟨rfl, rfl⟩ := Prod.mk.inj (List.cons.inj isSplit).1
          refine ⟨rfl, ?_⟩
          rw [List.nil_append, View.afterAll, List.foldl_cons, List.foldl_nil, ← isView]
          exact sendable
      | cons first earlier =>
          obtain ⟨rfl, isLater⟩ := List.cons.inj isSplit
          have isSendable := ih kept earlier other answer rest isLater
          rw [isView] at isSendable
          exact isSendable

end Runs

/-- A session that is used as an example: a directory with one file in it is attached and read. -/
def exampleMetadata (isDir : Bool) : Metadata :=
  ⟨isDir, !isDir, 0o644, 7, 1, 0, 0, 0, 3, 4096, 1, 0, 0, 0, 0, 0, 0⟩

def exampleRun : {α : Type} → Operation Unit α → Unit → Except Error α × Unit
  | _, .metadata _, fs => (.ok (exampleMetadata true), fs)
  | _, .readDir _, fs => (.ok [.ok [97]], fs)
  | _, .entryMetadata .., fs => (.ok (exampleMetadata false), fs)
  | _, _, fs => (.error (.os eio), fs)

def exampleHost : Host Unit Unit where
  libc := ⟨0o400, 0o4000, 0o10000, 0o40000, 0o100000, 0o200000, 0o400000, 0o1000000, 0o4010000,
    0o2000000, 0x200, 0x3fffffff, 0x3ffffffe⟩
  run := exampleRun
  readAt_le := fun run => absurd (congrArg Prod.fst run) (by simp [exampleRun])

def exampleRequests : List Tframe := [
  ⟨1, .attach ⟨0, 0xffffffff, "", "", 0⟩⟩,
  ⟨2, .readdir ⟨0, 0, 4096⟩⟩,
  ⟨3, .readdir ⟨0, 25, 4096⟩⟩]

def exampleEntry : Dirent := ⟨⟨p9Qtfile, 0, 7⟩, 25, dtReg, "a"⟩

def exampleReplies : List Rframe := [
  ⟨1, .attach ⟨⟨p9Qtdir, 0, 7⟩⟩⟩,
  ⟨2, .readdir ⟨⟨direntBytes exampleEntry⟩⟩⟩,
  ⟨3, .readdir ⟨⟨[]⟩⟩⟩]

def exampleInput : List UInt8 := exampleRequests.flatMap tframeBytes

theorem example_fitting : Fitting maxMessageSize exampleRequests :=
  ⟨⟨trivial, trivial, Nat.zero_le _, Nat.zero_le _, trivial⟩,
    ⟨trivial, trivial, trivial, trivial, trivial⟩, by decide,
    ⟨trivial, trivial, trivial⟩, ⟨trivial, trivial, trivial⟩, by decide,
    ⟨trivial, trivial, trivial⟩, ⟨trivial, trivial, trivial⟩, by decide, trivial⟩

theorem example_served : ∃ final,
    Served exampleHost (.new [.rootDir] () exampleInput) (exampleRequests.zip exampleReplies) final ∧
      (∃ entry, final.system.server.fids 0 = some entry ∧ entry.dirents = some [exampleEntry]) ∧
      final.system.server.msize = maxMessageSize := by
  obtain ⟨fits, kept, within, fits', kept', within', fits'', kept'', within'', _⟩ := example_fitting
  exact ⟨_, .next (limited_decode fits kept within) rfl <|
    .next (limited_decode fits' kept' within') rfl <|
    .next (limited_decode fits'' kept'' within'') rfl .done, ⟨_, rfl, rfl⟩, rfl⟩

/-- What a client sends is read as requests one after the other, each of them is answered once and in
turn, and the session ends only with what is no request. -/
theorem handleClient_served (host : Host F H) (root : Path) (fs : F) (input : List UInt8)
    (rounds : Nat) :
    (handleClient host rounds (.new root fs input)).Satisfies
      (fun _ final => ∃ exchanged, Served host (.new root fs input) exchanged final ∧
        exchanged.length = rounds)
      fun error final => ∃ exchanged last, Served host (.new root fs input) exchanged last ∧
        Codec.limited last.system.server.msize.toNat Tframe.decode last.input =
          .err error final.input ∧ final.system = last.system ∧ final.output = last.output :=
  handleClient_serves (Server.sound_new root fs) rounds

/-- In every session the server's table of fids and its size of messages are what the client can
compute from the exchanges. -/
theorem served_view {fs : F} {input : List UInt8} {final : Connection F H}
    {exchanged : List (Tframe × Rframe)}
    (served : Served host (.new root fs input) exchanged final) :
    final.system.server.view = View.new.afterAll exchanged :=
  (served.view (Server.sound_new root fs)).1

theorem served_view_example : ∃ final : Connection Unit Unit,
    final.system.server.view = View.new.afterAll (exampleRequests.zip exampleReplies) := by
  obtain ⟨final, served, _⟩ := example_served
  exact ⟨final, served_view served⟩

/-- Every reply has the tag of its request, is decoded by the client as what it is, whatever comes behind
it, and is not longer than the size of messages allows, unless it answers a walk over too many names. -/
theorem served_sendable {fs : F} {input : List UInt8} {final : Connection F H}
    {exchanged earlier later : List (Tframe × Rframe)} {request : Tframe} {reply : Rframe}
    (served : Served host (.new root fs input) exchanged final)
    (isExchange : exchanged = earlier ++ (request, reply) :: later) :
    reply.tag = request.tag ∧
      (∃ out, WireFormat.encode reply [] = .ok () out ∧
        ∀ rest, Rframe.decode (out ++ rest) = .ok reply rest) ∧
      Sendable (View.new.afterAll (earlier ++ [(request, reply)])).msize reply.msg := by
  obtain ⟨sameTag, sendable⟩ :=
    served.sendable (Server.sound_new root fs) earlier request reply later isExchange
  exact ⟨sameTag, sendable.roundTrips reply.tag, sendable⟩

theorem served_sendable_example :
    (∃ out, WireFormat.encode (⟨3, .readdir ⟨⟨[]⟩⟩⟩ : Rframe) [] = .ok () out ∧
      ∀ rest, Rframe.decode (out ++ rest) = .ok ⟨3, .readdir ⟨⟨[]⟩⟩⟩ rest) ∧
    Sendable (View.new.afterAll (exampleRequests.zip exampleReplies)).msize
      (.readdir ⟨⟨[]⟩⟩) := by
  obtain ⟨final, served, _⟩ := example_served
  have isExchange : exampleRequests.zip exampleReplies =
      (exampleRequests.zip exampleReplies).take 2 ++
        (⟨3, .readdir ⟨0, 25, 4096⟩⟩, ⟨3, .readdir ⟨⟨[]⟩⟩⟩) :: [] := rfl
  exact (served_sendable served isExchange).2

/-- All requests that fit are answered, however many of them are sent at once. -/
theorem handleClient_answers (host : Host F H) (root : Path) (fs : F) (requests : List Tframe)
    (fitting : Fitting maxMessageSize requests) :
    ∃ exchanged final,
      handleClient host requests.length (.new root fs (requests.flatMap tframeBytes)) = .ok () final ∧
      Served host (.new root fs (requests.flatMap tframeBytes)) exchanged final ∧
      exchanged.map Prod.fst = requests := by
  have sound : Sound root []
      (Connection.new root fs (requests.flatMap tframeBytes) : Connection F H).system :=
    Server.sound_new root fs
  obtain ⟨exchanged, final, served, same, _⟩ := @served_fitting F H root host _ requests [] sound
    fitting (List.append_nil _).symm
  have isRun := served.run sound
  have length : exchanged.length = requests.length := by rw [← same, List.length_map]
  exact ⟨exchanged, final, length ▸ isRun, served, same⟩

theorem handleClient_answers_example : ∃ exchanged final,
    Served exampleHost (.new [.rootDir] () exampleInput) exchanged final ∧
      exchanged.map Prod.fst = exampleRequests := by
  obtain ⟨exchanged, final, _, served, same⟩ :=
    handleClient_answers exampleHost [.rootDir] () exampleRequests example_fitting
  exact ⟨exchanged, final, served, same⟩

end IceCap.NineP
