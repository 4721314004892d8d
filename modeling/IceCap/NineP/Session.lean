import IceCap.NineP.Effects

/-!
# Sessions

A session is a sequence of exchanges, one reply for one request, and it ends
with the first bytes that are not a request.  Every reply can be written, and
only a walk over too many names is answered with more than the client has room for.
-/

set_option autoImplicit false

namespace IceCap.NineP

open IceCap.Library

variable {F H : Type} {root : Path} {host : Host F H}

/-! ## Filling a buffer -/

section Fill
variable {capacity : Nat} {entries : List Dirent} {cursor data : List UInt8}

def direntBytes (entry : Dirent) : List UInt8 := (LawfulWireFormat.spec (α := Dirent)).bytes entry

theorem length_direntBytes (entry : Dirent) :
    (direntBytes entry).length = 24 + entry.name.utf8ByteSize := by
  change (((leBytes 1 _ ++ (leBytes 4 _ ++ leBytes 8 _)) ++ (leBytes 8 _ ++ (leBytes 1 _ ++
    (leBytes 2 _ ++ utf8 entry.name)))) : List UInt8).length = _
  simp [length_utf8]
  omega

theorem toNat_byteSize {entry : Dirent} (fits : Fits entry) :
    (WireFormat.byteSize entry).toNat = (direntBytes entry).length := by
  have short : entry.name.utf8ByteSize ≤ 65535 := fits.2.2.2
  have isSize := LawfulWireFormat.byteSize_eq entry
  change _ = UInt32.ofNat (direntBytes entry).length at isSize
  rw [isSize, UInt32.toNat_ofNat', Nat.mod_eq_of_lt]
  rw [length_direntBytes]
  omega

/-- The buffer is filled with the encodings of the first entries, and the next one has no room. -/
theorem fill_spec (filled : Server.fill capacity entries cursor = .ok () data)
    (within : cursor.length ≤ capacity) :
    ∃ taken rest, entries = taken ++ rest ∧ data = cursor ++ taken.flatMap direntBytes ∧
      data.length ≤ capacity ∧ (∀ entry ∈ taken, Fits entry) ∧
      ∀ entry ∈ rest.head?, capacity - data.length < (WireFormat.byteSize entry).toNat := by
  induction entries generalizing cursor with
  | nil =>
      obtain ⟨_, rfl⟩ := Exec.pure_eq_ok.mp filled
      exact ⟨[], [], rfl, by simp, within, by simp, by simp⟩
  | cons entry entries ih =>
      obtain ⟨_, _, read, filled⟩ := Exec.bind_eq_ok.mp filled
      obtain ⟨rfl, rfl⟩ := Exec.get_eq_ok.mp read
      split at filled
      · next noRoom =>
          obtain ⟨_, rfl⟩ := Exec.pure_eq_ok.mp filled
          exact ⟨[], entry :: entries, rfl, by simp, within, by simp, by simpa using noRoom⟩
      · next isRoom =>
          obtain ⟨_, middle, encoded, filled⟩ := Exec.bind_eq_ok.mp filled
          obtain ⟨fits, isMiddle⟩ := (LawfulWireFormat.meets (α := Dirent)).fits_of_encode encoded
          change middle = cursor ++ direntBytes entry at isMiddle
          rw [toNat_byteSize fits] at isRoom
          obtain ⟨taken, rest, rfl, rfl, length, areFit, isFull⟩ := ih filled (by
            rw [isMiddle, List.length_append]
            omega)
          refine ⟨entry :: taken, rest, rfl, by simp [isMiddle], length, ?_, isFull⟩
          exact List.forall_mem_cons.mpr ⟨fits, areFit⟩

end Fill

/-! ## Replies -/

section Replies
variable {before after : Server H} {msg : Tmessage} {reply : Rmessage} {msize : UInt32}

/-- A reply to a walk over more names than there is room for. -/
def Overlong (msize : UInt32) (reply : Rmessage) : Prop :=
  ∃ wqids, reply = .walk ⟨wqids⟩ ∧ msize.toNat < 9 + 13 * wqids.length

/-- A reply that is written without an error, is read as what it is, and is longer than the client has
asked for only in one case. -/
structure Sendable (msize : UInt32) (reply : Rmessage) : Prop where
  fits : reply.body.Fits
  kept : reply.body.Kept
  size : frameSize Rmessage.body reply ≤ msize.toNat ↔ ¬ Overlong msize reply

theorem toNat_ge {server : Server H} (sane : server.Sane root) : 256 ≤ server.msize.toNat :=
  UInt32.le_iff_toNat_le.mp sane.msize_ge

theorem toNat_le {server : Server H} (sane : server.Sane root) : server.msize.toNat ≤ 65535 :=
  UInt32.le_iff_toNat_le.mp sane.msize_le

theorem Sendable.of_le (fits : reply.body.Fits) (kept : reply.body.Kept)
    (small : frameSize Rmessage.body reply ≤ msize.toNat) (isOther : ∀ fields, reply ≠ .walk fields) :
    Sendable msize reply :=
  ⟨fits, kept, ⟨fun _ ⟨_, same, _⟩ => isOther _ same, fun _ => small⟩⟩

theorem sendable_lerror {ecode : UInt32} (enough : 256 ≤ msize.toNat) :
    Sendable msize (.lerror ⟨ecode⟩) :=
  .of_le trivial trivial (show 7 + (leBytes 4 ecode.toNat).length ≤ msize.toNat by simp; omega)
    fun _ same => by cases same

theorem sendable_plain (isPlain : Plain msg reply) (enough : 256 ≤ msize.toNat) :
    Sendable msize reply := by
  cases isPlain <;> refine .of_le ?_ ?_ (Nat.le_trans ?_ enough) fun _ same => by cases same
  all_goals simp [frameSize, Rmessage.body, Body.of, Body.empty, LawfulWireFormat.spec, Codec.Spec.map,
    Codec.Spec.pair]

theorem sendable_data {data : List UInt8} (small : msize.toNat ≤ 65535)
    (fits : data.length + 11 ≤ msize.toNat) :
    Sendable msize (.read ⟨⟨data⟩⟩) ∧ Sendable msize (.readdir ⟨⟨data⟩⟩) := by
  have length : data.length ≤ 65535 := by omega
  have isSize : 7 + (leBytes 4 data.length ++ data).length ≤ msize.toNat := by
    rw [List.length_append, length_leBytes]
    omega
  have fits : data.length ≤ 4294967295 := length.trans (by decide)
  have kept : data.length ≤ maxDataLength := length.trans (by decide)
  have isRead : Sendable msize (.read ⟨⟨data⟩⟩) :=
    .of_le fits kept isSize fun _ same => by cases same
  exact ⟨isRead, .of_le fits kept isSize fun _ same => by cases same⟩

theorem length_wqids (wqids : List Qid) :
    (wqids.flatMap (LawfulWireFormat.spec (α := Qid)).bytes).length = 13 * wqids.length := by
  induction wqids with
  | nil => rfl
  | cons qid wqids ih =>
      have length : ((LawfulWireFormat.spec (α := Qid)).bytes qid).length = 13 := by
        change (leBytes 1 _ ++ (leBytes 4 _ ++ leBytes 8 _)).length = 13
        simp
      rw [List.flatMap_cons, List.length_append, length, ih, List.length_cons]
      omega

theorem frameSize_walk (wqids : List Qid) :
    frameSize Rmessage.body (.walk ⟨wqids⟩) = 9 + 13 * wqids.length := by
  change 7 + (leBytes 2 wqids.length ++ wqids.flatMap _).length = _
  rw [List.length_append, length_leBytes, length_wqids]
  omega

theorem sendable_walk {wqids : List Qid} (few : wqids.length ≤ 65535) :
    Sendable msize (.walk ⟨wqids⟩) := by
  refine ⟨⟨few, fun _ _ => ⟨trivial, trivial, trivial⟩⟩, fun _ _ => ⟨trivial, trivial, trivial⟩, ?_⟩
  rw [frameSize_walk]
  constructor
  · rintro within ⟨_, same, longer⟩
    cases same
    omega
  · intro short
    by_contra longer
    exact short ⟨wqids, rfl, by omega⟩

/-- The reply comes back from its encoding, whatever is behind it. -/
theorem Sendable.roundTrips (sendable : Sendable msize reply) (tag : UInt16) :
    ∃ out, WireFormat.encode (⟨tag, reply⟩ : Rframe) [] = .ok () out ∧
      ∀ rest, Rframe.decode (out ++ rest) = .ok ⟨tag, reply⟩ rest := by
  have small : frameSize Rmessage.body reply < 2 ^ 32 + 4 := by
    by_cases overlong : Overlong msize reply
    · obtain ⟨wqids, rfl, _⟩ := overlong
      have few : wqids.length ≤ 65535 := sendable.fits.1
      rw [frameSize_walk]
      omega
    · have within := sendable.size.mpr overlong
      have isWord := msize.toNat_lt
      omega
  exact (LawfulWireFormat.meets (α := Rframe)).roundTrips_iff.mpr
    ⟨sendable.fits, sendable.kept, small⟩

theorem sendable_version {size : UInt32} {text : String} (enough : 256 ≤ msize.toNat)
    (isText : text = "9P2000.L" ∨ text = "unknown") : Sendable msize (.version ⟨size, text⟩) := by
  have short : text.utf8ByteSize ≤ 8 := by rcases isText with rfl | rfl <;> decide
  refine .of_le ⟨trivial, short.trans (by decide)⟩ ⟨trivial, trivial⟩ ?_ fun _ same => by cases same
  change 7 + (leBytes 4 _ ++ (leBytes 2 _ ++ utf8 text)).length ≤ msize.toNat
  simp only [List.length_append, length_leBytes, length_utf8]
  omega

/-- The data of a listing have room in the reply. -/
theorem Listed.length_le {fields : Treaddir} {entries : List Dirent} {data : List UInt8}
    (listed : Listed msize fields entries data) (enough : 256 ≤ msize.toNat) :
    data.length + 11 ≤ msize.toNat := by
  obtain ⟨_, _, _, _, within, _⟩ := fill_spec listed (Nat.zero_le _)
  unfold readdirRoom at within
  omega

theorem Effect.sendable (effect : Effect before msg (.ok reply) after) (sane : before.Sane root)
    (isFit : msg.body.Fits) : Sendable after.msize reply := by
  have enough := toNat_ge sane
  cases effect with
  | plain isPlain => exact sendable_plain isPlain enough
  | version isEnough isText =>
      exact sendable_version (UInt32.le_iff_toNat_le.mp (Server.le_msize isEnough)) isText
  | walk isFid full leads => exact sendable_walk (full ▸ isFit.2.2.1)
  | walkPart part => exact sendable_walk (part.le.trans isFit.2.2.1)
  | read fits => exact (sendable_data (toNat_le sane) fits).1
  | readdir isFid isStart numbered listed =>
      exact (sendable_data (toNat_le sane) (listed.length_le enough)).2
  | readdirMore isFid isLater isRead listed =>
      exact (sendable_data (toNat_le sane) (listed.length_le enough)).2
  | attach isFree | clunk isFid | remove isFid | lopen isFid | lcreate isFid leads
  | rename isFid isDir leads | getAttr isFid =>
      refine .of_le ?_ ?_ (Nat.le_trans ?_ enough) fun _ same => by cases same
      all_goals simp [frameSize, Rmessage.body, Body.of, Body.empty, LawfulWireFormat.spec,
        Codec.Spec.map, Codec.Spec.pair]

end Replies

/-! ## Exchanges -/

/-- What is sent for a result. -/
def answer : Except Error Rmessage → Rmessage
  | .ok reply => reply
  | .error error => errorToRmessage error

theorem respond_effect {state : System F H} (sound : Sound root [] state) (msg : Tmessage) :
    ∃ reply next result, Server.respond host msg state = .ok reply next ∧ Sound root [] next ∧
      Effect state.server msg result next.server ∧ reply = answer result := by
  have kept := @Server.respond_keeping F H root host msg state sound
  have does : Exec.Triple (At state.server) (Server.respond host msg)
      (fun (reply : Rmessage) (next : System F H) =>
        ∃ result, Effect state.server msg result next.server ∧ reply = answer result)
      fun (_ : Error) _ => False :=
    .unwrapOrElse (.weaken (Server.handle_does sound.sane msg) fun reply _ effect =>
      ⟨.ok reply, effect, rfl⟩) fun error _ effect => ⟨.error error, effect, rfl⟩
  have effect := does state rfl
  cases run : Server.respond host msg state with
  | ok reply next =>
      rw [run] at kept effect
      obtain ⟨result, isEffect, isReply⟩ := effect
      exact ⟨reply, next, result, rfl, kept, isEffect, isReply⟩
  | err error next =>
      rw [run] at kept
      exact kept.elim
  | panic =>
      rw [run] at kept
      exact kept.elim

theorem sendable_answer {before after : Server H} {msg : Tmessage} {result : Except Error Rmessage}
    (effect : Effect before msg result after) (isBefore : before.Sane root)
    (isAfter : after.Sane root) (isFit : msg.body.Fits) : Sendable after.msize (answer result) := by
  cases result with
  | ok reply => exact effect.sendable isBefore isFit
  | error error => exact sendable_lerror (toNat_ge isAfter)

/-- The requests that have been read, with the replies that have been written. -/
inductive Served (host : Host F H) :
    Connection F H → List (Tframe × Rframe) → Connection F H → Prop where
  | done {connection : Connection F H} : Served host connection [] connection
  | next {connection final : Connection F H} {request : Tframe} {rest : List UInt8} {msg : Rmessage}
      {system : System F H} {exchanged : List (Tframe × Rframe)}
      (read : Codec.limited connection.system.server.msize.toNat Tframe.decode connection.input =
        .ok request rest)
      (answered : Server.respond host request.msg connection.system = .ok msg system)
      (later : Served host ⟨system, rest,
        connection.output ++ frameBytes Rmessage.all Rmessage.body request.tag msg⟩ exchanged final) :
      Served host connection ((request, ⟨request.tag, msg⟩) :: exchanged) final

/-- A round is an exchange, or it ends with what cannot be read as a request. -/
theorem handleMessage_served {connection : Connection F H}
    (sound : Sound root [] connection.system) :
    (Server.handleMessage host connection).Satisfies
      (fun _ next => Sound root [] next.system ∧
        ∃ exchange, Served host connection [exchange] next)
      fun error final =>
        Codec.limited connection.system.server.msize.toNat Tframe.decode connection.input =
          .err error final.input ∧ final.system = connection.system ∧
          final.output = connection.output := by
  have isRead : ∀ {request : Tframe} {rest : List UInt8},
      Codec.limited connection.system.server.msize.toNat Tframe.decode connection.input =
        .ok request rest → request.msg.body.Fits := by
    intro request rest read
    obtain ⟨left, decoded, _⟩ := Codec.limited_eq_ok.mp read
    exact (Tframe.decode_uses decoded).1
  refine Exec.satisfies_of_ok rfl ?_
  cases read : Codec.limited connection.system.server.msize.toNat Tframe.decode connection.input with
  | err error rest =>
      exact Exec.satisfies_of_err (Exec.focus_eq_err.mpr ⟨rest, read, rfl⟩) ⟨rfl, rfl, rfl⟩
  | panic => exact (Tframe.decode_ne_panic (Codec.limited_eq_panic.mp read)).elim
  | ok request rest =>
      obtain ⟨reply, next, result, answered, kept, effect, isReply⟩ :=
        @respond_effect F H root host connection.system sound request.msg
      have sendable := sendable_answer effect sound.sane kept.sane (isRead read)
      rw [← isReply] at sendable
      have written := @encodeFrame_fits _ _ _ request.tag _ rmessages_meet connection.output
        sendable.fits
      refine Exec.satisfies_of_ok (Exec.focus_eq_ok.mpr ⟨rest, read, rfl⟩) ?_
      refine Exec.satisfies_of_ok (Exec.focus_eq_ok.mpr ⟨next, answered, rfl⟩) ?_
      exact Exec.satisfies_pure_of_ok (Exec.focus_eq_ok.mpr ⟨_, written, rfl⟩)
        ⟨kept, (request, ⟨request.tag, reply⟩), .next read answered .done⟩

theorem Served.append {first middle final : Connection F H}
    {earlier later : List (Tframe × Rframe)} (start : Served host first earlier middle)
    (rest : Served host middle later final) : Served host first (earlier ++ later) final := by
  induction start with
  | done => exact rest
  | next read answered _ ih => exact .next read answered (ih rest)

/-- How the loop goes on, and how it ends. -/
theorem handleClient_serves {connection : Connection F H} (sound : Sound root [] connection.system)
    (rounds : Nat) :
    (handleClient host rounds connection).Satisfies
      (fun _ final => ∃ exchanged, Served host connection exchanged final ∧ exchanged.length = rounds)
      fun error final => ∃ exchanged last, Served host connection exchanged last ∧
        Codec.limited last.system.server.msize.toNat Tframe.decode last.input =
          .err error final.input ∧ final.system = last.system ∧ final.output = last.output := by
  induction rounds generalizing connection with
  | zero => exact ⟨[], .done, rfl⟩
  | succ rounds ih =>
      have round := @handleMessage_served F H root host connection sound
      rw [handleClient, Exec.bind_apply]
      cases run : Server.handleMessage host connection with
      | ok value next =>
          rw [run] at round
          obtain ⟨kept, exchange, isFirst⟩ := round
          refine .mono (ih kept) ?_ ?_
          · intro _ final ⟨exchanged, isRest, length⟩
            exact ⟨_, isFirst.append isRest, by simp [length]⟩
          · intro error final ⟨exchanged, last, isRest, isEnd⟩
            exact ⟨_, last, isFirst.append isRest, isEnd⟩
      | err error final =>
          rw [run] at round
          exact ⟨[], connection, .done, round⟩
      | panic => rwa [run] at round

/-- What has been served is what the loop does. -/
theorem Served.run {connection final : Connection F H} {exchanged : List (Tframe × Rframe)}
    (served : Served host connection exchanged final) (sound : Sound root [] connection.system) :
    handleClient host exchanged.length connection = .ok () final := by
  induction served with
  | done => rfl
  | @next connection final request rest msg system exchanged read answered later ih =>
      obtain ⟨reply, next, result, isRun, kept, effect, isReply⟩ :=
        @respond_effect F H root host connection.system sound request.msg
      obtain ⟨rfl, rfl⟩ := Outcome.ok.inj (answered.symm.trans isRun)
      obtain ⟨left, decoded, _⟩ := Codec.limited_eq_ok.mp read
      have sendable := sendable_answer effect sound.sane kept.sane (Tframe.decode_uses decoded).1
      rw [← isReply] at sendable
      have written := @encodeFrame_fits _ _ _ request.tag _ rmessages_meet connection.output
        sendable.fits
      refine Exec.bind_eq_ok.mpr ⟨(), _, ?_, ih kept⟩
      refine Exec.bind_eq_ok.mpr ⟨connection, connection, rfl, ?_⟩
      refine Exec.bind_eq_ok.mpr ⟨request, _, Exec.focus_eq_ok.mpr ⟨rest, read, rfl⟩, ?_⟩
      refine Exec.bind_eq_ok.mpr ⟨msg, _, Exec.focus_eq_ok.mpr ⟨system, answered, rfl⟩, ?_⟩
      exact Exec.focus_eq_ok.mpr ⟨_, written, rfl⟩

/-! ## Requests that fit -/

/-- The size of messages after a request. -/
def agreed (msize : UInt32) : Tmessage → UInt32
  | .version fields =>
      if minMessageSize ≤ fields.msize then min maxMessageSize fields.msize else msize
  | _ => msize

theorem Effect.msize {before after : Server H} {msg : Tmessage} {result : Except Error Rmessage}
    (effect : Effect before msg result after) : after.msize = agreed before.msize msg := by
  cases effect with
  | plain isPlain => cases isPlain <;> rfl
  | version enough isText => exact (if_pos enough).symm
  | fails refusable =>
      cases msg with
      | version fields => exact (if_neg refusable).symm
      | _ => rfl
  | _ => rfl

/-- Requests that can be encoded, none of them longer than what has been agreed on before it. -/
def Fitting : UInt32 → List Tframe → Prop
  | _, [] => True
  | msize, request :: requests =>
      request.msg.body.Fits ∧ request.msg.body.Kept ∧
        frameSize Tmessage.body request.msg ≤ msize.toNat ∧
        Fitting (agreed msize request.msg) requests

def tframeBytes (request : Tframe) : List UInt8 :=
  frameBytes Tmessage.all Tmessage.body request.tag request.msg

theorem limited_decode {request : Tframe} {msize : UInt32} {rest : List UInt8}
    (fits : request.msg.body.Fits) (kept : request.msg.body.Kept)
    (within : frameSize Tmessage.body request.msg ≤ msize.toNat) :
    Codec.limited msize.toNat Tframe.decode (tframeBytes request ++ rest) = .ok request rest := by
  have length : (tframeBytes request).length = frameSize Tmessage.body request.msg :=
    length_frameBytes
  have small := msize.toNat_lt
  have decoded : Tframe.decode (tframeBytes request ++
      rest.take (msize.toNat - (tframeBytes request).length)) =
        .ok request (rest.take (msize.toNat - (tframeBytes request).length)) :=
    Tframe.decode_append fits kept (by omega)
  refine Codec.limited_eq_ok.mpr ⟨rest.take (msize.toNat - (tframeBytes request).length), ?_, ?_⟩
  · rw [List.take_append, List.take_of_length_le (by omega)]
    exact decoded
  · rw [List.drop_append, List.drop_of_length_le (by omega), List.nil_append, List.take_append_drop]

/-- Requests that fit are all read, whatever comes behind them. -/
theorem served_fitting {connection : Connection F H} {requests : List Tframe} {rest : List UInt8}
    (sound : Sound root [] connection.system)
    (fitting : Fitting connection.system.server.msize requests)
    (isInput : connection.input = requests.flatMap tframeBytes ++ rest) :
    ∃ exchanged final, Served host connection exchanged final ∧ exchanged.map Prod.fst = requests ∧
      final.input = rest := by
  induction requests generalizing connection with
  | nil => exact ⟨[], connection, .done, rfl, isInput⟩
  | cons request requests ih =>
      obtain ⟨fits, keeps, within, fitting⟩ := fitting
      obtain ⟨reply, next, result, answered, kept, effect, isReply⟩ :=
        @respond_effect F H root host connection.system sound request.msg
      rw [← effect.msize] at fitting
      obtain ⟨exchanged, final, served, same, isRest⟩ := @ih ⟨next,
        requests.flatMap tframeBytes ++ rest,
        connection.output ++ frameBytes Rmessage.all Rmessage.body request.tag reply⟩ kept fitting rfl
      have read : Codec.limited connection.system.server.msize.toNat Tframe.decode connection.input =
          .ok request (requests.flatMap tframeBytes ++ rest) := by
        rw [isInput, List.flatMap_cons, List.append_assoc]
        exact limited_decode fits keeps within
      exact ⟨_, final, .next read answered served, by rw [List.map_cons, same], isRest⟩

end IceCap.NineP
