import IceCap.NineP.Confinement

/-!
# What a request does to the server

`Effect` says it once for every kind of request and for both results: what the
table of fids and the size of messages are afterwards, and what is known of the
reply.  The other properties of whole runs are read off it.
-/

set_option autoImplicit false

namespace IceCap.NineP

open IceCap.Library

variable {F H α : Type} {root : Path} {before : Server H} {host : Host F H}

/-- Every entry has the number of bytes up to its end for its offset. -/
def Numbered : UInt64 → List Dirent → Prop
  | _, [] => True
  | offset, entry :: entries =>
      entry.offset = offset + (WireFormat.byteSize entry).toUInt64 ∧ Numbered entry.offset entries

/-- How many bytes of data a reply to `readdir` has room for. -/
def readdirRoom (msize count : UInt32) : Nat := min (msize.toNat - 11) count.toNat

/-- The data are the entries behind the offset that there is room for. -/
def Listed (msize : UInt32) (readdir : Treaddir) (entries : List Dirent) (data : List UInt8) : Prop :=
  Server.fill (readdirRoom msize readdir.count)
    (entries.dropWhile fun entry => entry.offset ≤ readdir.offset) [] = .ok () data

/-- Replies to requests that have nothing to do with the table of fids. -/
inductive Plain : Tmessage → Rmessage → Prop where
  | flush {fields : Tflush} : Plain (.flush fields) .flush
  | write {fields : Twrite} {reply : Rwrite} : Plain (.write fields) (.write reply)
  | statfs {fields : Tstatfs} {reply : Rstatfs} : Plain (.statfs fields) (.statfs reply)
  | setAttr {fields : Tsetattr} : Plain (.setAttr fields) .setAttr
  | fsync {fields : Tfsync} : Plain (.fsync fields) .fsync
  | link {fields : Tlink} : Plain (.link fields) .link
  | mkdir {fields : Tmkdir} {reply : Rmkdir} : Plain (.mkdir fields) (.mkdir reply)
  | renameAt {fields : Trenameat} : Plain (.renameAt fields) .renameAt
  | unlinkAt {fields : Tunlinkat} : Plain (.unlinkAt fields) .unlinkAt

/-- The path that the names lead to from another one. -/
def Leads (root path : Path) (names : List String) (final : Path) : Prop :=
  ∀ below, path = root ++ below → final = root ++ names.foldl follow below

/-- What may be refused without an effect: not a removal, and a size of messages only if it is too
small. -/
def Refusable : Tmessage → Prop
  | .remove _ => False
  | .version fields => ¬ minMessageSize ≤ fields.msize
  | _ => True

inductive Effect (before : Server H) : Tmessage → Except Error Rmessage → Server H → Prop where
  | plain {msg : Tmessage} {reply : Rmessage} (isPlain : Plain msg reply) :
      Effect before msg (.ok reply) before
  | version {fields : Tversion} {text : String} (enough : minMessageSize ≤ fields.msize)
      (isText : text = "9P2000.L" ∨ text = "unknown") :
      Effect before (.version fields) (.ok (.version ⟨min maxMessageSize fields.msize, text⟩))
        { before with fids := fun _ => none, msize := min maxMessageSize fields.msize }
  | attach {fields : Tattach} {metadata : Metadata} (isFree : before.fids fields.fid = none) :
      Effect before (.attach fields) (.ok (.attach ⟨metadataToQid metadata⟩))
        (before.insert fields.fid ⟨before.root, metadata, none, none⟩)
  | walk {fields : Twalk} {fid : Fid H} {path : Path} {metadata : Metadata} {wqids : List Qid}
      (isFid : before.fids fields.fid = some fid) (full : wqids.length = fields.wnames.length)
      (leads : Leads before.root fid.path fields.wnames path) :
      Effect before (.walk fields) (.ok (.walk ⟨wqids⟩))
        (before.insert fields.newfid ⟨path, metadata, none, none⟩)
  | walkPart {fields : Twalk} {wqids : List Qid} (part : wqids.length < fields.wnames.length) :
      Effect before (.walk fields) (.ok (.walk ⟨wqids⟩)) before
  | read {fields : Tread} {data : List UInt8} (fits : data.length + 11 ≤ before.msize.toNat) :
      Effect before (.read fields) (.ok (.read ⟨⟨data⟩⟩)) before
  | clunk {fields : Tclunk} {fid : Fid H} (isFid : before.fids fields.fid = some fid) :
      Effect before (.clunk fields) (.ok .clunk) (before.erase fields.fid)
  | remove {fields : Tremove} {fid : Fid H} (isFid : before.fids fields.fid = some fid) :
      Effect before (.remove fields) (.ok .remove) (before.erase fields.fid)
  | lopen {fields : Tlopen} {fid : Fid H} {metadata : Metadata} {file : H} {reply : Rlopen}
      (isFid : before.fids fields.fid = some fid) :
      Effect before (.lopen fields) (.ok (.lopen reply))
        (before.insert fields.fid { fid with metadata := metadata, file := some file })
  | lcreate {fields : Tlcreate} {fid : Fid H} {metadata : Metadata} {file : H} {path : Path}
      {reply : Rlcreate} (isFid : before.fids fields.fid = some fid)
      (leads : Leads before.root fid.path [fields.name] path) :
      Effect before (.lcreate fields) (.ok (.lcreate reply))
        (before.insert fields.fid { fid with metadata := metadata, file := some file, path := path })
  | rename {fields : Trename} {fid dfid : Fid H} {path : Path}
      (isFid : before.fids fields.fid = some fid) (isDir : before.fids fields.dfid = some dfid)
      (leads : Leads before.root dfid.path [fields.name] path) :
      Effect before (.rename fields) (.ok .rename) (before.insert fields.fid { fid with path := path })
  | getAttr {fields : Tgetattr} {fid : Fid H} {metadata : Metadata} {reply : Rgetattr}
      (isFid : before.fids fields.fid = some fid) :
      Effect before (.getAttr fields) (.ok (.getAttr reply))
        (before.insert fields.fid { fid with metadata := metadata })
  | readdir {fields : Treaddir} {fid : Fid H} {entries : List Dirent} {data : List UInt8}
      (isFid : before.fids fields.fid = some fid) (isStart : fields.offset = 0)
      (numbered : Numbered 0 entries) (listed : Listed before.msize fields entries data) :
      Effect before (.readdir fields) (.ok (.readdir ⟨⟨data⟩⟩))
        (before.insert fields.fid { fid with dirents := some entries })
  | readdirMore {fields : Treaddir} {fid : Fid H} {entries : List Dirent} {data : List UInt8}
      (isFid : before.fids fields.fid = some fid) (isLater : fields.offset ≠ 0)
      (isRead : fid.dirents = some entries) (listed : Listed before.msize fields entries data) :
      Effect before (.readdir fields) (.ok (.readdir ⟨⟨data⟩⟩)) before
  | readdirFails {fields : Treaddir} {fid : Fid H} {entries : List Dirent} {error : Error}
      (isFid : before.fids fields.fid = some fid) (isStart : fields.offset = 0)
      (numbered : Numbered 0 entries) :
      Effect before (.readdir fields) (.error error)
        (before.insert fields.fid { fid with dirents := some entries })
  | removeFails {fields : Tremove} {error : Error} :
      Effect before (.remove fields) (.error error) (before.erase fields.fid)
  | fails {msg : Tmessage} {error : Error} (refusable : Refusable msg) :
      Effect before msg (.error error) before

def At (server : Server H) (state : System F H) : Prop := state.server = server

/-- The request has its effect, whether it is answered or refused. -/
def Does (before : Server H) (msg : Tmessage) (call : Exec Error (System F H) Rmessage) : Prop :=
  Exec.Triple (At before) call (fun reply state => Effect before msg (.ok reply) state.server)
    fun error state => Effect before msg (.error error) state.server

/-! ## Parts of handlers -/

section Parts
variable {pre : System F H → Prop}

theorem perform_at {server : Server H} {operation : Operation H α} :
    Exec.Triple (At server) (perform host operation) (fun _ => At server) fun _ => At server := by
  intro state same
  unfold perform
  split <;> exact same

theorem readAt_at {server : Server H} {file : H} {capacity : Nat} {offset : UInt64} :
    Exec.Triple (At server) (perform host (.readAt file capacity offset))
      (fun data state => data.length ≤ capacity ∧ At server state) fun _ => At server := by
  intro state same
  unfold perform
  split
  · next data fs run => exact ⟨host.readAt_le run, same⟩
  · exact same

theorem getFid_tells {server : Server H} {fid : UInt32} {errno : Int} :
    Exec.Triple (At server) (getFid fid errno)
      (fun (found : Fid H) (state : System F H) => server.fids fid = some found ∧ At server state)
      fun _ state => server.fids fid = none ∧ At server state := by
  refine .reading fun state same => ?_
  rw [show state.server = server from same]
  exact .okOr fun _ isAt isNone => ⟨isNone, isAt⟩

theorem getFid_at {server : Server H} {fid : UInt32} {errno : Int} :
    Exec.Triple (At server) (getFid fid errno)
      (fun (found : Fid H) (state : System F H) => server.fids fid = some found ∧ At server state)
      fun _ => At server :=
  .mono getFid_tells (fun _ isAt => isAt) (fun _ _ holds => holds) fun _ _ holds => holds.2

theorem getFile_at {server : Server H} {fid : UInt32} :
    Exec.Triple (At server) (getFile fid : Exec Error (System F H) H) (fun _ => At server)
      fun _ => At server :=
  .reading fun _ _ => .weaken (.okOr fun _ holds _ => holds) fun _ _ holds => holds.2

theorem setServer_at {server : Server H} {update : Server H → Server H}
    {failed : Error → System F H → Prop} :
    Exec.Triple (At server) (setServer update)
      (fun (_ : Unit) (state : System F H) => At (update server) state) failed :=
  .modify fun _ same => congrArg update same

theorem Leads.of_inside {path final : Path} {name : String} {below : Path}
    (isPath : path = root ++ below) (joined : final = root ++ follow below name) :
    Leads root path [name] final := by
  intro other same
  obtain rfl := List.append_cancel_left (isPath.symm.trans same)
  exact joined

theorem joinName_at (sane : before.Sane root) {path : Path} {name : String}
    (inside : Inside root path) :
    Exec.Triple (At before) (joinName path name)
      (fun (joined : Path) (state : System F H) =>
        (Leads root path [name] joined ∧ Inside root joined) ∧ At before state)
      fun _ => At before := by
  refine .reading fun state same => ?_
  obtain ⟨names, rfl, _⟩ := id inside
  rw [show state.server = before from same, sane.isRoot]
  exact .weaken (joinPath_inside inside) fun _ _ holds =>
    ⟨⟨.of_inside rfl holds.1.1, holds.1.2⟩, holds.2⟩

theorem toNat_min (first second : UInt32) : (min first second).toNat = min first.toNat second.toNat := by
  change (if first ≤ second then first else second).toNat = min first.toNat second.toNat
  split
  · next isLess => rw [Nat.min_eq_left (UInt32.le_iff_toNat_le.mp isLess)]
  · next isMore =>
      have less := UInt32.lt_iff_toNat_lt.mp (UInt32.not_le.mp isMore)
      rw [Nat.min_eq_right (Nat.le_of_lt less)]

theorem room_at {server : Server H} {empty : Rmessage} {count : UInt32}
    (isSmall : WireFormat.byteSize (⟨0, empty⟩ : Rframe) = 11) (sane : server.Sane root) :
    Exec.Triple (At server) (Server.room empty count : Exec Error (System F H) UInt32)
      (fun capacity state => capacity.toNat = readdirRoom server.msize count ∧ At server state)
      fun _ => At server := by
  refine .reading fun state same => ?_
  have enough : (11 : UInt32) ≤ server.msize := UInt32.le_trans (by decide) sane.msize_ge
  rw [show state.server = server from same]
  dsimp only
  rw [isSmall]
  refine .bind (.assert fun _ _ => enough) fun _ => .of_fact fun _ => .pure fun _ isAt => ⟨?_, isAt⟩
  rw [toNat_min, UInt32.toNat_sub_of_le _ _ enough]
  rfl

end Parts

/-! ## Handlers -/

namespace Server

theorem reply_does {msg : Tmessage} {make : α → Rmessage} {call : Exec Error (System F H) α}
    (triple : Exec.Triple (At before) call
      (fun value state => Effect before msg (.ok (make value)) state.server)
      fun error state => Effect before msg (.error error) state.server) :
    Does before msg (reply make call) := triple.bind fun _ => .pure fun _ effect => effect

/-- Requests of which a refusal leaves the server as it is, and an answer as the effect says. -/
theorem reply_clean {msg : Tmessage} {make : α → Rmessage} {call : Exec Error (System F H) α}
    (refusable : Refusable msg)
    (triple : Exec.Triple (At before) call
      (fun value state => Effect before msg (.ok (make value)) state.server) fun _ => At before) :
    Does before msg (reply make call) :=
  reply_does (.mono triple (fun _ isAt => isAt) (fun _ _ effect => effect) fun error state isAt => by
    rw [show state.server = before from isAt]
    exact .fails refusable)

theorem reply_plain {msg : Tmessage} {make : α → Rmessage} {call : Exec Error (System F H) α}
    (isPlain : ∀ value, Plain msg (make value)) (refusable : Refusable msg)
    (triple : Exec.Triple (At before) call (fun _ => At before) fun _ => At before) :
    Does before msg (reply make call) :=
  reply_clean refusable (.weaken triple fun value state isAt => by
    rw [show state.server = before from isAt]
    exact .plain (isPlain value))

theorem attach_at {fields : Tattach} :
    Exec.Triple (At before) (attach host fields : Exec Error (System F H) Rattach)
      (fun value state => Effect before (.attach fields) (.ok (.attach value)) state.server)
      fun _ => At before := by
  refine .reading fun state same => ?_
  rw [show state.server = before from same]
  refine .bind (.ensure fun _ isAt _ => isAt) fun _ => .of_fact fun isFree => ?_
  refine .bind perform_at fun metadata => .bind setServer_at fun _ => .pure fun final isAt => ?_
  rw [show final.server = _ from isAt]
  exact .attach isFree

theorem version_does {fields : Tversion} :
    Exec.Triple (At before) (version fields : Exec Error (System F H) Rversion)
      (fun value state => Effect before (.version fields) (.ok (.version value)) state.server)
      fun error state => Effect before (.version fields) (.error error) state.server := by
  refine .bind (.ensure fun state isAt few => ?_) fun _ => .of_fact fun enough => ?_
  · rw [show state.server = before from isAt]
    exact .fails few
  refine .bind setServer_at fun _ => .pure fun final isAt => ?_
  rw [show final.server = _ from isAt]
  refine .version enough ?_
  split
  · exact .inl rfl
  · exact .inr rfl

theorem doWalk_at (sane : before.Sane root) {wnames : List String} {buf : Path}
    {mds : List Metadata} (inside : Inside root buf) :
    Exec.Triple (At before) (doWalk host wnames buf mds)
      (fun (found : Except Error Path × List Metadata) (state : System F H) =>
        ((∃ path, found.1 = .ok path ∧ found.2.length = mds.length + wnames.length ∧
            Leads root buf wnames path) ∨
          ∃ error, found.1 = .error error ∧ found.2.length < mds.length + wnames.length) ∧
          At before state)
      fun _ => At before := by
  induction wnames generalizing buf mds with
  | nil =>
      refine .pure fun _ isAt => ⟨.inl ⟨buf, rfl, rfl, fun below same => ?_⟩, isAt⟩
      exact same
  | cons wname wnames ih =>
      have step : Exec.Triple (At before) (do
          let buf ← joinName buf wname
          let md ← perform host (.metadata buf)
          pure (buf, md))
          (fun (found : Path × Metadata) (state : System F H) =>
            (Leads root buf [wname] found.1 ∧ Inside root found.1) ∧ At before state)
          fun _ => At before :=
        .bind (joinName_at sane inside) fun joined => .of_fact fun isNext => .bind perform_at fun md =>
          .pure fun _ isAt => ⟨isNext, isAt⟩
      refine .bind step.attempt fun next => ?_
      cases next with
      | error error =>
          refine .pure fun _ isAt => ⟨.inr ⟨error, rfl, ?_⟩, isAt⟩
          change mds.length < mds.length + (wnames.length + 1)
          omega
      | ok found =>
          refine .of_fact fun isNext => .weaken (ih isNext.2) fun result state holds => ⟨?_, holds.2⟩
          rcases holds.1 with ⟨path, isPath, length, leads⟩ | ⟨error, isError, less⟩
          · refine .inl ⟨path, isPath, ?_, fun below same => leads _ (isNext.1 below same)⟩
            simp at length ⊢
            omega
          · refine .inr ⟨error, isError, ?_⟩
            simp at less ⊢
            omega

theorem walk_at (sane : before.Sane root) {fields : Twalk} :
    Exec.Triple (At before) (walk host fields : Exec Error (System F H) Rwalk)
      (fun value state => Effect before (.walk fields) (.ok (.walk value)) state.server)
      fun _ => At before := by
  refine .reading fun state _ => .bind (.ensure fun _ isAt _ => isAt) fun _ => .of_fact fun _ => ?_
  refine .bind getFid_at fun fid => .of_fact fun isFid => ?_
  refine .bind (doWalk_at sane (sane.paths _ _ isFid)) fun found => .of_fact fun isFound => ?_
  obtain ⟨buf, mds⟩ := found
  rcases isFound with ⟨path, isPath, length, leads⟩ | ⟨error, isError, less⟩
  · obtain rfl := isPath
    have full : mds.length = fields.wnames.length := by simpa using length
    refine .bind (.when (fun _ => setServer_at) fun _ isPart _ => absurd full isPart) fun _ => ?_
    refine .pure fun final isAt => ?_
    rw [show final.server = _ from isAt]
    exact .walk isFid (by simpa using full) (sane.isRoot ▸ leads)
  · obtain rfl := isError
    refine .bind (.ensure fun _ isAt _ => isAt) fun _ => .of_fact fun _ => .pure fun final isAt => ?_
    rw [show final.server = _ from isAt]
    exact .walkPart (by simpa using less)

theorem read_at (sane : before.Sane root) {fields : Tread} :
    Exec.Triple (At before) (read host fields : Exec Error (System F H) Rread)
      (fun value state => Effect before (.read fields) (.ok (.read value)) state.server)
      fun _ => At before := by
  refine .bind getFile_at fun file => .bind (room_at (by decide) sane) fun capacity =>
    .of_fact fun isCapacity => ?_
  refine .bind readAt_at fun data => .of_fact fun within => .pure fun final isAt => ?_
  rw [show final.server = _ from isAt]
  have enough := UInt32.le_iff_toNat_le.mp sane.msize_ge
  have isMin : minMessageSize.toNat = 256 := rfl
  refine .read ?_
  unfold readdirRoom at isCapacity
  omega

theorem clunk_at {fields : Tclunk} :
    Exec.Triple (At before) (clunk fields : Exec Error (System F H) Unit)
      (fun _ state => Effect before (.clunk fields) (.ok .clunk) state.server) fun _ => At before := by
  refine .bind getFid_at fun fid => .of_fact fun isFid => .weaken setServer_at fun _ final isAt => ?_
  rw [show final.server = _ from isAt]
  exact .clunk isFid

theorem remove_does {fields : Tremove} :
    Exec.Triple (At before) (remove host fields : Exec Error (System F H) Unit)
      (fun _ state => Effect before (.remove fields) (.ok .remove) state.server)
      fun error state => Effect before (.remove fields) (.error error) state.server := by
  refine .bind (.mono getFid_tells (fun _ isAt => isAt) (fun _ _ holds => holds)
    fun error final holds => ?_) fun fid => .of_fact fun isFid => .bind setServer_at fun _ => ?_
  · have erased : before.erase fields.fid = before := by
      rw [erase, ← holds.1, Function.update_eq_self]
    have effect : Effect before (.remove fields) (.error error) (before.erase fields.fid) :=
      .removeFails
    rw [erased] at effect
    rwa [show final.server = before from holds.2]
  · refine .mono perform_at (fun _ isAt => isAt) (fun _ final isAt => ?_) fun error final isAt => ?_
    · rw [show final.server = _ from isAt]
      exact .remove isFid
    · rw [show final.server = _ from isAt]
      exact .removeFails

theorem lopen_at {fields : Tlopen} :
    Exec.Triple (At before) (lopen host fields : Exec Error (System F H) Rlopen)
      (fun value state => Effect before (.lopen fields) (.ok (.lopen value)) state.server)
      fun _ => At before := by
  refine .bind getFid_at fun fid => .of_fact fun isFid => .bind perform_at fun file => ?_
  refine .bind perform_at fun metadata => .bind setServer_at fun _ => .pure fun final isAt => ?_
  rw [show final.server = _ from isAt]
  exact .lopen isFid

theorem lcreate_at (sane : before.Sane root) {fields : Tlcreate} :
    Exec.Triple (At before) (lcreate host fields : Exec Error (System F H) Rlcreate)
      (fun value state => Effect before (.lcreate fields) (.ok (.lcreate value)) state.server)
      fun _ => At before := by
  refine .bind getFid_at fun fid => .of_fact fun isFid => ?_
  refine .bind (.ensure fun _ isAt _ => isAt) fun _ => .of_fact fun _ => ?_
  refine .bind (joinName_at sane (sane.paths _ _ isFid)) fun path => .of_fact fun isNext => ?_
  refine .bind perform_at fun file => .bind perform_at fun metadata => ?_
  refine .bind setServer_at fun _ => .pure fun final isAt => ?_
  rw [show final.server = _ from isAt]
  exact .lcreate isFid (sane.isRoot ▸ isNext.1)

theorem rename_at (sane : before.Sane root) {fields : Trename} :
    Exec.Triple (At before) (rename host fields : Exec Error (System F H) Unit)
      (fun _ state => Effect before (.rename fields) (.ok .rename) state.server)
      fun _ => At before := by
  refine .bind getFid_at fun dfid => .of_fact fun isDir => ?_
  refine .bind (joinName_at sane (sane.paths _ _ isDir)) fun newpath => .of_fact fun isNext => ?_
  refine .bind getFid_at fun fid => .of_fact fun isFid => .bind perform_at fun _ => ?_
  refine .weaken setServer_at fun _ final isAt => ?_
  rw [show final.server = _ from isAt]
  exact .rename isFid isDir (sane.isRoot ▸ isNext.1)

theorem getAttr_at {fields : Tgetattr} :
    Exec.Triple (At before) (getAttr host fields : Exec Error (System F H) Rgetattr)
      (fun value state => Effect before (.getAttr fields) (.ok (.getAttr value)) state.server)
      fun _ => At before := by
  refine .bind getFid_at fun fid => .of_fact fun isFid => .bind perform_at fun metadata => ?_
  refine .bind setServer_at fun _ => .pure fun final isAt => ?_
  rw [show final.server = _ from isAt]
  exact .getAttr isFid

theorem dirent_at {path : Path} {offset : UInt64} {item : Except Error (List UInt8)} :
    Exec.Triple (At before) (dirent host path offset item)
      (fun (entry : Dirent) (state : System F H) =>
        entry.offset = offset + (WireFormat.byteSize entry).toUInt64 ∧ At before state)
      fun _ => At before := by
  refine .through (fun _ => At before) ?_ fun name => .bind perform_at fun md => ?_
  · cases item with
    | ok name => exact .pure fun _ isAt => isAt
    | error error => exact .fail fun _ isAt => isAt
  · exact .bind (.okOr fun _ isAt _ => isAt) fun name => .pure fun _ holds => ⟨rfl, holds.2⟩

theorem dirents_at {path : Path} {offset : UInt64} {items : List (Except Error (List UInt8))} :
    Exec.Triple (At before) (dirents host path offset items)
      (fun (entries : List Dirent) (state : System F H) => Numbered offset entries ∧ At before state)
      fun _ => At before := by
  induction items generalizing offset with
  | nil => exact .pure fun _ isAt => ⟨trivial, isAt⟩
  | cons item items ih =>
      refine .bind dirent_at fun entry => .of_fact fun isOffset => .bind ih fun entries => ?_
      exact .of_fact fun numbered => .pure fun _ isAt => ⟨⟨isOffset, numbered⟩, isAt⟩

theorem fill_listed {capacity : Nat} {entries : List Dirent} {pre : System F H → Prop} :
    Exec.Triple pre (Exec.on [] (do fill capacity entries; Exec.get))
      (fun data state => fill capacity entries [] = .ok () data ∧ pre state) fun _ => pre := by
  intro state holds
  have returns := @fill_returns capacity entries [] trivial
  unfold Exec.on
  rw [Exec.bind_apply]
  cases run : fill capacity entries [] with
  | ok value data => exact ⟨rfl, holds⟩
  | err error data => exact holds
  | panic => rwa [run] at returns

/-- What there is in memory is served. -/
theorem serve_at {server : Server H} (sane : server.Sane root) {fields : Treaddir} {fid : Fid H}
    (isFid : server.fids fields.fid = some fid) :
    Exec.Triple (At server) (do
        let fid ← getFid fields.fid ebadf
        let entries ← Exec.okOr fid.dirents (.os ebadf)
        let count ← room (.readdir ⟨⟨[]⟩⟩) fields.count
        let data ← Exec.on [] do
          fill count.toNat (entries.dropWhile fun entry => entry.offset ≤ fields.offset)
          Exec.get
        pure (⟨⟨data⟩⟩ : Rreaddir))
      (fun (reply : Rreaddir) (state : System F H) => (∃ entries, fid.dirents = some entries ∧
        Listed server.msize fields entries reply.data.bytes) ∧ At server state)
      fun _ => At server := by
  refine .bind getFid_at fun found => .of_fact fun isFound => ?_
  obtain rfl := Option.some.inj (isFid.symm.trans isFound)
  refine .bind (.okOr fun _ isAt _ => isAt) fun entries => .of_fact fun isRead => ?_
  refine .bind (room_at (by decide) sane) fun count => .of_fact fun isRoom => ?_
  refine .bind fill_listed fun data => .of_fact fun filled => .pure fun _ isAt => ⟨?_, isAt⟩
  exact ⟨entries, isRead, by rwa [Listed, ← isRoom]⟩

theorem readdir_does (sane : before.Sane root) {fields : Treaddir} :
    Exec.Triple (At before) (readdir host fields : Exec Error (System F H) Rreaddir)
      (fun value state => Effect before (.readdir fields) (.ok (.readdir value)) state.server)
      fun error state => Effect before (.readdir fields) (.error error) state.server := by
  have fails : ∀ (error : Error) (state : System F H), At before state →
      Effect before (.readdir fields) (.error error) state.server := by
    intro error state isAt
    rw [show state.server = before from isAt]
    exact .fails trivial
  refine .bind (.mono getFid_at (fun _ isAt => isAt) (fun _ _ holds => holds) fails) fun fid =>
    .of_fact fun isFid => ?_
  refine .bind (.ensure fun state isAt _ => fails _ state isAt) fun _ => .of_fact fun _ => ?_
  by_cases isStart : fields.offset = 0
  · refine .through (fun _ state => ∃ entries, Numbered 0 entries ∧
      At (before.insert fields.fid { fid with dirents := some entries }) state)
      (.when (fun _ => ?_) fun _ isLater _ => absurd isStart isLater) fun _ => ?_
    · refine .bind (.mono perform_at (fun _ isAt => isAt) (fun _ _ isAt => isAt) fails) fun items => ?_
      refine .bind (.mono dirents_at (fun _ isAt => isAt) (fun _ _ holds => holds) fails) fun entries =>
        .of_fact fun numbered => ?_
      exact .weaken setServer_at fun _ _ isAt => ⟨entries, numbered, isAt⟩
    · refine .of_exists fun entries => .of_fact fun numbered => ?_
      have isRead : (before.insert fields.fid { fid with dirents := some entries }).fids fields.fid =
          some { fid with dirents := some entries } := Function.update_self ..
      have kept : (before.insert fields.fid { fid with dirents := some entries }).Sane root :=
        sane.insert (sane.paths fields.fid fid isFid)
      refine .mono (serve_at kept isRead) (fun _ isAt => isAt) ?_ ?_
      · intro reply state ⟨⟨found, isFound, listed⟩, isAt⟩
        obtain rfl := Option.some.inj isFound
        rw [show state.server = _ from isAt]
        exact .readdir isFid isStart numbered listed
      · intro error state isAt
        rw [show state.server = _ from isAt]
        exact .readdirFails isFid isStart numbered
  · refine .through (fun _ => At before)
      (.when (fun isNow => absurd isNow isStart) fun _ _ isAt => isAt) fun _ => ?_
    refine .mono (serve_at sane isFid) (fun _ isAt => isAt) ?_ fails
    intro reply state ⟨⟨entries, isRead, listed⟩, isAt⟩
    rw [show state.server = before from isAt]
    exact .readdirMore isFid isStart isRead listed

/-! ## Requests that leave the server as it is -/

theorem setAttr_at {fields : Tsetattr} :
    Exec.Triple (At before) (setAttr host fields : Exec Error (System F H) Unit)
      (fun _ => At before) fun _ => At before := by
  refine .bind (.ensure fun _ isAt _ => isAt) fun _ => .of_fact fun _ => ?_
  refine .bind getFid_at fun fid => .of_fact fun _ => .bind perform_at fun file => ?_
  have onFile : ∀ {operation : Operation H Unit} {condition : Prop} [Decidable condition],
      Exec.Triple (At before) (Exec.when condition (perform host operation)) (fun _ => At before)
        fun _ => At before := .when (fun _ => perform_at) fun _ _ isAt => isAt
  exact .bind onFile fun _ => .bind onFile fun _ => onFile

theorem handle_does (sane : before.Sane root) (msg : Tmessage) :
    Does before msg (handle host msg : Exec Error (System F H) Rmessage) := by
  cases msg with
  | version fields => exact reply_does version_does
  | flush fields =>
      exact reply_plain (fun _ => .flush) trivial (.pure fun _ isAt => isAt)
  | walk fields => exact reply_clean trivial (walk_at sane)
  | read fields => exact reply_clean trivial (read_at sane)
  | write fields =>
      exact reply_plain (fun _ => .write) trivial
        (.bind getFile_at fun _ => .bind perform_at fun _ => .pure fun _ isAt => isAt)
  | clunk fields => exact reply_clean trivial clunk_at
  | remove fields => exact reply_does remove_does
  | attach fields => exact reply_clean trivial attach_at
  | auth fields => exact reply_clean trivial (.fail fun _ isAt => isAt)
  | statfs fields =>
      exact reply_plain (fun _ => .statfs) trivial
        (.bind getFid_at fun _ => .of_fact fun _ => .bind (.ensure fun _ isAt _ => isAt) fun _ =>
          .of_fact fun _ => .bind perform_at fun _ => .pure fun _ isAt => isAt)
  | lopen fields => exact reply_clean trivial lopen_at
  | lcreate fields => exact reply_clean trivial (lcreate_at sane)
  | symlink fields => exact reply_clean trivial (.fail fun _ isAt => isAt)
  | mknod fields => exact reply_clean trivial (.fail fun _ isAt => isAt)
  | rename fields => exact reply_clean trivial (rename_at sane)
  | readlink fields => exact reply_clean trivial (.fail fun _ isAt => isAt)
  | getAttr fields => exact reply_clean trivial getAttr_at
  | setAttr fields => exact reply_plain (fun _ => .setAttr) trivial setAttr_at
  | xattrWalk fields => exact reply_clean trivial (.fail fun _ isAt => isAt)
  | xattrCreate fields => exact reply_clean trivial (.fail fun _ isAt => isAt)
  | readdir fields => exact reply_does (readdir_does sane)
  | fsync fields =>
      exact reply_plain (fun _ => .fsync) trivial
        (.bind getFile_at fun _ => perform_at)
  | lock fields => exact reply_clean trivial (.fail fun _ isAt => isAt)
  | getLock fields => exact reply_clean trivial (.fail fun _ isAt => isAt)
  | link fields =>
      exact reply_plain (fun _ => .link) trivial
        (.bind getFid_at fun dfid => .of_fact fun isDir =>
          .bind (joinName_at sane (sane.paths _ _ isDir)) fun _ => .of_fact fun _ =>
          .bind getFid_at fun _ => .of_fact fun _ => perform_at)
  | mkdir fields =>
      exact reply_plain (fun _ => .mkdir) trivial
        (.bind getFid_at fun fid => .of_fact fun isFid =>
          .bind (joinName_at sane (sane.paths _ _ isFid)) fun _ => .of_fact fun _ =>
          .bind perform_at fun _ => .bind perform_at fun _ => .pure fun _ isAt => isAt)
  | renameAt fields =>
      exact reply_plain (fun _ => .renameAt) trivial
        (.bind getFid_at fun _ => .of_fact fun isOld =>
          .bind (joinName_at sane (sane.paths _ _ isOld)) fun _ => .of_fact fun _ =>
          .bind getFid_at fun _ => .of_fact fun isNew =>
          .bind (joinName_at sane (sane.paths _ _ isNew)) fun _ => .of_fact fun _ => perform_at)
  | unlinkAt fields =>
      exact reply_plain (fun _ => .unlinkAt) trivial
        (.bind getFid_at fun _ => .of_fact fun isFid =>
          .bind (joinName_at sane (sane.paths _ _ isFid)) fun _ => .of_fact fun _ =>
          .bind perform_at fun _ => .bind (.ensure fun _ isAt _ => isAt) fun _ =>
          .of_fact fun _ => perform_at)

end Server

end IceCap.NineP
